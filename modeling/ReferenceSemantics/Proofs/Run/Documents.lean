import ReferenceSemantics.Proofs.NameMap
import ReferenceSemantics.Proofs.Value.Written
import ReferenceSemantics.Run.Verdict

set_option autoImplicit false

/-!
What a run shows is read back from what is written of it.

The names of a map are read in any order, but a map is written in the order of its names and read
back as it is.
-/

namespace ReferenceSemantics

open Decoder Record

namespace Decoder

variable {α : Type} {decoder : Decoder α} {json : Json} {value : α}

/-- The value is read from the document, written on one line or over several. -/
structure ReadsBack (decoder : Decoder α) (json : Json) (value : α) : Prop where
  compact : decoder.readText json.compact = .ok value
  pretty : decoder.readText json.pretty = .ok value

theorem Reads.readsBack (reads : decoder.Reads json value) (height : json.height ≤ maxDepth) :
    decoder.ReadsBack json value :=
  ⟨reads.readText (Json.spells_compact reads.exact) height,
    reads.readText (Json.spells_pretty reads.exact) height⟩

/-- Values that are read back and written alike are the same. -/
theorem ReadsBack.eq_of_pretty {other : α} {json' : Json} (back : decoder.ReadsBack json value)
    (alsoBack : decoder.ReadsBack json' other) (same : json.pretty = json'.pretty) :
    value = other := by
  have read := back.pretty
  rw [same, alsoBack.pretty] at read
  exact (Except.ok.inj read).symm

end Decoder

/-! ### Parts of events and verdicts -/

theorem Location.reads {location : Location} (small : location.statement < wordEnd) :
    decoder.Reads location.toJson location := by
  have fields := ((reads_required "function" (reads_text location.function)).map mk).and
    (reads_required "statement" (reads_word small)) rfl rfl
  exact fields.decoder

theorem CallState.reads (state : CallState) : decoder.Reads (.str state.name) state := by
  refine reads_choice ?_
  cases state <;> rfl

theorem Placement.reads (placement : Placement) :
    decoder.Reads (.str placement.name) placement := by
  refine reads_choice ?_
  cases placement <;> rfl

theorem FaultKind.reads (kind : FaultKind) : decoder.Reads (.str kind.name) kind := by
  refine reads_choice ?_
  cases kind <;> rfl

theorem Panic.reads {panic : Panic} (small : panic.location.statement < wordEnd) :
    decoder.Reads panic.toJson panic := by
  have fields := ((reads_required "kind" (FaultKind.reads panic.kind)).map mk).and
    (reads_required "location" (Location.reads small)) rfl rfl
  exact fields.decoder

theorem NameMap.reads {α : Type} {value : Decoder α} {encode : α → Json} {map : NameMap α}
    (reads : ∀ entry ∈ map.entries, value.Reads (encode entry.2) entry.2) :
    (decoder value).Reads (map.toJson encode) map := by
  have entries := (reads_entries reads).map ofList
  rwa [ofList_entries] at entries

/-! ### Events -/

namespace TraceEvent

/-- The counts and addresses of the event have 64 bits. -/
def Sized : TraceEvent → Prop
  | statement location | fault _ location => location.statement < wordEnd
  | call _ _ depth => depth < wordEnd
  | alloc _ address _ => address < wordEnd
  | sweep unreachable => unreachable < wordEnd

theorem reads {event : TraceEvent} (sized : event.Sized) : decoder.Reads event.toJson event := by
  cases event with
  | statement location =>
      exact ((reads_required "location" (Location.reads sized)).map statement).tagged rfl rfl
  | call function state depth =>
      have fields := ((reads_required "function" (reads_text function)).map call).and
        (reads_required "state" (CallState.reads state)) rfl rfl
      exact (fields.and (reads_required "depth" (reads_word sized)) rfl rfl).tagged rfl rfl
  | alloc site address placement =>
      have sites : ∀ s ∈ site, text.Reads (.str s) s := fun s _ => reads_text s
      have fields := ((reads_nullable "site" sites nofun).map alloc).and
        (reads_required "address" (reads_word sized)) rfl rfl
      exact (fields.and (reads_required "placement" (Placement.reads placement)) rfl rfl).tagged
        rfl rfl
  | fault kind location =>
      have fields := ((reads_required "kind" (FaultKind.reads kind)).map fault).and
        (reads_required "location" (Location.reads sized)) rfl rfl
      exact fields.tagged rfl rfl
  | sweep unreachable =>
      exact ((reads_required "unreachable" (reads_word sized)).map sweep).tagged rfl rfl

theorem height_le (event : TraceEvent) : event.toJson.height ≤ maxDepth := by
  cases event with
  | alloc site _ _ => cases site <;> exact Nat.le_of_ble_eq_true rfl
  | _ => exact Nat.le_of_ble_eq_true rfl

end TraceEvent

/-! ### Verdicts -/

namespace Verdict

/-- A document keeps the verdict: there is no double in its values, their numbers and the positions
of its panics have 64 bits, and no more containers are open at once than may be. -/
structure Fits (verdict : Verdict) : Prop where
  height : verdict.toJson.height ≤ maxDepth
  sized : ∀ entry ∈ verdict.finalValues.entries, entry.2.Sized
  floatFree : ∀ entry ∈ verdict.finalValues.entries, entry.2.FloatFree
  panics : ∀ panic ∈ verdict.panics, panic.location.statement < wordEnd

variable {verdict : Verdict}

theorem height_value {entry : String × Value} (member : entry ∈ verdict.finalValues.entries) :
    entry.2.toJson.height ≤ verdict.toJson.height := by
  have listed := List.mem_map_of_mem (f := fun entry => (entry.1, entry.2.toJson)) member
  have below := Json.height_le_heightFields listed
  dsimp only at below
  simp only [toJson, NameMap.toJson, Json.height, Json.heightFields]
  omega

theorem reads (fits : verdict.Fits) : decoder.Reads verdict.toJson verdict := by
  have values : (NameMap.decoder Value.decoder).Reads
      (verdict.finalValues.toJson Value.toJson) verdict.finalValues :=
    NameMap.reads fun entry member => Value.reads
      ⟨Nat.le_trans (height_value member) fits.height, fits.sized entry member,
        fits.floatFree entry member⟩
  have panics := reads_list fun panic member => Panic.reads (fits.panics panic member)
  have placements : (NameMap.decoder Placement.decoder).Reads
      (verdict.placements.toJson (.str ·.name)) verdict.placements :=
    NameMap.reads fun entry _ => Placement.reads entry.2
  have fields := ((reads_required "finalValues" values).map mk).and
    (reads_required "panics" panics) rfl rfl
  exact (fields.and (reads_required "placements" placements) rfl rfl).decoder

/-- What is written of a value, of an event of the trace or of a verdict is read as it was, on one
line and over several, as long as its numbers have 64 bits, there is no double in it, and no more
containers are open at once than may be. So the texts of two different verdicts are different. -/
theorem documents_readBack :
    (∀ value : Value, value.Fits maxDepth → Value.decoder.ReadsBack value.toJson value) ∧
    (∀ event : TraceEvent, event.Sized → TraceEvent.decoder.ReadsBack event.toJson event) ∧
    (∀ verdict : Verdict, verdict.Fits →
      decoder.ReadsBack verdict.toJson verdict ∧ ofText verdict.text = .ok verdict) ∧
    ∀ first second : Verdict, first.Fits → second.Fits → first.text = second.text →
      first = second := by
  have verdicts {verdict : Verdict} (fits : verdict.Fits) :
      decoder.ReadsBack verdict.toJson verdict :=
    (reads fits).readsBack fits.height
  refine ⟨fun value fits => (Value.reads fits).readsBack fits.height,
    fun event sized => (TraceEvent.reads sized).readsBack event.height_le,
    fun verdict fits => ⟨verdicts fits, (verdicts fits).pretty⟩, ?_⟩
  intro first second fits alsoFits same
  exact (verdicts fits).eq_of_pretty (verdicts alsoFits) same

/-- A field with the name of a tag, names that are empty or of any characters, the least integer,
the greatest address, and a block that is absent. -/
def writtenValue : Value :=
  .interfaceBox (some "π\"\x01") (.composite "kind"
    [("kind", .primitive (.int (-0x8000000000000000))),
      ("", .pointer (some ⟨0xffffffffffffffff, ["value", ""]⟩)),
      ("", .referenceHeader 0 0xffffffffffffffff 3 none)])

/-- Verdicts with a table or none. -/
def writtenVerdict (table : Option Address) : Verdict :=
  ⟨.ofList [("λ\n", writtenValue), ("", .keyValueHeader table)],
    [⟨.nilMapWrite, ⟨"main", 7⟩⟩], .ofList [("∅", .heap)]⟩

theorem writtenValue_sized : writtenValue.Sized := by
  simp only [Value.Sized, writtenValue, Value.parts, Value.partsOfFields, List.cons_append,
    List.nil_append, List.forall_mem_cons, List.not_mem_nil, false_implies, implies_true, and_true]
  refine ⟨trivial, trivial, ?int, ?pointer, ?header⟩
  case int =>
    have least : -integerEnd ≤ -0x8000000000000000 ∧ -0x8000000000000000 < integerEnd := by decide
    exact least
  case pointer =>
    rintro ref ⟨⟩
    exact (by decide : 0xffffffffffffffff < wordEnd)
  case header =>
    have small : 0 < wordEnd ∧ 0xffffffffffffffff < wordEnd ∧ 3 < wordEnd := by decide
    refine ⟨small.1, small.2.1, small.2.2, ?_⟩
    rintro address ⟨⟩

theorem writtenValue_floatFree : writtenValue.FloatFree := by
  intro x
  simp [writtenValue, Value.parts, Value.partsOfFields]

theorem writtenVerdict_entries (table : Option Address) :
    (writtenVerdict table).finalValues.entries =
      [("", .keyValueHeader table), ("λ\n", writtenValue)] := by
  rfl

theorem writtenVerdict_fits {table : Option Address} (small : ∀ address ∈ table, address < wordEnd)
    (height : (writtenVerdict table).toJson.height ≤ maxDepth) : (writtenVerdict table).Fits := by
  refine ⟨height, ?_, ?_, List.forall_mem_singleton.mpr (by decide : 7 < wordEnd)⟩
  all_goals
    rw [writtenVerdict_entries]
    refine List.forall_mem_cons.mpr ⟨?_, List.forall_mem_singleton.mpr ?_⟩
  · exact List.forall_mem_singleton.mpr small
  · exact writtenValue_sized
  · intro x member
    cases List.mem_singleton.mp member
  · exact writtenValue_floatFree

/-- Verdicts of which only the second has a table differ in their texts. -/
theorem documents_readBack_written :
    Value.decoder.ReadsBack writtenValue.toJson writtenValue ∧
      TraceEvent.decoder.ReadsBack (TraceEvent.alloc none 0xffffffffffffffff .heap).toJson
        (.alloc none 0xffffffffffffffff .heap) ∧
      ofText (writtenVerdict none).text = .ok (writtenVerdict none) ∧
      (writtenVerdict none).text ≠ (writtenVerdict (some 0)).text := by
  obtain ⟨values, events, verdicts, apart⟩ := documents_readBack
  have fits : (writtenVerdict none).Fits := writtenVerdict_fits (by decide) (by decide)
  have alsoFits : (writtenVerdict (some 0)).Fits := writtenVerdict_fits (by decide) (by decide)
  refine ⟨values _ ⟨by decide, writtenValue_sized, writtenValue_floatFree⟩, events _ ?_,
    (verdicts _ fits).2, fun same => ?_⟩
  · exact (by decide : 0xffffffffffffffff < wordEnd)
  · have entries := congrArg (·.finalValues.entries) (apart _ _ fits alsoFits same)
    simp [writtenVerdict_entries] at entries

end Verdict

end ReferenceSemantics
