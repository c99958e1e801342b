import ReferenceSemantics.Proofs.Program.Written
import ReferenceSemantics.Value.Document

set_option autoImplicit false

/-!
Values are read back from what is written of them.

A document keeps a value when there is no double in it and its numbers and addresses have 64 bits.
The tag of a primitive shares an object with the type and the value of the primitive; this object is
read in whole for the tag, and then again for the primitive.
-/

namespace ReferenceSemantics

open Decoder Record

namespace SlotRef

def InRange (ref : SlotRef) : Prop := ref.address < wordEnd

theorem reads {ref : SlotRef} (inRange : ref.InRange) : decoder.Reads ref.toJson ref := by
  obtain ⟨address, path⟩ := ref
  have fields := (reads_required "address" (reads_word inRange)).map mk
  cases path with
  | nil => exact (fields.and (reads_absent "path" text.list []) rfl rfl).decoder
  | cons name path =>
      have listed : text.list.Reads (.ofList .str (name :: path)) (name :: path) :=
        reads_list fun name _ => reads_text name
      exact (fields.and (reads_withDefault "path" [] listed) rfl rfl).decoder

end SlotRef

namespace Value

mutual

/-- The value and every value inside it. -/
def parts : Value → List Value
  | primitive value => [primitive value]
  | composite typeName fields => composite typeName fields :: partsOfFields fields
  | referenceHeader len cap offset block => [referenceHeader len cap offset block]
  | keyValueHeader table => [keyValueHeader table]
  | pointer target => [pointer target]
  | interfaceBox typeTag value => interfaceBox typeTag value :: value.parts

def partsOfFields : List (String × Value) → List Value
  | [] => []
  | (_, value) :: fields => value.parts ++ partsOfFields fields

end

/-- The values directly in a value. -/
def inner : Value → List Value
  | composite _ fields => fields.map (·.2)
  | interfaceBox _ value => [value]
  | _ => []

theorem partsOfFields_eq (fields : List (String × Value)) :
    partsOfFields fields = (fields.map (·.2)).flatMap parts := by
  induction fields with
  | nil => rfl
  | cons field fields inductionHypothesis =>
      rw [partsOfFields, inductionHypothesis, List.map_cons, List.flatMap_cons]

theorem parts_eq (value : Value) : value.parts = value :: value.inner.flatMap parts := by
  cases value <;>
    simp only [parts, inner, partsOfFields_eq, List.flatMap_nil, List.flatMap_singleton]

/-- The integers, lengths and addresses of a value, those of the values in it apart, have 64
bits. -/
def InRange : Value → Prop
  | primitive value => (Expr.lit value).InRange
  | referenceHeader len cap offset block =>
      len < wordEnd ∧ cap < wordEnd ∧ offset < wordEnd ∧ ∀ address ∈ block, address < wordEnd
  | keyValueHeader table => ∀ address ∈ table, address < wordEnd
  | pointer target => ∀ ref ∈ target, ref.InRange
  | composite _ _ | interfaceBox _ _ => True

/-- The numbers in the value at any depth have 64 bits. -/
def Sized (value : Value) : Prop := ∀ part ∈ value.parts, part.InRange

/-- No primitive in the value, at any depth, is a double. -/
def FloatFree (value : Value) : Prop := ∀ x, primitive (.float x) ∉ value.parts

/-- A document keeps the value, with at most so many containers. -/
structure Fits (levels : Nat) (value : Value) : Prop where
  height : value.toJson.height ≤ levels
  sized : value.Sized
  floatFree : value.FloatFree

/-- A field of a composite, as it is written. -/
def fieldToJson (field : String × Value) : Json :=
  .obj [("name", .str field.1), ("value", field.2.toJson)]

theorem partsToJson_eq (fields : List (String × Value)) :
    partsToJson fields = fields.map fieldToJson := by
  induction fields with
  | nil => rfl
  | cons field fields inductionHypothesis =>
      rw [partsToJson, inductionHypothesis, List.map_cons, fieldToJson]

variable {levels : Nat} {value part : Value}

theorem height_inner (member : part ∈ value.inner) : part.toJson.height < value.toJson.height := by
  cases value with
  | primitive _ | referenceHeader _ _ _ _ | keyValueHeader _ | pointer _ => cases member
  | interfaceBox _ content =>
      cases List.mem_singleton.mp member
      simp only [toJson, Json.height, Json.heightFields]
      omega
  | composite _ fields =>
      obtain ⟨field, listed, rfl⟩ := List.mem_map.mp member
      have inField : field.2.toJson.height < (fieldToJson field).height := by
        simp only [fieldToJson, Json.height, Json.heightFields]
        omega
      have below := Json.height_le_heightItems (List.mem_map_of_mem (f := fieldToJson) listed)
      rw [← partsToJson_eq] at below
      simp only [toJson, Json.height, Json.heightFields]
      omega

theorem Fits.inner (fits : value.Fits (levels + 1)) (member : part ∈ value.inner) :
    part.Fits levels := by
  have inside : part.parts ⊆ value.parts := by
    rw [value.parts_eq]
    exact fun _ inPart => List.mem_cons_of_mem _ (List.mem_flatMap.mpr ⟨part, member, inPart⟩)
  refine ⟨?_, fun _ inPart => fits.sized _ (inside inPart),
    fun x inPart => fits.floatFree x (inside inPart)⟩
  have below := height_inner member
  have height := fits.height
  omega

theorem Fits.own (fits : value.Fits levels) : value.InRange := by
  refine fits.sized value ?_
  rw [parts_eq]
  exact List.mem_cons_self ..

/-- A primitive is kept in a value as it is in a literal. -/
theorem Fits.primitive {content : Primitive} (fits : (primitive content).Fits levels) :
    (Expr.lit content).Kept := by
  refine ⟨fits.own, ?_⟩
  rintro x ⟨rfl⟩
  exact fits.floatFree x (List.mem_singleton_self _)

theorem reads_tagged {decoder : Decoder Value}
    (reads : ∀ part : Value, part.Fits levels → decoder.Reads part.toJson part)
    (fits : value.Fits (levels + 1)) :
    (Decoder.tagged "kind" (variants decoder)).Reads value.toJson value := by
  have addresses {address : Option Address} (small : ∀ n ∈ address, n < wordEnd) :
      ∀ n ∈ address, word.Reads (.ofNat n) n := fun n present => reads_word (small n present)
  cases value with
  | primitive content =>
      refine Decoder.reads_tagged ((Primitive.reads fits.primitive).map primitive) rfl ?_
      cases content <;> simp [Primitive.toJsonFields]
  | composite typeName fields =>
      have listed : ((pair "name" "value" text decoder).list).Reads (.arr (partsToJson fields))
          fields := by
        rw [partsToJson_eq]
        exact reads_list fun field member => reads_pair (reads_text field.1)
          (reads field.2 (fits.inner (List.mem_map_of_mem member))) rfl
      have fields := ((reads_required "type_name" (reads_text typeName)).map composite).and
        (reads_required "fields" listed) rfl rfl
      exact fields.tagged rfl rfl
  | referenceHeader len cap offset block =>
      obtain ⟨smallLen, smallCap, smallOffset, smallBlock⟩ := fits.own
      have fields := ((reads_required "len" (reads_word smallLen)).map referenceHeader).and
        (reads_required "cap" (reads_word smallCap)) rfl rfl
      have fields := fields.and (reads_withDefault "offset" 0 (reads_word smallOffset)) rfl rfl
      exact (fields.and (reads_nullable "block" (addresses smallBlock) nofun) rfl rfl).tagged
        rfl rfl
  | keyValueHeader table =>
      exact ((reads_nullable "block" (addresses fits.own) nofun).map keyValueHeader).tagged rfl rfl
  | pointer target =>
      have targets : ∀ ref ∈ target, SlotRef.decoder.Reads ref.toJson ref :=
        fun ref present => SlotRef.reads (fits.own ref present)
      exact ((reads_nullable "target" targets nofun).map pointer).tagged rfl rfl
  | interfaceBox typeTag content =>
      have tag : ∀ s ∈ typeTag, text.Reads (.str s) s := fun s _ => reads_text s
      have fields := ((reads_nullable "type_tag" tag nofun).map interfaceBox).and
        (reads_required "value" (reads content (fits.inner (.head _)))) rfl rfl
      exact fields.tagged rfl rfl

theorem reads_levels (levels : Nat) :
    ∀ value : Value, value.Fits levels → (Decoder.mk (read levels)).Reads value.toJson value := by
  induction levels with
  | zero =>
      intro value fits
      have height := fits.height
      cases value <;> cases height
  | succ levels reads => exact fun _ fits => reads_tagged reads fits

theorem reads (fits : value.Fits maxDepth) : decoder.Reads value.toJson value :=
  reads_levels maxDepth value fits

end Value

end ReferenceSemantics
