import ReferenceSemantics.Json.Record
import ReferenceSemantics.Proofs.Storage.Operations

set_option autoImplicit false

/-!
What holds of all that is read.

A document of any form, with its fields in any order, is made of the values that decoders read in
it. What holds of these and is kept by what makes a record of them holds of every document.
-/

namespace ReferenceSemantics

namespace Decoder

variable {α β : Type} {decoder : Decoder α} {P : α → Prop} {Q : β → Prop}

/-- Whatever the decoder reads has the property. -/
def Yields (decoder : Decoder α) (P : α → Prop) : Prop :=
  ∀ setting tree value, decoder.read setting tree = .ok value → P value

theorem yields_any (decoder : Decoder α) : decoder.Yields fun _ => True :=
  fun _ _ _ _ => trivial

theorem Yields.readText (yields : decoder.Yields P) {text : String} {value : α}
    (read : decoder.readText text = .ok value) : P value := by
  obtain ⟨found, here, finished⟩ := Except.bind_eq_ok.mp read
  split at finished
  next => cases finished
  next =>
    cases finished
    exact yields _ _ _ here

theorem ok_of_map {ε : Type} {f : α → β} {first : Except ε α} {result : β}
    (ran : f <$> first = .ok result) : ∃ value, first = .ok value ∧ f value = result := by
  cases first with
  | error _ => cases ran
  | ok value => exact ⟨value, rfl, Except.ok.inj ran⟩

theorem Yields.map {f : α → β} (yields : decoder.Yields P)
    (keeps : ∀ value, P value → Q (f value)) : (f <$> decoder).Yields Q := by
  intro setting tree result read
  obtain ⟨value, found, rfl⟩ := ok_of_map read
  exact keeps value (yields setting tree value found)

theorem yields_word : word.Yields (· < wordEnd) := by
  intro setting tree n read
  unfold word at read
  dsimp only at read
  split at read
  next n =>
    split at read
    next fits =>
      cases read
      omega
    next => cases read
  next => cases read

theorem yields_integer : integer.Yields fun n => -integerEnd ≤ n ∧ n < integerEnd := by
  intro setting tree n read
  unfold integer at read
  dsimp only at read
  split at read
  next n =>
    split at read
    next fits =>
      cases read
      exact fits
    next => cases read
  next => cases read

theorem Yields.option (yields : decoder.Yields P) :
    decoder.option.Yields fun found => ∀ value ∈ found, P value := by
  intro setting tree found read
  unfold Decoder.option at read
  dsimp only at read
  split at read
  next =>
    cases read
    exact nofun
  next =>
    obtain ⟨value, here, rfl⟩ := ok_of_map read
    intro present same
    cases same
    exact yields _ _ _ here

theorem forall_of_mapM {ε γ : Type} {f : γ → Except ε α} {items : List γ} {values : List α}
    (mapped : items.mapM f = .ok values) (holds : ∀ item value, f item = .ok value → P value) :
    ∀ value ∈ values, P value := by
  induction items generalizing values with
  | nil =>
      cases mapped
      exact List.forall_mem_nil _
  | cons item items inductionHypothesis =>
      rw [List.mapM_cons] at mapped
      obtain ⟨first, here, rest⟩ := Except.bind_eq_ok.mp mapped
      obtain ⟨others, later, same⟩ := Except.bind_eq_ok.mp rest
      cases same
      exact List.forall_mem_cons.mpr ⟨holds item first here, inductionHypothesis later⟩

theorem Yields.list (yields : decoder.Yields P) :
    decoder.list.Yields fun values => ∀ value ∈ values, P value := by
  intro setting tree values read
  unfold Decoder.list at read
  dsimp only at read
  split at read
  next items ending =>
    obtain ⟨inner, -, rest⟩ := Except.bind_eq_ok.mp read
    obtain ⟨found, mapped, finished⟩ := Except.bind_eq_ok.mp rest
    obtain ⟨-, -, same⟩ := Except.bind_eq_ok.mp finished
    cases same
    exact forall_of_mapM mapped (yields inner)
  next => cases read

/-! ### Tagged objects -/

theorem yields_choice (choices : List α) (name : α → String) :
    (choice choices name).Yields (· ∈ choices) := by
  have chooses {written : String} {value : α} (chosen : chosen choices name written = .ok value) :
      value ∈ choices := by
    unfold Decoder.chosen at chosen
    cases found : choices.find? (name · == written) with
    | none => rw [found] at chosen; cases chosen
    | some other =>
        rw [found] at chosen
        cases chosen
        exact List.mem_of_find?_eq_some found
  intro setting tree value read
  unfold choice at read
  dsimp only at read
  split at read
  next => exact chooses read
  next =>
    obtain ⟨-, -, read⟩ := Except.bind_eq_ok.mp read
    split at read
    next =>
      obtain ⟨-, -, read⟩ := Except.bind_eq_ok.mp read
      cases read
    next =>
      obtain ⟨written, -, read⟩ := Except.bind_eq_ok.mp read
      obtain ⟨found, here, read⟩ := Except.bind_eq_ok.mp read
      split at read
      next =>
        split at read
        next =>
          obtain ⟨-, -, same⟩ := Except.bind_eq_ok.mp read
          cases same
          exact chooses here
        next => cases read
      next => cases read
  next => cases read
  next => cases read
  next => exact chooses read
  next => exact chooses read
  next => cases read

theorem yields_anything {value : α} (holds : P value) : (anything value).Yields P := by
  intro setting tree result read
  unfold anything at read
  dsimp only at read
  split at read
  next => cases read; exact holds
  next => cases read; exact holds
  next => cases read

theorem yields_variant {variants : List (String × Decoder α)}
    (yields : ∀ named ∈ variants, named.2.Yields P) : (variant variants).Yields (Yields · P) := by
  intro setting tree decoder read
  unfold variant at read
  dsimp only at read
  split at read
  next name =>
    cases found : variants.lookup name with
    | none => rw [found] at read; cases read
    | some other =>
        rw [found] at read
        cases read
        obtain ⟨before, after, whole, -⟩ := List.lookup_eq_some_iff.mp found
        exact yields (name, _) (whole ▸ List.mem_append_right _ (.head _))
  next index =>
    cases found : variants[index]? with
    | none => rw [found] at read; cases read
    | some named =>
        rw [found] at read
        cases read
        exact yields named (List.mem_of_getElem? found)
  next => cases read

theorem tagOfMembers_yields {tag : String} {member : Decoder (Decoder α)} {setting : Setting}
    {members others : Tree.Members} {found last : Option (Decoder α)}
    (yields : member.Yields (Yields · P)) (before : ∀ decoder ∈ found, decoder.Yields P)
    (read : tagOfMembers tag member setting members found = .ok (last, others)) :
    ∀ decoder ∈ last, decoder.Yields P := by
  induction members generalizing found others with
  | nil =>
      rw [tagOfMembers] at read
      cases read
      exact before
  | cons first members inductionHypothesis =>
      obtain ⟨name, value⟩ := first
      rw [tagOfMembers] at read
      obtain ⟨written, -, read⟩ := Except.bind_eq_ok.mp read
      split at read
      next =>
        split at read
        next => cases read
        next =>
          obtain ⟨decoder, here, read⟩ := Except.bind_eq_ok.mp read
          refine inductionHypothesis (fun other same => ?_) read
          cases same
          exact yields _ _ _ here
      next =>
        obtain ⟨-, -, read⟩ := Except.bind_eq_ok.mp read
        obtain ⟨⟨found', others'⟩, here, read⟩ := Except.bind_eq_ok.mp read
        cases read
        exact inductionHypothesis before here

theorem yields_taggedBy {tag : String} {member item : Decoder (Decoder α)}
    (members : member.Yields (Yields · P)) (items : item.Yields (Yields · P)) :
    (taggedBy tag member item).Yields P := by
  intro setting tree value read
  unfold taggedBy at read
  dsimp only at read
  split at read
  next =>
    obtain ⟨inner, -, read⟩ := Except.bind_eq_ok.mp read
    obtain ⟨⟨found, others⟩, here, read⟩ := Except.bind_eq_ok.mp read
    obtain ⟨-, -, read⟩ := Except.bind_eq_ok.mp read
    cases found with
    | none => cases read
    | some decoder =>
        have before : ∀ decoder ∈ (none : Option (Decoder α)), decoder.Yields P := by
          rintro _ ⟨⟩
        exact tagOfMembers_yields members before here decoder rfl _ _ _ read
  next =>
    obtain ⟨inner, -, read⟩ := Except.bind_eq_ok.mp read
    split at read
    next =>
      obtain ⟨-, -, read⟩ := Except.bind_eq_ok.mp read
      cases read
    next =>
      obtain ⟨decoder, here, read⟩ := Except.bind_eq_ok.mp read
      obtain ⟨-, -, read⟩ := Except.bind_eq_ok.mp read
      obtain ⟨-, -, read⟩ := Except.bind_eq_ok.mp read
      exact items _ _ _ here _ _ _ read
  next => cases read

theorem yields_tagged {tag : String} {variants : List (String × Decoder α)}
    (yields : ∀ named ∈ variants, named.2.Yields P) : (tagged tag variants).Yields P :=
  yields_taggedBy (yields_variant yields) (yields_variant yields)

end Decoder

/-! ### Records -/

namespace Record

variable {α β : Type} {record : Record α} {P : α → Prop} {Q : β → Prop}

/-- Whatever is read as the record has the property, because of what is kept of its slots. -/
def Yields (record : Record α) (P : α → Prop) : Prop :=
  ∃ Good : record.Slots → Prop, Good record.blank ∧
    (∀ name slots, Good slots → (record.fill name slots).Yields Good) ∧
    ∀ listed slots value, Good slots → record.finish listed slots = some value → P value

section Slots

variable {Good : record.Slots → Prop} {setting : Setting} {slots filled : record.Slots}
  (fills : ∀ name slots, Good slots → (record.fill name slots).Yields Good)
include fills

theorem readMembers_good {members : Tree.Members} (good : Good slots)
    (read : record.readMembers setting members slots = .ok filled) : Good filled := by
  induction members generalizing slots with
  | nil =>
      cases read
      exact good
  | cons member members inductionHypothesis =>
      rw [readMembers] at read
      obtain ⟨name, -, read⟩ := Except.bind_eq_ok.mp read
      split at read
      next =>
        obtain ⟨next, here, read⟩ := Except.bind_eq_ok.mp read
        exact inductionHypothesis (fills _ _ good _ _ _ here) read
      next =>
        obtain ⟨-, -, read⟩ := Except.bind_eq_ok.mp read
        exact inductionHypothesis good read

theorem readItems_good {names : List String} {items : List Tree} (good : Good slots)
    (read : record.readItems setting names items slots = .ok filled) : Good filled := by
  induction items generalizing names slots with
  | nil =>
      rw [readItems] at read
      cases read
      exact good
  | cons item items inductionHypothesis =>
      cases names with
      | nil => cases read
      | cons name names =>
          rw [readItems] at read
          obtain ⟨next, here, read⟩ := Except.bind_eq_ok.mp read
          exact inductionHypothesis (fills _ _ good _ _ _ here) read

end Slots

theorem finish_of_complete {listed : Bool} {slots : record.Slots} {value : α}
    (completed : record.complete listed slots = .ok value) :
    record.finish listed slots = some value := by
  unfold complete at completed
  cases finished : record.finish listed slots with
  | none => rw [finished] at completed; cases completed
  | some other => rw [finished] at completed; cases completed; rfl

theorem Yields.decoder (yields : record.Yields P) : record.decoder.Yields P := by
  obtain ⟨Good, blank, fills, finishes⟩ := yields
  intro setting tree value read
  unfold Record.decoder at read
  dsimp only at read
  split at read
  next =>
    obtain ⟨inner, -, read⟩ := Except.bind_eq_ok.mp read
    obtain ⟨slots, filled, read⟩ := Except.bind_eq_ok.mp read
    obtain ⟨-, -, read⟩ := Except.bind_eq_ok.mp read
    exact finishes _ _ _ (readMembers_good fills blank filled) (finish_of_complete read)
  next =>
    obtain ⟨inner, -, read⟩ := Except.bind_eq_ok.mp read
    obtain ⟨slots, filled, read⟩ := Except.bind_eq_ok.mp read
    obtain ⟨-, -, read⟩ := Except.bind_eq_ok.mp read
    exact finishes _ _ _ (readItems_good fills blank filled) (finish_of_complete read)
  next => cases read

theorem Yields.map {f : α → β} (yields : record.Yields P) (keeps : ∀ value, P value → Q (f value)) :
    (f <$> record).Yields Q := by
  obtain ⟨Good, blank, fills, finishes⟩ := yields
  refine ⟨Good, blank, fills, fun listed slots result good finished => ?_⟩
  obtain ⟨value, here, rfl⟩ := Option.map_eq_some_iff.mp finished
  exact keeps value (finishes listed slots value good here)

theorem Yields.seq {first : Record (α → β)}
    (yields : first.Yields fun f => ∀ value, P value → Q (f value))
    (alsoYields : record.Yields P) : (first <*> record).Yields Q := by
  obtain ⟨Good, blank, fills, finishes⟩ := yields
  obtain ⟨Good', blank', fills', finishes'⟩ := alsoYields
  refine ⟨fun slots => Good slots.1 ∧ Good' slots.2, ⟨blank, blank'⟩, ?_, ?_⟩
  · rintro name ⟨left, right⟩ ⟨good, good'⟩
    change (if first.names.contains name then _ else _ : Decoder _).Yields _
    split
    next => exact (fills name left good).map fun _ good => ⟨good, good'⟩
    next => exact (fills' name right good').map fun _ good' => ⟨good, good'⟩
  · rintro listed ⟨left, right⟩ result ⟨good, good'⟩ finished
    change (first.finish listed left).bind (fun f => (record.finish listed right).bind
      fun value => some (f value)) = some result at finished
    obtain ⟨f, here, finished⟩ := Option.bind_eq_some_iff.mp finished
    obtain ⟨value, also, same⟩ := Option.bind_eq_some_iff.mp finished
    cases same
    exact finishes listed left f good here value (finishes' listed right value good' also)

theorem yields_field {name : String} {decoder : Decoder α} {missing : Bool → Option α}
    (yields : decoder.Yields P) (defaults : ∀ listed, ∀ value ∈ missing listed, P value) :
    (field name decoder missing).Yields P := by
  refine ⟨fun slot : Option α => ∀ value ∈ slot, P value, nofun, ?_, ?_⟩
  · rintro _ (_ | _) good setting tree slot read
    · obtain ⟨value, here, rfl⟩ := Decoder.ok_of_map read
      intro present same
      cases same
      exact yields setting tree value here
    · cases read
  · rintro listed (_ | present) value good finished
    · exact defaults listed value finished
    · cases finished
      exact good present rfl

theorem yields_required (name : String) {decoder : Decoder α} (yields : decoder.Yields P) :
    (required name decoder).Yields P := yields_field yields fun _ => nofun

theorem yields_withDefault (name : String) {default : α} {decoder : Decoder α}
    (yields : decoder.Yields P) (holds : P default) :
    (withDefault name decoder default).Yields P := by
  refine yields_field yields fun _ value same => ?_
  cases same
  exact holds

theorem yields_optional (name : String) {decoder : Decoder α} (yields : decoder.Yields P) :
    (optional name decoder).Yields fun found => ∀ value ∈ found, P value :=
  yields_withDefault name yields.option nofun

end Record

end ReferenceSemantics
