import ReferenceSemantics.Proofs.Escape.Operations

set_option autoImplicit false

/-!
The elementary computations in an audit.

A name of the scope gives the slot of a local, and any other name one of the root frame. What is
loaded through a reference is what the tracked slot may hold.
-/

namespace ReferenceSemantics

open Run

/-- What a name designates in the scope: a local, or else a slot of the root frame. -/
def Storage.Names (storage : Storage) (facts : EscapeFacts) (scope : EscapeScope) (name : String)
    (address : Address) : Prop :=
  match scope.locals.lookup name with
  | some (site, kind) => storage.IsLocal facts address site kind
  | none => storage.Outlives address

namespace Storage

variable {storage : Storage} {facts : EscapeFacts} {scope : EscapeScope} {name : String}
  {address : Address} {locs : List Loc} {value : Value}

theorem Names.tracks (names : storage.Names facts scope name address) :
    storage.Tracks facts (scope.site? name).toList address := by
  unfold Names at names
  unfold EscapeScope.site?
  split at names
  next site kind found =>
    rw [found]
    exact names.tracks
  next absent => exact .outlives names

theorem Secure.names (secure : storage.Secure facts) (agrees : storage.Agrees facts scope)
    {ref : SlotRef} (found : storage.lookup name = some ref) :
    ref.path = [] ∧ storage.Names facts scope name ref.address := by
  rw [Storage.lookup, Option.map_eq_some_iff] at found
  obtain ⟨address, found, rfl⟩ := found
  refine ⟨rfl, ?_⟩
  have atRoot : ∀ {address}, storage.root.lookup name = some address →
      storage.Outlives address := by
    intro address bound
    have owned := secure.coherent.rootBound _ (Frame.mem_of_lookup bound)
    obtain ⟨slot, inRoot, here⟩ := List.mem_map.mp owned
    exact .inr ⟨slot, inRoot, here⟩
  unfold Names
  split
  next site kind declared =>
    obtain ⟨place, bound, isLocal⟩ := agrees.bound declared
    rw [bound, Option.some_or, Option.some.injEq] at found
    exact found ▸ isLocal
  next absent =>
    by_cases inCall : storage.InCall
    · rw [agrees.free inCall absent, Option.none_or] at found
      exact atRoot found
    · rw [current_eq_root inCall, Option.or_self] at found
      exact atRoot found

theorem Secure.slot_of_lives (secure : storage.Secure facts) {slot : Slot}
    (lives : storage.Lives address slot) :
    ∃ content, storage.slot address = .ok content ∧ content.outline = slot := by
  obtain ⟨content, found, same⟩ := secure.coherent.objectAt?_of_lives lives
  exact ⟨content, slot_ok_iff.mpr found, same⟩

theorem Secure.grounded_load (secure : storage.Secure facts) {ref : SlotRef}
    (lives : ∃ slot, storage.Lives ref.address slot) : Grounded (storage.load ref) := by
  obtain ⟨slot, lives⟩ := lives
  obtain ⟨content, read, -⟩ := secure.slot_of_lives lives
  unfold load
  rw [read]
  apply (Grounded.ok content).bind
  intro content
  split
  · exact .pure _
  · exact .error trivial

theorem Secure.grounded_store (secure : storage.Secure facts) {ref : SlotRef}
    (lives : ∃ slot, storage.Lives ref.address slot) : Grounded (storage.store ref value) := by
  obtain ⟨slot, lives⟩ := lives
  obtain ⟨content, read, -⟩ := secure.slot_of_lives lives
  unfold Storage.store
  rw [read]
  apply (Grounded.ok content).bind
  intro content
  split
  · exact .pure _
  · exact .error trivial

theorem Secure.grounded_dereference (secure : storage.Secure facts)
    (covers : storage.Covers facts locs value) : Grounded (storage.dereference value) := by
  unfold Storage.dereference
  split
  next target =>
    obtain ⟨slot, lives⟩ := (covers target.address (by simp [Value.pointees])).lives
    obtain ⟨content, read, -⟩ := secure.slot_of_lives lives
    rw [read]
    exact (Grounded.ok content).bind fun _ => .pure _
  · exact .error trivial
  · exact .error trivial

/-- A loaded value is what the tracked slot may hold. -/
theorem Secure.load (secure : storage.Secure facts) {ref : SlotRef}
    (tracks : storage.Tracks facts locs ref.address) (found : storage.load ref = .ok value) :
    storage.Covers facts (facts.contents locs) value ∧ storage.Typed ref value.kind := by
  obtain ⟨slot, read, inside⟩ := load_eq_ok.mp found
  have present := slot_ok_iff.mp read
  have admissible := secure.objects present
  constructor
  · intro target member
    have held := admissible.pointees slot.value (List.mem_singleton.mpr rfl) target
      (Value.pointees_atPath? inside member)
    exact secure.covered_of_held tracks held
  · intro whole
    rw [whole, Value.atPath?, Option.some.injEq] at inside
    refine ⟨slot.outline, secure.coherent.lives present, ?_⟩
    rw [← inside]
    exact (admissible.kind slot rfl).symm

end Storage

namespace Audit

variable {audit : Audit} {α β : Type} {scope : EscapeScope} {before : Storage}
  {location : Location} {locs : List Loc} {post : Storage → α → Prop}

theorem Evaluates.read {look : Storage → Except StorageError α}
    (grounded : before.Secure audit.facts → Grounded (look before))
    (found : ∀ {result}, before.Secure audit.facts → before.Agrees audit.facts scope →
      look before = .ok result → post before result) :
    audit.Evaluates scope before (Run.read location look) post := by
  rintro agrees machine rfl secure
  rw [exec_read]
  cases answered : look machine.storage with
  | error error =>
      exact .halted (grounded_ofStorage location (grounded secure error answered)) secure
  | ok result => exact .done secure (.refl _) ⟨agrees, found secure agrees answered⟩

theorem Evaluates.update {change : Storage → Except StorageError (α × Storage)}
    (grounded : before.Secure audit.facts → Grounded (change before))
    (changed : ∀ {result after}, before.Secure audit.facts → change before = .ok (result, after) →
      before.Advances audit.facts after ∧ post after result) :
    audit.Evaluates scope before (Run.update location change) post := by
  rintro agrees machine rfl secure
  rw [exec_update]
  cases answered : change machine.storage with
  | error error =>
      exact .halted (grounded_ofStorage location (grounded secure error answered)) secure
  | ok last =>
      obtain ⟨advances, result⟩ := changed secure answered
      exact .done advances.secure advances.grown
        ⟨agrees.grown advances.grown advances.bindings, result⟩

theorem Evaluates.write {change : Storage → Except StorageError Storage}
    (grounded : before.Secure audit.facts → Grounded (change before))
    (changed : ∀ {after}, before.Secure audit.facts → change before = .ok after →
      before.Advances audit.facts after) :
    audit.Evaluates scope before (Run.write location change) fun _ _ => True := by
  rintro agrees machine rfl secure
  rw [exec_write]
  cases answered : change machine.storage with
  | error error =>
      exact .halted (grounded_ofStorage location (grounded secure error answered)) secure
  | ok after =>
      have advances := changed secure answered
      exact .done advances.secure advances.grown
        ⟨agrees.grown advances.grown advances.bindings, trivial⟩

/-- A change that cannot fail, unless the stack overflows. -/
theorem Leads.allocate {change : Storage → α × Storage}
    (step : before.Secure audit.facts → (change before).2.Fits →
      (change before).2.Secure audit.facts ∧ before.Grown (change before).2 ∧
        post (change before).2 (change before).1) :
    audit.Leads before (Run.allocate change) post := by
  rintro machine rfl secure
  rw [exec_allocate]
  by_cases fits : (change machine.storage).2.Fits
  · obtain ⟨secure, grown, result⟩ := step secure fits
    exact .done secure grown result
  · exact .overflow fits

theorem Evaluates.allocate {change : Storage → α × Storage}
    (step : before.Secure audit.facts → (change before).2.Fits →
      before.Advances audit.facts (change before).2 ∧ post (change before).2 (change before).1) :
    audit.Evaluates scope before (Run.allocate change) post := by
  intro agrees
  apply Leads.allocate
  intro secure fits
  obtain ⟨advances, result⟩ := step secure fits
  exact ⟨advances.secure, advances.grown, agrees.grown advances.grown advances.bindings, result⟩

theorem Leads.silent {run : Run Unit} (silent : Silent run) :
    audit.Leads before run fun after _ => after = before := by
  rintro machine rfl secure
  obtain ⟨trace, same⟩ := silent machine
  rw [same]
  exact .done secure (.refl _) rfl

theorem Evaluates.silent {run : Run Unit} (silent : Silent run) :
    audit.Evaluates scope before run fun _ _ => True := by
  intro agrees
  apply (Leads.silent silent).weaken
  rintro after _ - rfl
  exact ⟨agrees, trivial⟩

/-! ### Slots -/

theorem Evaluates.lookup (name : String) :
    audit.Evaluates scope before (Run.lookup name location) fun after ref =>
      ref.path = [] ∧ after.Names audit.facts scope name ref.address := by
  rintro agrees machine rfl secure
  rw [exec_lookup]
  cases found : machine.storage.lookup name with
  | none => exact .halted trivial secure
  | some ref => exact .done secure (.refl _) ⟨agrees, secure.names agrees found⟩

theorem Evaluates.load {ref : SlotRef} (tracks : before.Tracks audit.facts locs ref.address) :
    audit.Evaluates scope before (Run.load location ref) fun after value =>
      after.Covers audit.facts (audit.facts.contents locs) value ∧ after.Typed ref value.kind :=
  .read (fun secure => secure.grounded_load tracks.lives) fun secure _ found =>
    secure.load tracks found

theorem Evaluates.dereference {pointer : Value} (covers : before.Covers audit.facts locs pointer) :
    audit.Evaluates scope before (Run.dereference location pointer) fun after ref =>
      after.Tracks audit.facts locs ref.address := by
  apply Evaluates.read
  · intro secure
    exact secure.grounded_dereference covers
  · intro ref _ _ found
    obtain ⟨rfl, -⟩ := Storage.dereference_eq_ok.mp found
    exact covers ref.address (by simp [Value.pointees])

theorem Evaluates.store {ref : SlotRef} {value : Value}
    (lives : ∃ slot, before.Lives ref.address slot) (typed : before.Typed ref value.kind)
    (held : before.Secure audit.facts → ∀ target ∈ value.pointees,
      before.MayHold audit.facts ref.address target) :
    audit.Evaluates scope before (Run.store location ref value) fun _ _ => True :=
  .write (fun secure => secure.grounded_store lives) fun secure stored =>
    secure.store stored typed (held secure)

/-- A lasting value may be stored anywhere. -/
theorem Evaluates.store_lasting {ref : SlotRef} {value : Value}
    (lives : ∃ slot, before.Lives ref.address slot) (typed : before.Typed ref value.kind)
    (lasting : before.Lasting value) :
    audit.Evaluates scope before (Run.store location ref value) fun _ _ => True :=
  .store lives typed fun _ target inside => .outlives (lasting target inside)

/-! ### Blocks and tables -/

theorem Evaluates.element {header : Value} {index : Int} :
    audit.Evaluates scope before (Run.read location (·.element header index)) fun after value =>
      after.Lasting value :=
  .read (fun _ => before.grounded_element header index) fun secure _ found =>
    secure.lasting_element found

theorem Evaluates.tableGet {header key : Value} :
    audit.Evaluates scope before (Run.read location (·.tableGet header key)) fun after found =>
      ∀ value, found = some value → after.Lasting value := by
  apply Evaluates.read
  · intro _
    exact before.grounded_tableGet header key
  · rintro found secure - answered value rfl
    exact secure.lasting_tableGet answered

theorem Evaluates.setElement {header value : Value} {index : Int}
    (lasting : before.Lasting value) :
    audit.Evaluates scope before (Run.write location (·.setElement header index value))
      fun _ _ => True :=
  .write (fun _ => before.grounded_setElement header index value) fun secure written =>
    secure.setElement written lasting

theorem Evaluates.tableInsert {header key value : Value} (lastingKey : before.Lasting key)
    (lasting : before.Lasting value) :
    audit.Evaluates scope before (Run.write location (·.tableInsert header key value))
      fun _ _ => True :=
  .write (fun _ => before.grounded_tableInsert header key value) fun secure written =>
    secure.tableInsert written lastingKey lasting

theorem Evaluates.append {header : Value} {values : List Value}
    (lasting : ∀ value ∈ values, before.Lasting value) :
    audit.Evaluates scope before (Run.update location (·.append header values))
      fun _ grown => grown.kind = header.kind ∧ grown.pointees = [] :=
  .update (fun _ => before.grounded_append header values) fun secure appended =>
    secure.append appended lasting

theorem Evaluates.allocBlock {cells : List Value} {len : Nat} {zero : Value}
    (lasting : ∀ cell ∈ cells, before.Lasting cell) (lastingZero : before.Lasting zero) :
    audit.Evaluates scope before (Run.allocate (·.allocBlock cells len zero)) fun _ header =>
      header.pointees = [] := by
  apply Evaluates.allocate
  intro secure _
  exact ⟨secure.allocBlock len lasting lastingZero, by simp [Storage.allocBlock]⟩

theorem Evaluates.allocTable {entries : List (Value × Value)}
    (lasting : ∀ entry ∈ entries, before.Lasting entry.1 ∧ before.Lasting entry.2) :
    audit.Evaluates scope before (Run.allocate (·.allocTable entries)) fun _ header =>
      header.pointees = [] := by
  apply Evaluates.allocate
  intro secure _
  exact ⟨secure.allocTable lasting, by simp [Storage.allocTable]⟩

end Audit

end ReferenceSemantics
