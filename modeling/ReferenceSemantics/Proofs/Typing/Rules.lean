import ReferenceSemantics.Proofs.Program.Mentions
import ReferenceSemantics.Proofs.Run.Level
import ReferenceSemantics.Proofs.Storage.Regular

set_option autoImplicit false

/-!
Runs that keep storage regular.

A computation leads from regular storage to regular storage, however it ends, and what it hands back
is said by a postcondition. Values that are handed on are canonical. What is known of the kind of a
slot, and of the slot of a named result, stays known while something else is computed.
-/

namespace ReferenceSemantics

open Run

/-- A box without a type tag is one of the literal `nil`. -/
def Expr.Tagged : Expr → Prop
  | boxed none value => value = .nil
  | _ => True

/-- All boxes among the expressions are tagged. -/
def AllTagged (parts : List Expr) : Prop := ∀ part ∈ parts, part.Tagged

theorem Scope.Admits.tagged {scope : Scope} {parts : List Expr} (admits : scope.Admits parts) :
    AllTagged parts := by
  intro part member
  have gives := admits part member
  unfold Expr.Tagged
  split
  next value =>
    rw [checkExpr] at gives
    obtain ⟨_, boxes, -⟩ := gives.bind
    cases value with
    | nil => rfl
    | _ => exact absurd boxes Check.not_gives_refuse
  next => trivial

theorem AllTagged.cons {part : Expr} {parts : List Expr} (tagged : AllTagged (part :: parts)) :
    part.Tagged ∧ AllTagged parts :=
  List.forall_mem_cons.mp tagged

theorem AllTagged.append {first second : List Expr} (tagged : AllTagged (first ++ second)) :
    AllTagged first ∧ AllTagged second :=
  List.forall_mem_append.mp tagged

/-- What a call hands back is canonical, if it hands back anything. -/
def CanonicalResult (result : Option Value) : Prop :=
  ∀ value, result = some value → value.Canonical

theorem canonicalResult_none : CanonicalResult none := by
  rintro _ ⟨⟩

theorem canonicalResult_some {value : Value} (canonical : value.Canonical) :
    CanonicalResult (some value) := by
  rintro _ ⟨⟩
  exact canonical

/-- No run ends by refusing a length that is within the capacity. -/
def Halt.Proper : Halt → Prop
  | .error (.fault (.makeLength len cap) _) => cap < len
  | _ => True

theorem proper_ofStorage (location : Location) (error : StorageError) :
    (Halt.error (.ofStorage location error)).Proper := by
  cases error <;> trivial

namespace Storage

variable {storage changed : Storage} {address : Address} {kind : Kind} {function : FunctionDef}

/-- What is known of the kind of a slot survives every computation. -/
theorem KindAt.exec {α : Type} {machine : Machine} (known : machine.storage.KindAt address kind)
    (run : Run α) [Run.Stepwise run] : (Run.exec run machine).2.storage.KindAt address kind := by
  refine Run.Stepwise.preserves run
    (fun machine after => machine.storage.KindAt address kind → after.storage.KindAt address kind)
    (fun _ => id) (fun _ _ _ first second known => second (first known)) ?_ machine known
  intro machine after step known
  cases step with
  | storage changed step => exact known.step step
  | record | tick | capture => exact known

/-- Through the reference only values of the kind may be put in the place of a whole slot. -/
def Suits (storage : Storage) (ref : SlotRef) (kind : Kind) : Prop :=
  ref.path = [] → storage.KindAt ref.address kind

/-- The current frame binds the named result of the function to a slot of its kind. -/
def BindsResult (storage : Storage) (function : FunctionDef) : Prop :=
  ∀ name kind, function.result = some ⟨some name, kind⟩ →
    ∃ address, storage.current.lookup name = some address ∧ storage.KindAt address kind

/-- A name was bound to a new slot of the kind. -/
structure Gains (storage changed : Storage) (name : String) (kind : Kind) : Prop where
  slot : ∃ address, changed.current.lookup name = some address ∧ changed.KindAt address kind
  others : ∀ other, other ≠ name → changed.current.lookup other = storage.current.lookup other
  known : ∀ {address kind}, storage.KindAt address kind → changed.KindAt address kind

theorem Regular.gains (regular : storage.Regular) (name : String) (site : Option SiteId)
    (placement : Placement) (value : Value) :
    storage.Gains (storage.declare name kind site placement value).2 name kind := by
  refine ⟨⟨_, ?_, regular.kindAt_declare name site placement value⟩, fun other apart => ?_,
    fun known => known.declare name kind site placement value⟩
  · rw [lookup_declare, if_pos rfl]
  · rw [lookup_declare, if_neg apart]

theorem BindsResult.gains {name : String} (binds : storage.BindsResult function)
    (gains : storage.Gains changed name kind)
    (apart : ∀ result, function.namedResult = some result → name ≠ result) :
    changed.BindsResult function := by
  intro result kind found
  obtain ⟨address, bound, known⟩ := binds result kind found
  have other : result ≠ name := (apart result (by simp [FunctionDef.namedResult, found])).symm
  exact ⟨address, (gains.others result other).trans bound, gains.known known⟩

end Storage

/-- A model whose boxes are tagged, and whose results are not declared again. -/
structure Typing where
  model : Model
  /-- The ends of a run after which nothing is said. -/
  Open : Halt → Prop
  tagged : ∀ {name function}, model.function? name = some function →
    ∀ stmt ∈ function.body, AllTagged stmt.parts
  taggedGlobals : ∀ decl ∈ model.globals, AllTagged decl.parts
  single : ∀ {name function}, model.function? name = some function →
    ∀ result, function.namedResult = some result →
      ∀ stmt ∈ function.body, ∀ decl, stmt.declared? = some decl → decl.name ≠ result

namespace Typing

variable {typing : Typing} {α β : Type}

/-- How a computation ends that was started in regular storage. -/
inductive Ends (typing : Typing) (post : Storage → α → Prop) : Except Halt α × Machine → Prop where
  | left_open {halt machine} (isOpen : typing.Open halt) : Ends typing post (.error halt, machine)
  | halted {halt machine} (proper : halt.Proper) (regular : machine.storage.Regular) :
      Ends typing post (.error halt, machine)
  | done {value machine} (regular : machine.storage.Regular)
      (result : post machine.storage value) : Ends typing post (.ok value, machine)

/-- The computation keeps storage regular, and what it hands back fits. -/
def Leads (typing : Typing) (before : Storage) (run : Run α) (post : Storage → α → Prop) : Prop :=
  ∀ machine : Machine, machine.storage = before → before.Regular →
    typing.Ends post (run.exec machine)

variable {before : Storage} {post post' : Storage → α → Prop} {posts : Storage → β → Prop}
  {location : Location} {address : Address} {kind : Kind} {function : FunctionDef} {ref : SlotRef}
  {value header key : Value}

namespace Leads

/-! ### Composition -/

theorem pure {value : α} (result : post before value) : typing.Leads before (pure value) post := by
  rintro machine rfl regular
  exact .done regular result

theorem throw {halt : Halt} (proper : halt.Proper) :
    typing.Leads before (throw halt : Run α) post := by
  rintro machine rfl regular
  exact .halted proper regular

theorem mismatch {reason : Mismatch} :
    typing.Leads before (mismatch location reason : Run α) post :=
  .throw trivial

theorem bind {first : Run α} {next : α → Run β} (start : typing.Leads before first post)
    (rest : ∀ {after value}, post after value → typing.Leads after (next value) posts) :
    typing.Leads before (first >>= next) posts := by
  intro machine here regular
  have ended := start machine here regular
  rw [exec_bind]
  generalize first.exec machine = last at ended
  cases ended with
  | left_open isOpen => exact .left_open isOpen
  | halted proper regular => exact .halted proper regular
  | @done value after regular result => exact rest result after rfl regular

theorem weaken {run : Run α} (leads : typing.Leads before run post)
    (weaker : ∀ {after value}, post after value → post' after value) :
    typing.Leads before run post' := by
  intro machine here regular
  have ended := leads machine here regular
  generalize run.exec machine = last at ended
  cases ended with
  | left_open isOpen => exact .left_open isOpen
  | halted proper regular => exact .halted proper regular
  | done regular result => exact .done regular (weaker result)

/-- What holds of every result may be added. -/
theorem also {run : Run α} {extra : Storage → α → Prop} (leads : typing.Leads before run post)
    (holds : ∀ machine value after, machine.storage = before →
      exec run machine = (.ok value, after) → extra after.storage value) :
    typing.Leads before run fun after value => extra after value ∧ post after value := by
  intro machine here regular
  have ended := leads machine here regular
  have adds := holds machine
  generalize run.exec machine = last at ended adds
  cases ended with
  | left_open isOpen => exact .left_open isOpen
  | halted proper regular => exact .halted proper regular
  | done regular result => exact .done regular ⟨adds _ _ here rfl, result⟩

/-- What may be stored through a reference stays known. -/
theorem suits {run : Run α} [Stepwise run] (leads : typing.Leads before run post)
    (suits : before.Suits ref kind) :
    typing.Leads before run fun after value => after.Suits ref kind ∧ post after value := by
  refine leads.also fun machine value after here ran whole => ?_
  subst here
  have kept := (suits whole).exec run
  rwa [ran] at kept

/-- What leaves the frames leaves the slot of the named result. -/
theorem bindsResult {run : Run α} [Stepwise run] (leads : typing.Leads before run post)
    (level : Level run) (binds : before.BindsResult function) :
    typing.Leads before run fun after value => after.BindsResult function ∧ post after value := by
  refine leads.also fun machine value after here ran => ?_
  subst here
  intro name kind found
  obtain ⟨address, bound, known⟩ := binds name kind found
  have kept := known.exec run
  rw [ran] at kept
  have same : after.storage.skeleton = machine.storage.skeleton := level machine value after ran
  exact ⟨address, (Storage.lookup_of_skeleton same name).trans bound, kept⟩

/-! ### Operations -/

theorem read {look : Storage → Except StorageError α}
    (found : ∀ value, before.Regular → look before = .ok value → post before value) :
    typing.Leads before (read location look) post := by
  rintro machine rfl regular
  rw [exec_read]
  cases seen : look machine.storage with
  | error error => exact .halted (proper_ofStorage location error) regular
  | ok value => exact .done regular (found value regular seen)

theorem readAny {look : Storage → Except StorageError α} :
    typing.Leads before (Run.read location look) fun _ _ => True :=
  .read fun _ _ _ => trivial

theorem update {change : Storage → Except StorageError (α × Storage)}
    (kept : ∀ result changed, before.Regular → change before = .ok (result, changed) →
      changed.Regular ∧ post changed result) :
    typing.Leads before (update location change) post := by
  rintro machine rfl regular
  rw [exec_update]
  cases made : change machine.storage with
  | error error => exact .halted (proper_ofStorage location error) regular
  | ok both =>
      obtain ⟨changed, result⟩ := kept both.1 both.2 regular made
      exact .done changed result

theorem write {change : Storage → Except StorageError Storage}
    (kept : ∀ changed, before.Regular → change before = .ok changed → changed.Regular) :
    typing.Leads before (write location change) fun _ _ => True := by
  rintro machine rfl regular
  rw [exec_write]
  cases made : change machine.storage with
  | error error => exact .halted (proper_ofStorage location error) regular
  | ok changed => exact .done (kept changed regular made) trivial

theorem allocate {change : Storage → α × Storage}
    (kept : before.Regular → (change before).2.Regular ∧ post (change before).2 (change before).1) :
    typing.Leads before (allocate change) post := by
  rintro machine rfl regular
  rw [exec_allocate]
  obtain ⟨changed, result⟩ := kept regular
  exact .done changed result

theorem silent {run : Run Unit} (silent : Silent run) :
    typing.Leads before run fun after _ => after = before := by
  rintro machine rfl regular
  obtain ⟨trace, done⟩ := silent machine
  rw [done]
  exact .done regular rfl

theorem lookup (name : String) : typing.Leads before (lookup name location) fun after ref =>
    after = before ∧ before.lookup name = some ref := by
  rintro machine rfl regular
  rw [exec_lookup]
  cases machine.storage.lookup name with
  | none => exact .halted trivial regular
  | some ref => exact .done regular ⟨rfl, rfl⟩

theorem load : typing.Leads before (load location ref) fun after value =>
    value.Canonical ∧ after.Suits ref value.kind :=
  .read fun _ regular loaded => regular.load loaded

theorem dereference : typing.Leads before (dereference location value) fun _ _ => True :=
  readAny

theorem store (canonical : value.Canonical) (suits : before.Suits ref value.kind) :
    typing.Leads before (store location ref value) fun _ _ => True :=
  .write fun _ regular stored => regular.store canonical suits stored

theorem element {index : Int} :
    typing.Leads before (Run.read location (·.element header index)) fun _ value =>
      value.Canonical :=
  .read fun _ regular found => regular.element found

theorem tableGet : typing.Leads before (Run.read location (·.tableGet header key)) fun _ found =>
    CanonicalResult found := by
  refine .read fun result regular found value here => ?_
  subst here
  exact regular.tableGet found

theorem reslice {low high : Nat} :
    typing.Leads before (Run.read location fun _ => Storage.reslice header low high)
      fun _ window => window.Canonical := by
  refine .read fun window _ cut => ?_
  obtain ⟨len, cap, offset, block, rfl⟩ := Storage.header_of_reslice cut
  exact Value.canonical_referenceHeader len cap offset block

theorem allocTable {entries : List (Value × Value)}
    (canonical : ∀ entry ∈ entries, entry.1.Canonical ∧ entry.2.Canonical) :
    typing.Leads before (Run.allocate (·.allocTable entries)) fun _ header => header.Canonical :=
  .allocate fun regular => ⟨regular.allocTable canonical, Value.canonical_keyValueHeader _⟩

theorem bindSlot {name : String} {site : SiteId} (canonical : value.Canonical)
    (fitting : value.kind = kind) :
    typing.Leads before (typing.model.bind name kind site value) fun after _ =>
      before.Gains after name kind := by
  unfold Model.bind
  have declared : typing.Leads before
      (Run.allocate (·.declare name kind (some site) (typing.model.placement site) value))
      fun after _ => before.Gains after name kind :=
    .allocate fun regular =>
      ⟨regular.declare name _ _ canonical fitting, regular.gains name _ _ value⟩
  refine declared.bind fun gains => (Leads.silent (silent_record _)).weaken ?_
  rintro _ _ rfl
  exact gains

theorem recordBehind :
    typing.Leads before (recordBehind header) fun after _ => after = before :=
  .silent (silent_recordBehind header)

theorem checkpoint : typing.Leads before (checkpoint location) fun after _ => after = before := by
  rintro machine rfl regular
  rw [Run.checkpoint, exec_bind, exec_modify]
  dsimp only
  rw [exec_bind, exec_get]
  dsimp only
  split
  · exact .halted trivial regular
  · exact .done regular rfl

theorem expectKind : typing.Leads before (expectKind location kind value) fun after _ =>
    after = before ∧ value.kind = kind := by
  unfold Run.expectKind
  split
  next same => exact .pure ⟨rfl, same⟩
  next => exact .mismatch

theorem checkArgumentCount {count : Nat} :
    typing.Leads before (checkArgumentCount location function count) fun _ _ => True := by
  unfold ReferenceSemantics.checkArgumentCount
  split
  · exact .pure trivial
  · exact .mismatch

theorem functionOf {name : String} :
    typing.Leads before (typing.model.function name location) fun _ function =>
      typing.model.function? name = some function := by
  unfold Model.function
  split
  next function found => exact .pure found
  next => exact .throw trivial

/-! ### Parts of evaluation -/

theorem flowInto {expr : Expr} {evaluated : Run Value}
    (leads : typing.Leads before evaluated fun _ value => value.Canonical) :
    typing.Leads before (flowInto location kind expr evaluated) fun _ value =>
      value.Canonical := by
  unfold ReferenceSemantics.flowInto
  split
  · split
    · exact .mismatch
    · exact .pure (Value.canonical_zero kind)
  · refine leads.bind fun canonical => .pure ?_
    split
    · exact canonical.inBox
    · exact canonical

theorem followPointer (canonical : value.Canonical) :
    typing.Leads before (followPointer location value) fun _ holder => holder.Canonical := by
  unfold ReferenceSemantics.followPointer
  split
  · exact dereference.bind fun _ => load.weaken And.left
  · exact .pure canonical

theorem selectField {name : String} (canonical : value.Canonical) :
    typing.Leads before (selectField location name value) fun _ inner => inner.Canonical := by
  unfold ReferenceSemantics.selectField
  split
  · split
    next found => exact .pure (canonical.lookup found)
    next => exact .throw trivial
  · exact .mismatch

theorem fieldRef {base : SlotRef} {name : String} :
    typing.Leads before (fieldRef location base name) fun _ _ => True := by
  have holder {found : Value} {before : Storage} :
      typing.Leads before (fieldHolder location base found) fun _ _ => True := by
    unfold fieldHolder
    split
    · exact .dereference
    · exact .pure trivial
    · exact .mismatch
  unfold ReferenceSemantics.fieldRef
  refine load.bind fun _ => holder.bind fun _ => load.bind fun _ => ?_
  unfold fieldOf
  split
  · exact load.bind fun _ => .pure trivial
  · exact .mismatch

theorem asInt : typing.Leads before (asInt location value) fun _ _ => True := by
  unfold ReferenceSemantics.asInt
  split
  · exact .pure trivial
  · exact .mismatch

theorem expectResult {callee : String} {result : Option Value}
    (canonical : CanonicalResult result) :
    typing.Leads before (expectResult location callee result) fun _ value => value.Canonical := by
  unfold ReferenceSemantics.expectResult
  split
  next value => exact .pure (canonical value rfl)
  next => exact .mismatch

theorem allocateNew {evaluator : Evaluator} {site : SiteId} (canonical : value.Canonical) :
    typing.Leads before (evaluator.allocateNew site value) fun _ pointer => pointer.Canonical := by
  unfold Evaluator.allocateNew
  have created : typing.Leads before (Run.allocate
      (·.allocate site value.kind (some site) (evaluator.model.placement site) value))
      fun _ _ => True :=
    .allocate fun regular => ⟨regular.allocate _ _ _ canonical rfl, trivial⟩
  refine created.bind fun _ => (Leads.silent (silent_record _)).bind fun _ => ?_
  exact .pure (Value.canonical_pointer _)

theorem allocBlock {cells : List Value} {len : Nat} {zero : Value}
    (canonical : ∀ cell ∈ cells, cell.Canonical) (zeroCanonical : zero.Canonical) :
    typing.Leads before (Run.allocate (·.allocBlock cells len zero)) fun _ header =>
      header.Canonical :=
  .allocate fun regular => ⟨regular.allocBlock len canonical zeroCanonical,
    Value.canonical_referenceHeader _ _ _ _⟩

theorem allocateSlice {cells : List Value} {capacity : Option Nat}
    (canonical : ∀ cell ∈ cells, cell.Canonical) :
    typing.Leads before (Evaluator.allocateSlice cells capacity) fun _ header =>
      header.Canonical := by
  unfold Evaluator.allocateSlice
  have zero : ((cells.head?.map Value.zeroLike).getD (.int 0)).Canonical := by
    cases cells with
    | nil => exact Value.canonical_primitive _
    | cons cell cells => exact Value.canonical_zeroLike cell
  refine (allocBlock (fun cell member => ?_) zero).bind fun header => ?_
  · rcases Storage.mem_padCells member with old | rfl
    · exact canonical cell old
    · exact zero
  · exact recordBehind.bind fun _ => .pure header

end Leads

end Typing

end ReferenceSemantics
