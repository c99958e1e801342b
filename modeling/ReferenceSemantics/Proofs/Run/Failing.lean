import ReferenceSemantics.Proofs.Run.Evaluation
import ReferenceSemantics.Proofs.Run.Lookups
import ReferenceSemantics.Proofs.Storage.Lenses

set_option autoImplicit false

/-!
Statements that fail.

Without calls, evaluation only adds to storage, and what a statement does depends on storage alone.
A write comes last, and an append that has written its block can store the header, because the place
of the header was read before. So a statement that fails has written nothing.
-/

namespace ReferenceSemantics

open Run

/-- What a computation does depends on storage only: it ends so and leaves the storage, and it adds
to the trace. -/
def Run.Acts {α : Type} (run : Run α) (storage : Storage) (result : Except Halt α)
    (changed : Storage) : Prop :=
  ∃ events, ∀ trace abort finals, exec run ⟨storage, trace, abort, finals⟩ =
    (result, ⟨changed, trace.recordAll events, abort, finals⟩)

namespace Run.Acts

variable {α β : Type} {storage middle changed : Storage}

theorem exec_eq {run : Run α} {result : Except Halt α} (acts : Acts run storage result changed)
    {machine : Machine} (started : machine.storage = storage) :
    (exec run machine).1 = result ∧ (exec run machine).2.storage = changed := by
  subst started
  obtain ⟨events, ran⟩ := acts
  rw [show exec run machine = _ from ran machine.trace machine.abort machine.finalValues]
  exact ⟨rfl, rfl⟩

/-- A computation that logs nothing. -/
theorem unlogged {run : Run α} {result : Except Halt α}
    (ran : ∀ trace abort finals, exec run ⟨storage, trace, abort, finals⟩ =
      (result, ⟨changed, trace, abort, finals⟩)) : Acts run storage result changed :=
  ⟨[], ran⟩

theorem bind {first : Run α} {next : α → Run β} {value : α} {result : Except Halt β}
    (start : Acts first storage (.ok value) middle)
    (rest : Acts (next value) middle result changed) :
    Acts (first >>= next) storage result changed := by
  obtain ⟨events, ran⟩ := start
  obtain ⟨later, ran'⟩ := rest
  refine ⟨events ++ later, fun trace abort finals => ?_⟩
  rw [exec_bind_ok value (ran trace abort finals), ran', Trace.recordAll_append]

theorem halted {first : Run α} {next : α → Run β} {halt : Halt}
    (stopped : Acts first storage (.error halt) changed) :
    Acts (first >>= next) storage (.error halt) changed := by
  obtain ⟨events, ran⟩ := stopped
  exact ⟨events, fun trace abort finals => exec_bind_error (ran trace abort finals)⟩

/-- What fails before its value is taken fails by itself. -/
theorem of_finish {first : Run α} {f : α → β} {halt : Halt}
    (acts : Acts (first >>= fun value => pure (f value)) storage (.error halt) changed) :
    Acts first storage (.error halt) changed := by
  obtain ⟨events, ran⟩ := acts
  refine ⟨events, fun trace abort finals => ?_⟩
  have whole := ran trace abort finals
  rw [exec_bind] at whole
  generalize exec first ⟨storage, trace, abort, finals⟩ = last at whole ⊢
  obtain ⟨result, reached⟩ := last
  cases result with
  | ok value => cases whole
  | error other =>
      cases whole
      rfl

/-- A failure of storage is one at the location. -/
theorem read (location : Location) (look : Storage → Except StorageError α) (storage : Storage) :
    Acts (read location look) storage
      ((look storage).mapError fun error => .error (.ofStorage location error)) storage := by
  refine unlogged fun trace abort finals => ?_
  rw [exec_read]
  cases look storage <;> rfl

/-- A change that fails changes nothing. -/
theorem update (location : Location) (change : Storage → Except StorageError (α × Storage))
    (storage : Storage) :
    Acts (update location change) storage
      (((change storage).map (·.1)).mapError fun error => .error (.ofStorage location error))
      (((change storage).map (·.2)).toOption.getD storage) := by
  refine unlogged fun trace abort finals => ?_
  rw [exec_update]
  cases change storage <;> rfl

theorem write (location : Location) (change : Storage → Except StorageError Storage)
    (storage : Storage) :
    Acts (write location change) storage
      (((change storage).map fun _ => ()).mapError fun error => .error (.ofStorage location error))
      ((change storage).toOption.getD storage) := by
  refine unlogged fun trace abort finals => ?_
  rw [exec_write]
  cases change storage <;> rfl

end Run.Acts

variable {invoke : Invocation} {location : Location} {calls : Prop}

/-- An evaluation without calls only adds to storage. -/
theorem Evaluates.acts {α : Type} {run : Run α} (evaluates : Evaluates invoke location calls run)
    (callFree : ¬ calls) (storage : Storage) :
    ∃ result changed, Acts run storage result changed ∧ storage.Adds changed := by
  induction evaluates generalizing storage with
  | pure value => exact ⟨.ok value, storage, .unlogged fun _ _ _ => rfl, .refl storage⟩
  | bind _ _ start rest =>
      obtain ⟨result, middle, acts, adds⟩ := start storage
      cases result with
      | error halt => exact ⟨.error halt, middle, acts.halted, adds⟩
      | ok value =>
          obtain ⟨last, changed, acts', adds'⟩ := rest value middle
          exact ⟨last, changed, acts.bind acts', adds.trans adds'⟩
  | @fail _ error here =>
      exact ⟨.error (.error error), storage, .unlogged fun _ _ _ => rfl, .refl storage⟩
  | read look => exact ⟨_, storage, .read location look storage, .refl storage⟩
  | lookup name =>
      cases found : storage.lookup name with
      | some ref =>
          refine ⟨.ok ref, storage, .unlogged fun _ _ _ => ?_, .refl storage⟩
          rw [exec_lookup, found]
      | none =>
          refine ⟨.error (.error (.undefinedVariable name location)), storage,
            .unlogged fun _ _ _ => ?_, .refl storage⟩
          rw [exec_lookup, found]
  | @create _ change adds _ =>
      exact ⟨.ok (change storage).1, (change storage).2, .unlogged fun _ _ _ => rfl, adds storage⟩
  | @record event plain => exact ⟨.ok (), storage, ⟨[event], fun _ _ _ => rfl⟩, .refl storage⟩
  | invoke permitted => exact absurd permitted callFree

/-! ### Appends -/

namespace Storage

variable {storage changed : Storage}

theorem load_of_slot {ref : SlotRef} {old : Value} (loaded : storage.load ref = .ok old)
    (kept : ∀ slot, storage.slot ref.address = .ok slot → changed.slot ref.address = .ok slot) :
    changed.load ref = .ok old := by
  obtain ⟨slot, read, found⟩ := load_eq_ok.mp loaded
  exact load_eq_ok.mpr ⟨slot, kept slot read, found⟩

/-- Another heap with the same slot leaves the slot at its address. -/
theorem slot_of_heap {heap : Heap} {address : Address} {slot : Slot}
    (kept : storage.heap.get? address = some (.slot slot) → heap.get? address = some (.slot slot))
    (read : storage.slot address = .ok slot) :
    ({ storage with heap } : Storage).slot address = .ok slot := by
  rw [slot_ok_iff, objectAt?] at read ⊢
  have stack : ({ storage with heap } : Storage).stackSlot? address = storage.stackSlot? address :=
    rfl
  rw [stack]
  cases owned : storage.stackSlot? address with
  | some slot =>
      rw [owned] at read
      exact read
  | none =>
      rw [owned] at read
      exact kept read

/-- An append changes no slot. -/
theorem slot_append {header grown : Value} {values : List Value} {address : Address} {slot : Slot}
    (appended : storage.append header values = .ok (grown, changed))
    (read : storage.slot address = .ok slot) : changed.slot address = .ok slot := by
  have pushed (object : HeapObject) (found : storage.heap.get? address = some (.slot slot)) :
      (storage.heap.push object).get? address = some (.slot slot) :=
    Heap.get?_of_isPrefix (Adds.push storage object).heap found
  cases append_eq_ok appended with
  | nothing => exact read
  | inPlace len cap offset block old values found room =>
      refine slot_of_heap (fun inHeap => ?_) read
      rw [block_eq_ok_iff] at found
      have other : address ≠ block := by
        rintro rfl
        cases found.symm.trans inHeap
      rw [Heap.get?_set _ address found, if_neg other, inHeap]
  | grown => exact slot_of_heap (pushed _) read
  | first => exact slot_of_heap (pushed _) read

end Storage

namespace Run

/-- Only the trace is written. -/
theorem Acts.recordMove (header moved : Value) (storage : Storage) :
    Acts (recordMove header moved) storage (.ok ()) storage := by
  have nothing : Acts (pure () : Run Unit) storage (.ok ()) storage := .unlogged fun _ _ _ => rfl
  unfold Run.recordMove recordBehind
  split
  · split
    · exact ⟨[_], fun _ _ _ => rfl⟩
    · exact nothing
  · exact nothing

end Run

/-- The operands of an append are the header that its place still holds and the values. -/
theorem Evaluator.appendOperands_acts {model : Model} {target : Place} {values : List Expr}
    (permits : Permits calls (target.parts ++ partsOfExprs values)) (callFree : ¬ calls)
    (storage : Storage) :
    ∃ result changed, Acts (Evaluator.appendOperands ⟨model, invoke⟩ location target values) storage
        result changed ∧ storage.Adds changed ∧
      ∀ taken, result = .ok taken → changed.Fits → changed.load taken.ref = .ok taken.header := by
  obtain ⟨first, rest⟩ := permits_append.mp permits
  obtain ⟨placed, found, acts, adds⟩ :=
    (placeRef_evaluates invoke location model target first).acts callFree storage
  unfold appendOperands
  cases placed with
  | error halt => exact ⟨.error halt, found, acts.halted, adds, nofun⟩
  | ok ref =>
      have loads := Acts.read location (·.load ref) found
      cases loaded : found.load ref with
      | error error =>
          rw [loaded] at loads
          exact ⟨_, found, acts.bind loads.halted, adds, nofun⟩
      | ok header =>
          rw [loaded] at loads
          have others : Evaluates invoke location calls (do
              let kind ← Run.read location (·.elementKind header)
              Evaluator.evaluateElements ⟨model, invoke⟩ location kind values) :=
            .bind (.read _) fun kind => evaluateElements_evaluates model kind values rest
          obtain ⟨evaluated, changed, acts', adds'⟩ := others.acts callFree found
          cases evaluated with
          | error halt =>
              refine ⟨.error halt, changed, acts.bind (loads.bind ?_), adds.trans adds', nofun⟩
              rw [← bind_assoc]
              exact acts'.halted
          | ok values =>
              refine ⟨.ok ⟨ref, header, values⟩, changed, acts.bind (loads.bind ?_),
                adds.trans adds', ?_⟩
              · rw [← bind_assoc]
                exact acts'.bind (.unlogged fun _ _ _ => rfl)
              · rintro _ ⟨⟩ fits
                exact Storage.load_of_slot loaded fun slot => adds'.slot fits

/-- An append that fails has only evaluated its operands. -/
theorem Evaluator.append_acts {model : Model} {target : Place} {values : List Expr}
    (permits : Permits calls (target.parts ++ partsOfExprs values)) (callFree : ¬ calls)
    (storage : Storage) :
    ∃ result changed,
      Acts (Evaluator.append ⟨model, invoke⟩ location target values) storage result changed ∧
        ∀ halt, result = .error halt → changed.Fits → storage.Adds changed := by
  have operands : ∃ result middle,
      Acts (Evaluator.appendOperands ⟨model, invoke⟩ location target values) storage result middle ∧
        storage.Adds middle ∧
      ∀ taken, result = .ok taken → middle.Fits → middle.load taken.ref = .ok taken.header :=
    appendOperands_acts permits callFree storage
  obtain ⟨result, middle, acts, adds, held⟩ := operands
  unfold append
  cases result with
  | error halt => exact ⟨.error halt, middle, acts.halted, fun _ _ _ => adds⟩
  | ok taken =>
      obtain ⟨ref, header, values⟩ := taken
      have updates := Acts.update location (·.append header values) middle
      cases appended : middle.append header values with
      | error error =>
          rw [appended] at updates
          exact ⟨_, middle, acts.bind updates.halted, fun _ _ _ => adds⟩
      | ok both =>
          obtain ⟨grown, changed⟩ := both
          rw [appended] at updates
          have moves := Acts.recordMove header grown changed
          have writes := Acts.write location (·.store ref grown) changed
          refine ⟨_, _, acts.bind (updates.bind (moves.bind writes)), ?_⟩
          -- The header was loaded from this place, so that one can be stored there.
          cases stored : changed.store ref grown with
          | ok after => exact nofun
          | error error =>
              intro halt _ fits
              have room : middle.Fits := by
                cases Storage.append_eq_ok appended <;> exact fits
              have loaded : changed.load ref = .ok header :=
                Storage.load_of_slot (held _ rfl room) fun slot => Storage.slot_append appended
              obtain ⟨after, stores⟩ := Storage.store_of_load loaded grown
              cases stored.symm.trans stores

/-- A statement that fails without calls has only added to storage. -/
theorem Settles.acts {model : Model} {α : Type} {run : Run α}
    (settles : Settles ⟨model, invoke⟩ location calls run) (callFree : ¬ calls)
    (storage : Storage) :
    ∃ result changed, Acts run storage result changed ∧
      ∀ halt, result = .error halt → changed.Fits → storage.Adds changed := by
  induction settles generalizing storage with
  | evaluates whole =>
      obtain ⟨result, changed, acts, adds⟩ := whole.acts callFree storage
      exact ⟨result, changed, acts, fun _ _ _ => adds⟩
  | after start _ rest =>
      obtain ⟨result, middle, acts, adds⟩ := start.acts callFree storage
      cases result with
      | error halt => exact ⟨.error halt, middle, acts.halted, fun _ _ _ => adds⟩
      | ok value =>
          obtain ⟨last, changed, acts', kept⟩ := rest value middle
          exact ⟨last, changed, acts.bind acts', fun halt failed fits =>
            adds.trans (kept halt failed fits)⟩
  | finish _ f start =>
      obtain ⟨result, changed, acts, kept⟩ := start storage
      cases result with
      | error halt => exact ⟨.error halt, changed, acts.halted, fun _ _ => kept halt rfl⟩
      | ok value => exact ⟨_, changed, acts.bind (.unlogged fun _ _ _ => rfl), nofun⟩
  | @write change kept =>
      refine ⟨_, _, .write location change storage, ?_⟩
      cases change storage with
      | ok changed => exact nofun
      | error error => exact fun _ _ _ => .refl storage
  | declare name kind site placement value =>
      let declared := storage.declare name kind site placement value
      exact ⟨.ok (), declared.2, ⟨[.alloc site declared.1.address placement], fun _ _ _ => rfl⟩,
        nofun⟩
  | append permits => exact Evaluator.append_acts permits callFree storage

/-! ### What stands at a location -/

namespace Task

/-- The functions that are called in a statement or in an initialiser, at any depth. -/
def callees : Task → List String
  | statement _ stmt => stmt.callees
  | initialiser decl => decl.parts.filterMap Expr.callee?

variable {task : Task} {model : Model}

/-- Without calls it does not matter how they are run. -/
theorem run_eq (callFree : task.callees = []) (invoke invoke' : Invocation) (location : Location) :
    task.run ⟨model, invoke⟩ location = task.run ⟨model, invoke'⟩ location := by
  let pairing : Pairing := ⟨model, invoke, invoke', fun _ _ => True, (· ∈ task.callees), True⟩
  have absent : ∀ callee, ¬ pairing.calls callee := by
    intro callee
    show callee ∉ task.callees
    rw [callFree]
    exact List.not_mem_nil
  have alike : pairing.Alike (task.run ⟨model, invoke⟩ location)
      (task.run ⟨model, invoke'⟩ location) := by
    cases task with
    | statement function stmt =>
        have admits : pairing.AdmitsStmt location stmt := ⟨fun _ _ => trivial, fun _ => id⟩
        exact (Pairing.execute_alike (fun _ => trivial) (fun _ _ => trivial) admits).bind
          fun _ => .pure ()
    | initialiser decl =>
        refine Pairing.declareGlobal_alike trivial fun part member =>
          ⟨fun _ _ => trivial, fun callee called => ?_⟩
        exact List.mem_filterMap.mpr ⟨part, member, called⟩
  exact alike.eq fun called _ => absurd called (absent _)

theorem permits_of_callFree {parts : List Expr} (callFree : parts.filterMap Expr.callee? = []) :
    Permits False parts := by
  intro part member called
  obtain ⟨callee, same⟩ := Option.isSome_iff_exists.mp called
  exact List.not_mem_nil (callFree ▸ List.mem_filterMap.mpr ⟨part, member, same⟩)

theorem settles (callFree : task.callees = []) (invoke : Invocation) (location : Location) :
    Settles ⟨model, invoke⟩ location False (task.run ⟨model, invoke⟩ location) := by
  cases task with
  | statement function stmt =>
      have uncalled : ∀ callee args, stmt ≠ .call callee args := by
        rintro callee args rfl
        cases callFree
      have parts : stmt.parts.filterMap Expr.callee? = [] := by
        cases stmt <;> first | exact callFree | exact absurd rfl (uncalled _ _)
      have executes : Settles ⟨model, invoke⟩ location False
          (Evaluator.execute ⟨model, invoke⟩ function location stmt) :=
        Evaluator.execute_settles function (permits_of_callFree parts) uncalled
      exact executes.finish fun _ => ()
  | initialiser decl => exact Evaluator.declareGlobal_settles (permits_of_callFree callFree)

/-- A statement or an initialiser that fails without calls has only added to storage. -/
theorem acts (callFree : task.callees = []) (invoke : Invocation) (location : Location)
    (storage : Storage) :
    ∃ result changed, Acts (task.run ⟨model, invoke⟩ location) storage result changed ∧
      ∀ halt, result = .error halt → changed.Fits → storage.Adds changed :=
  (settles callFree invoke location).acts id storage

end Task

end ReferenceSemantics
