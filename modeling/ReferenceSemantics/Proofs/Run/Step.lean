import Mathlib.Logic.Relation
import ReferenceSemantics.Proofs.Storage.Operations
import ReferenceSemantics.Run.Simulator

set_option autoImplicit false

/-!
The elementary changes of a machine.

Every computation of the interpreter moves the machine by finitely many of a few elementary steps,
whether it succeeds or fails. What every step preserves is therefore preserved by every run.
-/

namespace ReferenceSemantics

/-- An elementary change of storage. -/
inductive Storage.Step (storage : Storage) : Storage → Prop where
  | setSlot (address : Address) (slot : Slot) (value : Value)
      (read : storage.slot address = .ok slot) :
      Step storage (storage.setSlot address { slot with value })
  | setBlock (address : Address) (block : Block) (cells : List Value)
      (read : storage.block address = .ok block) (size : cells.length = block.cells.length) :
      Step storage
        { storage with heap := storage.heap.set address (.block { block with cells }) }
  | setTable (address : Address) (table new : Table) (read : storage.table address = .ok table) :
      Step storage { storage with heap := storage.heap.set address (.table new) }
  | addBlock (block : Block) :
      Step storage { storage with heap := storage.heap.push (.block block) }
  | addTable (table : Table) :
      Step storage { storage with heap := storage.heap.push (.table table) }
  | allocate (name : String) (kind : Kind) (site : Option SiteId) (placement : Placement)
      (value : Value) : Step storage (storage.allocate name kind site placement value).2
  | declare (name : String) (kind : Kind) (site : Option SiteId) (placement : Placement)
      (value : Value) : Step storage (storage.declare name kind site placement value).2
  | pushFrame (function : String) (callSite : Option Location) :
      Step storage (storage.pushFrame function callSite)
  | popFrame : Step storage storage.popFrame
  | sweep : Step storage storage.sweep.2

/-- An elementary change of a machine. -/
inductive Machine.Step (machine : Machine) : Machine → Prop where
  | storage (changed : Storage) (step : machine.storage.Step changed) :
      Step machine { machine with storage := changed }
  | record (event : TraceEvent) (regular : event.faultKind? = none) :
      Step machine { machine with trace := machine.trace.record event }
  | tick : Step machine { machine with abort := machine.abort.tick }
  | capture (values : NameMap Value) : Step machine { machine with finalValues := values }

/-- Some elementary changes, one after the other. -/
abbrev Machine.Steps (start finish : Machine) : Prop :=
  Relation.ReflTransGen Machine.Step start finish

/-- The fault that a run was stopped by. -/
def Halt.faultKind? : Halt → Option FaultKind
  | error cause => cause.faultKind?
  | _ => none

/-- The fault that a computation ended in. -/
def Run.faultKind? {α : Type} : Except Halt α → Option FaultKind
  | .ok _ => none
  | .error halt => halt.faultKind?

namespace Run

variable {α β : Type}

/-- The result of a computation and the machine it leaves. -/
def exec (run : Run α) (machine : Machine) : Except Halt α × Machine := run.run.run machine

@[simp]
theorem exec_pure (value : α) (machine : Machine) :
    exec (pure value : Run α) machine = (.ok value, machine) := rfl

@[simp]
theorem exec_throw (halt : Halt) (machine : Machine) :
    exec (throw halt : Run α) machine = (.error halt, machine) := rfl

@[simp]
theorem exec_fail (error : RuntimeError) (machine : Machine) :
    exec (fail error : Run α) machine = (.error (.error error), machine) := rfl

theorem exec_bind (first : Run α) (next : α → Run β) (machine : Machine) :
    exec (first >>= next) machine =
      match exec first machine with
      | (.ok value, after) => exec (next value) after
      | (.error halt, after) => (.error halt, after) := by
  unfold exec ExceptT.run StateT.run
  simp only [bind, ExceptT.bind, ExceptT.mk, StateT.bind, ExceptT.bindCont]
  cases first machine with
  | mk result after => cases result <;> rfl

theorem exec_bind_ok {first : Run α} {next : α → Run β} {machine after : Machine} (value : α)
    (done : exec first machine = (.ok value, after)) :
    exec (first >>= next) machine = exec (next value) after := by
  rw [exec_bind, done]

theorem exec_bind_error {first : Run α} {next : α → Run β} {machine after : Machine} {halt : Halt}
    (stopped : exec first machine = (.error halt, after)) :
    exec (first >>= next) machine = (.error halt, after) := by
  rw [exec_bind, stopped]

theorem ok_of_bind {first : Run α} {next : α → Run β} {machine after : Machine} {result : β}
    (ran : exec (first >>= next) machine = (.ok result, after)) :
    ∃ value middle, exec first machine = (.ok value, middle) ∧
      exec (next value) middle = (.ok result, after) := by
  rw [exec_bind] at ran
  generalize exec first machine = reached at ran
  obtain ⟨outcome, middle⟩ := reached
  cases outcome with
  | error halt => cases ran
  | ok value => exact ⟨value, middle, rfl, ran⟩

theorem error_of_bind {first : Run α} {next : α → Run β} {machine after : Machine} {halt : Halt}
    (halted : exec (first >>= next) machine = (.error halt, after)) :
    exec first machine = (.error halt, after) ∨ ∃ value middle,
      exec first machine = (.ok value, middle) ∧
        exec (next value) middle = (.error halt, after) := by
  rw [exec_bind] at halted
  generalize exec first machine = reached at halted
  obtain ⟨outcome, middle⟩ := reached
  cases outcome with
  | error other =>
      cases halted
      exact .inl rfl
  | ok value => exact .inr ⟨value, middle, rfl, halted⟩

@[simp]
theorem exec_get (machine : Machine) : exec get machine = (.ok machine, machine) := rfl

@[simp]
theorem exec_modify (change : Machine → Machine) (machine : Machine) :
    exec (modify change) machine = (.ok (), change machine) := rfl

theorem exec_read (location : Location) (look : Storage → Except StorageError α)
    (machine : Machine) :
    exec (read location look) machine =
      match look machine.storage with
      | .ok result => (.ok result, machine)
      | .error error => (.error (.error (.ofStorage location error)), machine) := by
  rw [read, exec_bind, exec_get]
  dsimp only
  cases look machine.storage <;> rfl

theorem exec_write (location : Location) (change : Storage → Except StorageError Storage)
    (machine : Machine) :
    exec (write location change) machine =
      match change machine.storage with
      | .ok storage => (.ok (), { machine with storage })
      | .error error => (.error (.error (.ofStorage location error)), machine) := by
  rw [write, exec_bind, exec_read]
  cases change machine.storage <;> rfl

theorem exec_update (location : Location)
    (change : Storage → Except StorageError (α × Storage)) (machine : Machine) :
    exec (update location change) machine =
      match change machine.storage with
      | .ok (result, storage) => (.ok result, { machine with storage })
      | .error error => (.error (.error (.ofStorage location error)), machine) := by
  rw [update, exec_bind, exec_read]
  cases change machine.storage <;> rfl

@[simp]
theorem exec_allocate (change : Storage → α × Storage) (machine : Machine) :
    exec (allocate change) machine =
      (.ok (change machine.storage).1, { machine with storage := (change machine.storage).2 }) :=
  rfl

@[simp]
theorem exec_record (event : TraceEvent) (machine : Machine) :
    exec (record event) machine = (.ok (), { machine with trace := machine.trace.record event }) :=
  rfl

theorem exec_lookup (name : String) (location : Location) (machine : Machine) :
    exec (lookup name location) machine =
      match machine.storage.lookup name with
      | some ref => (.ok ref, machine)
      | none => (.error (.error (.undefinedVariable name location)), machine) := by
  rw [lookup, exec_bind, exec_get]
  dsimp only
  cases machine.storage.lookup name <;> rfl

/-- A computation that only moves the machine by elementary steps. -/
class Stepwise (run : Run α) : Prop where
  steps : ∀ machine : Machine, machine.Steps (exec run machine).2

theorem steps (run : Run α) [Stepwise run] (machine : Machine) :
    machine.Steps (exec run machine).2 :=
  Stepwise.steps machine

/-! ### The steps of single operations -/

instance (value : α) : Stepwise (pure value : Run α) := ⟨fun _ => .refl⟩

instance (halt : Halt) : Stepwise (throw halt : Run α) := ⟨fun _ => .refl⟩

instance (error : RuntimeError) : Stepwise (fail error : Run α) := ⟨fun _ => .refl⟩

instance (location : Location) (reason : Mismatch) :
    Stepwise (mismatch location reason : Run α) := ⟨fun _ => .refl⟩

instance : Stepwise (get : Run Machine) := ⟨fun _ => .refl⟩

instance (first : Run α) (next : α → Run β) [Stepwise first] [∀ value, Stepwise (next value)] :
    Stepwise (first >>= next) where
  steps machine := by
    have before := Run.steps first machine
    rw [exec_bind]
    cases reached : exec first machine with
    | mk result after =>
        rw [reached] at before
        cases result with
        | error halt => exact before
        | ok value => exact before.trans (Run.steps (next value) after)

instance (f : α → β) (run : Run α) [Stepwise run] : Stepwise (f <$> run) := by
  rw [map_eq_pure_bind]
  infer_instance

instance (condition : Prop) [Decidable condition] (first second : Run α) [Stepwise first]
    [Stepwise second] : Stepwise (if condition then first else second) := by
  split <;> infer_instance

instance (location : Location) (look : Storage → Except StorageError α) :
    Stepwise (read location look) where
  steps machine := by
    rw [exec_read]
    cases look machine.storage <;> exact .refl

instance (name : String) (location : Location) : Stepwise (lookup name location) where
  steps machine := by
    rw [exec_lookup]
    cases machine.storage.lookup name <;> exact .refl

instance (location : Location) (ref : SlotRef) : Stepwise (load location ref) :=
  inferInstanceAs (Stepwise (read _ _))

instance (location : Location) (pointer : Value) : Stepwise (dereference location pointer) :=
  inferInstanceAs (Stepwise (read _ _))

theorem stepwise_write {location : Location} {change : Storage → Except StorageError Storage}
    (step : ∀ storage changed : Storage, change storage = .ok changed → storage.Step changed) :
    Stepwise (write location change) where
  steps machine := by
    rw [exec_write]
    cases result : change machine.storage with
    | error error => exact .refl
    | ok changed => exact .single (.storage changed (step _ _ result))

theorem stepwise_allocate {change : Storage → α × Storage}
    (step : ∀ storage : Storage, storage.Step (change storage).2) :
    Stepwise (allocate change) where
  steps machine := .single (.storage _ (step machine.storage))

instance (location : Location) (ref : SlotRef) (value : Value) :
    Stepwise (store location ref value) :=
  stepwise_write fun storage changed stored => by
    obtain ⟨slot, whole, read, -, rfl⟩ := Storage.store_eq_ok.mp stored
    exact .setSlot ref.address slot whole read

instance (location : Location) (header value : Value) (index : Int) :
    Stepwise (write location (·.setElement header index value)) :=
  stepwise_write fun storage changed stored => by
    obtain ⟨address, cell, block, -, read, -, rfl⟩ := Storage.setElement_eq_ok.mp stored
    exact .setBlock address block _ read (List.length_set)

instance (location : Location) (header key value : Value) :
    Stepwise (write location (·.tableInsert header key value)) :=
  stepwise_write fun storage changed stored => by
    obtain ⟨address, table, -, read, rfl⟩ := Storage.tableInsert_eq_ok.mp stored
    exact .setTable address table _ read

instance (location : Location) (header : Value) (values : List Value) :
    Stepwise (update location (·.append header values)) where
  steps machine := by
    rw [exec_update]
    cases result : machine.storage.append header values with
    | error error => exact .refl
    | ok appended =>
        obtain ⟨grown, changed⟩ := appended
        dsimp only
        have appends := Storage.append_eq_ok result
        generalize start : machine.storage = storage at appends
        cases appends with
        | nothing len cap offset block =>
            subst start
            exact .refl
        | inPlace len cap offset address block values read room =>
            subst start
            exact .single (.storage _ (.setBlock address block _ read
              (Storage.length_overwrite _ _ _)))
        | grown len cap offset address block values cells read full filled =>
            subst start
            exact .single (.storage _ (.addBlock _))
        | first len cap offset value values cells filled =>
            subst start
            exact .single (.storage _ (.addBlock _))

instance (cells : List Value) (len : Nat) (zero : Value) :
    Stepwise (allocate (·.allocBlock cells len zero)) :=
  stepwise_allocate fun _ => .addBlock _

instance (entries : List (Value × Value)) : Stepwise (allocate (·.allocTable entries)) :=
  stepwise_allocate fun _ => .addTable _

instance (name : String) (kind : Kind) (site : Option SiteId) (placement : Placement)
    (value : Value) : Stepwise (allocate (·.allocate name kind site placement value)) :=
  stepwise_allocate fun _ => .allocate name kind site placement value

instance (name : String) (kind : Kind) (site : Option SiteId) (placement : Placement)
    (value : Value) : Stepwise (allocate (·.declare name kind site placement value)) :=
  stepwise_allocate fun _ => .declare name kind site placement value

theorem stepwise_record {event : TraceEvent} (regular : event.faultKind? = none) :
    Stepwise (record event) :=
  ⟨fun _ => .single (.record event regular)⟩

instance (location : Location) : Stepwise (record (.statement location)) := stepwise_record rfl

instance (function : String) (state : CallState) (depth : Nat) :
    Stepwise (record (.call function state depth)) :=
  stepwise_record rfl

instance (site : Option SiteId) (address : Address) (placement : Placement) :
    Stepwise (record (.alloc site address placement)) :=
  stepwise_record rfl

instance (unreachable : Nat) : Stepwise (record (.sweep unreachable)) := stepwise_record rfl

instance (function : String) (callSite : Option Location) :
    Stepwise (pushFrame function callSite) :=
  ⟨fun _ => .single (.storage _ (.pushFrame function callSite))⟩

instance : Stepwise popFrame := ⟨fun _ => .single (.storage _ .popFrame)⟩

instance : Stepwise capture := ⟨fun _ => .single (.capture _)⟩

instance : Stepwise sweep := by
  unfold sweep
  have swept : Stepwise (allocate Storage.sweep) := stepwise_allocate fun _ => .sweep
  infer_instance

instance (location : Location) (kind : Kind) (value : Value) :
    Stepwise (expectKind location kind value) := by
  unfold expectKind
  infer_instance

instance (header : Value) : Stepwise (recordBehind header) := by
  unfold recordBehind
  split <;> infer_instance

instance (header moved : Value) : Stepwise (recordMove header moved) := by
  unfold recordMove
  infer_instance

instance (location : Location) : Stepwise (checkpoint location) := by
  have tick : Stepwise
      (modify fun machine => { machine with abort := machine.abort.tick } : Run Unit) :=
    ⟨fun _ => .single .tick⟩
  unfold checkpoint
  infer_instance

instance (function : String) (state : CallState) : Stepwise (transition function state) := by
  unfold transition
  infer_instance

/-! ### The trace -/

/-- A computation that at most adds to the trace. -/
def Silent (run : Run Unit) : Prop :=
  ∀ machine, ∃ trace, run.exec machine = (.ok (), { machine with trace })

theorem silent_record (event : TraceEvent) : Silent (record event) :=
  fun machine => ⟨machine.trace.record event, rfl⟩

theorem silent_recordBehind (header : Value) : Silent (recordBehind header) := by
  unfold recordBehind
  split
  · exact silent_record _
  · exact fun machine => ⟨machine.trace, rfl⟩

theorem silent_when (condition : Prop) [Decidable condition] {run : Run Unit}
    (silent : Silent run) : Silent (if condition then run else pure ()) := by
  split
  · exact silent
  · exact fun machine => ⟨machine.trace, rfl⟩

theorem silent_recordMove (header moved : Value) : Silent (recordMove header moved) :=
  silent_when _ (silent_recordBehind moved)

theorem silent_transition (function : String) (state : CallState) :
    Silent (transition function state) := by
  intro machine
  refine ⟨machine.trace.record (.call function state (machine.storage.depth - 1)), ?_⟩
  rw [transition, exec_bind]
  rfl

end Run

end ReferenceSemantics
