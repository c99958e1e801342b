import ReferenceSemantics.Proofs.Run.Guarded
import ReferenceSemantics.Proofs.Storage.Filled

set_option autoImplicit false

/-!
Properties of the heap that last through runs.

A property that new objects and new contents of slots leave alone can only be lost where a statement
writes into a block or a table. If those statements keep it, it lasts: however a run ends, it is
kept, and what goes on from where a run was stopped keeps it as well. The guard on the writes into
containers can set stops apart after which this is not to be shown.
-/

namespace ReferenceSemantics

open Run AbortSignal

/-- The two ends of a computation under two signals of which the second is ahead. They are the same,
or the first was stopped, and then the property lasts from there to the second end. Masked stops
promise nothing. -/
inductive Later (holds : Heap → Prop) {α : Type} :
    Except Halt α × Machine → Except Halt α × Machine → Prop where
  | same {result : Except Halt α} {storage : Storage} {trace : Trace} {finals : NameMap Value}
      {signal signal' : AbortSignal} (ahead : Ahead signal signal') :
      Later holds (result, ⟨storage, trace, signal, finals⟩)
        (result, ⟨storage, trace, signal', finals⟩)
  | stopped {location : Location} {stopped : Machine} {last : Except Halt α × Machine}
      (lasts : holds stopped.storage.heap → holds last.2.storage.heap) :
      Later holds (.error (.aborted location), stopped) last
  | masked {stopped : Machine} {last : Except Halt α × Machine} :
      Later holds (.error .callDepthExceeded, stopped) last

namespace Run

variable {holds : Heap → Prop} {α β : Type} {before : Storage} {location : Location}

/-- Started on some storage, the computation keeps the property, and so does what comes after a
stop. -/
structure LastsFrom (holds : Heap → Prop) (before : Storage) (run : Run α) : Prop where
  keeps : ∀ machine, machine.storage = before → holds machine.storage.heap →
    holds (exec run machine).2.storage.heap
  later : ∀ machine signal', machine.storage = before → Ahead machine.abort signal' →
    Later holds (exec run machine) (exec run { machine with abort := signal' })

/-- The property lasts through the computation. -/
def Lasts (holds : Heap → Prop) (run : Run α) : Prop := ∀ before, LastsFrom holds before run

namespace LastsFrom

theorem straight {run : Run α} (unstopped : Unstopped run)
    (keeps : ∀ machine, machine.storage = before → holds machine.storage.heap →
      holds (exec run machine).2.storage.heap) : LastsFrom holds before run := by
  refine ⟨keeps, ?_⟩
  rintro ⟨storage, trace, signal, finals⟩ signal' - ahead
  obtain ⟨result, changed, trace', finals', -, ran⟩ := unstopped storage trace finals
  rw [ran, ran]
  exact .same ahead

/-- What comes later may use what is known of the storage that is reached. -/
theorem bind_of_exec {first : Run α} {next : α → Run β} (start : LastsFrom holds before first)
    (rest : ∀ machine value reached, machine.storage = before →
      exec first machine = (.ok value, reached) →
        LastsFrom holds reached.storage (next value)) :
    LastsFrom holds before (first >>= next) := by
  -- the second computation keeps what the first one left, under any signal
  have onward (machine : Machine) (started : machine.storage = before)
      (middle : holds (exec first machine).2.storage.heap) :
      holds (exec (first >>= next) machine).2.storage.heap := by
    rw [exec_bind]
    generalize ran : exec first machine = reached at middle
    obtain ⟨result, after⟩ := reached
    cases result with
    | error halt => exact middle
    | ok value => exact (rest machine value after started ran).keeps after rfl middle
  refine ⟨fun machine started held => onward machine started (start.keeps machine started held),
    fun machine signal' started ahead => ?_⟩
  have here := start.later machine signal' started ahead
  have resumed := onward { machine with abort := signal' } started
  rw [exec_bind]
  generalize ran : exec first machine = last at here
  generalize ran' : exec first { machine with abort := signal' } = last' at here resumed
  cases here with
  | @same result storage trace finals signal signal' ahead =>
      rw [exec_bind, ran']
      cases result with
      | error halt => exact .same ahead
      | ok value => exact (rest machine value _ started ran).later _ signal' rfl ahead
  | stopped lasts => exact .stopped fun held => resumed (lasts held)
  | masked => exact .masked

/-- Masked, a stop promises nothing. So where the property does not hold, it does not matter what is
done with the result. -/
theorem masked_bind {run : Run α} {next : α → Run β} (lasts : Lasts holds run)
    (absent : ¬ holds before.heap) (straight : ∀ value, Unstopped (next value)) :
    LastsFrom holds before (run.masked >>= next) := by
  refine ⟨?_, fun machine signal' started ahead => ?_⟩
  · rintro machine rfl held
    exact absurd held absent
  · have here := (lasts before).later machine signal' started ahead
    rw [exec_bind, exec_bind, exec_masked, exec_masked]
    generalize exec run machine = last at here
    generalize exec run { machine with abort := signal' } = last' at here
    cases here with
    | @same result storage trace finals signal signal' ahead =>
        cases result with
        | error halt => exact .same ahead
        | ok value =>
            obtain ⟨result, changed, trace', finals', -, ran⟩ :=
              straight value storage trace finals
            simp only [Except.mapError, ran]
            exact .same ahead
    | stopped => exact .masked
    | masked => exact .masked

end LastsFrom

namespace Lasts

theorem keeps {run : Run α} (lasts : Lasts holds run) : Keeps holds run :=
  fun machine held => (lasts machine.storage).keeps machine rfl held

theorem straight {run : Run α} (unstopped : Unstopped run) (keeps : Keeps holds run) :
    Lasts holds run :=
  fun _ => .straight unstopped fun machine _ => keeps machine

theorem quiet {run : Run α} [Quiet run] (keeps : Keeps holds run) : Lasts holds run :=
  straight (.quiet run) keeps

theorem pure (value : α) : Lasts holds (Pure.pure value : Run α) := quiet (.pure value)

theorem fail (error : RuntimeError) : Lasts holds (Run.fail error : Run α) :=
  straight (.fail error) (.throw _)

theorem read (look : Storage → Except StorageError α) : Lasts holds (Run.read location look) :=
  quiet (.read look)

theorem lookup (name : String) : Lasts holds (Run.lookup name location) :=
  straight (.lookup name) (.lookup name)

theorem record {event : TraceEvent} : Lasts holds (Run.record event) :=
  straight (.record event) (.still fun _ => rfl)

theorem transition (function : String) (state : CallState) :
    Lasts holds (Run.transition function state) :=
  straight (.transition function state) (.silent (silent_transition function state))

theorem bind {first : Run α} {next : α → Run β} (start : Lasts holds first)
    (rest : ∀ value, Lasts holds (next value)) : Lasts holds (first >>= next) :=
  fun before => (start before).bind_of_exec fun _ value reached _ _ => rest value reached.storage

theorem map (f : α → β) {run : Run α} (lasts : Lasts holds run) : Lasts holds (f <$> run) := by
  rw [map_eq_pure_bind]
  exact lasts.bind fun _ => pure _

theorem masked {run : Run α} (lasts : Lasts holds run) : Lasts holds run.masked := by
  intro before
  refine ⟨(lasts before).keeps, fun machine signal' started ahead => ?_⟩
  have here := (lasts before).later machine signal' started ahead
  rw [exec_masked, exec_masked]
  generalize exec run machine = last at here
  generalize exec run { machine with abort := signal' } = last' at here
  cases here with
  | same ahead => exact .same ahead
  | stopped => exact .masked
  | masked => exact .masked

/-- Where the signal says so, the run is stopped, and otherwise it goes on. Both leave the heap. -/
theorem pause (location : Location) : Lasts holds (Run.pause location) := by
  refine fun before => ⟨fun machine _ => Keeps.still (fun _ => by rw [exec_pause]) machine, ?_⟩
  rintro ⟨storage, trace, signal, finals⟩ signal' - ahead
  rw [exec_pause, exec_pause]
  obtain ⟨lowered', stops | ⟨lowered, ahead⟩⟩ := ahead.tick
  · simp only [stops, lowered', if_true]
    exact .stopped id
  · simp only [lowered, lowered']
    exact .same ahead

theorem checkpoint (location : Location) : Lasts holds (Run.checkpoint location) := by
  rw [checkpoint_eq]
  exact (pause location).bind fun _ => .record

variable (lasting : Heap.Lasting holds)

include lasting

theorem store (ref : SlotRef) (value : Value) : Lasts holds (Run.store location ref value) :=
  quiet (.store lasting ref value)

theorem declare (name : String) (kind : Kind) (site : Option SiteId) (placement : Placement)
    (value : Value) :
    Lasts holds (Run.allocate (·.declare name kind site placement value)) :=
  straight (.allocate _) (.declare lasting name kind site placement value)

/-- The property lasts through an evaluation if it lasts through the calls in it. -/
theorem evaluates {invoke : Invocation} {calls : Prop} {run : Run α}
    (evaluates : Evaluates invoke location calls run)
    (called : ∀ function args location, Lasts holds (invoke function args location)) :
    Lasts holds run := by
  induction evaluates with
  | pure value => exact .pure value
  | bind _ _ start rest => exact start.bind rest
  | fail here => exact .fail _
  | read look => exact .read look
  | lookup name => exact .lookup name
  | @create _ change _ gets =>
      exact .straight (.allocate change) (.allocate fun storage => lasting.gets (gets storage))
  | record plain => exact .record
  | invoke permitted function args => exact called function args _

end Lasts

/-- Computations that agree under every signal leave the same machine. -/
theorem Keeps.of_agrees {signals : AbortSignal → Prop} {run run' : Run α} (keeps : Keeps holds run)
    (allowed : ∀ signal, signals signal) (agrees : Agrees signals run run') :
    Keeps holds run' := by
  intro machine held
  obtain ⟨ends, -⟩ := agrees machine (allowed machine.abort)
  rw [exec_masked, exec_masked] at ends
  rw [← (Prod.mk.inj ends).2]
  exact keeps machine held

end Run

theorem permits_all (parts : List Expr) : Permits True parts := fun _ _ _ => trivial

/-- The property lasts through the calls. -/
def Invocation.Lasts (holds : Heap → Prop) (invoke : Invocation) : Prop :=
  ∀ function args location, Run.Lasts holds (invoke function args location)

theorem FunctionDef.leave_lasts {holds : Heap → Prop} (function : FunctionDef)
    (returned : Option Value) : Lasts holds (function.leave returned) := by
  unfold FunctionDef.leave FunctionDef.copyOut
  refine (Lasts.transition _ _).bind fun _ => Lasts.bind ?_ fun _ =>
    (Lasts.straight .popFrame .popFrame).bind fun _ => (Lasts.transition _ _).bind fun _ => .pure _
  split
  · exact .pure _
  · exact (Lasts.lookup _).bind fun ref => .map _ (.read (·.load ref))

section

variable {holds : Heap → Prop} (lasting : Heap.Lasting holds)

include lasting

theorem Model.bind_lasts (model : Model) (name : String) (kind : Kind) (site : SiteId)
    (value : Value) : Lasts holds (model.bind name kind site value) := by
  unfold Model.bind
  exact (Lasts.declare lasting _ _ _ _ _).bind fun _ => .record

theorem Model.bindSlots_lasts (model : Model) (function : FunctionDef) (args : List Value)
    (location : Location) : Lasts holds (model.bindSlots function args location) := by
  have params (params : List Param) (args : List Value) :
      Lasts holds (model.bindParams function.name location params args) := by
    induction params generalizing args with
    | nil => exact .pure ()
    | cons param params inductionHypothesis =>
        cases args with
        | nil => exact .pure ()
        | cons arg args =>
            rw [bindParams]
            refine (Lasts.quiet (.expectKind _ _)).bind fun _ => ?_
            exact (model.bind_lasts lasting _ _ _ _).bind fun _ => inductionHypothesis args
  unfold Model.bindSlots Model.bindResult
  refine (params _ _).bind fun _ => ?_
  split
  · exact model.bind_lasts lasting _ _ _ _
  · exact .pure ()

theorem Model.enter_lasts (model : Model) (function : FunctionDef) (args : List Value)
    (callSite : Option Location) : Lasts holds (model.enter function args callSite) :=
  (Lasts.straight (.pushFrame _ _) (.pushFrame _ _)).bind fun _ =>
    (Lasts.transition _ _).bind fun _ =>
      (model.bindSlots_lasts lasting function args _).bind fun _ => .transition _ _

end

namespace Evaluator

variable {holds : Heap → Prop} {model : Model} {invoke : Invocation} {location : Location}

section

variable (lasting : Heap.Lasting holds) (called : invoke.Lasts holds)

include lasting called

theorem evaluate_lasts (expr : Expr) :
    Run.Lasts holds (Evaluator.evaluate ⟨model, invoke⟩ location expr) :=
  .evaluates lasting (evaluate_evaluates invoke location model expr (permits_all _)) called

theorem placeRef_lasts (place : Place) :
    Run.Lasts holds (Evaluator.placeRef ⟨model, invoke⟩ location place) :=
  .evaluates lasting (placeRef_evaluates invoke location model place (permits_all _)) called

theorem evaluateFor_lasts (kind : Kind) (expr : Expr) :
    Run.Lasts holds (Evaluator.evaluateFor ⟨model, invoke⟩ location kind expr) := by
  have := evaluate_evaluates invoke location model expr (permits_all _)
  have evaluates : Evaluates invoke location True
    (Evaluator.evaluateFor ⟨model, invoke⟩ location kind expr) := inferInstance
  exact .evaluates lasting evaluates called

theorem evaluateElement_lasts (kind : Option Kind) (expr : Expr) :
    Run.Lasts holds (Evaluator.evaluateElement ⟨model, invoke⟩ location kind expr) := by
  cases kind with
  | none => exact evaluate_lasts lasting called expr
  | some kind => exact evaluateFor_lasts lasting called kind expr

theorem evaluateDecl_lasts (decl : VarDecl) :
    Run.Lasts holds (Evaluator.evaluateDecl ⟨model, invoke⟩ location decl) :=
  .evaluates lasting (evaluateDecl_evaluates model (permits_all _)) called

theorem asInt_lasts (value : Value) : Run.Lasts holds (asInt location value) := by
  have evaluates : Evaluates invoke location True (asInt location value) := inferInstance
  exact .evaluates lasting evaluates called

theorem overwrite_lasts (ref : SlotRef) (kind : Kind) (value : Expr) :
    Run.Lasts holds (Evaluator.overwrite ⟨model, invoke⟩ location ref kind value) := by
  unfold overwrite
  refine (evaluateFor_lasts lasting called kind value).bind fun value => ?_
  exact (Lasts.quiet (.expectKind kind value)).bind fun _ => .store lasting ref value

theorem returnValue_lasts (function : FunctionDef) (value : Expr) :
    Run.Lasts holds (Evaluator.returnValue ⟨model, invoke⟩ function location value) := by
  unfold returnValue FunctionDef.deliver
  refine (evaluateFor_lasts lasting called _ value).bind fun value => ?_
  refine (Lasts.quiet (.expectKind _ value)).bind fun _ => ?_
  split
  · exact .pure _
  · exact (Lasts.lookup _).bind fun ref => (Lasts.store lasting ref value).bind fun _ => .pure _

theorem call_lasts (callee : String) (args : List Expr) :
    Run.Lasts holds (Evaluator.call ⟨model, invoke⟩ location callee args) :=
  .evaluates lasting (call_evaluates invoke location model trivial callee args fun params =>
    evaluateArgs_evaluates invoke location model params args (permits_all _)) called

theorem execute_lasts (function : FunctionDef) {stmt : Stmt} (plain : ¬ stmt.IntoContainer) :
    Run.Lasts holds (Evaluator.execute ⟨model, invoke⟩ function location stmt) := by
  cases stmt with
  | declare decl =>
      rw [execute]
      refine (evaluateDecl_lasts lasting called decl).bind fun value => ?_
      exact (model.bind_lasts lasting _ _ _ _).bind fun _ => .pure _
  | assign target value =>
      rw [execute]
      refine (Lasts.lookup target).bind fun ref => (Lasts.read _).bind fun slot => ?_
      exact (overwrite_lasts lasting called ref slot.kind value).bind fun _ => .pure _
  | setField target name value =>
      have field (base : SlotRef) : Evaluates invoke location True (fieldRef location base name) :=
        inferInstance
      rw [execute]
      refine (placeRef_lasts lasting called target).bind fun base => ?_
      refine (Lasts.evaluates lasting (field base) called).bind fun ref => ?_
      refine (Lasts.read (·.load ref)).bind fun old => ?_
      exact (overwrite_lasts lasting called ref old.kind value).bind fun _ => .pure _
  | store pointer value =>
      rw [execute]
      refine (evaluate_lasts lasting called pointer).bind fun found => ?_
      refine (Lasts.read (·.dereference found)).bind fun ref => ?_
      refine (Lasts.read (·.load ref)).bind fun old => ?_
      exact (overwrite_lasts lasting called ref old.kind value).bind fun _ => .pure _
  | setIndex | setKey | append => exact absurd trivial plain
  | call callee args =>
      rw [execute]
      exact (call_lasts lasting called callee args).bind fun _ => .pure _
  | ret value =>
      cases value with
      | none =>
          rw [execute]
          exact .pure _
      | some value =>
          rw [execute]
          exact .map _ (returnValue_lasts lasting called function value)

/-- Only the statements that write into blocks and tables are left to be looked at. -/
theorem executeGuarded_lasts {guard : Guard} (function : FunctionDef) {stmt : Stmt}
    (elements : stmt.IntoContainer →
      Run.Lasts holds (Evaluator.executeGuarded ⟨model, invoke⟩ guard function location stmt)) :
    Run.Lasts holds (Evaluator.executeGuarded ⟨model, invoke⟩ guard function location stmt) := by
  by_cases into : stmt.IntoContainer
  · exact elements into
  · rw [executeGuarded_of_plain into]
    exact execute_lasts lasting called function into

theorem declareGlobal_lasts (decl : VarDecl) :
    Run.Lasts holds (Evaluator.declareGlobal ⟨model, invoke⟩ location decl) := by
  unfold declareGlobal
  refine (evaluateDecl_lasts lasting called decl).bind fun value => ?_
  exact (Lasts.declare lasting _ _ _ _ value).bind fun _ => .record

theorem declareGlobals_lasts (index : Nat) (decls : List VarDecl) :
    Run.Lasts holds (Evaluator.declareGlobals ⟨model, invoke⟩ index decls) := by
  induction decls generalizing index with
  | nil => exact .pure ()
  | cons decl decls inductionHypothesis =>
      rw [declareGlobals]
      refine (Lasts.checkpoint _).bind fun _ => ?_
      exact (declareGlobal_lasts lasting called decl).bind fun _ => inductionHypothesis (index + 1)

end

end Evaluator

/-! ### Bodies and calls -/

/-- New objects and contents leave the property alone, and it lasts through the statements that
write into blocks and tables if it lasts through the calls in them. -/
structure Model.Preserves (model : Model) (guard : Guard) (holds : Heap → Prop) : Prop where
  lasting : Heap.Lasting holds
  after : ∀ location, Lasts holds (guard.after location)
  elements : ∀ depth, (model.invokeGuarded guard depth).Lasts holds →
    ∀ (function : FunctionDef) (location : Location) (stmt : Stmt), stmt.IntoContainer →
      Lasts holds (Evaluator.executeGuarded ⟨model, model.invokeGuarded guard depth⟩ guard function
        location stmt)

namespace Model.Preserves

variable {model : Model} {guard : Guard} {holds : Heap → Prop} {depth : Nat}

theorem executeFrom_lasts (preserves : model.Preserves guard holds)
    (called : (model.invokeGuarded guard depth).Lasts holds) (function : FunctionDef) (index : Nat)
    (stmts : List Stmt) :
    Lasts holds (Evaluator.executeFromGuarded ⟨model, model.invokeGuarded guard depth⟩ guard
      function index stmts) := by
  induction stmts generalizing index with
  | nil => exact .pure none
  | cons stmt stmts inductionHypothesis =>
      rw [Evaluator.executeFromGuarded]
      refine (Lasts.checkpoint _).bind fun _ => ?_
      refine (Evaluator.executeGuarded_lasts preserves.lasting called function
        (preserves.elements depth called function _ stmt)).bind fun flow => ?_
      refine (preserves.after _).bind fun _ => ?_
      cases flow with
      | next => exact inductionHypothesis (index + 1)
      | returned value => exact .pure value

/-- The property lasts through calls, however deep they are nested. -/
theorem invoke_lasts (preserves : model.Preserves guard holds) (depth : Nat) :
    (model.invokeGuarded guard depth).Lasts holds := by
  induction depth with
  | zero => exact fun _ _ _ => .straight .exceeded (.throw _)
  | succ depth inductionHypothesis =>
      intro function args callSite
      refine (model.enter_lasts preserves.lasting function args _).bind fun _ => ?_
      exact (preserves.executeFrom_lasts inductionHypothesis function 0 function.body).bind
        fun returned => function.leave_lasts returned

/-- The property lasts through whole runs if sweeps keep it. -/
theorem execute_lasts (preserves : model.Preserves guard holds)
    (sweeps : ∀ storage : Storage, holds storage.heap → holds storage.sweep.2.heap) :
    Lasts holds (model.executeGuarded guard) := by
  have called := preserves.invoke_lasts model.maxCallDepth
  unfold executeGuarded Evaluator.runGuarded Evaluator.runEntryGuarded
  refine (Evaluator.declareGlobals_lasts preserves.lasting called 0 _).bind fun _ => ?_
  refine Lasts.bind ?_ fun entry => Lasts.bind ?_ fun _ => .pure ()
  · unfold Model.function
    split
    · exact .pure _
    · exact .fail _
  · refine (model.enter_lasts preserves.lasting entry [] none).bind fun _ => ?_
    refine (preserves.executeFrom_lasts called entry 0 entry.body).bind fun returned => ?_
    refine (Lasts.straight .capture (.still fun _ => rfl)).bind fun _ => ?_
    refine Lasts.bind (.quiet ?_) fun _ => entry.leave_lasts returned
    exact (Keeps.allocate sweeps).bind fun _ => .still fun machine => by split <;> rfl

/-! ### Without a guard -/

section

variable (preserves : model.Preserves .idle holds)

include preserves

theorem invoke_of_idle (depth : Nat) : Invocation.Lasts holds (model.invoke depth) := by
  rw [← invokeGuarded_idle]
  exact preserves.invoke_lasts depth

theorem executeStmt_of_idle (function : FunctionDef) (location : Location) (stmt : Stmt) :
    Lasts holds (model.evaluator.execute function location stmt) := by
  have called := preserves.invoke_lasts model.maxCallDepth
  have lasts := Evaluator.executeGuarded_lasts preserves.lasting called function
    (preserves.elements _ called function location stmt)
  rwa [Evaluator.executeGuarded_idle, invokeGuarded_idle] at lasts

theorem executeFrom_of_idle (function : FunctionDef) (index : Nat) (stmts : List Stmt) :
    Lasts holds (model.evaluator.executeFrom function index stmts) := by
  have called := preserves.invoke_lasts model.maxCallDepth
  have lasts := preserves.executeFrom_lasts called function index stmts
  rwa [Evaluator.executeFromGuarded_idle, invokeGuarded_idle] at lasts

end

/-! ### Properties that depend on little -/

/-- A property that every replacement of a block or a table keeps, if it leaves what fills spare
cells. -/
theorem of_set
    (around : ∀ header kind evaluated, Lasts holds evaluated →
      Lasts holds (guard.around header kind evaluated))
    (after : ∀ location, Lasts holds (guard.after location))
    (push : ∀ {heap : Heap} (object : HeapObject), holds heap → holds (heap.push object))
    (set : ∀ {heap : Heap} {address : Address} {old : HeapObject} (new : HeapObject),
      heap.get? address = some old → new.fill? = old.fill? → holds heap →
        holds (heap.set address new)) :
    model.Preserves guard holds := by
  have lasting : Heap.Lasting holds := ⟨push, fun new found => set (.slot new) found rfl⟩
  refine ⟨lasting, after, fun depth called function location stmt element => ?_⟩
  cases stmt with
  | setIndex target index value =>
      refine (Evaluator.placeRef_lasts lasting called target).bind fun ref => ?_
      refine (Lasts.read (·.load ref)).bind fun header => ?_
      refine (Evaluator.evaluate_lasts lasting called index).bind fun found => ?_
      refine (Evaluator.asInt_lasts lasting called found).bind fun index => ?_
      refine Lasts.bind ?_ fun _ => .pure _
      refine (Lasts.read _).bind fun old => ?_
      refine (around _ _ _ (Evaluator.evaluateFor_lasts lasting called old.kind value)).bind
        fun value => .quiet (.write fun storage changed stored before => ?_)
      obtain ⟨address, cell, block, -, read, -, rfl⟩ := Storage.setElement_eq_ok.mp stored
      exact set _ (Storage.block_eq_ok_iff.mp read) rfl before
  | setKey target key value =>
      refine (Evaluator.placeRef_lasts lasting called target).bind fun ref => ?_
      refine (Lasts.read (·.load ref)).bind fun header => ?_
      refine (Evaluator.evaluate_lasts lasting called key).bind fun key => ?_
      refine Lasts.bind ?_ fun _ => .pure _
      refine (Lasts.read _).bind fun kind => ?_
      refine (around _ _ _ (Evaluator.evaluateElement_lasts lasting called kind value)).bind
        fun value => .quiet (.write fun storage changed stored before => ?_)
      obtain ⟨address, table, -, read, rfl⟩ := Storage.tableInsert_eq_ok.mp stored
      exact set _ (Storage.table_eq_ok_iff.mp read) rfl before
  | append target values =>
      have evaluated : Lasts holds (Evaluator.appendOperands
          ⟨model, model.invokeGuarded guard depth⟩ location target values) :=
        .evaluates lasting (Evaluator.appendOperands_evaluates model (permits_all _)) called
      rw [Evaluator.executeGuarded_append, Evaluator.append]
      refine Lasts.bind (evaluated.bind fun operands => ?_) fun _ => .pure _
      obtain ⟨ref, header, values⟩ := operands
      refine (Lasts.quiet
        (.update fun storage grown changed appended before => ?_)).bind fun grown => ?_
      · cases Storage.append_eq_ok appended with
        | nothing => exact before
        | inPlace len cap offset address block values read room =>
            exact set _ (Storage.block_eq_ok_iff.mp read) rfl before
        | grown => exact push _ before
        | first => exact push _ before
      · exact (Lasts.quiet (.silent (silent_recordMove _ _))).bind fun _ => .store lasting _ _
  | _ => cases element

end Model.Preserves

end ReferenceSemantics
