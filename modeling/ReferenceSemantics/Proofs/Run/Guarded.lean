import ReferenceSemantics.Proofs.Run.Unstopped

set_option autoImplicit false

/-!
The interpreter with a guard on its writes into containers.

A statement that writes an element of a block or an entry of a table settles for a kind before it
evaluates the value. A guard stands around that evaluation and knows the header and the kind, and it
can stop the run after a statement. With a guard that does nothing, the interpreter is the one that
runs programs. With one that reports an abort as something else, and stops the run only where a
signal says so, every machine is the same as without under the signals that do not.
-/

namespace ReferenceSemantics

open Run

structure Guard where
  /-- What stands around the evaluation of a value for a container, once the header of the container
  and the kind, if there is one, are known. -/
  around : (header : Value) → (kind : Option Kind) → (evaluated : Run Value) → Run Value
  /-- What is done when a statement is through. -/
  after : Location → Run Unit

def Guard.idle : Guard := ⟨fun _ _ evaluated => evaluated, fun _ => pure ()⟩

theorem Guard.after_idle (location : Location) : idle.after location = pure () := rfl

/-- Another reason is given for an abort. -/
def Halt.masked : Halt → Halt
  | aborted _ => callDepthExceeded
  | halt => halt

/-- The computation, with another reason given for an abort. -/
def Run.masked {α : Type} (run : Run α) : Run α := ExceptT.adapt Halt.masked run

namespace Evaluator

/-- Write an element of a block, with a value for the kind of the element that is there. -/
def writeElement (evaluator : Evaluator) (guard : Guard) (location : Location) (header : Value)
    (index : Int) (value : Expr) : Run Unit := do
  let old ← read location (·.element header index)
  let value ← guard.around header (some old.kind) (evaluator.evaluateFor location old.kind value)
  write location (·.setElement header index value)

/-- Write an entry of a table, with a value for the kind of the values that are there. -/
def writeEntry (evaluator : Evaluator) (guard : Guard) (location : Location) (header key : Value)
    (value : Expr) : Run Unit := do
  let kind ← read location (·.tableValueKind header key)
  let value ← guard.around header kind (evaluator.evaluateElement location kind value)
  write location (·.tableInsert header key value)

def executeGuarded (evaluator : Evaluator) (guard : Guard) (function : FunctionDef)
    (location : Location) : Stmt → Run Flow
  | .setIndex target index value => do
      let header ← load location (← evaluator.placeRef location target)
      let index ← asInt location (← evaluator.evaluate location index)
      evaluator.writeElement guard location header index value
      return .next
  | .setKey target key value => do
      let header ← load location (← evaluator.placeRef location target)
      let key ← evaluator.evaluate location key
      evaluator.writeEntry guard location header key value
      return .next
  | stmt => evaluator.execute function location stmt

def executeFromGuarded (evaluator : Evaluator) (guard : Guard) (function : FunctionDef) :
    (index : Nat) → List Stmt → Run (Option Value)
  | _, [] => pure none
  | index, stmt :: stmts => do
      let location : Location := ⟨function.name, index⟩
      checkpoint location
      let flow ← evaluator.executeGuarded guard function location stmt
      guard.after location
      flow.resume (evaluator.executeFromGuarded guard function (index + 1) stmts)

def performGuarded (evaluator : Evaluator) (guard : Guard) (function : FunctionDef)
    (args : List Value) (callSite : Location) : Run (Option Value) := do
  evaluator.model.enter function args (some callSite)
  let returned ← evaluator.executeFromGuarded guard function 0 function.body
  function.leave returned

def runEntryGuarded (evaluator : Evaluator) (guard : Guard) (entry : FunctionDef) :
    Run (Option Value) := do
  evaluator.model.enter entry [] none
  let returned ← evaluator.executeFromGuarded guard entry 0 entry.body
  capture
  sweep
  entry.leave returned

def runGuarded (evaluator : Evaluator) (guard : Guard) : Run Unit := do
  let model := evaluator.model
  evaluator.declareGlobals 0 model.globals
  let entry ← model.function model.config.entry ⟨model.config.entry, 0⟩
  let _ ← evaluator.runEntryGuarded guard entry

end Evaluator

namespace Model

def invokeGuarded (model : Model) (guard : Guard) : (depth : Nat) → Invocation
  | 0, _, _, _ => throw .callDepthExceeded
  | depth + 1, function, args, callSite =>
      Evaluator.performGuarded ⟨model, model.invokeGuarded guard depth⟩ guard function args callSite

/-- The whole run of a model. -/
def executeGuarded (model : Model) (guard : Guard) : Run Unit :=
  Evaluator.runGuarded ⟨model, model.invokeGuarded guard model.maxCallDepth⟩ guard

end Model

/-! ### Without a guard -/

/-- The statement writes into a block or a table. -/
def Stmt.IntoContainer : Stmt → Prop
  | .setIndex _ _ _ | .setKey _ _ _ | .append _ _ => True
  | _ => False

namespace Evaluator

theorem executeGuarded_of_plain {evaluator : Evaluator} {guard : Guard} {function : FunctionDef}
    {location : Location} {stmt : Stmt} (plain : ¬ stmt.IntoContainer) :
    evaluator.executeGuarded guard function location stmt =
      evaluator.execute function location stmt := by
  cases stmt with
  | setIndex | setKey | append => exact absurd trivial plain
  | _ => rfl

/-- What is appended to needs no guard. -/
theorem executeGuarded_append {evaluator : Evaluator} {guard : Guard} {function : FunctionDef}
    {location : Location} (target : Place) (values : List Expr) :
    evaluator.executeGuarded guard function location (.append target values) = do
      evaluator.append location target values
      return .next := rfl

theorem executeGuarded_idle (evaluator : Evaluator) (function : FunctionDef)
    (location : Location) (stmt : Stmt) :
    evaluator.executeGuarded .idle function location stmt =
      evaluator.execute function location stmt := by
  cases stmt with
  | setIndex target index value =>
      simp only [executeGuarded, execute, writeElement, Guard.idle, bind_assoc]
  | setKey target key value =>
      simp only [executeGuarded, execute, writeEntry, Guard.idle, bind_assoc]
  | _ => rfl

theorem executeFromGuarded_idle (evaluator : Evaluator) (function : FunctionDef) (index : Nat)
    (stmts : List Stmt) :
    evaluator.executeFromGuarded .idle function index stmts =
      evaluator.executeFrom function index stmts := by
  induction stmts generalizing index with
  | nil => rfl
  | cons stmt stmts inductionHypothesis =>
      simp only [executeFromGuarded, executeFrom, executeGuarded_idle, inductionHypothesis,
        Guard.after_idle, pure_bind]

end Evaluator

theorem Model.invokeGuarded_idle (model : Model) (depth : Nat) :
    model.invokeGuarded .idle depth = model.invoke depth := by
  induction depth with
  | zero => rfl
  | succ depth inductionHypothesis =>
      funext function args callSite
      simp only [invokeGuarded, invoke, Evaluator.performGuarded, Evaluator.perform,
        Evaluator.executeBody, Evaluator.executeFromGuarded_idle, inductionHypothesis]

/-! ### With a guard that only masks aborts -/

/-- Under the signals, the two computations leave the same machine, with a signal of these, and they
end in the same way, except that another reason may be given for an abort. -/
def Run.Agrees {α : Type} (signals : AbortSignal → Prop) (run run' : Run α) : Prop :=
  ∀ machine, signals machine.abort →
    exec run.masked machine = exec run'.masked machine ∧ signals (exec run machine).2.abort

namespace Run

variable {α β : Type} {signals : AbortSignal → Prop}

theorem exec_masked (run : Run α) (machine : Machine) :
    exec run.masked machine =
      ((exec run machine).1.mapError Halt.masked, (exec run machine).2) := rfl

theorem masked_bind (first : Run α) (next : α → Run β) :
    (first >>= next).masked = first.masked >>= fun value => (next value).masked := by
  have same (machine : Machine) : exec (first >>= next).masked machine =
      exec (first.masked >>= fun value => (next value).masked) machine := by
    rw [exec_masked, exec_bind, exec_bind, exec_masked]
    generalize exec first machine = reached
    obtain ⟨result, after⟩ := reached
    cases result <;> rfl
  exact funext same

namespace Agrees

theorem left {run run' : Run α} (agrees : Agrees signals run run') : Agrees signals run run :=
  fun machine allowed => ⟨rfl, (agrees machine allowed).2⟩

theorem trans {run run' run'' : Run α} (first : Agrees signals run run')
    (second : Agrees signals run' run'') : Agrees signals run run'' :=
  fun machine allowed =>
    ⟨(first machine allowed).1.trans (second machine allowed).1, (first machine allowed).2⟩

/-- A computation that passes no boundary leaves the signal. -/
theorem of_unstopped {run : Run α} (unstopped : Unstopped run) : Agrees signals run run := by
  rintro ⟨storage, trace, signal, finals⟩ allowed
  obtain ⟨result, changed, trace', finals', -, ran⟩ := unstopped storage trace finals
  refine ⟨rfl, ?_⟩
  rw [ran]
  exact allowed

theorem quiet (run : Run α) [Quiet run] : Agrees signals run run := of_unstopped (.quiet run)

theorem pure (value : α) : Agrees signals (Pure.pure value) (Pure.pure value) := quiet _

theorem bind {first first' : Run α} {next next' : α → Run β}
    (start : Agrees signals first first')
    (rest : ∀ value, Agrees signals (next value) (next' value)) :
    Agrees signals (first >>= next) (first' >>= next') := by
  intro machine allowed
  obtain ⟨same, still⟩ := start machine allowed
  rw [masked_bind, masked_bind, exec_bind, exec_bind, exec_bind, ← same, exec_masked]
  generalize exec first machine = reached at still
  obtain ⟨result, middle⟩ := reached
  cases result with
  | error halt => exact ⟨rfl, still⟩
  | ok value => exact rest value middle still

theorem map (f : α → β) {run run' : Run α} (agrees : Agrees signals run run') :
    Agrees signals (f <$> run) (f <$> run') := by
  rw [map_eq_pure_bind, map_eq_pure_bind]
  exact agrees.bind fun _ => .pure _

theorem transition (function : String) (state : CallState) :
    Agrees signals (transition function state) (Run.transition function state) :=
  of_unstopped (.transition function state)

theorem checkpoint (steady : ∀ signal, signals signal → signals signal.tick)
    (location : Location) : Agrees signals (checkpoint location) (Run.checkpoint location) := by
  rw [checkpoint_eq]
  refine bind (fun machine allowed => ⟨rfl, ?_⟩) fun _ => .of_unstopped (.record _)
  rw [exec_pause]
  exact steady machine.abort allowed

end Agrees

end Run

/-- Under the signals, the calls agree. -/
def Invocation.Agrees (signals : AbortSignal → Prop) (invoke invoke' : Invocation) : Prop :=
  ∀ function args location,
    Run.Agrees signals (invoke function args location) (invoke' function args location)

/-- Under the signals, the guard makes no difference, except for the reason of an abort. -/
structure Guard.Discreet (guard : Guard) (signals : AbortSignal → Prop) : Prop where
  steady : ∀ signal, signals signal → signals signal.tick
  around : ∀ header kind {evaluated}, Run.Agrees signals evaluated evaluated →
    Run.Agrees signals (guard.around header kind evaluated) evaluated
  after : ∀ location, Run.Agrees signals (guard.after location) (pure ())

theorem FunctionDef.leave_agrees {signals : AbortSignal → Prop} (function : FunctionDef)
    (returned : Option Value) :
    Run.Agrees signals (function.leave returned) (function.leave returned) := by
  unfold FunctionDef.leave FunctionDef.copyOut
  refine (Agrees.transition _ _).bind fun _ => Agrees.bind ?_ fun _ =>
    (Agrees.of_unstopped .popFrame).bind fun _ => (Agrees.transition _ _).bind fun _ => .pure _
  split
  · exact .pure _
  · exact (Agrees.of_unstopped (.lookup _)).bind fun _ => .map _ (.quiet _)

section

variable {model : Model} {signals : AbortSignal → Prop} {invoke invoke' : Invocation}
  {guard : Guard}

/-- Two ways to run the calls of a model, with everything permitted. -/
abbrev Model.pairing (model : Model) (invoke invoke' : Invocation) : Pairing :=
  ⟨model, invoke, invoke', fun _ _ => True, fun _ => True, True⟩

theorem Model.pairing_admits (parts : List Expr) (location : Location) :
    (model.pairing invoke invoke').AdmitsAll location parts :=
  fun _ _ => ⟨fun _ _ => trivial, fun _ _ => trivial⟩

variable (discreet : guard.Discreet signals) (calls : invoke.Agrees signals invoke')

include discreet calls

theorem agrees_of_alike {α : Type} {run run' : Run α}
    (alike : (model.pairing invoke invoke').Alike run run') : Agrees signals run run' := by
  induction alike with
  | quiet run => exact .quiet run
  | bind start rest startAgrees restAgrees => exact startAgrees.bind restAgrees
  | lookup permitted => exact .of_unstopped (.lookup _)
  | call permitted found evaluated complete evaluatedAgrees =>
      exact evaluatedAgrees.bind fun values => calls _ values _
  | declare name kind site placement value permitted => exact .of_unstopped (.allocate _)
  | checkpoint location permitted => exact .checkpoint discreet.steady location
  | transition function state permitted => exact .transition function state
  | capture permitted => exact .of_unstopped .capture

theorem Model.enter_agrees (function : FunctionDef) (args : List Value)
    (callSite : Option Location) :
    Agrees signals (model.enter function args callSite) (model.enter function args callSite) := by
  have slots (location : Location) := agrees_of_alike discreet calls
    ((model.pairing invoke invoke').bindSlots_alike trivial function args location)
  exact (Agrees.of_unstopped (.pushFrame _ _)).bind fun _ => (Agrees.transition _ _).bind fun _ =>
    (slots _).bind fun _ => .transition _ _

namespace Evaluator

theorem executeGuarded_agrees (function : FunctionDef) (location : Location) (stmt : Stmt) :
    Agrees signals (executeGuarded ⟨model, invoke⟩ guard function location stmt)
      (execute ⟨model, invoke'⟩ function location stmt) := by
  have alike : (model.pairing invoke invoke').Alike
      (execute ⟨model, invoke⟩ function location stmt)
      (execute ⟨model, invoke'⟩ function location stmt) :=
    Pairing.execute_alike (fun _ => trivial) (fun _ _ => trivial)
      ⟨fun _ _ => trivial, fun _ _ => trivial⟩
  have plain := agrees_of_alike discreet calls alike
  -- with the same calls, only the guard is left to differ
  refine Agrees.trans ?_ plain
  have same {α : Type} {run : Run α} (alike : (model.pairing invoke invoke).Alike run run) :
      Agrees signals run run :=
    agrees_of_alike discreet (fun function args location => (calls function args location).left)
      alike
  have found (place : Place) := same (Pairing.placeRef_alike location place (fun _ _ => trivial)
    (Model.pairing_admits _ _))
  have evaluated (expr : Expr) := same (Pairing.evaluate_alike location expr
    (Model.pairing_admits _ _))
  rw [← executeGuarded_idle]
  cases stmt with
  | setIndex target index value =>
      refine (found target).bind fun ref => (Agrees.quiet _).bind fun header => ?_
      refine (evaluated index).bind fun index => (Agrees.quiet _).bind fun index => ?_
      refine Agrees.bind ?_ fun _ => .pure _
      refine (Agrees.quiet _).bind fun old => Agrees.bind ?_ fun value => .quiet _
      exact discreet.around _ _ (same (Pairing.evaluateFor_alike old.kind
        (Model.pairing_admits _ _)))
  | setKey target key value =>
      refine (found target).bind fun ref => (Agrees.quiet _).bind fun header => ?_
      refine (evaluated key).bind fun key => Agrees.bind ?_ fun _ => .pure _
      refine (Agrees.quiet _).bind fun kind => Agrees.bind ?_ fun value => .quiet _
      exact discreet.around _ _ (same (Pairing.evaluateElement_alike kind
        (Model.pairing_admits _ _)))
  | _ => exact plain.left

theorem executeFromGuarded_agrees (function : FunctionDef) (index : Nat) (stmts : List Stmt) :
    Agrees signals (executeFromGuarded ⟨model, invoke⟩ guard function index stmts)
      (executeFrom ⟨model, invoke'⟩ function index stmts) := by
  induction stmts generalizing index with
  | nil => exact .pure none
  | cons stmt stmts inductionHypothesis =>
      have rest (flow : Flow) :
          Agrees signals
            (flow.resume (executeFromGuarded ⟨model, invoke⟩ guard function (index + 1) stmts))
            (flow.resume (executeFrom ⟨model, invoke'⟩ function (index + 1) stmts)) := by
        cases flow with
        | next => exact inductionHypothesis (index + 1)
        | returned value => exact .pure _
      rw [executeFromGuarded, executeFrom]
      refine (Agrees.checkpoint discreet.steady _).bind fun _ => ?_
      refine (executeGuarded_agrees discreet calls function _ stmt).bind fun flow => ?_
      exact (discreet.after _).bind fun _ => rest flow

theorem performGuarded_agrees (function : FunctionDef) (args : List Value)
    (callSite : Location) :
    Agrees signals (performGuarded ⟨model, invoke⟩ guard function args callSite)
      (perform ⟨model, invoke'⟩ function args callSite) :=
  (model.enter_agrees discreet calls function args _).bind fun _ =>
    (executeFromGuarded_agrees discreet calls function 0 function.body).bind fun returned =>
      function.leave_agrees returned

theorem runGuarded_agrees :
    Agrees signals (runGuarded ⟨model, invoke⟩ guard) (run ⟨model, invoke'⟩) := by
  have globals : Agrees signals (declareGlobals ⟨model, invoke⟩ 0 model.globals)
      (declareGlobals ⟨model, invoke'⟩ 0 model.globals) :=
    agrees_of_alike discreet calls ((model.pairing invoke invoke').declareGlobals_alike trivial 0
      fun decl _ location => model.pairing_admits decl.parts location)
  have function (name : String) (location : Location) :
      Agrees signals (model.function name location) (model.function name location) := by
    unfold Model.function
    split
    · exact .pure _
    · exact .of_unstopped (.fail _)
  refine globals.bind fun _ => (function _ _).bind fun entry => Agrees.bind ?_ fun _ => .pure ()
  refine (model.enter_agrees discreet calls entry [] none).bind fun _ => ?_
  refine (executeFromGuarded_agrees discreet calls entry 0 entry.body).bind fun returned => ?_
  exact (Agrees.of_unstopped .capture).bind fun _ => (Agrees.quiet _).bind fun _ =>
    entry.leave_agrees returned

end Evaluator

end

namespace Model

variable {guard : Guard} {signals : AbortSignal → Prop} (model : Model)
  (discreet : guard.Discreet signals)

include discreet

theorem invokeGuarded_agrees (depth : Nat) :
    Invocation.Agrees signals (model.invokeGuarded guard depth) (model.invoke depth) := by
  induction depth with
  | zero => exact fun _ _ _ => .of_unstopped .exceeded
  | succ depth inductionHypothesis =>
      exact fun function args callSite =>
        Evaluator.performGuarded_agrees discreet inductionHypothesis function args callSite

/-- Guarded, a run leaves the machine that it leaves without the guard, and it ends in the same way,
except that another reason may be given for an abort. -/
theorem exec_executeGuarded {machine : Machine} (allowed : signals machine.abort) :
    (exec (model.executeGuarded guard) machine).2 = (exec model.execute machine).2 ∧
      (exec (model.executeGuarded guard) machine).1.mapError Halt.masked =
        (exec model.execute machine).1.mapError Halt.masked := by
  have calls := model.invokeGuarded_agrees discreet model.maxCallDepth
  have agrees : Agrees signals (model.executeGuarded guard) model.execute :=
    Evaluator.runGuarded_agrees discreet calls
  have ends := (agrees machine allowed).1
  rw [exec_masked, exec_masked] at ends
  exact ⟨(Prod.mk.inj ends).2, (Prod.mk.inj ends).1⟩

end Model

end ReferenceSemantics
