import Mathlib
import ReferenceSemantics.Proofs.Run.Alike
import ReferenceSemantics.Proofs.Run.Ending

set_option autoImplicit false

/-!
The trace is written and never read.

The interpreter reads neither the trace nor the limit that its configuration sets. So a run does the
same whatever its trace has room for, and what the trace holds are the first events that the run
produces.
-/

namespace ReferenceSemantics

open Run

namespace Trace

/-- A trace holds the first events up to its limit, and is marked when there are more. -/
theorem recordAll_eq (trace : Trace) (fits : trace.events.size ≤ trace.limit)
    (events : List TraceEvent) :
    (trace.recordAll events).events.toList =
        (trace.events.toList ++ events).take trace.limit ∧
      ((trace.recordAll events).truncated = true ↔
        trace.truncated = true ∨ trace.limit < trace.events.size + events.length) := by
  induction events generalizing trace with
  | nil =>
      refine ⟨?_, (or_iff_left (Nat.not_lt.mpr fits)).symm⟩
      rw [List.append_nil, List.take_of_length_le fits]
      rfl
  | cons event events inductionHypothesis =>
      change ((trace.record event).recordAll events).events.toList = _ ∧
        (((trace.record event).recordAll events).truncated = true ↔ _)
      by_cases room : trace.events.size < trace.limit
      · have kept : trace.record event = { trace with events := trace.events.push event } :=
          if_pos room
        obtain ⟨held, marked⟩ := inductionHypothesis (trace.record event) (by
          rw [kept, Array.size_push]
          exact room)
        rw [held, marked, kept]
        refine ⟨by simp, ?_⟩
        rw [Array.size_push, List.length_cons, Nat.add_right_comm, Nat.add_assoc]
      · have dropped : trace.record event = { trace with truncated := true } := if_neg room
        have full : trace.events.toList.length = trace.limit :=
          Nat.le_antisymm fits (Nat.not_lt.mp room)
        obtain ⟨held, marked⟩ := inductionHypothesis (trace.record event) (by
          rw [dropped]
          exact fits)
        rw [held, marked, dropped]
        refine ⟨?_, iff_of_true (.inl rfl) (.inr ?_)⟩
        · rw [List.take_left' full, List.take_left' full]
        · rw [List.length_cons]
          omega

theorem recordAll_new (limit : Nat) (events : List TraceEvent) :
    ((new limit).recordAll events).events.toList = events.take limit ∧
      (((new limit).recordAll events).truncated = true ↔ limit < events.length) := by
  obtain ⟨held, marked⟩ := (new limit).recordAll_eq (Nat.zero_le _) events
  refine ⟨held, marked.trans ⟨?_, fun more => .inr ?_⟩⟩
  · rintro (⟨⟨⟩⟩ | more)
    exact Nat.lt_of_lt_of_eq more (Nat.zero_add _)
  · exact Nat.lt_of_lt_of_eq more (Nat.zero_add _).symm

end Trace

/-! ### The limit in the configuration -/

/-- The same model with another limit of the trace. -/
def Model.retraced (model : Model) (limit : Nat) : Model :=
  { model with config := { model.config with traceLimit := limit } }

namespace Model

variable (model : Model) (limit : Nat)

theorem bindParams_retraced (function : String) (location : Location) (params : List Param)
    (args : List Value) :
    (model.retraced limit).bindParams function location params args =
      model.bindParams function location params args := by
  induction params generalizing args with
  | nil => simp only [bindParams]
  | cons param params inductionHypothesis =>
      cases args with
      | nil => simp only [bindParams]
      | cons arg args =>
          simp only [bindParams, inductionHypothesis]
          rfl

theorem enter_retraced (function : FunctionDef) (args : List Value) (callSite : Option Location) :
    (model.retraced limit).enter function args callSite = model.enter function args callSite := by
  simp only [enter, bindSlots, bindParams_retraced]
  rfl

end Model

namespace Evaluator

/-- The same evaluator with another limit of the trace. -/
def retraced (evaluator : Evaluator) (limit : Nat) : Evaluator :=
  { evaluator with model := evaluator.model.retraced limit }

variable (evaluator : Evaluator) (limit : Nat) (location : Location)

mutual

theorem placeRef_retraced : ∀ place : Place,
    (evaluator.retraced limit).placeRef location place = evaluator.placeRef location place
  | .var _ => by rw [placeRef, placeRef]
  | .field base _ => by rw [placeRef, placeRef, placeRef_retraced base]
  | .deref pointer => by rw [placeRef, placeRef, evaluate_retraced pointer]

theorem evaluate_retraced : ∀ expr : Expr,
    (evaluator.retraced limit).evaluate location expr = evaluator.evaluate location expr
  | .lit _ | .nil | .var _ => by rw [evaluate, evaluate]
  | .field base _ => by rw [evaluate, evaluate, evaluate_retraced base]
  | .deref pointer => by rw [evaluate, evaluate, evaluate_retraced pointer]
  | .addrOf place => by rw [evaluate, evaluate, placeRef_retraced place]
  | .new init _ => by
      rw [evaluate, evaluate, evaluate_retraced init]
      rfl
  | .composite _ fields => by rw [evaluate, evaluate, evaluateFields_retraced fields]
  | .sliceLit elems _ => by rw [evaluate, evaluate, evaluateAll_retraced elems]
  | .makeSlice _ _ zero => by rw [evaluate, evaluate, evaluate_retraced zero]
  | .mapLit entries => by rw [evaluate, evaluate, evaluateEntries_retraced entries]
  | .index base index => by
      rw [evaluate, evaluate, evaluate_retraced base, evaluate_retraced index]
  | .lookup base key default => by
      rw [evaluate, evaluate, evaluate_retraced base, evaluate_retraced key,
        evaluate_retraced default]
  | .len base | .cap base | .reslice base _ _ => by
      rw [evaluate, evaluate, evaluate_retraced base]
  | .boxed _ value | .isNil value => by rw [evaluate, evaluate, evaluate_retraced value]
  | .call _ args => by
      simp only [evaluate, evaluateArgs_retraced args]
      rfl

theorem evaluateAll_retraced : ∀ exprs : List Expr,
    (evaluator.retraced limit).evaluateAll location exprs = evaluator.evaluateAll location exprs
  | [] => by rw [evaluateAll, evaluateAll]
  | expr :: exprs => by
      rw [evaluateAll, evaluateAll, evaluate_retraced expr, evaluateAll_retraced exprs]

theorem evaluateFields_retraced : ∀ fields : List (String × Expr),
    (evaluator.retraced limit).evaluateFields location fields =
      evaluator.evaluateFields location fields
  | [] => by rw [evaluateFields, evaluateFields]
  | (_, value) :: fields => by
      rw [evaluateFields, evaluateFields, evaluate_retraced value, evaluateFields_retraced fields]

theorem evaluateEntries_retraced : ∀ entries : List (Expr × Expr),
    (evaluator.retraced limit).evaluateEntries location entries =
      evaluator.evaluateEntries location entries
  | [] => by rw [evaluateEntries, evaluateEntries]
  | (key, value) :: entries => by
      rw [evaluateEntries, evaluateEntries, evaluate_retraced key, evaluate_retraced value,
        evaluateEntries_retraced entries]

theorem evaluateArgs_retraced : ∀ (args : List Expr) (params : List Param),
    (evaluator.retraced limit).evaluateArgs location params args =
      evaluator.evaluateArgs location params args
  | arg :: args, param :: params => by
      rw [evaluateArgs, evaluateArgs, evaluate_retraced arg, evaluateArgs_retraced args]
  | [], [] | [], _ :: _ | _ :: _, [] => by simp only [evaluateArgs]

end

theorem evaluateFor_retraced (kind : Kind) (expr : Expr) :
    (evaluator.retraced limit).evaluateFor location kind expr =
      evaluator.evaluateFor location kind expr := by
  rw [evaluateFor, evaluateFor, evaluate_retraced]

theorem evaluateDecl_retraced (decl : VarDecl) :
    (evaluator.retraced limit).evaluateDecl location decl =
      evaluator.evaluateDecl location decl := by
  simp only [evaluateDecl, evaluateFor_retraced]

theorem evaluateElement_retraced (kind : Option Kind) (expr : Expr) :
    (evaluator.retraced limit).evaluateElement location kind expr =
      evaluator.evaluateElement location kind expr := by
  cases kind with
  | none => exact evaluate_retraced ..
  | some kind => exact evaluateFor_retraced ..

theorem evaluateElements_retraced (kind : Option Kind) (exprs : List Expr) :
    (evaluator.retraced limit).evaluateElements location kind exprs =
      evaluator.evaluateElements location kind exprs := by
  induction exprs with
  | nil => rw [evaluateElements, evaluateElements]
  | cons expr exprs inductionHypothesis =>
      rw [evaluateElements, evaluateElements, evaluateElement_retraced, inductionHypothesis]

theorem execute_retraced (function : FunctionDef) (stmt : Stmt) :
    (evaluator.retraced limit).execute function location stmt =
      evaluator.execute function location stmt := by
  cases stmt with
  | declare decl =>
      simp only [execute, evaluateDecl_retraced]
      rfl
  | append target values =>
      simp only [execute, append, appendOperands, placeRef_retraced, evaluateElements_retraced]
  | call callee args =>
      simp only [execute, call, evaluateArgs_retraced]
      rfl
  | ret value =>
      cases value <;> simp only [execute, returnValue, evaluateFor_retraced]
  | _ =>
      simp only [execute, overwrite, placeRef_retraced, evaluate_retraced, evaluateFor_retraced,
        evaluateElement_retraced]

theorem executeFrom_retraced (function : FunctionDef) (index : Nat) (stmts : List Stmt) :
    (evaluator.retraced limit).executeFrom function index stmts =
      evaluator.executeFrom function index stmts := by
  induction stmts generalizing index with
  | nil => rw [executeFrom, executeFrom]
  | cons stmt stmts inductionHypothesis =>
      simp only [executeFrom, execute_retraced, inductionHypothesis]

theorem declareGlobals_retraced (index : Nat) (decls : List VarDecl) :
    (evaluator.retraced limit).declareGlobals index decls =
      evaluator.declareGlobals index decls := by
  induction decls generalizing index with
  | nil => rw [declareGlobals, declareGlobals]
  | cons decl decls inductionHypothesis =>
      simp only [declareGlobals, declareGlobal, evaluateDecl_retraced, inductionHypothesis]

theorem perform_retraced (function : FunctionDef) (args : List Value) (callSite : Location) :
    (evaluator.retraced limit).perform function args callSite =
      evaluator.perform function args callSite := by
  simp only [perform, executeBody, executeFrom_retraced]
  rw [retraced, Model.enter_retraced]

theorem run_retraced : (evaluator.retraced limit).run = evaluator.run := by
  simp only [run, runEntry, executeBody, executeFrom_retraced, declareGlobals_retraced]
  simp only [retraced, Model.enter_retraced]
  rfl

end Evaluator

namespace Model

variable (model : Model) (limit : Nat)

theorem invoke_retraced (depth : Nat) :
    (model.retraced limit).invoke depth = model.invoke depth := by
  induction depth with
  | zero => rfl
  | succ depth inductionHypothesis =>
      funext function args callSite
      rw [invoke, invoke, inductionHypothesis]
      exact Evaluator.perform_retraced ⟨model, model.invoke depth⟩ limit function args callSite

/-- The interpreter never asks for the limit of the trace. -/
theorem execute_retraced : (model.retraced limit).execute = model.execute := by
  rw [execute, execute, evaluator, invoke_retraced]
  exact model.evaluator.run_retraced limit

end Model

/-! ### Whole runs -/

namespace Run

variable {α β : Type}

/-- A computation that does the same on every trace, and adds the same events to it. -/
def Records (run : Run α) : Prop :=
  ∀ storage abort finals, ∃ result changed events left captured, ∀ trace,
    exec run ⟨storage, trace, abort, finals⟩ =
      (result, ⟨changed, trace.recordAll events, left, captured⟩)

namespace Records

theorem quiet (run : Run α) [Quiet run] : Records run := by
  intro storage abort finals
  obtain ⟨result, changed, events, reaction⟩ := Run.reacts run storage
  exact ⟨_, changed, events, abort, finals, fun trace => reaction.ran trace abort finals⟩

theorem record (event : TraceEvent) : Records (record event) := fun storage abort finals =>
  ⟨.ok (), storage, [event], abort, finals, fun _ => rfl⟩

theorem bind {first : Run α} {next : α → Run β} (start : Records first)
    (rest : ∀ value, Records (next value)) : Records (first >>= next) := by
  intro storage abort finals
  obtain ⟨result, middle, events, left, captured, ran⟩ := start storage abort finals
  cases result with
  | error halt =>
      exact ⟨.error halt, middle, events, left, captured, fun trace => exec_bind_error (ran trace)⟩
  | ok value =>
      obtain ⟨last, changed, later, left', captured', ran'⟩ := rest value middle left captured
      refine ⟨last, changed, events ++ later, left', captured', fun trace => ?_⟩
      rw [exec_bind_ok value (ran trace), ran', Trace.recordAll_append]

theorem lookup (name : String) (location : Location) : Records (lookup name location) := by
  intro storage abort finals
  cases found : storage.lookup name with
  | some ref =>
      refine ⟨.ok ref, storage, [], abort, finals, fun trace => ?_⟩
      rw [exec_lookup, found]
      rfl
  | none =>
      refine ⟨.error (.error (.undefinedVariable name location)), storage, [], abort, finals,
        fun trace => ?_⟩
      rw [exec_lookup, found]
      rfl

theorem checkpoint (location : Location) : Records (checkpoint location) := by
  intro storage abort finals
  cases raised : abort.tick.raised with
  | true =>
      refine ⟨.error (.aborted location), storage, [], abort.tick, finals, fun trace => ?_⟩
      simp only [Run.checkpoint, exec_bind, exec_modify, exec_get, raised, if_true, exec_throw]
      rfl
  | false =>
      refine ⟨.ok (), storage, [.statement location], abort.tick, finals, fun trace => ?_⟩
      simp only [Run.checkpoint, exec_bind, exec_modify, exec_get, raised, Bool.false_eq_true,
        if_false, exec_record]
      rfl

theorem framed (function : String) (callSite : Option Location) {inside : Run α}
    (records : Records inside) : Records (framed function callSite inside) := by
  have push : Records (pushFrame function callSite) := fun storage abort finals =>
    ⟨.ok (), storage.pushFrame function callSite, [], abort, finals, fun _ => rfl⟩
  have pop : Records popFrame := fun storage abort finals =>
    ⟨.ok (), storage.popFrame, [], abort, finals, fun _ => rfl⟩
  unfold Run.framed
  exact push.bind fun _ => records.bind fun _ => pop.bind fun _ => .quiet _

end Records

/-- The interpreter only adds to the trace. -/
theorem records_closed : Closed @Records where
  quiet := Records.quiet
  bind := Records.bind
  lookup := Records.lookup
  declare name kind site placement value storage abort finals :=
    let declared := storage.declare name kind site placement value
    ⟨.ok declared.1, declared.2, [], abort, finals, fun _ => rfl⟩
  checkpoint := Records.checkpoint
  transition function state storage abort finals :=
    ⟨.ok (), storage, [.call function state (storage.depth - 1)], abort, finals, fun _ => rfl⟩
  capture storage abort _ :=
    ⟨.ok (), storage, [], abort, captured storage, fun _ => rfl⟩
  framed := Records.framed
  exceeded storage abort finals :=
    ⟨.error .callDepthExceeded, storage, [], abort, finals, fun _ => rfl⟩

end Run

namespace Simulator

theorem records_panicked (cause : Fault) (location : Location) :
    Records (panicked cause location) :=
  (Records.record _).bind fun _ => records_closed.capture.bind fun _ => .quiet _

/-- A run of a simulator in any state: what its trace has room for only matters to the trace. -/
theorem run_records (model : Model) (storage : Storage) (abort : AbortSignal)
    (finals : NameMap Value) (panics : List Panic) (finished : Bool) :
    ∃ result changed events left captured panics' finished', ∀ limit trace,
      run ⟨model.retraced limit, ⟨storage, trace, abort, finals⟩, panics, finished⟩ =
        (result, ⟨model.retraced limit, ⟨changed, trace.recordAll events, left, captured⟩, panics',
          finished'⟩) := by
  cases finished with
  | true =>
      exact ⟨.ok ⟨finals, panics, model.placements.table⟩, storage, [], abort, finals, panics, true,
        fun limit trace => rfl⟩
  | false =>
      obtain ⟨result, changed, events, left, captured, ran⟩ :=
        records_closed.execute model storage abort finals
      have ended : ∀ limit trace,
          run ⟨model.retraced limit, ⟨storage, trace, abort, finals⟩, panics, false⟩ =
            conclude ⟨model.retraced limit, ⟨storage, trace, abort, finals⟩, panics, false⟩
              (result, ⟨changed, trace.recordAll events, left, captured⟩) := by
        intro limit trace
        rw [run_eq_conclude rfl, ending, model.execute_retraced limit, ran]
      cases result with
      | ok _ =>
          exact ⟨.ok ⟨captured, panics, model.placements.table⟩, changed, events, left, captured,
            panics, true, ended⟩
      | error halt =>
          cases halt with
          | aborted location => exact ⟨_, .empty, events, left, .empty, panics, false, ended⟩
          | callDepthExceeded => exact ⟨_, changed, events, left, captured, panics, false, ended⟩
          | error error =>
              cases error with
              | fault cause location =>
                  obtain ⟨_, swept, more, left', captured', ran'⟩ :=
                    records_panicked cause location changed left captured
                  let panics' := panics ++ [⟨cause.kind, location⟩]
                  refine ⟨.ok ⟨captured', panics', model.placements.table⟩, swept, events ++ more,
                    left', captured', panics', true, fun limit trace => ?_⟩
                  rw [ended, conclude, ran', Trace.recordAll_append]
                  rfl
              | _ => exact ⟨_, changed, events, left, captured, panics, false, ended⟩

/-- The first run of a program under two limits of the trace. It is the same run, and each trace
holds the first events that the run produces, and is marked when there are more. -/
theorem traceLimit_unobservable (program : Program) (config : Config) (signal : AbortSignal)
    {lower upper : Nat} (ordered : lower ≤ upper) :
    let limited := fun limit => (signalled program { config with traceLimit := limit } signal).run
    let events := fun limit => (limited limit).2.machine.trace.events.toList
    (limited lower).1 = (limited upper).1 ∧
      (limited lower).2.storage = (limited upper).2.storage ∧
      (limited lower).2.machine.finalValues = (limited upper).2.machine.finalValues ∧
      (limited lower).2.panics = (limited upper).2.panics ∧
      (limited lower).2.heapReport = (limited upper).2.heapReport ∧
      events lower = (events upper).take lower ∧
      ∃ produced : List TraceEvent, ∀ limit,
        events limit = produced.take limit ∧
          ((limited limit).2.machine.trace.truncated = true ↔ limit < produced.length) := by
  intro limited events
  obtain ⟨result, changed, produced, left, captured, panics, finished, ran⟩ :=
    run_records (.new program config) .empty signal .empty [] false
  have first : ∀ limit, limited limit =
      (result, ⟨(Model.new program config).retraced limit,
        ⟨changed, (Trace.new limit).recordAll produced, left, captured⟩, panics, finished⟩) :=
    fun limit => ran limit (.new limit)
  have held : ∀ limit, events limit = produced.take limit ∧
      ((limited limit).2.machine.trace.truncated = true ↔ limit < produced.length) := by
    intro limit
    rw [show events limit = (limited limit).2.machine.trace.events.toList from rfl, first limit]
    exact Trace.recordAll_new limit produced
  have shorter : events lower = (events upper).take lower := by
    rw [(held lower).1, (held upper).1, List.take_take, Nat.min_eq_left ordered]
  rw [first lower, first upper]
  exact ⟨rfl, rfl, rfl, rfl, rfl, shorter, produced, held⟩

/-- A program of one call. Five events come before its last statement. -/
def calledOnce : Program :=
  ⟨[], [.new "main" [] [.call "inner" []], .new "inner" [] [.ret none]]⟩

/-- The limit is reached while the call goes on. -/
theorem traceLimit_unobservable_calledOnce :
    let limited := fun limit =>
      (signalled calledOnce { Config.default with traceLimit := limit } .idle).run
    5 ≤ 100 ∧ (limited 5).1 = (limited 100).1 ∧
      (limited 5).2.machine.trace.callStates "inner" = [.entered, .executing] ∧
      (limited 5).2.machine.trace.truncated = true := by
  intro limited
  have ordered : 5 ≤ 100 := by decide
  refine ⟨ordered, ?_, by cbv, by cbv⟩
  exact (traceLimit_unobservable calledOnce .default .idle ordered).1

end Simulator

end ReferenceSemantics
