import ReferenceSemantics.Proofs.Run.Interruption
import ReferenceSemantics.Proofs.Run.Recording

set_option autoImplicit false

/-!
The log of calls is bracketed, and its open calls are those on the stack.

The events of a run are read one after the other, with the calls that were entered and not left.
Each event must fit the innermost of them. What the interpreter does in a call therefore comes
between the events of that call, and the frames come and go with them.
-/

namespace ReferenceSemantics

open Run

/-- A call that was entered and not left, and the state it was last reported in. -/
structure OpenCall where
  function : String
  state : CallState
deriving DecidableEq, Repr

namespace OpenCall

/-- The open calls after one more event, the innermost first; absent when the event does not fit.
A call only starts where there is none or in a body, and it leaves nothing but its exit after its
return. Statements are those of the innermost call, or of the globals. -/
def next : List OpenCall → TraceEvent → Option (List OpenCall)
  | calls, .call function .entered depth =>
      if calls.head?.all (·.state = .executing) ∧ depth = calls.length + 1 then
        some (⟨function, .entered⟩ :: calls)
      else none
  | call :: outer, .call function .executing depth =>
      if call = ⟨function, .entered⟩ ∧ depth = outer.length + 1 then
        some (⟨function, .executing⟩ :: outer)
      else none
  | call :: outer, .call function .returning depth =>
      if call = ⟨function, .executing⟩ ∧ depth = outer.length + 1 then
        some (⟨function, .returning⟩ :: outer)
      else none
  | call :: outer, .call function .exited depth =>
      if call = ⟨function, .returning⟩ ∧ depth = outer.length then some outer else none
  | [], .call _ _ _ => none
  | call :: outer, .statement location =>
      if call = ⟨location.function, .executing⟩ then some (call :: outer) else none
  | [], .statement location => if location.function = globalsFrame then some [] else none
  | calls, .alloc _ _ _ => if calls.head?.all (·.state ≠ .returning) then some calls else none
  | calls, .fault _ _ | calls, .sweep _ => some calls

/-- The open calls after some events. -/
def read (calls : List OpenCall) (events : List TraceEvent) : Option (List OpenCall) :=
  events.foldlM next calls

theorem read_append (calls : List OpenCall) (events later : List TraceEvent) :
    read calls (events ++ later) = (read calls events).bind (read · later) :=
  List.foldlM_append

theorem read_singleton (calls : List OpenCall) (event : TraceEvent) :
    read calls [event] = next calls event := by
  rw [read, List.foldlM_cons]
  cases next calls event <;> rfl

/-- What can be read of some events can be read of the first of them. -/
theorem read_take {calls reached : List OpenCall} {events : List TraceEvent}
    (reads : read calls events = some reached) (limit : Nat) :
    (read calls (events.take limit)).isSome := by
  rw [← List.take_append_drop limit events, read_append] at reads
  cases early : read calls (events.take limit) with
  | none =>
      rw [early] at reads
      cases reads
  | some middle => rfl

/-- The innermost call, if there is one, runs its body. -/
def Running (calls : List OpenCall) : Prop := calls.head?.all (·.state = .executing)

/-- The innermost call, if there is one, has not returned. -/
def Active (calls : List OpenCall) : Prop := calls.head?.all (·.state ≠ .returning)

variable {calls : List OpenCall}

theorem running_nil : Running [] := rfl

theorem running_executing (function : String) (outer : List OpenCall) :
    Running (⟨function, .executing⟩ :: outer) := rfl

theorem Running.active (running : Running calls) : Active calls := by
  cases calls with
  | nil => rfl
  | cons call outer =>
      obtain ⟨function, state⟩ := call
      obtain rfl : state = .executing := of_decide_eq_true running
      rfl

theorem active_entered (function : String) (outer : List OpenCall) :
    Active (⟨function, .entered⟩ :: outer) := rfl

/-- Allocations and sweeps may come up until the innermost call returns. -/
theorem read_plain (active : Active calls) {events : List TraceEvent}
    (plain : ∀ event ∈ events, event.Plain) : read calls events = some calls := by
  induction events with
  | nil => rfl
  | cons event events inductionHypothesis =>
      obtain ⟨here, rest⟩ := List.forall_mem_cons.mp plain
      have passed : next calls event = some calls := by
        cases event with
        | alloc site address placement =>
            unfold next
            exact if_pos active
        | sweep unreachable => cases calls <;> rfl
        | _ => exact absurd here id
      have further : read calls (event :: events) = (next calls event).bind (read · events) := rfl
      rw [further, passed]
      exact inductionHypothesis rest

end OpenCall

namespace Storage

/-- The functions of the calls on the stack, outermost first. -/
def active (storage : Storage) : List String := storage.frames.tail.map (·.function)

theorem active_eq (storage : Storage) : storage.active = storage.functions.tail := List.map_tail

theorem active_of_skeleton {storage changed : Storage}
    (same : changed.skeleton = storage.skeleton) : changed.active = storage.active := by
  rw [active_eq, active_eq, functions_of_skeleton same]

theorem active_declare (storage : Storage) (name : String) (kind : Kind) (site : Option SiteId)
    (placement : Placement) (value : Value) :
    (storage.declare name kind site placement value).2.active = storage.active := by
  rw [active_eq, active_eq, functions_declare]

theorem active_pushFrame (storage : Storage) (function : String) (callSite : Option Location) :
    (storage.pushFrame function callSite).active = storage.active ++ [function] := by
  rw [active_eq, active_eq, functions_pushFrame, List.tail_append_of_ne_nil]
  exact List.cons_ne_nil _ _

theorem length_active (storage : Storage) : storage.active.length = storage.depth - 1 := by
  rw [active, List.length_map, List.length_tail, length_frames]

theorem active_popFrame (storage : Storage) :
    storage.popFrame.active = storage.active.dropLast := by
  by_cases called : storage.InCall
  · rw [active, frames_popFrame called, active, ← List.map_dropLast, List.tail_dropLast]
  · have none : storage.calls.frames = [] := Classical.not_not.mp called
    have same : storage.popFrame = storage := by
      rw [popFrame, popFrame?, CallStack.pop?, none]
      rfl
    have empty : storage.active = [] := by
      rw [active, frames, CallStack.bottomUp, none]
      rfl
    rw [same, empty]
    rfl

end Storage

/-- The open calls are those on the stack. -/
def Storage.Mirrors (storage : Storage) (calls : List OpenCall) : Prop :=
  storage.active = (calls.map (·.function)).reverse

theorem Storage.Mirrors.depth {storage : Storage} {calls : List OpenCall}
    (mirrors : storage.Mirrors calls) : storage.depth - 1 = calls.length := by
  rw [← length_active, mirrors, List.length_reverse, List.length_map]

/-- What was logged fits the calls that were open, and those that are open now are on the stack. -/
structure Bracketed {α : Type} (calls : List OpenCall) (start : Machine)
    (last : Except Halt α × Machine) (reached : List OpenCall) : Prop where
  logged : ∃ events, last.2.trace = start.trace.recordAll events ∧
    OpenCall.read calls events = some reached
  mirrors : last.2.storage.Mirrors reached

/-- Started with some open calls, a computation brackets its calls. A result comes with certain
open calls; a failure leaves those open that it came up in. -/
def Brackets {α : Type} (calls : List OpenCall) (run : Run α) (after : List OpenCall) : Prop :=
  ∀ machine, machine.storage.Mirrors calls → ∃ reached,
    Bracketed calls machine (exec run machine) reached ∧
      ∀ value, (exec run machine).1 = .ok value → reached = after

namespace Brackets

variable {α β : Type} {calls middle after : List OpenCall}

theorem bind {first : Run α} {next : α → Run β} (start : Brackets calls first middle)
    (rest : ∀ value, Brackets middle (next value) after) :
    Brackets calls (first >>= next) after := by
  intro machine mirrors
  obtain ⟨reached, bracketed, result⟩ := start machine mirrors
  rw [exec_bind]
  generalize exec first machine = last at bracketed result
  obtain ⟨outcome, between⟩ := last
  cases outcome with
  | error halt =>
      refine ⟨reached, ⟨bracketed.logged, bracketed.mirrors⟩, ?_⟩
      rintro value ⟨⟩
  | ok value =>
      obtain rfl := result value rfl
      obtain ⟨events, trace, reads⟩ := bracketed.logged
      obtain ⟨reached', ⟨⟨later, trace', reads'⟩, mirrors'⟩, result'⟩ :=
        rest value between bracketed.mirrors
      refine ⟨reached', ⟨⟨events ++ later, ?_, ?_⟩, mirrors'⟩, result'⟩
      · rw [trace', Trace.recordAll_append]
        exact congrArg (Trace.recordAll · later) trace
      · rw [OpenCall.read_append, reads]
        exact reads'

/-- A computation that logs nothing and leaves the frames. -/
theorem still {run : Run α} (done : ∀ machine, (exec run machine).2.trace = machine.trace ∧
    (exec run machine).2.storage.active = machine.storage.active) : Brackets calls run calls :=
  fun machine mirrors => ⟨calls,
    ⟨⟨[], (done machine).1, rfl⟩, (done machine).2.trans mirrors⟩, fun _ _ => rfl⟩

theorem pure (value : α) : Brackets calls (pure value) calls := still fun _ => ⟨rfl, rfl⟩

theorem read (location : Location) (look : Storage → Except StorageError α) :
    Brackets calls (Run.read location look) calls := by
  refine still fun machine => ?_
  rw [exec_read]
  cases look machine.storage <;> exact ⟨rfl, rfl⟩

theorem lookup (name : String) (location : Location) :
    Brackets calls (lookup name location) calls := by
  refine still fun machine => ?_
  rw [exec_lookup]
  cases machine.storage.lookup name <;> exact ⟨rfl, rfl⟩

theorem declare (name : String) (kind : Kind) (site : Option SiteId) (placement : Placement)
    (value : Value) :
    Brackets calls (allocate (·.declare name kind site placement value)) calls :=
  still fun machine => ⟨rfl, machine.storage.active_declare name kind site placement value⟩

theorem capture : Brackets calls capture calls := still fun _ => ⟨rfl, rfl⟩

theorem quiet (active : OpenCall.Active calls) (run : Run α) [Quiet run] :
    Brackets calls run calls := by
  intro machine mirrors
  obtain ⟨result, changed, events, reaction⟩ := Run.reacts run machine.storage
  rw [show exec run machine = _ from reaction.ran machine.trace machine.abort machine.finalValues]
  refine ⟨calls, ⟨⟨events, rfl, OpenCall.read_plain active reaction.plain⟩, ?_⟩, fun _ _ => rfl⟩
  exact (Storage.active_of_skeleton reaction.skeleton).trans mirrors

theorem checkpoint {location : Location}
    (fits : OpenCall.next calls (.statement location) = some calls) :
    Brackets calls (checkpoint location) calls := by
  intro machine mirrors
  simp only [Run.checkpoint, exec_bind, exec_modify, exec_get]
  split
  · exact ⟨calls, ⟨⟨[], rfl, rfl⟩, mirrors⟩, fun _ _ => rfl⟩
  · refine ⟨calls, ⟨⟨[.statement location], rfl, ?_⟩, mirrors⟩, fun _ _ => rfl⟩
    rw [OpenCall.read_singleton, fits]

theorem transition {function : String} {state : CallState}
    (fits : OpenCall.next calls (.call function state calls.length) = some after)
    (same : after.map (·.function) = calls.map (·.function)) :
    Brackets calls (transition function state) after := by
  intro machine mirrors
  refine ⟨after, ⟨⟨[.call function state calls.length], ?_, ?_⟩, ?_⟩, fun _ _ => rfl⟩
  · rw [← mirrors.depth]
    rfl
  · rw [OpenCall.read_singleton, fits]
  · exact mirrors.trans (congrArg List.reverse same).symm

/-- A frame is pushed right before its call is reported. -/
theorem entered (function : String) (callSite : Option Location)
    (running : OpenCall.Running calls) :
    Brackets calls (do pushFrame function callSite; Run.transition function .entered)
      (⟨function, .entered⟩ :: calls) := by
  intro machine mirrors
  have pushed : (machine.storage.pushFrame function callSite).Mirrors
      (⟨function, .entered⟩ :: calls) := by
    rw [Storage.Mirrors, Storage.active_pushFrame, mirrors, List.map_cons, List.reverse_cons]
  refine ⟨_, ⟨⟨[.call function .entered (calls.length + 1)], ?_, ?_⟩, pushed⟩, fun _ _ => rfl⟩
  · rw [show calls.length + 1 = _ from pushed.depth.symm]
    rfl
  · rw [OpenCall.read_singleton, OpenCall.next, if_pos ⟨running, rfl⟩]

/-- A frame is popped right before the end of its call is reported. -/
theorem exited (function : String) (value : α) :
    Brackets (⟨function, .returning⟩ :: calls)
      (do popFrame; Run.transition function .exited; Pure.pure value) calls := by
  intro machine mirrors
  have popped : machine.storage.popFrame.Mirrors calls := by
    rw [Storage.Mirrors, Storage.active_popFrame, mirrors, List.map_cons, List.reverse_cons,
      List.dropLast_concat]
  refine ⟨_, ⟨⟨[.call function .exited calls.length], ?_, ?_⟩, popped⟩, fun _ _ => rfl⟩
  · rw [← popped.depth]
    rfl
  · rw [OpenCall.read_singleton, OpenCall.next, if_pos ⟨rfl, rfl⟩]

/-- What is put together without statement boundaries leaves the open calls. -/
theorem of_alike {pairing : Pairing} {run run' : Run α} (alike : pairing.Alike run run')
    (confined : ¬ pairing.steps) (active : OpenCall.Active calls)
    (invoked : ∀ function args location,
      Brackets calls (pairing.invoke function args location) calls) :
    Brackets calls run calls := by
  induction alike with
  | quiet run => exact .quiet active run
  | bind start rest startBrackets restBrackets => exact startBrackets.bind restBrackets
  | lookup permitted => exact .lookup _ _
  | call permitted found evaluated complete evaluatedBrackets =>
      exact evaluatedBrackets.bind fun args => invoked _ args _
  | declare _ _ _ _ _ permitted | checkpoint _ permitted | transition _ _ permitted
  | capture permitted => exact absurd permitted confined

end Brackets

namespace Model

variable {model : Model} {calls : List OpenCall}

theorem bind_brackets (active : OpenCall.Active calls) (name : String) (kind : Kind)
    (site : SiteId) (value : Value) : Brackets calls (model.bind name kind site value) calls := by
  unfold Model.bind
  exact (Brackets.declare _ _ _ _ _).bind fun _ => .quiet active _

theorem bindSlots_brackets (active : OpenCall.Active calls) (function : FunctionDef)
    (args : List Value) (location : Location) :
    Brackets calls (model.bindSlots function args location) calls := by
  have params : ∀ (params : List Param) (args : List Value),
      Brackets calls (model.bindParams function.name location params args) calls := by
    intro params
    induction params with
    | nil =>
        intro args
        simp only [bindParams]
        exact .pure _
    | cons param params inductionHypothesis =>
        intro args
        cases args with
        | nil =>
            simp only [bindParams]
            exact .pure _
        | cons arg args =>
            rw [bindParams]
            refine (Brackets.quiet active (expectKind location param.kind arg)).bind fun _ => ?_
            exact (bind_brackets active _ _ _ _).bind fun _ => inductionHypothesis args
  unfold bindSlots bindResult
  refine (params function.params args).bind fun _ => ?_
  split
  · exact bind_brackets active _ _ _ _
  · exact .pure _

/-- A call that is entered runs its body next. -/
theorem enter_brackets (running : OpenCall.Running calls) (function : FunctionDef)
    (args : List Value) (callSite : Option Location) :
    Brackets calls (model.enter function args callSite) (⟨function.name, .executing⟩ :: calls) := by
  unfold enter
  rw [← bind_assoc]
  refine (Brackets.entered function.name callSite running).bind fun _ => ?_
  refine (bindSlots_brackets (OpenCall.active_entered ..) function args _).bind fun _ => ?_
  refine .transition ?_ rfl
  rw [OpenCall.next, if_pos ⟨rfl, rfl⟩]

end Model

/-- A body that has ended returns, hands over its result and is left. -/
theorem FunctionDef.leave_brackets {calls : List OpenCall} (function : FunctionDef)
    (returned : Option Value) :
    Brackets (⟨function.name, .executing⟩ :: calls) (function.leave returned) calls := by
  have returning : Brackets (⟨function.name, .executing⟩ :: calls)
      (transition function.name .returning) (⟨function.name, .returning⟩ :: calls) := by
    refine .transition ?_ rfl
    rw [OpenCall.next, if_pos ⟨rfl, rfl⟩]
  have copied : Brackets (⟨function.name, .returning⟩ :: calls) (function.copyOut returned)
      (⟨function.name, .returning⟩ :: calls) := by
    unfold FunctionDef.copyOut
    split
    · exact .pure _
    · refine (Brackets.lookup _ _).bind fun ref => ?_
      rw [map_eq_pure_bind]
      exact (Brackets.read _ _).bind fun _ => .pure _
  unfold FunctionDef.leave
  exact returning.bind fun _ => copied.bind fun result => .exited function.name result

namespace Evaluator

variable {model : Model} {invoke : Invocation} {function : FunctionDef}

/-- A way to run a function brackets its calls, wherever it is used in a body or by a global. -/
def CallsBracketed (invoke : Invocation) : Prop :=
  ∀ calls, OpenCall.Running calls → ∀ function args location,
    Brackets calls (invoke function args location) calls

section

variable (bracketed : CallsBracketed invoke)

include bracketed

theorem execute_brackets {location : Location} {outer : List OpenCall} (stmt : Stmt) :
    Brackets (⟨function.name, .executing⟩ :: outer)
      (Evaluator.execute ⟨model, invoke⟩ function location stmt)
      (⟨function.name, .executing⟩ :: outer) := by
  let pairing := model.between invoke
  have running := OpenCall.running_executing function.name outer
  have kept : ∀ {α : Type} {run run' : Run α}, pairing.Alike run run' →
      Brackets (⟨function.name, .executing⟩ :: outer) run (⟨function.name, .executing⟩ :: outer) :=
    fun alike => .of_alike alike id running.active (bracketed _ running)
  cases declared : stmt.declared? with
  | none => exact kept (Model.between_execute declared)
  | some decl =>
      rw [Stmt.eq_declare declared, execute]
      refine (kept (Model.between_evaluateDecl _ _ _ _)).bind fun value => ?_
      exact (Model.bind_brackets running.active _ _ _ _).bind fun _ => .pure _

theorem executeFrom_brackets {outer : List OpenCall} (index : Nat) (stmts : List Stmt) :
    Brackets (⟨function.name, .executing⟩ :: outer)
      (Evaluator.executeFrom ⟨model, invoke⟩ function index stmts)
      (⟨function.name, .executing⟩ :: outer) := by
  induction stmts generalizing index with
  | nil =>
      rw [executeFrom]
      exact .pure _
  | cons stmt stmts inductionHypothesis =>
      rw [executeFrom]
      refine (Brackets.checkpoint ?_).bind fun _ => ?_
      · rw [OpenCall.next, if_pos rfl]
      refine (execute_brackets bracketed stmt).bind fun flow => ?_
      cases flow with
      | next => exact inductionHypothesis (index + 1)
      | returned value => exact .pure _

theorem perform_brackets {calls : List OpenCall} (running : OpenCall.Running calls)
    (args : List Value) (callSite : Location) :
    Brackets calls (Evaluator.perform ⟨model, invoke⟩ function args callSite) calls := by
  unfold perform executeBody
  refine (Model.enter_brackets running function args _).bind fun _ => ?_
  refine (executeFrom_brackets bracketed 0 function.body).bind fun returned => ?_
  exact function.leave_brackets returned

theorem runEntry_brackets :
    Brackets [] (Evaluator.runEntry ⟨model, invoke⟩ function) [] := by
  have running := OpenCall.running_executing function.name []
  unfold runEntry executeBody
  refine (Model.enter_brackets OpenCall.running_nil function [] none).bind fun _ => ?_
  refine (executeFrom_brackets bracketed 0 function.body).bind fun returned => ?_
  refine Brackets.capture.bind fun _ => ?_
  refine (Brackets.quiet running.active Run.sweep).bind fun _ => ?_
  exact function.leave_brackets returned

theorem declareGlobals_brackets (index : Nat) (decls : List VarDecl) :
    Brackets [] (Evaluator.declareGlobals ⟨model, invoke⟩ index decls) [] := by
  induction decls generalizing index with
  | nil =>
      rw [declareGlobals]
      exact .pure _
  | cons decl decls inductionHypothesis =>
      rw [declareGlobals]
      refine (Brackets.checkpoint rfl).bind fun _ => Brackets.bind ?_ fun _ =>
        inductionHypothesis (index + 1)
      have active := OpenCall.running_nil.active
      unfold declareGlobal
      refine (Brackets.of_alike (Model.between_evaluateDecl _ _ _ _) id active
        (bracketed _ OpenCall.running_nil)).bind fun value => ?_
      exact (Brackets.declare _ _ _ _ _).bind fun _ => .quiet active _

end

end Evaluator

namespace Model

theorem invoke_brackets (model : Model) (depth : Nat) :
    Evaluator.CallsBracketed (model.invoke depth) := by
  induction depth with
  | zero =>
      intro calls _ function args location
      exact .still fun _ => ⟨rfl, rfl⟩
  | succ depth inductionHypothesis =>
      intro calls running function args location
      rw [invoke]
      exact Evaluator.perform_brackets inductionHypothesis running args location

/-- A whole run brackets its calls, and a run that succeeds leaves none open. -/
theorem execute_brackets (model : Model) : Brackets [] model.execute [] := by
  have bracketed := model.invoke_brackets model.maxCallDepth
  unfold execute evaluator Evaluator.run
  refine (Evaluator.declareGlobals_brackets bracketed 0 _).bind fun _ => ?_
  refine Brackets.bind ?_ fun entry => (Evaluator.runEntry_brackets bracketed).bind fun _ =>
    .pure _
  unfold Model.function
  split
  · exact .pure _
  · exact .still fun _ => ⟨rfl, rfl⟩

end Model

namespace Simulator

theorem read_panicEvents (calls : List OpenCall) (cause : Fault) (location : Location)
    (storage : Storage) :
    OpenCall.read calls (panicEvents cause location storage) = some calls := by
  unfold panicEvents
  split <;> cases calls <;> rfl

/-- A fault adds events that fit anywhere, and leaves the stack. -/
theorem conclude_bracketed (simulator : Simulator) {start : Machine}
    {last : Except Halt Unit × Machine} {calls : List OpenCall}
    (bracketed : Bracketed [] start last calls) (success : last.1 = .ok () → calls = []) :
    let run := simulator.conclude last
    ∃ events, run.2.machine.trace = start.trace.recordAll events ∧
      OpenCall.read [] events = some calls ∧
      (run.1 ≠ .error .aborted → run.2.storage.Mirrors calls) ∧
      ((∃ verdict, run.1 = .ok verdict) → run.2.panics = [] → calls = []) := by
  obtain ⟨⟨events, recorded, reads⟩, mirrors⟩ := bracketed
  obtain ⟨result, machine⟩ := last
  cases result with
  | ok value => exact ⟨events, recorded, reads, fun _ => mirrors, fun _ _ => success rfl⟩
  | error halt =>
      cases halt with
      | aborted location =>
          refine ⟨events, recorded, reads, fun completed => absurd rfl completed, ?_⟩
          rintro ⟨verdict, ⟨⟩⟩
      | callDepthExceeded =>
          refine ⟨events, recorded, reads, fun _ => mirrors, ?_⟩
          rintro ⟨verdict, ⟨⟩⟩
      | error error =>
          cases error with
          | fault cause location =>
              obtain ⟨storage, trace, signal, finals⟩ := machine
              have panicked := panicked_eq cause location storage trace signal finals
              refine ⟨events ++ panicEvents cause location storage, ?_, ?_, fun _ => ?_,
                fun _ none => ?_⟩
              · rw [Trace.recordAll_append]
                exact (congrArg Machine.trace panicked).trans
                  (congrArg (Trace.recordAll · _) recorded)
              · rw [OpenCall.read_append, reads]
                exact read_panicEvents calls cause location storage
              · exact (congrArg (Storage.active ∘ Machine.storage) panicked).trans mirrors
              · exact absurd none (List.append_ne_nil_of_right_ne_nil _ (List.cons_ne_nil _ _))
          | _ =>
              refine ⟨events, recorded, reads, fun _ => mirrors, ?_⟩
              rintro ⟨verdict, ⟨⟩⟩

/-- What a first run logs is bracketed, whether the log is complete or not. If it is complete and
the run was not aborted, the calls that are open in the end are those on the stack: none after a
success, and the active calls after a panic or an error. -/
theorem calls_bracketed (program : Program) (config : Config) (signal : AbortSignal) :
    let run := (signalled program config signal).run
    let trace := run.2.machine.trace
    (OpenCall.read [] trace.events.toList).isSome ∧
      (trace.truncated = false → run.1 ≠ .error .aborted →
        ∃ calls, OpenCall.read [] trace.events.toList = some calls ∧
          run.2.storage.active = (calls.map (·.function)).reverse ∧
          ((∃ verdict, run.1 = .ok verdict) → run.2.panics = [] → calls = [])) := by
  intro run trace
  obtain ⟨calls, bracketed, result⟩ :=
    (Model.new program config).execute_brackets (signalled program config signal).machine rfl
  obtain ⟨events, recorded, reads, mirrors, success⟩ :=
    (signalled program config signal).conclude_bracketed bracketed (result ())
  have concluded : run = _ := run_eq_conclude rfl
  obtain ⟨held, marked⟩ := Trace.recordAll_new config.traceLimit events
  have same : trace = (Trace.new config.traceLimit).recordAll events := by
    rw [show trace = run.2.machine.trace from rfl, concluded]
    exact recorded
  rw [same, held]
  refine ⟨OpenCall.read_take reads _, fun complete => ?_⟩
  have enough : events.length ≤ config.traceLimit := by
    refine Nat.not_lt.mp fun more => ?_
    rw [marked.mpr more] at complete
    cases complete
  rw [List.take_of_length_le enough, concluded]
  exact fun completed => ⟨calls, reads, mirrors completed, success⟩

/-- A call whose callee panics while both are on the stack. -/
def panickingCall : Program :=
  ⟨[], [.new "main" [] [.call "inner" []],
    .new "inner" [] [.declare (.new "x" .value (some (.makeSlice 2 1 (.lit (.int 0)))))]]⟩

theorem calls_bracketed_panicking :
    let run := (signalled panickingCall .default .idle).run
    run.2.machine.trace.truncated = false ∧ run.1 ≠ .error .aborted ∧
      run.2.storage.active = ["main", "inner"] ∧
      ∃ calls, OpenCall.read [] run.2.machine.trace.events.toList = some calls ∧
        run.2.storage.active = (calls.map (·.function)).reverse := by
  intro run
  have complete : run.2.machine.trace.truncated = false := by cbv
  have completed : run.1 ≠ .error .aborted := by
    have ok : run.1.isOk = true := by cbv
    intro same
    rw [same] at ok
    cases ok
  obtain ⟨calls, reads, mirrors, -⟩ :=
    (calls_bracketed panickingCall .default .idle).2 complete completed
  exact ⟨complete, completed, by cbv, calls, reads, mirrors⟩

end Simulator

end ReferenceSemantics
