import Mathlib
import ReferenceSemantics.Proofs.Run.Alike
import ReferenceSemantics.Proofs.Run.Ending

set_option autoImplicit false

/-!
What an abort signal does to a run.

A computation reads the signal at statement boundaries only and never reads the trace. So its events
do not depend on them: a signal that lets too few boundaries pass cuts the events off right before a
statement, and every other signal changes nothing.
-/

namespace ReferenceSemantics

open Run

/-- A statement boundary that was passed. -/
def TraceEvent.isStatement : TraceEvent → Bool
  | .statement _ => true
  | _ => false

/-- The number of statement boundaries passed. -/
def boundaries (events : List TraceEvent) : Nat := events.countP TraceEvent.isStatement

theorem boundaries_append (events later : List TraceEvent) :
    boundaries (events ++ later) = boundaries events + boundaries later :=
  List.countP_append ..

theorem boundaries_of_plain {events : List TraceEvent} (plain : ∀ event ∈ events, event.Plain) :
    boundaries events = 0 := by
  refine List.countP_eq_zero.mpr fun event member => ?_
  have here := plain event member
  cases event <;> first | exact Bool.false_ne_true | exact absurd here id

namespace AbortSignal

/-- The boundaries that a signal lets pass; absent when there is no limit. -/
def left (signal : AbortSignal) : Option Nat := if signal.raised then some 0 else signal.budget

/-- The signal lets so many boundaries pass. -/
def Allows (signal : AbortSignal) (passed : Nat) : Prop :=
  ∀ left, signal.left = some left → passed ≤ left

/-- The signal after so many boundaries. -/
def spend (signal : AbortSignal) (passed : Nat) : AbortSignal :=
  { signal with budget := signal.budget.map (· - passed) }

variable {signal : AbortSignal} {passed more : Nat}

theorem spend_zero (signal : AbortSignal) : signal.spend 0 = signal := by
  obtain ⟨raised, budget⟩ := signal
  cases budget <;> rfl

theorem spend_spend (signal : AbortSignal) (passed more : Nat) :
    (signal.spend passed).spend more = signal.spend (passed + more) := by
  obtain ⟨raised, budget⟩ := signal
  cases budget with
  | none => rfl
  | some budget => simp only [spend, Option.map_some, Nat.sub_sub]

theorem left_spend (allows : signal.Allows passed) :
    (signal.spend passed).left = signal.left.map (· - passed) := by
  obtain ⟨raised, budget⟩ := signal
  cases raised with
  | false => rfl
  | true =>
      have none := allows 0 rfl
      simp only [left, spend, if_true, Option.map_some, Nat.zero_sub]

theorem Allows.before (allows : signal.Allows (passed + more)) : signal.Allows passed :=
  fun left found => Nat.le_trans (Nat.le_add_right _ _) (allows left found)

theorem Allows.after (allows : signal.Allows (passed + more)) :
    (signal.spend passed).Allows more := by
  intro left found
  rw [left_spend allows.before, Option.map_eq_some_iff] at found
  obtain ⟨before, found, rfl⟩ := found
  have enough := allows before found
  omega

/-- A boundary that is allowed is spent. -/
theorem tick_of_allows (allows : signal.Allows 1) :
    signal.tick = signal.spend 1 ∧ signal.tick.raised = false := by
  obtain ⟨raised, budget⟩ := signal
  cases raised with
  | true => exact absurd (allows 0 rfl) (by decide)
  | false =>
      match budget with
      | none => exact ⟨rfl, rfl⟩
      | some 0 => exact absurd (allows 0 rfl) (by decide)
      | some (budget + 1) => exact ⟨rfl, rfl⟩

/-- A boundary that is not allowed raises the signal. -/
theorem tick_of_left (spent : signal.left = some 0) : signal.tick.raised = true := by
  obtain ⟨raised, budget⟩ := signal
  cases raised with
  | true =>
      match budget with
      | none | some 0 | some (_ + 1) => rfl
  | false =>
      obtain rfl : budget = some 0 := spent
      rfl

end AbortSignal

namespace Run

variable {α β : Type}

/-- What a computation does on some storage and captured values, under every signal and trace. -/
structure Logged (run : Run α) (storage : Storage) (finals : NameMap Value)
    (result : Except Halt α) (changed : Storage) (events : List TraceEvent)
    (captured : NameMap Value) : Prop where
  /-- A signal that allows the boundaries changes nothing. -/
  free : ∀ trace signal, signal.Allows (boundaries events) →
    exec run ⟨storage, trace, signal, finals⟩ =
      (result, ⟨changed, trace.recordAll events, signal.spend (boundaries events), captured⟩)
  /-- Another signal cuts the events off before the next statement. -/
  cut : ∀ trace signal left, signal.left = some left → left < boundaries events →
    ∃ location machine, exec run ⟨storage, trace, signal, finals⟩ =
        (.error (.aborted location), machine) ∧ machine.abort.raised = true ∧
      ∃ before after, events = before ++ .statement location :: after ∧
        boundaries before = left ∧ machine.trace = trace.recordAll before
  unaborted : ∀ location, result ≠ .error (.aborted location)

/-- A computation whose events do not depend on the signal or the trace. -/
def Logs (run : Run α) : Prop :=
  ∀ storage finals, ∃ result changed events captured,
    Logged run storage finals result changed events captured

/-- A computation that passes no boundary. -/
theorem Logged.straight {run : Run α} {storage changed : Storage} {finals captured : NameMap Value}
    {result : Except Halt α} {events : List TraceEvent} (none : boundaries events = 0)
    (ran : ∀ trace signal, exec run ⟨storage, trace, signal, finals⟩ =
      (result, ⟨changed, trace.recordAll events, signal, captured⟩))
    (unaborted : ∀ location, result ≠ .error (.aborted location)) :
    Logged run storage finals result changed events captured := by
  refine ⟨fun trace signal _ => ?_, fun trace signal left _ cut => ?_, unaborted⟩
  · rw [none, AbortSignal.spend_zero]
    exact ran trace signal
  · omega

theorem unaborted_ok {value : α} (location : Location) :
    (.ok value : Except Halt α) ≠ .error (.aborted location) := by
  rintro ⟨⟩

theorem unaborted_error {error : RuntimeError} (location : Location) :
    (.error (.error error) : Except Halt α) ≠ .error (.aborted location) := by
  rintro ⟨⟩

namespace Logs

theorem bind {first : Run α} {next : α → Run β} (start : Logs first)
    (rest : ∀ value, Logs (next value)) : Logs (first >>= next) := by
  intro storage finals
  obtain ⟨result, middle, events, captured, logged⟩ := start storage finals
  cases result with
  | error halt =>
      refine ⟨.error halt, middle, events, captured, fun trace signal allows => ?_,
        fun trace signal left found short => ?_, fun location same => ?_⟩
      · exact exec_bind_error (logged.free trace signal allows)
      · obtain ⟨location, machine, ran, further⟩ := logged.cut trace signal left found short
        exact ⟨location, machine, exec_bind_error ran, further⟩
      · exact logged.unaborted location (congrArg Except.error (Except.error.inj same))
  | ok value =>
      obtain ⟨last, changed, later, captured', logged'⟩ := rest value middle captured
      refine ⟨last, changed, events ++ later, captured', fun trace signal allows => ?_,
        fun trace signal left found short => ?_, logged'.unaborted⟩
      · rw [boundaries_append] at allows ⊢
        rw [exec_bind_ok value (logged.free trace signal allows.before),
          logged'.free _ _ allows.after, Trace.recordAll_append, AbortSignal.spend_spend]
      · by_cases early : left < boundaries events
        · obtain ⟨location, machine, ran, raised, before, after, rfl, count, kept⟩ :=
            logged.cut trace signal left found early
          refine ⟨location, machine, exec_bind_error ran, raised, before, after ++ later, ?_,
            count, kept⟩
          rw [List.append_assoc, List.cons_append]
        · have allows : signal.Allows (boundaries events) := fun other same => by
            obtain rfl := Option.some.inj (found.symm.trans same)
            omega
          have remains : (signal.spend (boundaries events)).left =
              some (left - boundaries events) := by
            rw [AbortSignal.left_spend allows, found]
            rfl
          rw [boundaries_append] at short
          obtain ⟨location, machine, ran, raised, before, after, rfl, count, kept⟩ :=
            logged'.cut (trace.recordAll events) _ _ remains (by omega)
          refine ⟨location, machine, ?_, raised, events ++ before, after, ?_, ?_, ?_⟩
          · rw [exec_bind_ok value (logged.free trace signal allows), ran]
          · rw [List.append_assoc]
          · rw [boundaries_append]
            omega
          · rw [kept, Trace.recordAll_append]

theorem quiet (run : Run α) [Quiet run] : Logs run := by
  intro storage finals
  obtain ⟨result, changed, events, reaction⟩ := Run.reacts run storage
  refine ⟨_, changed, events, finals, .straight (boundaries_of_plain reaction.plain)
    (fun trace signal => reaction.ran trace signal finals) fun location => ?_⟩
  cases result with
  | ok value => exact unaborted_ok location
  | error error => exact unaborted_error location

theorem lookup (name : String) (location : Location) : Logs (lookup name location) := by
  intro storage finals
  cases found : storage.lookup name with
  | some ref =>
      refine ⟨.ok ref, storage, [], finals, .straight rfl (fun trace signal => ?_) unaborted_ok⟩
      rw [exec_lookup, found]
      rfl
  | none =>
      refine ⟨.error (.error (.undefinedVariable name location)), storage, [], finals,
        .straight rfl (fun trace signal => ?_) unaborted_error⟩
      rw [exec_lookup, found]
      rfl

theorem checkpoint (location : Location) : Logs (checkpoint location) := by
  intro storage finals
  refine ⟨.ok (), storage, [.statement location], finals, fun trace signal allows => ?_,
    fun trace signal left found short => ?_, unaborted_ok⟩
  · obtain ⟨spent, lowered⟩ := AbortSignal.tick_of_allows allows
    simp only [Run.checkpoint, exec_bind, exec_modify, exec_get, lowered, Bool.false_eq_true,
      if_false, exec_record]
    rw [spent]
    rfl
  · obtain rfl : left = 0 := Nat.lt_one_iff.mp short
    have raised := AbortSignal.tick_of_left found
    simp only [Run.checkpoint, exec_bind, exec_modify, exec_get, raised, if_true, exec_throw]
    exact ⟨location, _, rfl, raised, [], [], rfl, rfl, rfl⟩

theorem framed (function : String) (callSite : Option Location) {inside : Run α}
    (logs : Logs inside) : Logs (framed function callSite inside) := by
  have push : Logs (pushFrame function callSite) := fun storage finals =>
    ⟨.ok (), storage.pushFrame function callSite, [], finals,
      .straight rfl (fun _ _ => rfl) unaborted_ok⟩
  have pop : Logs popFrame := fun storage finals =>
    ⟨.ok (), storage.popFrame, [], finals, .straight rfl (fun _ _ => rfl) unaborted_ok⟩
  unfold Run.framed
  exact push.bind fun _ => logs.bind fun _ => pop.bind fun _ => .quiet _

end Logs

/-- The events of the interpreter do not depend on the signal or the trace. -/
theorem logs_closed : Closed @Logs where
  quiet := Logs.quiet
  bind := Logs.bind
  lookup := Logs.lookup
  declare name kind site placement value storage finals :=
    let declared := storage.declare name kind site placement value
    ⟨.ok declared.1, declared.2, [], finals, .straight rfl (fun _ _ => rfl) unaborted_ok⟩
  checkpoint := Logs.checkpoint
  transition function state storage finals :=
    ⟨.ok (), storage, [.call function state (storage.depth - 1)], finals,
      .straight rfl (fun _ _ => rfl) unaborted_ok⟩
  capture storage finals :=
    ⟨.ok (), storage, [], captured storage, .straight rfl (fun _ _ => rfl) unaborted_ok⟩
  framed := Logs.framed
  exceeded storage finals :=
    ⟨.error .callDepthExceeded, storage, [], finals, .straight rfl (fun _ _ => rfl) (by
      rintro location ⟨⟩)⟩

end Run

namespace Simulator

/-- The events that a fault adds to those of the run it ends. -/
def panicEvents (cause : Fault) (location : Location) (storage : Storage) : List TraceEvent :=
  .fault cause.kind location ::
    if 0 < storage.sweep.1 then [.sweep storage.sweep.1] else []

theorem panicked_eq (cause : Fault) (location : Location) (storage : Storage) (trace : Trace)
    (signal : AbortSignal) (finals : NameMap Value) :
    (exec (panicked cause location) ⟨storage, trace, signal, finals⟩).2 =
      ⟨storage.sweep.2, trace.recordAll (panicEvents cause location storage), signal,
        captured storage⟩ := by
  unfold panicked sweep panicEvents
  simp only [exec_bind, exec_record, Run.capture, exec_modify, exec_allocate]
  split <;> rfl

/-- The events of a run that is not stopped. -/
def allEvents (result : Except Halt Unit) (storage : Storage) (events : List TraceEvent) :
    List TraceEvent :=
  match result with
  | .error (.error (.fault cause location)) => events ++ panicEvents cause location storage
  | _ => events

theorem exists_more (result : Except Halt Unit) (storage : Storage) (events : List TraceEvent) :
    ∃ more, allEvents result storage events = events ++ more ∧ boundaries more = 0 := by
  unfold allEvents
  split
  · refine ⟨_, rfl, ?_⟩
    unfold panicEvents
    split <;> rfl
  · exact ⟨[], (List.append_nil _).symm, rfl⟩

/-- The simulator after so many runs. -/
def after (simulator : Simulator) : Nat → Simulator
  | 0 => simulator
  | runs + 1 => (simulator.after runs).run.2

/-- Nothing is left of the runs before but the trace, and the signal is raised. -/
structure Discarded (simulator : Simulator) (model : Model) : Prop where
  model : simulator.model = model
  storage : simulator.machine.storage = .empty
  finals : simulator.machine.finalValues = .empty
  panics : simulator.panics = []
  unfinished : simulator.finished = false
  raised : simulator.machine.abort.raised = true

variable {program : Program} {config : Config}

theorem Discarded.run {simulator : Simulator} {model : Model}
    (discarded : simulator.Discarded model) {result : Except Halt Unit} {changed : Storage}
    {events : List TraceEvent} {captured : NameMap Value}
    (logged : Logged model.execute .empty .empty result changed events captured)
    (some : 0 < boundaries events) :
    simulator.run.1 = .error .aborted ∧ simulator.run.2.Discarded model := by
  obtain ⟨own, machine, panics, finished⟩ := simulator
  obtain ⟨storage, trace, signal, finals⟩ := machine
  obtain ⟨rfl, rfl, rfl, rfl, rfl, raised⟩ := discarded
  have spent : signal.left = .some 0 := if_pos raised
  obtain ⟨location, last, ran, raised', -⟩ := logged.cut trace signal 0 spent some
  have ended : ending ⟨own, ⟨.empty, trace, signal, .empty⟩, [], false⟩ =
      (.error (.aborted location), last) := ran
  rw [run_eq_conclude rfl, ended]
  exact ⟨rfl, rfl, rfl, rfl, rfl, rfl, raised'⟩

theorem Discarded.after {simulator : Simulator} {model : Model}
    (discarded : simulator.Discarded model) {result : Except Halt Unit} {changed : Storage}
    {events : List TraceEvent} {captured : NameMap Value}
    (logged : Logged model.execute .empty .empty result changed events captured)
    (some : 0 < boundaries events) (runs : Nat) : (simulator.after runs).Discarded model := by
  induction runs with
  | zero => exact discarded
  | succ runs inductionHypothesis => exact (inductionHypothesis.run logged some).2

/-- A run that may not be stopped keeps its events, whatever its trace has room for. -/
theorem conclude_free (simulator : Simulator) {result : Except Halt Unit} {changed : Storage}
    {trace : Trace} {signal : AbortSignal} {captured : NameMap Value} {events : List TraceEvent}
    (unaborted : ∀ location, result ≠ .error (.aborted location)) :
    (simulator.conclude
        (result, ⟨changed, trace.recordAll events, signal, captured⟩)).2.machine.trace =
      trace.recordAll (allEvents result changed events) := by
  cases result with
  | ok value => rfl
  | error halt =>
      cases halt with
      | aborted location => exact absurd rfl (unaborted location)
      | callDepthExceeded => rfl
      | error error =>
          cases error with
          | fault cause location =>
              have panics := panicked_eq cause location changed (trace.recordAll events) signal
                captured
              exact (congrArg Machine.trace panics).trans (Trace.recordAll_append ..).symm
          | _ => rfl

/-- What is made of an end does not depend on the signal. -/
theorem conclude_signal (model : Model) (start other : Machine) (panics : List Panic)
    (result : Except Halt Unit) (machine : Machine) (signal : AbortSignal) :
    let ended := conclude ⟨model, start, panics, false⟩ (result, machine)
    let same := conclude ⟨model, other, panics, false⟩ (result, { machine with abort := signal })
    ended.1 = same.1 ∧ (ended.2.modifySignal fun _ => signal) = same.2 := by
  obtain ⟨storage, trace, abort, finals⟩ := machine
  cases result with
  | ok value => exact ⟨rfl, rfl⟩
  | error halt =>
      cases halt with
      | aborted location => exact ⟨rfl, rfl⟩
      | callDepthExceeded => exact ⟨rfl, rfl⟩
      | error error =>
          cases error with
          | fault cause location =>
              simp only [conclude, panicked_eq]
              exact ⟨rfl, rfl⟩
          | _ => exact ⟨rfl, rfl⟩

section

variable {result : Except Halt Unit} {changed : Storage} {events : List TraceEvent}
  {captured : NameMap Value} {signal : AbortSignal}

/-- A signal that lets all boundaries pass changes nothing. -/
theorem run_of_allows (logged : Logged (Model.new program config).execute .empty .empty result
    changed events captured) (allows : signal.Allows (boundaries events)) :
    let free := (new program config).run
    let other := ((new program config).modifySignal fun _ => signal).run
    other.1 = free.1 ∧ (other.2.modifySignal fun _ => free.2.machine.abort) = free.2 := by
  have unlimited : AbortSignal.idle.Allows (boundaries events) := by
    rintro left ⟨⟩
  have ended : ((new program config).modifySignal fun _ => signal).ending = _ :=
    logged.free (.new config.traceLimit) signal allows
  have free : (new program config).ending = _ :=
    logged.free (.new config.traceLimit) .idle unlimited
  dsimp only
  rw [run_eq_conclude rfl, ended, run_eq_conclude rfl, free]
  obtain ⟨verdict, same⟩ := conclude_signal (Model.new program config)
    ((new program config).modifySignal fun _ => signal).machine (new program config).machine
    [] result ⟨changed, (Trace.new config.traceLimit).recordAll events,
      signal.spend (boundaries events), captured⟩ (AbortSignal.idle.spend (boundaries events))
  have abort := congrArg (·.machine.abort) same
  exact ⟨verdict, (congrArg (fun abort => modifySignal _ fun _ => abort) abort.symm).trans same⟩

/-- Another signal stops the run right before the next statement. -/
theorem run_of_left (logged : Logged (Model.new program config).execute .empty .empty result
    changed events captured) {passed : Nat} (left : signal.left = some passed)
    (short : passed < boundaries events) :
    let stopped := ((new program config).modifySignal fun _ => signal).run
    stopped.1 = .error .aborted ∧ stopped.2.Discarded (Model.new program config) ∧
      ∃ before location after, events = before ++ .statement location :: after ∧
        boundaries before = passed ∧
        stopped.2.machine.trace = (Trace.new config.traceLimit).recordAll before := by
  obtain ⟨location, machine, ran, raised, before, after, split, passes, kept⟩ :=
    logged.cut (.new config.traceLimit) signal passed left short
  have ended : ((new program config).modifySignal fun _ => signal).ending =
    (.error (.aborted location), machine) := ran
  rw [run_eq_conclude rfl, ended]
  exact ⟨rfl, ⟨rfl, rfl, rfl, rfl, rfl, raised⟩, before, location, after, split, passes, kept⟩

end

/-- A budget of boundaries before the first run: the run passes as many boundaries as it would
without a budget and is not changed at all, or it stops right before the next statement and leaves
nothing but the trace, as does every later run. -/
theorem abortAfter_exact (program : Program) (config : Config) :
    ∃ events : List TraceEvent,
      (∀ limit, ((new program config).keeping limit).run.2.machine.trace =
        (Trace.new limit).recordAll events) ∧
      ∀ passed, passed < AbortSignal.unlimited →
        let free := (new program config).run
        let stopped := ((new program config).modifySignal (·.abortAfter passed)).run
        (boundaries events ≤ passed →
          stopped.1 = free.1 ∧ (stopped.2.modifySignal fun _ => free.2.machine.abort) = free.2) ∧
        (passed < boundaries events →
          stopped.1 = .error .aborted ∧
          (∃ before location after, events = before ++ .statement location :: after ∧
            boundaries before = passed ∧
            stopped.2.machine.trace = (Trace.new config.traceLimit).recordAll before) ∧
          stopped.2.storage = .empty ∧ stopped.2.machine.finalValues = .empty ∧
          stopped.2.panics = [] ∧
          ∀ runs, (stopped.2.after runs).run.1 = .error .aborted ∧
            (stopped.2.after runs).run.2.storage = .empty) := by
  obtain ⟨result, changed, events, captured, logged⟩ :=
    logs_closed.execute (Model.new program config) .empty .empty
  obtain ⟨more, all, none⟩ := exists_more result changed events
  have count : boundaries (allEvents result changed events) = boundaries events := by
    rw [all, boundaries_append, none, Nat.add_zero]
  refine ⟨allEvents result changed events, fun limit => ?_, fun passed below => ?_⟩
  · have unlimited : AbortSignal.idle.Allows (boundaries events) := by
      rintro left ⟨⟩
    have ended : ((new program config).keeping limit).ending = _ :=
      logged.free (.new limit) .idle unlimited
    rw [run_eq_conclude rfl, ended]
    exact conclude_free _ logged.unaborted
  · have left : (AbortSignal.idle.abortAfter passed).left = some passed := by
      rw [AbortSignal.abortAfter, if_neg (Nat.ne_of_lt below)]
      rfl
    rw [count]
    refine ⟨fun enough => ?_, fun short => ?_⟩
    · refine run_of_allows logged fun other same => ?_
      obtain rfl := Option.some.inj (left.symm.trans same)
      exact enough
    · obtain ⟨aborted, discarded, before, location, after, split, passes, kept⟩ :=
        run_of_left logged left short
      have some : 0 < boundaries events := Nat.lt_of_le_of_lt (Nat.zero_le _) short
      refine ⟨aborted, ⟨before, location, after ++ more, ?_, passes, kept⟩, discarded.storage,
        discarded.finals, discarded.panics, fun runs => ?_⟩
      · rw [all, split, List.append_assoc, List.cons_append]
      · obtain ⟨again, later⟩ := (discarded.after logged some runs).run logged some
        exact ⟨again, later.storage⟩

/-- A budget of one boundary stops a program of two statements, a budget of two does not. -/
example :
    let program : Program :=
      ⟨[], [.new "main" [] [.declare (.new "x" .value none), .assign "x" (.lit (.int 1))]]⟩
    ((new program .default).modifySignal (·.abortAfter 1)).run.1.isOk = false ∧
      ((new program .default).modifySignal (·.abortAfter 2)).run.1.isOk = true := by
  cbv

end Simulator

end ReferenceSemantics
