import ReferenceSemantics.Proofs.Run.Bindings
import ReferenceSemantics.Proofs.Run.Evaluation
import ReferenceSemantics.Proofs.Run.Interruption
import ReferenceSemantics.Proofs.Run.Recording

set_option autoImplicit false

/-!
Where a panic is located.

The log says where the globals and every call that was not left stand: at the last statement of
each. Evaluation is given the location of its statement and a call starts where none is reached yet.
So a fault comes up at the statement where the innermost call stands, in the function of the top
frame, and nothing is run after it.
-/

namespace ReferenceSemantics

open Run

/-! ### Where calls stand -/

/-- Where the globals and the calls that were not left stand, the innermost first: at the last
statement of each, if one was reached. -/
abbrev Standing := List (Option Location)

namespace Standing

/-- The standing after one more event. -/
def advance : Standing → TraceEvent → Standing
  | _ :: outer, .statement location => some location :: outer
  | standing, .call _ .entered _ => none :: standing
  | _ :: outer, .call _ .exited _ => outer
  | standing, _ => standing

def advanceAll (standing : Standing) (events : List TraceEvent) : Standing :=
  events.foldl advance standing

theorem advanceAll_append (standing : Standing) (events later : List TraceEvent) :
    standing.advanceAll (events ++ later) = (standing.advanceAll events).advanceAll later :=
  List.foldl_append

theorem advance_plain (standing : Standing) {event : TraceEvent} (plain : event.Plain) :
    standing.advance event = standing := by
  cases event with
  | alloc | sweep => cases standing <;> rfl
  | _ => exact absurd plain id

end Standing

/-- The location of the last statement that is not in a call that was left. -/
def lastOpen (events : List TraceEvent) : Option Location :=
  (Standing.advanceAll [none] events).findSome? id

/-! ### Computations and where they stand -/

/-- The end of a computation that was started with some frames, within calls that stand somewhere. A
fault is located where the innermost call stands, in the function of the top frame. -/
inductive Tracked (functions : List String) (outer : Standing) (after : Option Location → Prop)
    {α : Type} : Except Halt α → Storage → Standing → Prop where
  | ok {value : α} {storage : Storage} {here : Option Location} (wellBound : storage.WellBound)
      (same : storage.functions = functions) (reached : after here) :
      Tracked functions outer after (.ok value) storage (here :: outer)
  | fault {cause : Fault} {location : Location} {storage : Storage} {inner : Standing}
      (above : functions <+: storage.functions)
      (top : storage.functions.getLast? = some location.function) :
      Tracked functions outer after (.error (.error (.fault cause location))) storage
        (some location :: inner)
  | other {halt : Halt} {storage : Storage} {standing : Standing}
      (faultless : halt.faultKind? = none) :
      Tracked functions outer after (.error halt) storage standing

/-- Started in a function whose call stands at a place of the first kind, a computation ends there
at a place of the second kind, or a fault is located where it came up. -/
def Run.Tracks {α : Type} (function : String) (before : Option Location → Prop) (run : Run α)
    (after : Option Location → Prop) : Prop :=
  ∀ machine below here outer, machine.storage.WellBound →
    machine.storage.functions = below ++ [function] → before here →
      ∃ events, (exec run machine).2.trace = machine.trace.recordAll events ∧
        Tracked (below ++ [function]) outer after (exec run machine).1 (exec run machine).2.storage
          (Standing.advanceAll (here :: outer) events)

namespace Run.Tracks

variable {α β : Type} {function : String} {location : Location}
  {before middle after : Option Location → Prop}

theorem bind {first : Run α} {next : α → Run β} (start : Tracks function before first middle)
    (rest : ∀ value, Tracks function middle (next value) after) :
    Tracks function before (first >>= next) after := by
  intro machine below here outer wellBound functions holds
  obtain ⟨events, logged, tracked⟩ := start machine below here outer wellBound functions holds
  rw [exec_bind]
  generalize exec first machine = last at logged tracked
  obtain ⟨result, reached⟩ := last
  dsimp only at logged tracked
  generalize standing : Standing.advanceAll (here :: outer) events = stands at tracked
  cases tracked with
  | fault above top => exact ⟨events, logged, standing ▸ .fault above top⟩
  | other faultless => exact ⟨events, logged, standing ▸ .other faultless⟩
  | @ok value _ there wellBound same holds =>
      obtain ⟨later, logged', tracked⟩ := rest value reached below there outer wellBound same holds
      refine ⟨events ++ later, ?_, ?_⟩
      · rw [Trace.recordAll_append, ← logged]
        exact logged'
      · rw [Standing.advanceAll_append, standing]
        exact tracked

theorem weaken {run : Run α} (tracks : Tracks function middle run after)
    (weaker : ∀ here, before here → middle here) : Tracks function before run after :=
  fun machine below here outer wellBound functions holds =>
    tracks machine below here outer wellBound functions (weaker here holds)

/-- Only storage is changed, and the frames are those of before. -/
theorem change {run : Run α} (ran : ∀ machine, ∃ value changed,
      exec run machine = (.ok value, { machine with storage := changed }) ∧
        (machine.storage.WellBound → changed.WellBound) ∧
        changed.functions = machine.storage.functions) : Tracks function before run before := by
  intro machine below here outer wellBound functions holds
  obtain ⟨value, changed, ran, kept, same⟩ := ran machine
  rw [ran]
  exact ⟨[], rfl, .ok (kept wellBound) (same.trans functions) holds⟩

theorem pure (value : α) : Tracks function before (pure value) before :=
  change fun machine => ⟨value, machine.storage, rfl, id, rfl⟩

/-- An event that says nothing of where calls stand. -/
theorem record {event : TraceEvent}
    (passive : ∀ standing, Standing.advance standing event = standing) :
    Tracks function before (record event) before := by
  intro machine below here outer wellBound functions holds
  refine ⟨[event], rfl, ?_⟩
  rw [show Standing.advanceAll (here :: outer) [event] = here :: outer from passive _]
  exact .ok wellBound functions holds

theorem plain {event : TraceEvent} (plain : event.Plain) :
    Tracks function before (Run.record event) before :=
  record fun standing => standing.advance_plain plain

/-- A failure without a fault. -/
theorem refuse {error : RuntimeError} (faultless : error.faultKind? = none) :
    Tracks function before (fail error : Run α) after :=
  fun _ _ _ _ _ _ _ => ⟨[], rfl, .other faultless⟩

theorem mismatch (location : Location) (reason : Mismatch) :
    Tracks function before (mismatch location reason : Run α) after :=
  refuse rfl

theorem expectKind (location : Location) (kind : Kind) (value : Value) :
    Tracks function before (expectKind location kind value) before := by
  unfold Run.expectKind
  split
  · exact pure ()
  · exact mismatch _ _

theorem declare (name : String) (kind : Kind) (site : Option SiteId) (placement : Placement)
    (value : Value) :
    Tracks function before (allocate (·.declare name kind site placement value)) before :=
  change fun machine => ⟨_, _, rfl, fun wellBound => wellBound.declare _ _ _ _ _,
    machine.storage.functions_declare _ _ _ _ _⟩

/-- At the boundary of a statement a call stands at it. -/
theorem checkpoint (location : Location) :
    Tracks function before (checkpoint location) (· = some location) := by
  intro machine below here outer wellBound functions holds
  simp only [Run.checkpoint, exec_bind, exec_modify, exec_get]
  split
  · exact ⟨[], rfl, .other rfl⟩
  · exact ⟨[.statement location], rfl, .ok wellBound functions rfl⟩

end Run.Tracks

/-! ### Evaluation and statements -/

theorem RuntimeError.location_ofStorage (location : Location) (error : StorageError) :
    (ofStorage location error).location = location := by
  cases error <;> rfl

/-- What fails at the statement where the call stands is located. -/
theorem Tracked.failed {below : List String} {outer inner : Standing}
    {after : Option Location → Prop} {α : Type} {location : Location} {error : RuntimeError}
    (here : error.location = location) {storage : Storage}
    (same : storage.functions = below ++ [location.function]) :
    Tracked (below ++ [location.function]) outer after (.error (.error error) : Except Halt α)
      storage (some location :: inner) := by
  subst here
  cases error with
  | fault cause location =>
      refine .fault (same ▸ List.prefix_rfl) ?_
      rw [same, List.getLast?_concat]
      rfl
  | _ => exact .other rfl

section

variable {invoke : Invocation} {location : Location}

/-- A computation that changes at most the content of slots and of the heap, or that fails at the
statement. -/
theorem Run.Tracks.attempt {α : Type} {run : Run α}
    (ran : ∀ machine, (∃ value changed,
        exec run machine = (.ok value, { machine with storage := changed }) ∧
          machine.storage.Edits changed) ∨
      ∃ error : RuntimeError, error.location = location ∧
        exec run machine = (.error (.error error), machine)) :
    Tracks location.function (· = some location) run (· = some location) := by
  rintro machine below _ outer wellBound functions rfl
  rcases ran machine with ⟨value, changed, ran, same⟩ | ⟨error, here, ran⟩
  · rw [ran]
    refine ⟨[], rfl, .ok (wellBound.edits same) ?_ rfl⟩
    exact (Storage.functions_of_outline same.outline).trans functions
  · rw [ran]
    exact ⟨[], rfl, .failed here functions⟩

/-- Calls start where they are made, and end there. -/
def Invocation.Tracked (invoke : Invocation) : Prop :=
  ∀ function args location,
    Tracks location.function (· = some location) (invoke function args location) (· = some location)

/-- An evaluation stays at its statement. -/
theorem Evaluates.tracks (tracked : invoke.Tracked) {calls : Prop} {α : Type} {run : Run α}
    (evaluates : Evaluates invoke location calls run) :
    Tracks location.function (· = some location) run (· = some location) := by
  induction evaluates with
  | pure value => exact .pure value
  | bind _ _ start rest => exact start.bind rest
  | fail here => exact .attempt fun machine => .inr ⟨_, here, rfl⟩
  | read look =>
      refine .attempt fun machine => ?_
      rw [exec_read]
      cases look machine.storage with
      | ok value => exact .inl ⟨value, machine.storage, rfl, .refl _⟩
      | error error => exact .inr ⟨_, RuntimeError.location_ofStorage location error, rfl⟩
  | lookup name =>
      refine .attempt fun machine => ?_
      rw [exec_lookup]
      cases machine.storage.lookup name with
      | some ref => exact .inl ⟨ref, machine.storage, rfl, .refl _⟩
      | none => exact .inr ⟨_, rfl, rfl⟩
  | create adds _ =>
      exact .change fun machine => ⟨_, _, rfl, fun wellBound => wellBound.adds (adds _),
        Storage.functions_of_skeleton (adds _).skeleton⟩
  | record plain => exact .plain plain
  | invoke permitted function args => exact tracked function args location

theorem Run.Tracks.write {change : Storage → Except StorageError Storage}
    (kept : ∀ storage changed : Storage, change storage = .ok changed → storage.Edits changed) :
    Tracks location.function (· = some location) (write location change) (· = some location) := by
  refine .attempt fun machine => ?_
  rw [exec_write]
  cases changes : change machine.storage with
  | ok changed => exact .inl ⟨(), changed, rfl, kept _ _ changes⟩
  | error error => exact .inr ⟨_, RuntimeError.location_ofStorage location error, rfl⟩

theorem Run.Tracks.append (header : Value) (values : List Value) :
    Tracks location.function (· = some location) (update location (·.append header values))
      (· = some location) := by
  refine .attempt fun machine => ?_
  rw [exec_update]
  cases appended : machine.storage.append header values with
  | ok both =>
      obtain ⟨grown, changed⟩ := both
      exact .inl ⟨grown, changed, rfl, Storage.edits_append appended⟩
  | error error => exact .inr ⟨_, RuntimeError.location_ofStorage location error, rfl⟩

/-- So does a statement. -/
theorem Settles.tracks {model : Model} (tracked : invoke.Tracked) {calls : Prop} {α : Type}
    {run : Run α} (settles : Settles ⟨model, invoke⟩ location calls run) :
    Tracks location.function (· = some location) run (· = some location) := by
  induction settles with
  | evaluates whole => exact whole.tracks tracked
  | after start _ rest => exact (start.tracks tracked).bind rest
  | finish _ f start => exact start.bind fun value => .pure (f value)
  | write kept => exact .write kept
  | declare name kind site placement value =>
      exact (Tracks.declare name kind site placement value).bind fun _ => .plain trivial
  | append permits =>
      have operands : Evaluates invoke location calls
          (Evaluator.appendOperands ⟨model, invoke⟩ location _ _) :=
        Evaluator.appendOperands_evaluates model permits
      have moved (header grown : Value) : Evaluates invoke location calls
          (recordMove header grown) := inferInstance
      unfold Evaluator.append
      refine (operands.tracks tracked).bind fun taken => ?_
      refine (Tracks.append taken.header taken.values).bind fun grown => ?_
      refine ((moved taken.header grown).tracks tracked).bind fun _ => ?_
      exact .write fun _ _ => Storage.edits_store

end

/-! ### Calls -/

namespace Run

variable {function callee : String} {before : Option Location → Prop}

/-- The machine right after a call was entered. -/
def entering (machine : Machine) (callee : String) (callSite : Option Location) : Machine :=
  let storage := machine.storage.pushFrame callee callSite
  { machine with
    storage, trace := machine.trace.record (.call callee .entered (storage.depth - 1)) }

/-- The machine right after a call was left. -/
def leaving (machine : Machine) (callee : String) : Machine :=
  let storage := machine.storage.popFrame
  { machine with storage, trace := machine.trace.record (.call callee .exited (storage.depth - 1)) }

theorem exec_framed (callSite : Option Location) (rest : Run (Option Value)) (machine : Machine) :
    exec (do
        let result ← framed callee callSite (do transition callee .entered; rest)
        transition callee .exited
        return result) machine =
      match exec rest (entering machine callee callSite) with
      | (.ok value, last) => (.ok value, leaving last callee)
      | (.error halt, last) => (.error halt, last) := by
  have entered : exec (do transition callee .entered; rest)
      { machine with storage := machine.storage.pushFrame callee callSite } =
        exec rest (entering machine callee callSite) := rfl
  simp only [framed, pushFrame, popFrame, exec_bind, exec_modify, exec_pure, entered]
  generalize exec rest (entering machine callee callSite) = last
  obtain ⟨result, last⟩ := last
  cases result <;> rfl

/-- A computation in the frame of a call. The call stands nowhere before its first statement, and
where it stood is forgotten when it is left. -/
theorem Tracks.framed {rest : Run (Option Value)} (callSite : Option Location)
    (tracks : Tracks callee (fun _ => True) rest fun _ => True) :
    Tracks function before (do
        let result ← framed callee callSite (do transition callee .entered; rest)
        transition callee .exited
        return result) before := by
  intro machine below here outer wellBound functions holds
  have own : (entering machine callee callSite).storage.functions =
      (below ++ [function]) ++ [callee] :=
    functions ▸ machine.storage.functions_pushFrame callee callSite
  obtain ⟨events, logged, tracked⟩ := tracks (entering machine callee callSite)
    (below ++ [function]) none (here :: outer) (wellBound.step (.pushFrame callee callSite)) own
    trivial
  rw [exec_framed]
  generalize exec rest (entering machine callee callSite) = last at logged tracked ⊢
  obtain ⟨result, last⟩ := last
  dsimp only at logged tracked
  generalize standing : Standing.advanceAll (none :: here :: outer) events = stands at tracked
  let entered : TraceEvent :=
    .call callee .entered ((machine.storage.pushFrame callee callSite).depth - 1)
  have inside : Standing.advanceAll (here :: outer) (entered :: events) = stands := standing
  cases tracked with
  | fault above top =>
      refine ⟨entered :: events, logged, ?_⟩
      rw [inside]
      exact .fault ((List.prefix_append _ _).trans above) top
  | other faultless => exact ⟨entered :: events, logged, .other faultless⟩
  | ok wellBound same _ =>
      let exited : TraceEvent := .call callee .exited (last.storage.popFrame.depth - 1)
      refine ⟨entered :: events ++ [exited], ?_, ?_⟩
      · rw [Trace.recordAll_append]
        exact congrArg (Trace.record · exited) logged
      · rw [Standing.advanceAll_append, inside]
        refine .ok (wellBound.step .popFrame) ?_ holds
        exact Storage.functions_popFrame same (List.append_ne_nil_of_right_ne_nil _ (List.cons_ne_nil _ _))

end Run

section

variable {model : Model} {invoke : Invocation} {function : FunctionDef} {location : Location}
  {before after : Option Location → Prop}

theorem Model.bind_tracks (name : String) (kind : Kind) (site : SiteId) (value : Value) :
    Tracks function.name before (model.bind name kind site value) before := by
  unfold Model.bind
  exact (Tracks.declare _ _ _ _ _).bind fun _ => .plain trivial

theorem Model.bindSlots_tracks (args : List Value) :
    Tracks function.name before (model.bindSlots function args location) before := by
  have params : ∀ (params : List Param) (args : List Value),
      Tracks function.name before (model.bindParams function.name location params args) before := by
    intro params
    induction params with
    | nil =>
        intro args
        simp only [bindParams]
        exact .pure _
    | cons param params inductionHypothesis =>
        intro args
        cases args with
        | nil =>
            simp only [bindParams]
            exact .pure _
        | cons arg args =>
            rw [bindParams]
            refine (Tracks.expectKind location param.kind arg).bind fun _ => ?_
            exact (bind_tracks _ _ _ _).bind fun _ => inductionHypothesis args
  unfold bindSlots bindResult
  refine (params function.params args).bind fun _ => ?_
  split
  · exact bind_tracks _ _ _ _
  · exact .pure _

/-- An event of a call that goes on. -/
theorem Run.Tracks.transition {callee : String} {state : CallState} (name : String)
    (goesOn : state = .executing ∨ state = .returning) :
    Tracks callee before (transition name state) before := by
  have passive : ∀ (standing : Standing) (depth : Nat),
      standing.advance (.call name state depth) = standing := by
    rcases goesOn with rfl | rfl <;> intro standing depth <;> cases standing <;> rfl
  intro machine below here outer wellBound functions holds
  exact Tracks.record (passive · (machine.storage.depth - 1)) machine below here outer wellBound
    functions holds

/-- The slot of a named result is there. -/
theorem FunctionDef.copyOut_tracks (returned : Option Value) :
    Tracks function.name before (function.copyOut returned) before := by
  intro machine below here outer wellBound functions holds
  obtain ⟨result, copied, faultless⟩ := function.exec_copyOut returned wellBound
  rw [copied]
  cases result with
  | ok _ => exact ⟨[], rfl, .ok wellBound functions holds⟩
  | error _ => exact ⟨[], rfl, .other faultless⟩

theorem Run.Tracks.capture {callee : String} : Tracks callee before capture before :=
  fun _ _ _ _ wellBound functions holds => ⟨[], rfl, .ok wellBound functions holds⟩

theorem Run.Tracks.sweep {callee : String} : Tracks callee before sweep before := by
  unfold Run.sweep
  refine Tracks.bind (.change fun machine => ⟨_, _, rfl, (·.step .sweep), rfl⟩)
    fun unreachable => ?_
  split
  · exact .plain trivial
  · exact .pure ()

variable (tracked : invoke.Tracked)

include tracked

/-- A body is located statement by statement. -/
theorem Evaluator.executeFrom_tracks (index : Nat) (stmts : List Stmt) :
    Tracks function.name (fun _ => True)
      (Evaluator.executeFrom ⟨model, invoke⟩ function index stmts)
      fun _ => True := by
  induction stmts generalizing index with
  | nil =>
      rw [executeFrom]
      exact .pure _
  | cons stmt stmts inductionHypothesis =>
      let location : Location := ⟨function.name, index⟩
      have executed : Settles ⟨model, invoke⟩ location True
          (Evaluator.execute ⟨model, invoke⟩ function location stmt) :=
        execute_settles function (fun _ _ _ => trivial) fun _ _ _ => trivial
      rw [executeFrom]
      refine (Tracks.checkpoint location).bind fun _ => ?_
      refine (executed.tracks tracked).bind fun flow => ?_
      cases flow with
      | next => exact (inductionHypothesis (index + 1)).weaken fun _ _ => trivial
      | returned value => exact (Tracks.pure value).weaken fun _ _ => trivial

/-- What a call does in its frame after it was entered. -/
theorem Evaluator.inside_tracks (args : List Value) (callSite : Option Location)
    {observe : Run Unit} (observed : Tracks function.name (fun _ => True) observe fun _ => True)
    {caller : String} : Tracks caller before (do
        let result ← framed function.name callSite
          (Evaluator.inside ⟨model, invoke⟩ function args location observe)
        transition function.name .exited
        return result) before := by
  unfold inside Model.open FunctionDef.close
  simp only [bind_assoc]
  refine Tracks.framed callSite ?_
  refine (Model.bindSlots_tracks args).bind fun _ => ?_
  refine (Tracks.transition _ (.inl rfl)).bind fun _ => ?_
  refine (executeFrom_tracks tracked 0 function.body).bind fun returned => ?_
  refine observed.bind fun _ => ?_
  exact (Tracks.transition _ (.inr rfl)).bind fun _ => FunctionDef.copyOut_tracks returned

theorem Evaluator.perform_tracks : Invocation.Tracked (Evaluator.perform ⟨model, invoke⟩) := by
  intro function args location
  rw [perform_eq]
  exact inside_tracks tracked args _ (.pure ())

theorem Evaluator.declareGlobals_tracks (index : Nat) (decls : List VarDecl) :
    Tracks globalsFrame (fun _ => True) (Evaluator.declareGlobals ⟨model, invoke⟩ index decls)
      fun _ => True := by
  induction decls generalizing index with
  | nil =>
      rw [declareGlobals]
      exact .pure _
  | cons decl decls inductionHypothesis =>
      let location : Location := ⟨globalsFrame, index⟩
      have declared : Settles ⟨model, invoke⟩ location True
          (Evaluator.declareGlobal ⟨model, invoke⟩ location decl) :=
        declareGlobal_settles fun _ _ _ => trivial
      rw [declareGlobals]
      refine (Tracks.checkpoint location).bind fun _ => ?_
      refine (declared.tracks tracked).bind fun _ => ?_
      exact (inductionHypothesis (index + 1)).weaken fun _ _ => trivial

end

namespace Model

theorem invoke_tracked (model : Model) (depth : Nat) : Invocation.Tracked (model.invoke depth) := by
  induction depth with
  | zero =>
      intro function args location machine below here outer wellBound functions holds
      exact ⟨[], rfl, .other rfl⟩
  | succ depth inductionHypothesis => exact Evaluator.perform_tracks inductionHypothesis

/-- A whole run starts with nothing reached in the root frame. -/
theorem execute_tracks (model : Model) :
    Tracks globalsFrame (fun _ => True) model.execute fun _ => True := by
  have tracked := model.invoke_tracked model.maxCallDepth
  unfold execute evaluator Evaluator.run
  refine (Evaluator.declareGlobals_tracks tracked 0 _).bind fun _ => ?_
  have defined : Tracks globalsFrame (fun _ => True)
      (model.function model.config.entry ⟨model.config.entry, 0⟩) fun _ => True := by
    unfold Model.function
    split
    · exact .pure _
    · exact .refuse rfl
  refine defined.bind fun entry => ?_
  have observed : Tracks entry.name (fun _ => True) (do capture; Run.sweep) fun _ => True :=
    Tracks.capture.bind fun _ => .sweep
  rw [Evaluator.runEntry_eq]
  refine Tracks.bind ?_ fun _ => .pure ()
  exact Evaluator.inside_tracks tracked [] none observed

end Model

/-- A panic of a run that has ended lies in the function of the top frame. In the complete log it is
the fault that comes right after what led to it, at the last statement of that which is not in a
call that was left; at most a sweep follows. -/
structure Panic.Located (panic : Panic) (ended : Simulator) : Prop where
  function : panic.location.function = ended.storage.current.function
  outside : ended.storage.depth = 1 → panic.location.function = globalsFrame
  logged : ended.machine.trace.truncated = false → ∃ before after,
    ended.machine.trace.events.toList = before ++ .fault panic.kind panic.location :: after ∧
      lastOpen before = some panic.location ∧
      (after = [] ∨ ∃ unreachable, after = [.sweep unreachable])

namespace Simulator

/-- A run without a fault adds no panic, and it leaves the trace of its end. -/
theorem conclude_faultless (simulator : Simulator) (machine : Machine) {result : Except Halt Unit}
    (faultless : Run.faultKind? result = none) :
    (simulator.conclude (result, machine)).2.panics = simulator.panics ∧
      (simulator.conclude (result, machine)).2.machine.trace = machine.trace := by
  cases result with
  | ok _ => exact ⟨rfl, rfl⟩
  | error halt =>
      cases halt with
      | aborted | callDepthExceeded => exact ⟨rfl, rfl⟩
      | error error =>
          cases error with
          | fault cause location => exact absurd faultless (Option.some_ne_none cause.kind)
          | _ => exact ⟨rfl, rfl⟩

/-- The events of a complete trace are the fault after those of before, and at most a sweep. -/
theorem faults_conclude (simulator : Simulator) (cause : Fault) (location : Location)
    {machine : Machine} {limit : Nat} {events : List TraceEvent}
    (logged : machine.trace = (Trace.new limit).recordAll events)
    (faultless : machine.trace.faults = []) :
    let ended := (simulator.conclude (.error (.error (.fault cause location)), machine)).2
    let trace := ended.machine.trace
    trace.truncated = false → trace.faults = [cause.kind] ∧ ∃ after,
      trace.events.toList = events ++ .fault cause.kind location :: after ∧
        (after = [] ∨ ∃ unreachable, after = [.sweep unreachable]) := by
  obtain ⟨storage, trace, signal, finals⟩ := machine
  obtain rfl : trace = _ := logged
  have ended : (simulator.conclude (.error (.error (.fault cause location)),
      ⟨storage, (Trace.new limit).recordAll events, signal, finals⟩)).2.machine.trace =
        (Trace.new limit).recordAll (events ++ panicEvents cause location storage) := by
    rw [Trace.recordAll_append]
    exact congrArg Machine.trace (panicked_eq cause location storage _ signal finals)
  dsimp only
  rw [ended]
  obtain ⟨held, marked⟩ := Trace.recordAll_new limit (events ++ panicEvents cause location storage)
  intro complete
  have enough : (events ++ panicEvents cause location storage).length ≤ limit := by
    refine Nat.not_lt.mp fun more => ?_
    rw [marked.mpr more] at complete
    cases complete
  have before : events.length ≤ limit :=
    Nat.le_trans (List.sublist_append_left _ _).length_le enough
  rw [List.take_of_length_le enough] at held
  have silent : events.filterMap TraceEvent.faultKind? = [] := by
    have kept := (Trace.recordAll_new limit events).1
    rw [List.take_of_length_le before] at kept
    rw [← kept]
    exact faultless
  rw [Trace.faults, held, List.filterMap_append, silent, panicEvents]
  split
  · exact ⟨rfl, _, rfl, .inr ⟨_, rfl⟩⟩
  · exact ⟨rfl, _, rfl, .inl rfl⟩

/-- A first run panics at most once. The panic is the only fault in a complete log, and it is
located at the last statement that is not in a call that was left. -/
theorem panic_located (program : Program) (config : Config) (signal : AbortSignal) :
    let run := (signalled program config signal).run
    run.2.panics.length ≤ 1 ∧ (∀ panic ∈ run.2.panics, panic.Located run.2) ∧
      (run.2.machine.trace.truncated = false →
        run.2.machine.trace.faults = run.2.panics.map (·.kind)) := by
  intro run
  let simulator := signalled program config signal
  have concluded : run = simulator.conclude simulator.ending := run_eq_conclude rfl
  obtain ⟨events, logged, tracked⟩ := (Model.new program config).execute_tracks simulator.machine
    [] none [] Storage.WellBound.empty rfl trivial
  have faultless : simulator.ending.2.trace.faults = [] :=
    Run.Stepwise.faults_eq (Model.new program config).evaluator.run simulator.machine
  have ended : exec (Model.new program config).execute simulator.machine = simulator.ending := rfl
  rw [ended] at logged tracked
  generalize simulator.ending = last at concluded logged tracked faultless
  obtain ⟨result, machine⟩ := last
  dsimp only at logged tracked faultless
  have unfaulted (other : Run.faultKind? result = none) :
      run.2.panics.length ≤ 1 ∧ (∀ panic ∈ run.2.panics, panic.Located run.2) ∧
        (run.2.machine.trace.truncated = false →
          run.2.machine.trace.faults = run.2.panics.map (·.kind)) := by
    obtain ⟨panics, same⟩ := simulator.conclude_faultless machine other
    rw [concluded, panics, same, faultless]
    exact ⟨Nat.zero_le 1, List.forall_mem_nil _, fun _ => rfl⟩
  generalize standing : Standing.advanceAll [none] events = stands at tracked
  cases tracked with
  | ok => exact unfaulted rfl
  | other other => exact unfaulted other
  | @fault cause location _ inner above top =>
      have located : lastOpen events = some location := by
        rw [lastOpen, standing]
        rfl
      have panics : run.2.panics = [⟨cause.kind, location⟩] := by
        rw [concluded]
        rfl
      have storage : run.2.storage = machine.storage.sweep.2 := by
        rw [concluded]
        exact exec_panicked cause location machine
      have reported := simulator.faults_conclude cause location logged faultless
      rw [← concluded] at reported
      rw [panics]
      refine ⟨Nat.le_refl 1,
        List.forall_mem_singleton.mpr ⟨?_, fun alone => ?_, fun complete => ?_⟩,
        fun complete => (reported complete).1⟩
      · rw [Storage.functions_eq, List.getLast?_concat] at top
        rw [storage]
        exact (Option.some.inj top).symm
      · rw [storage] at alone
        have single : machine.storage.functions.length = 1 := by
          rw [Storage.functions, List.length_map, Storage.length_frames]
          exact alone
        have whole : [globalsFrame] = machine.storage.functions := above.eq_of_length single.symm
        rw [← whole] at top
        exact (Option.some.inj top).symm
      · obtain ⟨-, after, held, rest⟩ := reported complete
        exact ⟨events, after, held, located, rest⟩

/-- A program whose last statement that is reached is one of a call that is left before the
panic. -/
def indexingCall : Program :=
  ⟨[], [.new "main" []
      [.declare (.new "x" .value (some (.index (.call "given" []) (.lit (.int 1)))))],
    .withResult (.new "given" [] [.ret (some (.sliceLit [.lit (.int 7)] none))]) none
      .referenceHeader]⟩

/-- The panic is located at the statement that called, and not at the last one that was reached. -/
theorem panic_located_indexing :
    let run := (signalled indexingCall .default .idle).run
    run.2.machine.trace.truncated = false ∧
      run.2.panics = [⟨.indexOutOfRange, ⟨"main", 0⟩⟩] ∧
      run.2.storage.current.function = "main" ∧
      ∃ before after, run.2.machine.trace.events.toList =
          before ++ .fault .indexOutOfRange ⟨"main", 0⟩ :: after ∧
        lastOpen before = some ⟨"main", 0⟩ ∧ .statement ⟨"given", 0⟩ ∈ before := by
  intro run
  have complete : run.2.machine.trace.truncated = false := by cbv
  have panics : run.2.panics = [⟨.indexOutOfRange, ⟨"main", 0⟩⟩] := by cbv
  obtain ⟨-, located, -⟩ := panic_located indexingCall .default .idle
  have located := located ⟨.indexOutOfRange, ⟨"main", 0⟩⟩ (panics ▸ List.mem_singleton.mpr rfl)
  obtain ⟨before, after, held, last, rest⟩ := located.logged complete
  refine ⟨complete, panics, located.function.symm, before, after, held, last, ?_⟩
  have reached : run.2.machine.trace.events.toList.contains (.statement ⟨"given", 0⟩) = true := by
    cbv
  rw [held, List.contains_iff_mem, List.mem_append, List.mem_cons] at reached
  rcases reached with earlier | same | later
  · exact earlier
  · cases same
  · rcases rest with rfl | ⟨unreachable, rfl⟩
    · cases later
    · cases List.mem_singleton.mp later

end Simulator

end ReferenceSemantics
