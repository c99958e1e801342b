import ReferenceSemantics.Proofs.Escape.Names
import ReferenceSemantics.Proofs.Program.Acceptance
import ReferenceSemantics.Proofs.Run.Captured
import ReferenceSemantics.Proofs.Run.Failing
import ReferenceSemantics.Proofs.Run.Level
import ReferenceSemantics.Proofs.Run.Unstopped

set_option autoImplicit false

/-!
Runs that go on from where they were stopped.

The same run under two signals is the same up to the boundary where the first signal stops it. When
the second lets one boundary more pass, what stands there is executed from the storage that the
first run shows. So if that fails, the whole run fails with it and there.
-/

namespace ReferenceSemantics

open Run AbortSignal

/-- A call of the function is the innermost one. -/
structure Storage.Runs (storage : Storage) (function : String) : Prop where
  inCall : storage.InCall
  current : storage.current.function = function

theorem Storage.Runs.seated {storage changed : Storage} {function : String}
    (runs : storage.Runs function)
    (same : changed.skeleton.map (·.function) = storage.skeleton.map (·.function)) :
    changed.Runs function :=
  ⟨(inCall_of_seated same).mpr runs.inCall, (current_of_seated same).trans runs.current⟩

/-- The two ends of a computation under two signals of which the second is ahead. They are the same,
or the first is at a boundary, and the second is the failure of what stands there if that fails. -/
inductive Resumed (program : Program) (config : Config) {α : Type} :
    Except Halt α × Machine → Except Halt α × Machine → Prop where
  | same {result : Except Halt α} {storage : Storage} {trace : Trace} {finals : NameMap Value}
      {signal signal' : AbortSignal} (ahead : Ahead signal signal')
      (unaborted : ∀ location, result ≠ .error (.aborted location)) :
      Resumed program config (result, ⟨storage, trace, signal, finals⟩)
        (result, ⟨storage, trace, signal', finals⟩)
  | stopped {location : Location} {stopped : Machine} {last : Except Halt α × Machine}
      {scope : EscapeScope} {task : Task} (invoke : Invocation)
      (stands : program.Stands config.escapeMode stopped.storage location scope task)
      (fails : ∀ halt changed,
        Acts (task.run ⟨Model.new program config, invoke⟩ location) stopped.storage (.error halt)
          changed → last.1 = .error halt ∧ last.2.storage = changed) :
      Resumed program config (.error (.aborted location), stopped) last

/-- Started on some storage, a computation that is stopped can be resumed. -/
def Resumes {α : Type} (program : Program) (config : Config) (before : Storage) (run : Run α) :
    Prop :=
  ∀ machine signal', machine.storage = before → Ahead machine.abort signal' →
    Resumed program config (exec run machine) (exec run { machine with abort := signal' })

namespace Resumes

variable {α β : Type} {program : Program} {config : Config} {before : Storage}
  {location : Location}

theorem unstopped {run : Run α} (unstopped : Unstopped run) :
    Resumes program config before run := by
  rintro ⟨storage, trace, signal, finals⟩ signal' - ahead
  obtain ⟨result, changed, trace', finals', unaborted, ran⟩ := unstopped storage trace finals
  rw [ran, ran]
  exact .same ahead unaborted

theorem quiet {run : Run α} [Quiet run] : Resumes program config before run :=
  unstopped (.quiet run)

theorem pure (value : α) : Resumes program config before (pure value) := quiet

theorem lookup (name : String) : Resumes program config before (lookup name location) :=
  unstopped (.lookup name)

theorem allocate (change : Storage → α × Storage) :
    Resumes program config before (allocate change) :=
  unstopped (.allocate change)

theorem transition (function : String) (state : CallState) :
    Resumes program config before (transition function state) :=
  unstopped (.transition function state)

theorem capture : Resumes program config before capture := unstopped .capture

/-- What comes later may use what is known of the storage that is reached. -/
theorem bind_of_exec {first : Run α} {next : α → Run β}
    (start : Resumes program config before first)
    (rest : ∀ machine value reached, machine.storage = before →
      exec first machine = (.ok value, reached) →
        Resumes program config reached.storage (next value)) :
    Resumes program config before (first >>= next) := by
  intro machine signal' started ahead
  have here := start machine signal' started ahead
  rw [exec_bind, exec_bind]
  generalize ran : exec first machine = last at here
  generalize exec first { machine with abort := signal' } = last' at here
  cases here with
  | @same result storage trace finals signal signal' ahead unaborted =>
      cases result with
      | error halt =>
          exact .same ahead fun location same =>
            unaborted location (congrArg Except.error (Except.error.inj same))
      | ok value => exact rest machine value _ started ran _ signal' rfl ahead
  | stopped invoke stands fails =>
      refine .stopped invoke stands fun halt changed acts => ?_
      obtain ⟨failed, kept⟩ := fails halt changed acts
      obtain ⟨result, reached⟩ := last'
      obtain rfl : result = .error halt := failed
      exact ⟨rfl, kept⟩

theorem bind {first : Run α} {next : α → Run β} (start : Resumes program config before first)
    (rest : ∀ value later, Resumes program config later (next value)) :
    Resumes program config before (first >>= next) :=
  start.bind_of_exec fun _ value reached _ _ => rest value reached.storage

/-- What is put together without boundaries is stopped in its calls. -/
theorem of_alike {pairing : Pairing} {run run' : Run α} (alike : pairing.Alike run run')
    (confined : ¬ pairing.steps)
    (calls : ∀ {callee function}, pairing.model.function? callee = some function →
      ∀ args location before,
        Resumes program config before (pairing.invoke function args location))
    (before : Storage) : Resumes program config before run := by
  induction alike generalizing before with
  | quiet run => exact .quiet
  | bind start rest startResumes restResumes => exact (startResumes before).bind restResumes
  | lookup permitted => exact .lookup _
  | call permitted found evaluated complete evaluatedResumes =>
      exact (evaluatedResumes before).bind fun args => calls found args _
  | declare _ _ _ _ _ permitted | checkpoint _ permitted | transition _ _ permitted
  | capture permitted => exact absurd permitted confined

/-- At a boundary the run is stopped, or it goes on with what stands there. -/
theorem boundary {scope : EscapeScope} {task : Task} (invoke : Invocation) {rest : Run α}
    (stands : program.Stands config.escapeMode before location scope task)
    (fails : ∀ halt changed,
      Acts (task.run ⟨Model.new program config, invoke⟩ location) before (.error halt) changed →
        Acts rest before (.error halt) changed)
    (resumes : Resumes program config before rest) :
    Resumes program config before (do checkpoint location; rest) := by
  rintro ⟨storage, trace, signal, finals⟩ signal' rfl ahead
  have passes (signal : AbortSignal) (lowered : signal.tick.raised = false) :
      exec (do checkpoint location; rest) ⟨storage, trace, signal, finals⟩ =
        exec rest ⟨storage, trace.record (.statement location), signal.tick, finals⟩ := by
    simp only [Run.checkpoint, exec_bind, exec_modify, exec_get, lowered, Bool.false_eq_true,
      if_false, exec_record]
  obtain ⟨lowered', stops | ⟨lowered, ahead⟩⟩ := ahead.tick
  · rw [passes signal' lowered']
    have stopped : exec (do checkpoint location; rest) ⟨storage, trace, signal, finals⟩ =
        (.error (.aborted location), ⟨storage, trace, signal.tick, finals⟩) := by
      simp only [Run.checkpoint, exec_bind, exec_modify, exec_get, stops, if_true, exec_throw]
    rw [stopped]
    exact .stopped invoke stands fun halt changed acts => (fails halt changed acts).exec_eq rfl
  · rw [passes signal lowered, passes signal' lowered']
    exact resumes _ _ rfl ahead

/-- What happens in a frame of its own. -/
theorem framed {function : String} {callSite : Option Location} {inside : Run α}
    (resumes : ∀ before : Storage,
      Resumes program config (before.pushFrame function callSite) inside) :
    Resumes program config before (framed function callSite inside) := by
  unfold Run.framed
  refine (unstopped (.pushFrame function callSite)).bind_of_exec ?_
  rintro machine _ _ rfl ⟨⟩
  exact (resumes machine.storage).bind fun _ _ => (unstopped .popFrame).bind fun _ _ => .pure _

theorem exited {function : String} {callSite : Option Location} {inside : Run (Option Value)}
    (resumes : ∀ before : Storage,
      Resumes program config (before.pushFrame function callSite) inside) :
    Resumes program config before (do
      let result ← Run.framed function callSite inside
      Run.transition function .exited
      return result) :=
  (framed resumes).bind fun _ _ => (transition _ _).bind fun _ _ => .pure _

end Resumes

/-! ### What is put together without boundaries -/

/-- Calls can be resumed, and leave the frames when they return. -/
structure Program.ResumesCalls (program : Program) (config : Config) (invoke : Invocation) :
    Prop where
  level : invoke.Level
  resumes : ∀ name function args location before,
    (Model.new program config).function? name = some function →
      Resumes program config before (invoke function args location)

namespace Program

variable {program : Program} {config : Config} {invoke : Invocation} {before : Storage}
  {function : FunctionDef} {location : Location}

theorem bindSlot_resumes (name : String) (kind : Kind) (site : SiteId) (value : Value) :
    Resumes program config before ((Model.new program config).bind name kind site value) := by
  unfold Model.bind
  exact (Resumes.allocate _).bind fun _ _ => .quiet

theorem bindSlots_resumes (args : List Value) :
    Resumes program config before
      ((Model.new program config).bindSlots function args location) := by
  have params : ∀ (params : List Param) (args : List Value) (before : Storage),
      Resumes program config before
        ((Model.new program config).bindParams function.name location params args) := by
    intro params
    induction params with
    | nil =>
        intro args before
        simp only [Model.bindParams]
        exact .pure ()
    | cons param params inductionHypothesis =>
        intro args before
        cases args with
        | nil =>
            simp only [Model.bindParams]
            exact .pure ()
        | cons arg args =>
            rw [Model.bindParams]
            refine Resumes.quiet.bind fun _ _ => ?_
            exact (bindSlot_resumes _ _ _ _).bind fun _ => inductionHypothesis args
  unfold Model.bindSlots Model.bindResult
  refine (params function.params args before).bind fun _ _ => ?_
  split
  · exact bindSlot_resumes _ _ _ _
  · exact .pure ()

section

variable (calls : program.ResumesCalls config invoke)

include calls

theorem between_resumes {α : Type} {run : Run α}
    (alike : ((Model.new program config).between invoke).Alike run run) :
    Resumes program config before run :=
  .of_alike alike id (fun found args location before =>
    calls.resumes _ _ args location before found) before

theorem evaluateDecl_resumes (decl : VarDecl) :
    Resumes program config before
      (Evaluator.evaluateDecl ⟨Model.new program config, invoke⟩ location decl) :=
  between_resumes calls (Model.between_evaluateDecl _ _ _ _)

theorem execute_resumes (stmt : Stmt) :
    Resumes program config before
      (Evaluator.execute ⟨Model.new program config, invoke⟩ function location stmt) := by
  cases declared : stmt.declared? with
  | none => exact between_resumes calls (Model.between_execute declared)
  | some decl =>
      rw [Stmt.eq_declare declared, Evaluator.execute]
      refine (evaluateDecl_resumes calls decl).bind fun value _ => ?_
      exact (bindSlot_resumes _ _ _ value).bind fun _ _ => .pure _

theorem executeFrom_resumes (member : function ∈ program.functions) {stmts : List Stmt} :
    ∀ {done : List Stmt} {before : Storage}, function.body = done ++ stmts →
      before.Runs function.name → Resumes program config before
        (Evaluator.executeFrom ⟨Model.new program config, invoke⟩ function done.length stmts) := by
  induction stmts with
  | nil =>
      intro done before _ _
      rw [Evaluator.executeFrom]
      exact .pure none
  | cons stmt stmts inductionHypothesis =>
      intro done before split runs
      rw [Evaluator.executeFrom]
      refine .boundary invoke (.statement member split runs.inCall runs.current)
        (fun halt changed acts => (Acts.of_finish acts).halted) ?_
      refine (execute_resumes calls stmt).bind_of_exec fun machine flow reached started ran => ?_
      cases flow with
      | returned value => exact .pure value
      | next =>
          have further : function.body = (done ++ [stmt]) ++ stmts := by
            rw [split, List.append_assoc, List.singleton_append]
          have seated := Evaluator.execute_seated calls.level function stmt machine _ reached ran
          have rest := inductionHypothesis further (runs.seated (started ▸ seated))
          rwa [List.length_append, List.length_singleton] at rest

theorem inside_resumes (member : function ∈ program.functions) (args : List Value)
    (callSite : Option Location) {observe : Run Unit}
    (observed : ∀ after, Resumes program config after observe) :
    Resumes program config (before.pushFrame function.name callSite)
      (Evaluator.inside ⟨Model.new program config, invoke⟩ function args location observe) := by
  have runs : (before.pushFrame function.name callSite).Runs function.name :=
    ⟨List.cons_ne_nil _ _, rfl⟩
  have opened : Resumes program config (before.pushFrame function.name callSite)
      ((Model.new program config).open function args location) := by
    unfold Model.open
    refine (Resumes.transition _ _).bind fun _ _ => (bindSlots_resumes args).bind fun _ _ => ?_
    exact .transition _ _
  unfold Evaluator.inside
  refine opened.bind_of_exec fun machine _ reached started ran => ?_
  have seated := Model.open_seated _ function args location machine _ reached ran
  have whole : function.body = [] ++ function.body := rfl
  unfold Evaluator.executeBody
  refine (executeFrom_resumes calls member whole (runs.seated (started ▸ seated))).bind
    fun returned _ => ?_
  refine (observed _).bind fun _ _ => ?_
  unfold FunctionDef.close FunctionDef.copyOut
  refine (Resumes.transition _ _).bind fun _ _ => ?_
  split
  next => exact .pure _
  next name named =>
    refine (Resumes.lookup name).bind fun ref _ => ?_
    rw [map_eq_pure_bind]
    exact .quiet

theorem declareGlobals_resumes {decls : List VarDecl} :
    ∀ {done : List VarDecl} {before : Storage}, program.globals = done ++ decls →
      ¬ before.InCall → Resumes program config before
        (Evaluator.declareGlobals ⟨Model.new program config, invoke⟩ done.length decls) := by
  induction decls with
  | nil =>
      intro done before _ _
      rw [Evaluator.declareGlobals]
      exact .pure ()
  | cons decl decls inductionHypothesis =>
      intro done before split outside
      have declared : Resumes program config before
          (Evaluator.declareGlobal ⟨Model.new program config, invoke⟩ ⟨globalsFrame, done.length⟩
            decl) := by
        unfold Evaluator.declareGlobal
        refine (evaluateDecl_resumes calls decl).bind fun value _ => ?_
        exact (Resumes.allocate _).bind fun _ _ => .quiet
      rw [Evaluator.declareGlobals]
      refine .boundary invoke (.initialiser split outside)
        (fun halt changed acts => acts.halted) ?_
      refine declared.bind_of_exec fun machine _ reached started ran => ?_
      have seated := Evaluator.declareGlobal_seated calls.level decl machine _ reached ran
      have further : program.globals = (done ++ [decl]) ++ decls := by
        rw [split, List.append_assoc, List.singleton_append]
      have outside : ¬ reached.storage.InCall := fun inCall =>
        outside ((Storage.inCall_of_seated (started ▸ seated)).mp inCall)
      have rest := inductionHypothesis further outside
      rwa [List.length_append, List.length_singleton] at rest

end

theorem invoke_resumes (program : Program) (config : Config) (depth : Nat) :
    program.ResumesCalls config ((Model.new program config).invoke depth) := by
  refine ⟨(Model.new program config).invoke_level depth, ?_⟩
  induction depth with
  | zero =>
      intro name function args location before _
      exact .unstopped .exceeded
  | succ depth inductionHypothesis =>
      intro name function args location before found
      have calls : program.ResumesCalls config ((Model.new program config).invoke depth) :=
        ⟨(Model.new program config).invoke_level depth, inductionHypothesis⟩
      rw [Model.invoke, Evaluator.perform_eq]
      exact .exited fun before =>
        inside_resumes calls (of_function? found).1 args _ fun _ => .pure ()

/-- A run that is stopped can be resumed. -/
theorem run_resumes (program : Program) (config : Config) :
    Resumes program config .empty (Model.new program config).execute := by
  have calls := program.invoke_resumes config (Model.new program config).maxCallDepth
  have whole : program.globals = [] ++ program.globals := rfl
  unfold Model.execute Evaluator.run
  refine (declareGlobals_resumes calls whole fun inCall => inCall rfl).bind fun _ middle => ?_
  have defined : Resumes program config middle
      ((Model.new program config).function config.entry ⟨config.entry, 0⟩) := by
    have unknown : Quiet (fail (.undefinedFunction config.entry ⟨config.entry, 0⟩) :
        Run FunctionDef) :=
      quiet_fail fun _ _ same => RuntimeError.noConfusion same
    unfold Model.function
    split
    next => exact .pure _
    next => exact .quiet
  refine defined.bind_of_exec fun machine entry reached _ ran => ?_
  have member := (of_function? (Model.function?_of_exec ran).1).1
  refine Resumes.bind ?_ fun _ _ => .pure ()
  rw [Evaluator.runEntry_eq]
  refine .exited fun before => inside_resumes calls member [] none fun _ => ?_
  exact Resumes.capture.bind fun _ _ => .quiet

end Program

namespace Simulator

variable {program : Program} {config : Config}

/-- A statement or an initialiser without calls stands at a boundary of a first run and fails. Then
it has only added to storage, and all that was there at the boundary is as it was. Every run that
may pass the boundary ends so, and a verdict on it has the values at the boundary. -/
theorem failing_task_adds (checked : program.check config.entry = .ok ()) {budget : Nat}
    {location : Location} {boundary after : Machine} {scope : EscapeScope} {task : Task}
    {error : RuntimeError}
    (reached : (signalled program config ⟨false, some budget⟩).ending =
      (.error (.aborted location), boundary))
    (stands : program.Stands config.escapeMode boundary.storage location scope task)
    (callFree : task.callees = [])
    (failed : exec (task.run (Model.new program config).evaluator location) boundary =
      (.error (.error error), after))
    (fits : after.storage.Fits) :
    boundary.storage.Adds after.storage ∧
      (∀ address object, boundary.storage.objectAt? address = some object →
        after.storage.objectAt? address = some object) ∧
      ∀ signal : AbortSignal, signal.Allows (budget + 1) →
        let simulator := signalled program config signal
        simulator.ending.1 = .error (.error error) ∧
          simulator.ending.2.storage = after.storage ∧
          ∀ cause place, error = .fault cause place →
            ∃ verdict, simulator.run.1 = .ok verdict ∧
              verdict.finalValues = captured boundary.storage ∧
              verdict.panics = [⟨cause.kind, place⟩] := by
  have single := (Program.accepted_of_check checked).single
  -- However calls are run, the task does the same from the boundary.
  have alone (invoke : Invocation) :
      Acts (task.run ⟨Model.new program config, invoke⟩ location) boundary.storage
        (.error (.error error)) after.storage ∧ boundary.storage.Adds after.storage := by
    obtain ⟨result, changed, acts, adds⟩ :=
      Task.acts callFree invoke location boundary.storage
    have same : task.run ⟨Model.new program config, invoke⟩ location =
        task.run (Model.new program config).evaluator location :=
      Task.run_eq callFree invoke _ location
    obtain ⟨ended, left⟩ := acts.exec_eq rfl
    rw [same, failed] at ended left
    subst ended left
    exact ⟨acts, adds _ rfl fits⟩
  have adds := (alone (Model.new program config).evaluator.invoke).2
  refine ⟨adds, fun address object => adds.objectAt? fits, fun signal allows => ?_⟩
  have resumed : Resumed program config (signalled program config ⟨false, some budget⟩).ending
      (signalled program config signal).ending :=
    program.run_resumes config _ signal rfl ⟨budget, rfl, allows⟩
  have ended : (signalled program config signal).ending.1 = .error (.error error) ∧
      (signalled program config signal).ending.2.storage = after.storage := by
    rw [reached] at resumed
    generalize (signalled program config signal).ending = last at resumed
    cases resumed with
    | same _ unaborted => exact absurd rfl (unaborted location)
    | stopped invoke stands' fails =>
        obtain ⟨rfl, rfl⟩ := stands.unique single stands'
        exact fails _ _ (alone invoke).1
  refine ⟨ended.1, ended.2, ?_⟩
  rintro cause place rfl
  have wellBound : boundary.storage.WellBound := by
    have whole := wellBound_ending program config ⟨false, some budget⟩
    rwa [reached] at whole
  rw [← captured_adds wellBound adds fits, ← ended.2]
  exact verdict_of_fault rfl ended.1

/-- The second statement creates a slice, and fails when it reads behind its end. -/
def slicingEntry : FunctionDef :=
  .new "main" []
    [.declare (.new "x" .value (some (.lit (.int 1)))),
      .declare (.new "y" .value (some (.index (.sliceLit [.lit (.int 7)] none) (.lit (.int 1)))))]

def slicingProgram : Program := ⟨[], [slicingEntry]⟩

/-- The run stops before the second statement. -/
def slicingStopped : Simulator := signalled slicingProgram .default ⟨false, some 1⟩

/-- The block of the slice is there, and the verdict has the value before the statement. -/
theorem failing_task_adds_slicing :
    let boundary := slicingStopped.ending.2
    let simulator := signalled slicingProgram .default .idle
    slicingProgram.check "main" = .ok () ∧
      slicingStopped.ending.1 = .error (.aborted ⟨"main", 1⟩) ∧
      boundary.storage.heap.entries.size = 0 ∧
      simulator.ending.2.storage.heap.entries.size = 1 ∧
      ∃ verdict, simulator.run.1 = .ok verdict ∧
        verdict.finalValues = captured boundary.storage ∧
        verdict.finalValues.get? "x" = some (.int 1) ∧
        verdict.panics = [⟨.indexOutOfRange, ⟨"main", 1⟩⟩] := by
  intro boundary simulator
  have checked : slicingProgram.check Config.default.entry = .ok () := by cbv
  have stops : slicingStopped.ending.1 = .error (.aborted ⟨"main", 1⟩) := by cbv
  have reached : (signalled slicingProgram .default ⟨false, some 1⟩).ending =
      (.error (.aborted ⟨"main", 1⟩), boundary) :=
    Prod.ext stops rfl
  have frames : boundary.storage.calls.frames.length = 1 := by cbv
  have split : slicingEntry.body =
      slicingEntry.body.take 1 ++ slicingEntry.body[1] :: slicingEntry.body.drop 2 := rfl
  have stands : slicingProgram.Stands .conservative boundary.storage ⟨"main", 1⟩
      (slicingEntry.scopeAt .conservative (slicingEntry.body.take 1))
      (.statement slicingEntry slicingEntry.body[1]) :=
    .statement (List.mem_singleton.mpr rfl) split
      (List.ne_nil_of_length_pos (frames ▸ Nat.one_pos)) (by cbv)
  let last := exec (Task.run (Model.new slicingProgram .default).evaluator ⟨"main", 1⟩
    (.statement slicingEntry slicingEntry.body[1])) boundary
  have fails : last.1 = .error (.error (.fault (.indexOutOfRange 1 1) ⟨"main", 1⟩)) := by cbv
  have fits : last.2.storage.Fits := by
    have stackEnd : last.2.storage.nextStackAddress = stackStart + slotSize := by cbv
    rw [Storage.Fits, stackEnd]
    decide
  obtain ⟨-, -, ends⟩ := failing_task_adds checked reached stands rfl (Prod.ext fails rfl) fits
  obtain ⟨-, -, verdicts⟩ := ends .idle fun _ limited => by cases limited
  obtain ⟨verdict, ran, values, panics⟩ := verdicts _ _ rfl
  have held : (captured boundary.storage).get? "x" = some (.int 1) := by cbv
  exact ⟨checked, stops, by cbv, by cbv, verdict, ran, values, values ▸ held, panics⟩

end Simulator

end ReferenceSemantics
