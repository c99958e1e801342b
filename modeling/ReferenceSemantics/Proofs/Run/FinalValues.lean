import ReferenceSemantics.Proofs.Program.Acceptance
import ReferenceSemantics.Proofs.Run.Captured
import ReferenceSemantics.Proofs.Run.Declared

set_option autoImplicit false

/-!
Which values a run ends with.

The final values are taken at the end of the body of the entry function, or where a fault ends the
run. They are those of the globals that have been initialised by then and, once the entry function
has been entered, of its named result and of what its executed statements have declared. A call of
the entry function in an initialiser is like any other call: its frame has a place it was called
from, and nothing of it is taken.
-/

namespace ReferenceSemantics

open Run

/-! ### The bottom of the stack -/

/-- The entry function, once it is entered, and the statements of it that have been executed. -/
structure Entered where
  function : FunctionDef
  executed : List Stmt

/-- The names that are bound in its frame. -/
def Entered.names (entered : Entered) : List String :=
  entered.function.namedResult.toList ++ declaredIn entered.executed

namespace Storage

variable {storage changed : Storage}

theorem bare_of_concat (lower : List Frame) {frame : Frame}
    (shape : storage.skeleton = lower ++ [frame]) : storage.current.bare = frame := by
  rw [skeleton_eq] at shape
  exact List.singleton_inj.mp (List.append_inj_right' shape rfl)

theorem Declares.skeleton_eq {later : List String} (declares : storage.Declares changed later) :
    changed.skeleton = storage.skeleton.dropLast ++ [changed.current.bare] := by
  rw [← declares.below]
  exact changed.skeleton_eq

end Storage

/-- The frames that stay: the root frame with globals and, on it, that of the entry function. -/
inductive Bottom (globals : List VarDecl) : Option Entered → List Frame → Prop where
  | root {root : Frame} (bound : root.Binds (globals.map (·.name))) : Bottom globals none [root]
  | entry {root frame : Frame} {entered : Entered} (bound : root.Binds (globals.map (·.name)))
      (function : frame.function = entered.function.name) (callSite : frame.callSite = none)
      (own : frame.Binds entered.names) : Bottom globals (some entered) [root, frame]

namespace Bottom

variable {globals : List VarDecl} {storage changed : Storage} {entry : FunctionDef}

theorem empty : Bottom [] none Storage.empty.skeleton :=
  .root fun _ => iff_of_false Bool.false_ne_true List.not_mem_nil

/-- More globals are initialised. -/
theorem initialise {decls : List VarDecl} (bottom : Bottom globals none storage.skeleton)
    (declares : storage.Declares changed (decls.map (·.name))) :
    Bottom (globals ++ decls) none changed.skeleton := by
  rw [declares.skeleton_eq]
  generalize shape : storage.skeleton = base at bottom
  cases bottom with
  | @root root bound =>
      have current : storage.current.bare = root := Storage.bare_of_concat [] shape
      subst current
      refine .root ?_
      rw [List.map_append]
      exact declares.binds bound

/-- The entry function is entered. -/
theorem enter (bottom : Bottom globals none storage.skeleton)
    (declares : (storage.pushFrame entry.name none).Declares changed entry.namedResult.toList) :
    Bottom globals (some ⟨entry, []⟩) changed.skeleton := by
  rw [declares.skeleton_eq, Storage.skeleton_pushFrame, List.dropLast_concat]
  generalize storage.skeleton = base at bottom
  cases bottom with
  | root bound =>
      have own := declares.binds fun name => iff_of_false Bool.false_ne_true List.not_mem_nil
      have names : Entered.names ⟨entry, []⟩ = entry.namedResult.toList := List.append_nil _
      exact .entry bound declares.function declares.callSite (names ▸ own)

/-- More statements are executed. -/
theorem execute {done stmts : List Stmt}
    (bottom : Bottom globals (some ⟨entry, done⟩) storage.skeleton)
    (declares : storage.Declares changed (declaredIn stmts)) :
    Bottom globals (some ⟨entry, done ++ stmts⟩) changed.skeleton := by
  rw [declares.skeleton_eq]
  generalize shape : storage.skeleton = base at bottom
  cases bottom with
  | @entry root frame _ bound function callSite own =>
      have current : storage.current.bare = frame := Storage.bare_of_concat [root] shape
      subst current
      refine .entry bound (declares.function.trans function) (declares.callSite.trans callSite) ?_
      rw [Entered.names, declaredIn_append, ← List.append_assoc]
      exact declares.binds own

/-- With these frames at the bottom, exactly the names that they bind mean something. -/
theorem entryLookup {entered : Option Entered} {base : List Frame}
    (bottom : Bottom globals entered base) (above : storage.Above base) (name : String) :
    (storage.entryLookup name).isSome ↔
      name ∈ globals.map (·.name) ∨ ∃ entry, entered = some entry ∧ name ∈ entry.names := by
  obtain ⟨calls, shape, called⟩ := above
  have second : (storage.frame? 1).map Frame.bare = storage.skeleton[1]? := by
    rw [Storage.frame?_eq, ← List.getElem?_map]
    rfl
  rw [Storage.entryLookup, Option.isSome_or, Bool.or_eq_true, or_comm]
  cases bottom with
  | @root root bound =>
      have lowest : storage.root.bare = root := List.head_eq_of_cons_eq shape
      have unentered : storage.entryFrame? = none := by
        refine Option.eq_none_iff_forall_not_mem.mpr fun frame found => ?_
        obtain ⟨there, uncalled⟩ := Option.filter_eq_some_iff.mp found
        rw [there, shape] at second
        have first : frame.bare ∈ calls := List.mem_of_getElem? second.symm
        have none : frame.bare.callSite = none := Option.isNone_iff_eq_none.mp uncalled
        have some := called _ first
        rw [none] at some
        cases some
      rw [unentered, ← bound name, ← lowest]
      simp only [Option.bind_none, Option.isSome_none, Bool.false_eq_true, reduceCtorEq, false_and,
        exists_false]
      rfl
  | @entry root frame entry bound function callSite own =>
      have lowest : storage.root.bare = root := List.head_eq_of_cons_eq shape
      rw [shape] at second
      obtain ⟨there, found, same⟩ := Option.map_eq_some_iff.mp second
      have uncalled : there.callSite = none := (congrArg (·.callSite) same).trans callSite
      have entered : storage.entryFrame? = some there :=
        Option.filter_eq_some_iff.mpr ⟨found, Option.isNone_iff_eq_none.mpr uncalled⟩
      rw [entered, ← bound name, ← lowest]
      simp only [Option.some.injEq, exists_eq_left', ← own name, ← same, Option.bind_some]
      rfl

end Bottom

/-! ### The course of a run -/

/-- Take the final values at the end of the body of the entry function, and leave it. -/
def FunctionDef.finish (entry : FunctionDef) (returned : Option Value) : Run Unit := do
  capture
  sweep
  let _ ← entry.leave returned

namespace Evaluator

/-- Initialise the globals and enter the entry function. -/
def start (evaluator : Evaluator) : Run FunctionDef := do
  let model := evaluator.model
  evaluator.declareGlobals 0 model.globals
  let entry ← model.function model.config.entry ⟨model.config.entry, 0⟩
  model.enter entry [] none
  return entry

theorem run_eq_start (evaluator : Evaluator) :
    evaluator.run = (do
      let entry ← evaluator.start
      let returned ← evaluator.executeBody entry
      entry.finish returned) := by
  simp only [run, runEntry, start, FunctionDef.finish, bind_assoc, pure_bind]

instance (evaluator : Evaluator) [evaluator.Stepwise] : Run.Stepwise evaluator.start := by
  unfold start
  infer_instance

end Evaluator

/-- When the final values of a run are taken, and on what panic: the storage of that moment, the
globals that have been initialised, and how far the entry function has come. -/
inductive Simulator.Captures (simulator : Simulator) :
    Option Panic → Storage → List VarDecl → Option Entered → Prop where
  /-- The body of the entry function has ended. -/
  | finished {entry : FunctionDef} {started last : Machine} {returned : Option Value}
      (entered : exec simulator.model.evaluator.start simulator.machine = (.ok entry, started))
      (executed : exec (simulator.model.evaluator.executeBody entry) started =
        (.ok returned, last)) :
      Captures simulator none last.storage simulator.model.globals
        (some ⟨entry, untilReturn entry.body⟩)
  /-- A statement of the entry function faults, itself or in its calls. -/
  | inEntry {entry : FunctionDef} {started reached last : Machine} {before rest : List Stmt}
      {stmt : Stmt} {cause : Fault} {location : Location}
      (entered : exec simulator.model.evaluator.start simulator.machine = (.ok entry, started))
      (split : entry.body = before ++ stmt :: rest)
      (goOn : ∀ earlier ∈ before, earlier.returns = false)
      (executed : exec (simulator.model.evaluator.executeFrom entry 0 before) started =
        (.ok none, reached))
      (faults : exec (simulator.model.evaluator.executeAt entry before.length stmt) reached =
        (.error (.error (.fault cause location)), last)) :
      Captures simulator (some ⟨cause.kind, location⟩) last.storage simulator.model.globals
        (some ⟨entry, before⟩)
  /-- The initialiser of a global faults, itself or in its calls. -/
  | inGlobals {reached last : Machine} {before rest : List VarDecl} {decl : VarDecl}
      {cause : Fault} {location : Location}
      (split : simulator.model.globals = before ++ decl :: rest)
      (initialised : exec (simulator.model.evaluator.declareGlobals 0 before) simulator.machine =
        (.ok (), reached))
      (faults : exec (simulator.model.evaluator.initialiseAt before.length decl) reached =
        (.error (.error (.fault cause location)), last)) :
      Captures simulator (some ⟨cause.kind, location⟩) last.storage before none

/-- What halts at a boundary or behind it leaves the frames below its calls. -/
theorem Run.above_of_boundary {α : Type} {rest : Run α} {location : Location}
    {machine last : Machine} {halt : Halt}
    (leaves : ∀ middle, exec rest middle = (.error halt, last) →
      last.storage.Above middle.storage.skeleton)
    (halted : exec (do checkpoint location; rest) machine = (.error halt, last)) :
    last.storage.Above machine.storage.skeleton := by
  obtain stopped | ⟨_, middle, passed, halted⟩ := error_of_bind halted
  · exact (Rests.checkpoint location).above stopped
  · have same : middle.storage.skeleton = machine.storage.skeleton :=
      (Leaves.checkpoint location : Level _) _ _ _ passed
    exact same ▸ leaves middle halted

/-- Leaving a function neither faults nor changes what has been captured. -/
theorem FunctionDef.exec_leave (function : FunctionDef) (returned : Option Value)
    {machine : Machine} (wellBound : machine.storage.WellBound) :
    ∃ result last, exec (function.leave returned) machine = (result, last) ∧
      last.finalValues = machine.finalValues ∧ Run.faultKind? result = none := by
  obtain ⟨trace, returning⟩ := silent_transition function.name .returning machine
  have copies : ∃ result, exec (function.copyOut returned) { machine with trace } =
      (result, { machine with trace }) ∧ Run.faultKind? result = none :=
    function.exec_copyOut returned wellBound
  obtain ⟨result, copied, faultless⟩ := copies
  rw [leave, exec_bind_ok () returning]
  cases result with
  | error halt =>
      exact ⟨.error halt, _, exec_bind_error copied, rfl, faultless⟩
  | ok result =>
      obtain ⟨later, exited⟩ := silent_transition function.name .exited
        { machine with trace, storage := machine.storage.popFrame }
      refine ⟨.ok result, { machine with trace := later, storage := machine.storage.popFrame },
        ?_, rfl, rfl⟩
      rw [exec_bind_ok result copied, popFrame, exec_bind, exec_modify]
      exact exec_bind_ok () exited

/-- The values at the end of the body are the final ones. -/
theorem FunctionDef.exec_finish (entry : FunctionDef) (returned : Option Value)
    {machine last : Machine} {result : Except Halt Unit} (wellBound : machine.storage.WellBound)
    (ran : exec (entry.finish returned) machine = (result, last)) :
    last.finalValues = captured machine.storage ∧ Run.faultKind? result = none := by
  have swept : ∃ trace, exec sweep { machine with finalValues := captured machine.storage } =
      (.ok (), { machine with
        finalValues := captured machine.storage, storage := machine.storage.sweep.2, trace }) := by
    unfold sweep
    simp only [exec_bind, exec_allocate]
    split
    · exact ⟨_, rfl⟩
    · exact ⟨_, rfl⟩
  obtain ⟨trace, swept⟩ := swept
  have leaves : ∃ result after, exec (entry.leave returned) { machine with
      finalValues := captured machine.storage, storage := machine.storage.sweep.2, trace } =
        (result, after) ∧ after.finalValues = captured machine.storage ∧
      Run.faultKind? result = none :=
    entry.exec_leave returned (wellBound.step .sweep)
  obtain ⟨outcome, after, left, values, faultless⟩ := leaves
  rw [finish, capture, exec_bind, exec_modify] at ran
  dsimp only at ran
  rw [exec_bind_ok () swept, exec_bind, left] at ran
  cases outcome with
  | ok _ =>
      cases ran
      exact ⟨values, rfl⟩
  | error halt =>
      cases ran
      exact ⟨values, faultless⟩

namespace Simulator

variable {program : Program} {config : Config} {signal : AbortSignal}

/-- The globals are initialised, and the entry function is entered. -/
theorem bottom_of_start (accepted : program.Accepted config.entry) {entry : FunctionDef}
    {started : Machine}
    (entered : exec (Model.new program config).evaluator.start
      (signalled program config signal).machine = (.ok entry, started)) :
    Bottom program.globals (some ⟨entry, []⟩) started.storage.skeleton := by
  let model := Model.new program config
  have level := model.invoke_level model.maxCallDepth
  obtain ⟨_, initialised, declared, later⟩ := ok_of_bind entered
  obtain ⟨function, found, looked, enters⟩ := ok_of_bind later
  obtain ⟨defined, rfl⟩ := Model.function?_of_exec looked
  obtain ⟨inside, ran, declares⟩ := model.enter_declares (accepted.entry_params defined) found
  have bottom := Bottom.empty.initialise
    (Evaluator.declareGlobals_declares level 0 program.globals _ _ _ declared)
  cases (exec_bind_ok () ran).symm.trans enters
  exact bottom.enter declares

/-- When its final values are taken, a run stands on the frames that they are taken from. -/
theorem Captures.bottom (accepted : program.Accepted config.entry) {panic : Option Panic}
    {storage : Storage} {globals : List VarDecl} {entered : Option Entered}
    (captures : (signalled program config signal).Captures panic storage globals entered) :
    ∃ base, Bottom globals entered base ∧ storage.Above base := by
  let model := Model.new program config
  have level := model.invoke_level model.maxCallDepth
  have rests := model.invoke_rests model.maxCallDepth
  cases captures with
  | finished entered executed =>
      have declares := Evaluator.executeFrom_declares level _ 0 _ _ _ _ executed
      exact ⟨_, (bottom_of_start accepted entered).execute declares, Storage.above_self _⟩
  | @inEntry entry started reached last before rest stmt cause location entered split goOn executed
      faults =>
      have declares := Evaluator.executeFrom_declares level _ 0 _ _ _ _ executed
      rw [untilReturn_eq_self goOn] at declares
      refine ⟨_, (bottom_of_start accepted entered).execute declares, ?_⟩
      exact above_of_boundary (fun _ halted => Evaluator.execute_above rests halted) faults
  | @inGlobals reached last before rest decl cause location split initialised faults =>
      have declares := Evaluator.declareGlobals_declares level 0 _ _ _ _ initialised
      refine ⟨_, Bottom.empty.initialise declares, ?_⟩
      exact above_of_boundary (fun _ halted => Evaluator.declareGlobal_above rests halted) faults

theorem wellBound_of_body {entry : FunctionDef} {started reached : Machine}
    {result : Except Halt (Option Value)}
    (entered : exec (Model.new program config).evaluator.start
      (signalled program config signal).machine = (.ok entry, started))
    (executed : exec ((Model.new program config).evaluator.executeBody entry) started =
      (result, reached)) : reached.storage.WellBound :=
  Run.Stepwise.wellBound executed (Run.Stepwise.wellBound entered .empty)

theorem captures_of_ok {last : Machine}
    (ended : (signalled program config signal).ending = (.ok (), last)) :
    ∃ storage entered,
      (signalled program config signal).Captures none storage program.globals (some entered) ∧
        storage.WellBound ∧ last.finalValues = captured storage := by
  have course := (congrArg (exec · _) (Evaluator.run_eq_start _)).symm.trans ended
  obtain ⟨entry, started, entered, course⟩ := ok_of_bind course
  obtain ⟨returned, reached, executed, course⟩ := ok_of_bind course
  have wellBound := wellBound_of_body entered executed
  exact ⟨_, _, .finished entered executed, wellBound, (entry.exec_finish _ wellBound course).1⟩

theorem captures_of_fault (accepted : program.Accepted config.entry) {cause : Fault}
    {location : Location} {last : Machine}
    (ended : (signalled program config signal).ending =
      (.error (.error (.fault cause location)), last)) :
    ∃ globals entered, (signalled program config signal).Captures (some ⟨cause.kind, location⟩)
      last.storage globals entered := by
  have course := (congrArg (exec · _) (Evaluator.run_eq_start _)).symm.trans ended
  obtain halted | ⟨entry, started, entered, later⟩ := error_of_bind course
  · obtain halted | ⟨_, initialised, declared, later⟩ := error_of_bind halted
    · obtain ⟨before, decl, rest, reached, split, initialised, faults⟩ :=
        Evaluator.declareGlobals_halted halted
      rw [Nat.zero_add] at faults
      exact ⟨before, none, .inGlobals split initialised faults⟩
    · obtain halted | ⟨function, found, looked, enters⟩ := error_of_bind later
      · unfold Model.function at halted
        split at halted <;> cases halted
      · obtain ⟨defined, rfl⟩ := Model.function?_of_exec looked
        obtain ⟨inside, ran, -⟩ := (Model.new program config).enter_declares
          (accepted.entry_params defined) found
        cases (exec_bind_ok () ran).symm.trans enters
  · obtain halted | ⟨returned, reached, executed, finishes⟩ := error_of_bind later
    · obtain ⟨before, stmt, rest, reached, split, goOn, executed, faults⟩ :=
        Evaluator.executeFrom_halted halted
      rw [Nat.zero_add] at faults
      exact ⟨_, _, .inEntry entered split goOn executed faults⟩
    · have wellBound := wellBound_of_body entered executed
      exact absurd (entry.exec_finish returned wellBound finishes).2
        (Option.some_ne_none cause.kind)

/-- A run that ends in a verdict takes its final values once. -/
theorem exists_captures (accepted : program.Accepted config.entry) {verdict : Verdict}
    (ran : (signalled program config signal).run.1 = .ok verdict) :
    ∃ panic storage globals entered,
      (signalled program config signal).Captures panic storage globals entered ∧
        storage.WellBound ∧ verdict.panics = panic.toList ∧
        verdict.finalValues = captured storage := by
  have wellBound := wellBound_ending program config signal
  rw [run_eq_conclude rfl] at ran
  generalize ended : (signalled program config signal).ending = last at ran wellBound
  obtain ⟨result, last⟩ := last
  cases result with
  | ok _ =>
      cases ran
      obtain ⟨storage, entered, captures, wellBound, values⟩ := captures_of_ok ended
      exact ⟨none, storage, _, some entered, captures, wellBound, rfl, values⟩
  | error halt =>
      cases halt with
      | aborted | callDepthExceeded => cases ran
      | error error =>
          cases error with
          | fault cause location =>
              cases ran
              obtain ⟨globals, entered, captures⟩ := captures_of_fault accepted ended
              refine ⟨_, _, globals, entered, captures, wellBound, rfl, ?_⟩
              exact congrArg Machine.finalValues (panicked_eq cause location _ _ _ _)
          | _ => cases ran

/-- The final values are complete and current. A run that ends in a verdict takes them at the end
of the body of the entry function, or else at its panic. The root frame then binds the globals that
have been initialised, the frame of the entry function its named result and what its executed
statements have declared, and all other frames are those of calls. Each of these names has one final
value, and it is the content of the slot that the name means in the frame of the entry function. -/
theorem finalValues_complete (checked : program.check config.entry = .ok ()) {verdict : Verdict}
    (ran : (signalled program config signal).run.1 = .ok verdict) :
    ∃ panic storage globals entered base,
      (signalled program config signal).Captures panic storage globals entered ∧
        verdict.panics = panic.toList ∧
        Bottom globals entered base ∧ storage.Above base ∧
        verdict.finalValues.keys.Nodup ∧
        (∀ name, name ∈ verdict.finalValues.keys ↔ name ∈ globals.map (·.name) ∨
          ∃ entry, entered = some entry ∧ name ∈ entry.names) ∧
        ∀ name value, verdict.finalValues.get? name = some value ↔
          ∃ address slot, storage.entryLookup name = some address ∧
            storage.slot address = .ok slot ∧ slot.value = value := by
  have accepted := Program.accepted_of_check checked
  obtain ⟨panic, storage, globals, entered, captures, wellBound, panics, values⟩ :=
    exists_captures accepted ran
  obtain ⟨base, bottom, above⟩ := captures.bottom accepted
  refine ⟨panic, storage, globals, entered, base, captures, panics, bottom, above,
    verdict.finalValues.keys_nodup, fun name => ?_, fun name value => ?_⟩
  · rw [values, wellBound.mem_keys_captured]
    exact bottom.entryLookup above name
  · rw [values, wellBound.get?_captured, Option.bind_eq_some_iff]
    simp only [Storage.content?_eq_some, exists_and_left]

/-- Reads behind the end of a slice. -/
def coveringCallee : FunctionDef :=
  .new "read" []
    [.declare (.new "y" .value (some (.index (.sliceLit [.lit (.int 7)] none) (.lit (.int 1)))))]

/-- A local shadows a global, and a call panics before the last declaration. -/
def coveringEntry : FunctionDef :=
  FunctionDef.withResult (.new "main" []
    [.declare (.new "x" .value (some (.lit (.int 5)))), .call "read" [],
      .declare (.new "z" .value (some (.lit (.int 6))))]) (some "r") .value

def coveringProgram : Program :=
  ⟨[.new "g" .value (some (.lit (.int 1))), .new "x" .value (some (.lit (.int 2)))],
    [coveringCallee, coveringEntry]⟩

/-- The final values are those of the globals, the named result and the local that is declared. -/
theorem finalValues_complete_covering :
    let simulator := signalled coveringProgram .default .idle
    coveringProgram.check "main" = .ok () ∧
      ∃ verdict, simulator.run.1 = .ok verdict ∧
        verdict.finalValues.keys = ["g", "r", "x"] ∧
        verdict.finalValues.get? "x" = some (.int 5) ∧
        verdict.panics = [⟨.indexOutOfRange, ⟨"read", 0⟩⟩] ∧
        ∃ panic storage globals entered,
          simulator.Captures panic storage globals entered ∧
            (∀ name, name ∈ verdict.finalValues.keys ↔ name ∈ globals.map (·.name) ∨
              ∃ entry, entered = some entry ∧ name ∈ entry.names) ∧
            ∃ address slot, storage.entryLookup "x" = some address ∧
              storage.slot address = .ok slot ∧ slot.value = .int 5 := by
  intro simulator
  have checked : coveringProgram.check Config.default.entry = .ok () := by cbv
  have faults : simulator.ending.1 =
      .error (.error (.fault (.indexOutOfRange 1 1) ⟨"read", 0⟩)) := by cbv
  obtain ⟨verdict, ran, values, panics⟩ := verdict_of_fault rfl faults
  have keys : (captured simulator.ending.2.storage).keys = ["g", "r", "x"] := by cbv
  have own : (captured simulator.ending.2.storage).get? "x" = some (.int 5) := by cbv
  obtain ⟨panic, storage, globals, entered, base, captures, -, -, -, -, names, contents⟩ :=
    finalValues_complete checked ran
  refine ⟨checked, verdict, ran, values ▸ keys, values ▸ own, panics, panic, storage, globals,
    entered, captures, names, (contents "x" (.int 5)).mp (values ▸ own)⟩

end Simulator

end ReferenceSemantics
