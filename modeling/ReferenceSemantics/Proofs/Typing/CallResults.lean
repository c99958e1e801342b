import ReferenceSemantics.Proofs.Run.CallSafety
import ReferenceSemantics.Proofs.Run.Executed
import ReferenceSemantics.Proofs.Typing.BoxForms

set_option autoImplicit false

/-!
What calls hand back.

A call that returns hands back a value exactly if its function declares a result, and one of the
declared kind. A result with a name is taken from its slot as the body left it. Its kind is that of
the slot, since a slot holds a value of its kind as long as no stack address runs into the heap.
-/

namespace ReferenceSemantics

open Run

/-- The body of the call stopped in the machine, with some number of calls still to nest. -/
def CompletedCall.StopsIn (call : CompletedCall) (model : Model) (stopped : Machine) : Prop :=
  ∃ depth returned, exec (do
    model.enter call.function call.args call.callSite
    Evaluator.executeBody ⟨model, model.invoke depth⟩ call.function) call.before =
      (.ok returned, stopped)

/-- What a call that returned has handed back. -/
structure CompletedCall.Delivers (call : CompletedCall) (model : Model) : Prop where
  value : call.result.isSome ↔ call.function.result.isSome
  kind : ∀ declared value, call.function.result = some declared → call.result = some value →
    value.kind = declared.kind
  content : ∀ name, call.function.namedResult = some name → ∃ stopped address slot,
    call.StopsIn model stopped ∧ stopped.storage.current.lookup name = some address ∧
      stopped.storage.slot address = .ok slot ∧ call.result = some slot.value

/-- To observe the end of a body leaves the frames and what the addresses designate. -/
def Run.Observes (observe : Run Unit) : Prop :=
  ∀ machine after, exec observe machine = (.ok (), after) →
    after.storage.current = machine.storage.current ∧
      ∀ address, after.storage.objectAt? address = machine.storage.objectAt? address

theorem Run.observes_nothing : Observes (pure ()) := by
  rintro machine _ ⟨⟩
  exact ⟨rfl, fun _ => rfl⟩

theorem Run.observes_end : Observes (do capture; sweep) := by
  intro machine after ran
  unfold capture sweep at ran
  simp only [exec_bind, exec_modify, exec_allocate] at ran
  split at ran <;> cases ran <;>
    exact ⟨rfl, fun address => machine.storage.objectAt?_sweep address⟩

/-- A named result is the content of the slot that the current frame binds its name to. -/
theorem FunctionDef.copyOut_content {function : FunctionDef} {name : String} {address : Address}
    {returned result : Option Value} {machine last : Machine}
    (named : function.namedResult = some name)
    (bound : machine.storage.current.lookup name = some address)
    (ran : exec (function.copyOut returned) machine = (.ok result, last)) :
    ∃ slot, machine.storage.slot address = .ok slot ∧ result = some slot.value := by
  have found : machine.storage.lookup name = some (.ofAddress address) := by
    rw [Storage.lookup, bound]
    rfl
  unfold copyOut at ran
  rw [named] at ran
  dsimp only at ran
  rw [exec_bind, exec_lookup, found] at ran
  dsimp only at ran
  rw [map_eq_pure_bind] at ran
  obtain ⟨value, middle, loaded, done⟩ := ok_of_bind ran
  cases done
  rw [load, exec_read] at loaded
  split at loaded
  next read =>
    cases loaded
    obtain ⟨slot, here, whole⟩ := Storage.load_eq_ok.mp read
    exact ⟨slot, here, congrArg some (Option.some.inj whole).symm⟩
  next => cases loaded

namespace Typing

variable {typing : Typing} {function : FunctionDef} {callee name : String} {kind : Kind}
  {args : List Value} {location : Location} {observe : Run Unit} {depth : Nat}
  {machine last : Machine} {result : Option Value}

/-- Where a body stops, the slot of a named result is bound, and it holds a value of its kind. -/
theorem body_content
    (found : typing.model.function? callee = some function)
    (declared : function.result = some ⟨some name, kind⟩)
    (canonical : ∀ arg ∈ args, arg.Canonical) (regular : machine.storage.Regular)
    {returned : Option Value} {stopped : Machine}
    (ran : exec (do
      typing.model.open function args location
      Evaluator.executeBody ⟨typing.model, typing.model.invoke depth⟩ function) machine =
        (.ok returned, stopped)) :
    stopped.storage.Regular ∧ ∃ address, stopped.storage.current.lookup name = some address ∧
      stopped.storage.KindAt address kind := by
  have calls := typing.invoke_calls depth
  have leads : typing.Leads machine.storage (do
      typing.model.open function args location
      Evaluator.executeBody ⟨typing.model, typing.model.invoke depth⟩ function)
        fun after result => after.BindsResult function ∧ CanonicalResult result :=
    (Leads.open canonical).bind fun binds =>
      executeFrom_leads calls 0 binds (typing.tagged found) (typing.single found)
  have ended := leads machine rfl regular
  rw [ran] at ended
  cases ended with
  | done regular result => exact ⟨regular, result.1 name kind declared⟩

theorem inside_content (found : typing.model.function? callee = some function)
    (declared : function.result = some ⟨some name, kind⟩)
    (canonical : ∀ arg ∈ args, arg.Canonical) (regular : machine.storage.Regular)
    (observes : Observes observe) [Stepwise observe]
    (ran : exec (Evaluator.inside ⟨typing.model, typing.model.invoke depth⟩ function args location
      observe) machine = (.ok result, last)) (fits : last.storage.Fits) :
    ∃ returned stopped address slot,
      exec (do
        typing.model.open function args location
        Evaluator.executeBody ⟨typing.model, typing.model.invoke depth⟩ function) machine =
          (.ok returned, stopped) ∧
      stopped.storage.current.lookup name = some address ∧
      stopped.storage.slot address = .ok slot ∧ result = some slot.value ∧
      slot.value.kind = kind := by
  unfold Evaluator.inside at ran
  rw [← bind_assoc] at ran
  obtain ⟨returned, stopped, body, ran⟩ := ok_of_bind ran
  obtain ⟨_, observed, watched, ran⟩ := ok_of_bind ran
  obtain ⟨regular, address, bound, known⟩ :=
    body_content found declared canonical regular body
  have room : stopped.storage.Fits := by
    have within : (exec (do observe; function.close returned) stopped).2.storage.Fits := by
      rw [exec_bind_ok () watched, ran]
      exact fits
    exact Stepwise.fits (do observe; function.close returned) within
  obtain ⟨same, objects⟩ := observes _ _ watched
  unfold FunctionDef.close at ran
  obtain ⟨_, recorded, marked, ran⟩ := ok_of_bind ran
  obtain ⟨trace, silent⟩ := silent_transition function.name .returning observed
  cases silent.symm.trans marked
  have named : function.namedResult = some name := by rw [FunctionDef.namedResult, declared]; rfl
  obtain ⟨slot, read, rfl⟩ := FunctionDef.copyOut_content named (same ▸ bound) ran
  have here : stopped.storage.slot address = .ok slot := by
    rw [Storage.slot_ok_iff, ← objects]
    exact Storage.slot_ok_iff.mp read
  have has := Storage.has_of_slot here
  exact ⟨returned, stopped, address, slot, body, bound, here, rfl,
    (regular.kinds room has).trans ((known room).2 slot has)⟩

end Typing

theorem Model.enter_eq (model : Model) (function : FunctionDef) (args : List Value)
    (callSite : Option Location) :
    model.enter function args callSite = (do
      pushFrame function.name callSite
      model.open function args (callSite.getD ⟨function.name, 0⟩)) := by
  simp only [Model.enter, Model.open]

namespace CompletedCall

variable {program : Program} {config : Config} {all : List String} {call : CompletedCall}

/-- A call that started in regular storage delivers what its function declares. -/
theorem delivers (wellFormed : program.WellFormed config.entry) (known : program.Globals all)
    {callee : String} (found : (Model.new program config).function? callee = some call.function)
    (canonical : ∀ arg ∈ call.args, arg.Canonical) (regular : call.before.storage.Regular)
    (fits : call.after.storage.Fits) {depth : Nat} {location : Location}
    (located : call.callSite.getD ⟨call.function.name, 0⟩ = location) {observe : Run Unit}
    [Ordinary observe] [Stepwise observe] (observes : Observes observe)
    (ran : exec (do
      let result ← framed call.function.name call.callSite
        (Evaluator.inside ⟨.new program config, (Model.new program config).invoke depth⟩
          call.function call.args location observe)
      transition call.function.name .exited
      return result) call.before = (.ok call.result, call.after)) :
    call.Delivers (.new program config) := by
  let typing := program.typing config known fun _ => False
  have defined : typing.model.function? callee = some call.function := found
  have member := (Program.of_function? found).1
  have returns : call.function.Returns call.result := by
    have serves := Evaluator.invoke_serves wellFormed config depth
    have inside : Safe program (Evaluator.inside ⟨.new program config,
        (Model.new program config).invoke depth⟩ call.function call.args location observe)
          call.function.Returns :=
      Evaluator.inside_safe serves wellFormed member call.args
    have ended := @Safe.exited _ call.function.name call.callSite _ _ inside call.before
    rw [ran] at ended
    exact ended
  obtain ⟨last, inside, popped⟩ := framed_returned ran
  have room : last.storage.Fits := by
    unfold Storage.Fits at fits ⊢
    rwa [popped, (Storage.heap_popFrame last.storage).2.1] at fits
  have content {name : String} {kind : Kind}
      (declared : call.function.result = some ⟨some name, kind⟩) :=
    Typing.inside_content defined declared canonical
      (regular.pushFrame call.function.name call.callSite) observes inside room
  refine ⟨returns.isSome_iff, fun declared value promised handed => ?_, fun name named => ?_⟩
  · obtain ⟨name, kind⟩ := declared
    cases name with
    | none =>
        unfold FunctionDef.Returns at returns
        rw [promised] at returns
        obtain ⟨other, same, right⟩ := returns
        cases handed.symm.trans same
        exact right
    | some name =>
        obtain ⟨_, _, _, slot, -, -, -, same, right⟩ := content promised
        cases handed.symm.trans same
        exact right
  · obtain ⟨kind, declared⟩ := FunctionDef.result_of_namedResult named
    obtain ⟨returned, stopped, address, slot, body, bound, here, same, -⟩ := content declared
    refine ⟨stopped, address, slot, ⟨depth, returned, ?_⟩, bound, here, same⟩
    rw [Model.enter_eq, bind_assoc, located]
    exact body

end CompletedCall

namespace Simulator

variable {program : Program} {config : Config} {signal : AbortSignal} {call : CompletedCall}

/-- A call below the entry function starts in regular storage, on canonical arguments. -/
theorem nested_starts (checked : program.check config.entry = .ok ())
    (stopped : ∀ halt, exec (Evaluator.run ⟨Model.new program config,
      (Model.new program config).invokeUntil call halt (Model.new program config).maxCallDepth⟩)
        (signalled program config signal).machine = (.error halt, call.after)) :
    call.before.storage.Regular ∧ ∀ arg ∈ call.args, arg.Canonical := by
  obtain ⟨all, known⟩ := Program.exists_globals checked
  let typing := program.typing config known fun _ =>
    call.before.storage.Regular ∧ ∀ arg ∈ call.args, arg.Canonical
  have calls : typing.Calls ⟨typing.model, typing.model.invokeUntil call Typing.improperHalt
      typing.model.maxCallDepth⟩ :=
    Typing.completed_calls (fun regular canonical _ _ => And.intro regular canonical) _
  exact Typing.open_of_improper calls Storage.Regular.empty (stopped Typing.improperHalt)

theorem nested_delivers (checked : program.check config.entry = .ok ())
    (stopped : ∀ halt, exec (Evaluator.run ⟨Model.new program config,
      (Model.new program config).invokeUntil call halt (Model.new program config).maxCallDepth⟩)
        (signalled program config signal).machine = (.error halt, call.after))
    (fits : call.after.storage.Fits) : call.Delivers (.new program config) := by
  obtain ⟨all, known⟩ := Program.exists_globals checked
  have wellFormed := (Program.resolved_of_check checked).1.wellFormed
  obtain ⟨regular, canonical⟩ := nested_starts checked stopped
  obtain ⟨callSite, depth, site, ⟨callee, found⟩, performed⟩ := CompletedCall.performed stopped
  rw [Evaluator.perform_eq] at performed
  rw [← site] at performed
  exact CompletedCall.delivers wellFormed known found canonical regular fits (by rw [site]; rfl)
    observes_nothing performed

theorem entry_delivers (checked : program.check config.entry = .ok ()) {function : FunctionDef}
    {before after : Machine} {result : Option Value}
    (globals : exec ((Model.new program config).evaluator.declareGlobals 0 program.globals)
      (signalled program config signal).machine = (.ok (), before))
    (found : (Model.new program config).function? config.entry = some function)
    (ran : exec ((Model.new program config).evaluator.runEntry function) before =
      (.ok result, after))
    (fits : after.storage.Fits) :
    CompletedCall.Delivers ⟨function, [], none, before, result, after⟩ (.new program config) := by
  obtain ⟨all, known⟩ := Program.exists_globals checked
  have wellFormed := (Program.resolved_of_check checked).1.wellFormed
  have regular : before.storage.Regular := by
    let typing := program.typing config known fun _ => False
    have declared : typing.Ends (fun _ _ => True) (.ok (), before) :=
      globals ▸ Typing.declareGlobals_leads (typing.invoke_calls typing.model.maxCallDepth) 0
        typing.taggedGlobals _ rfl .empty
    cases declared with
    | done regular _ => exact regular
  rw [Evaluator.runEntry_eq] at ran
  exact CompletedCall.delivers wellFormed known found (List.forall_mem_nil _) regular fits rfl
    observes_end ran

/-- The first run of a checked program calls only functions that are defined, with as many arguments
as they take. Every call that returns delivers what its function declares, so a call is used for a
value that is not there only if its function has no result. -/
theorem call_safety (checked : program.check config.entry = .ok ()) (signal : AbortSignal) :
    let simulator := signalled program config signal
    (∀ name location,
      simulator.run.1 ≠ .error (.runtime (.undefinedFunction name location))) ∧
    (∀ expected got location, simulator.run.1 ≠
      .error (.runtime (.kindMismatch (.argumentCount expected got) location))) ∧
    (∀ callee location,
      simulator.run.1 = .error (.runtime (.kindMismatch (.noResult callee) location)) →
        program.UsesNothing callee location) ∧
    ∀ call, simulator.Executes call → call.after.storage.Fits →
      call.Delivers simulator.model := by
  intro simulator
  have wellFormed := (Program.resolved_of_check checked).1.wellFormed
  have safe (error : RuntimeError) (failed : simulator.run.1 = .error (.runtime error)) :
      program.Permits (.error error) := by
    have ended := (ending_of_run_error failed).1
    have permitted := Program.run_safe wellFormed simulator.machine
    generalize reached : exec (Model.new program config).execute simulator.machine = last
      at permitted
    obtain ⟨result, after⟩ := last
    obtain rfl : result = .error (.error error) := (congrArg Prod.fst reached).symm.trans ended
    exact permitted
  refine ⟨fun name location failed => ?_, fun expected got location failed => ?_,
    fun callee location failed => ?_, fun call executed fits => ?_⟩
  · rcases safe _ failed with ordinary | ⟨_, _, same, -⟩
    · exact ordinary
    · cases same
  · rcases safe _ failed with ordinary | ⟨_, _, same, -⟩
    · exact ordinary
    · cases same
  · rcases safe _ failed with ordinary | ⟨_, _, same, nothing⟩
    · exact ordinary.elim
    · cases same
      exact nothing
  · cases executed with
    | nested _ stopped => exact nested_delivers checked stopped fits
    | entry _ _ _ _ globals found ran => exact entry_delivers checked globals found ran fits

/-- A function that assigns its named result and ends without a `return`. -/
def answerCallee : FunctionDef :=
  (FunctionDef.new "answer" [] [.assign "r" (.lit (.int 7))]).withResult (some "r") .value

/-- A function without a result. -/
def silentCallee : FunctionDef := .new "silent" [] []

/-- The first statement uses the result, the second uses one that is not there. -/
def answerEntry : FunctionDef :=
  .new "main" [] [.declare (.new "n" .value (some (.call "answer" []))),
    .declare (.new "m" .value (some (.call "silent" [])))]

def answerProgram : Program := ⟨[], [answerEntry, answerCallee, silentCallee]⟩

def answerConfig : Config := { Config.default with placementPolicy := .forceStack }

def answering : Simulator := signalled answerProgram answerConfig .idle

/-- The call from the first statement. -/
def answerCall : CompletedCall :=
  let location : Location := ⟨"main", 0⟩
  let before := (exec (do
    answering.model.enter answerEntry [] none
    checkpoint location) answering.machine).2
  let after := (exec (Evaluator.perform ⟨answering.model, answering.model.invoke 0⟩ answerCallee []
    location) before).2
  ⟨answerCallee, [], some location, before, some (.int 7), after⟩

theorem answerCall_stopped (halt : Halt) (depth : Nat) :
    exec (answering.model.invokeUntil answerCall halt (depth + 1) answerCallee [] ⟨"main", 0⟩)
      answerCall.before = (.error halt, answerCall.after) := by
  have performed : exec (Evaluator.perform
      ⟨answering.model, answering.model.invokeUntil answerCall halt depth⟩ answerCallee []
      ⟨"main", 0⟩) answerCall.before = (.ok (some (.int 7)), answerCall.after) := by
    cbv
  rw [exec_invokeUntil, performed]
  exact if_pos rfl

theorem answering_executes : answering.Executes answerCall := by
  refine .nested _ fun halt => ?_
  unfold Evaluator.run
  refine (exec_bind_ok () rfl).trans ?_
  refine (exec_bind_ok answerEntry rfl).trans (exec_bind_error ?_)
  unfold Evaluator.runEntry
  refine (exec_bind_ok () rfl).trans (exec_bind_error ?_)
  unfold Evaluator.executeBody
  refine (exec_bind_ok () rfl).trans (exec_bind_error (exec_bind_error ?_))
  unfold Evaluator.evaluateDecl Evaluator.evaluateFor
  refine exec_bind_error (exec_bind_error ?_)
  refine (exec_bind_ok answerCallee rfl).trans ?_
  refine (exec_bind_ok () rfl).trans ?_
  refine (exec_bind_ok [] rfl).trans (exec_bind_error ?_)
  exact answerCall_stopped halt _

theorem answerProgram_checked : answerProgram.check "main" = .ok () := by
  cbv

theorem answerCall_fits : answerCall.after.storage.Fits := by
  unfold Storage.Fits
  decide +kernel

theorem answering_fails : answering.run.1 =
    .error (.runtime (.kindMismatch (.noResult "silent") ⟨"main", 1⟩)) := by
  cbv

theorem call_safety_answering :
    answerProgram.check "main" = .ok () ∧ answering.Executes answerCall ∧
      answerCall.after.storage.Fits ∧ answerCall.Delivers answering.model ∧
      answerCall.result = some (.int 7) ∧
      answering.run.1 = .error (.runtime (.kindMismatch (.noResult "silent") ⟨"main", 1⟩)) ∧
      answerProgram.UsesNothing "silent" ⟨"main", 1⟩ := by
  have checked : answerProgram.check answerConfig.entry = .ok () := answerProgram_checked
  obtain ⟨-, -, uses, delivers⟩ := call_safety checked .idle
  exact ⟨checked, answering_executes, answerCall_fits,
    delivers _ answering_executes answerCall_fits, rfl, answering_fails,
    uses _ _ answering_fails⟩

end Simulator

end ReferenceSemantics
