import ReferenceSemantics.Proofs.Run.Frame
import ReferenceSemantics.Proofs.Run.Simulation.Execution

set_option autoImplicit false

/-!
Calls and whole runs in a simulation.

The nesting of calls is bounded, and the bound is what the agreement of calls is proved by induction
on.
-/

namespace ReferenceSemantics

open Run

namespace Simulation

variable {sim : Simulation} {world : sim.World}

/-- What is linked inside of a frame stays linked outside. -/
theorem Agree.framed (function : String) (callSite : Option Location)
    {run run' : Run (Option Value)} [Stepwise run]
    (agree : ∀ {inside : sim.World}, (sim.links world).Le (sim.links inside) →
      sim.InCall inside → sim.Agree inside run run' sim.results) :
    sim.Agree world (Run.framed function callSite run) (Run.framed function callSite run')
      sim.results := by
  intro machine machine' related
  obtain ⟨inside, kept, inCall, pushed, popped⟩ := sim.call function callSite related.storages
  have started := related.moved kept pushed
  have ended := agree kept inCall _ _ started
  simp only [Run.framed, Run.pushFrame, Run.popFrame, exec_bind, exec_modify, exec_pure]
  generalize exec run _ = last at ended
  generalize exec run' _ = last' at ended
  cases ended with
  | overflow full =>
      refine .overflow fun fits => full ?_
      obtain ⟨result, after⟩ := last
      cases result with
      | error _ => exact fits
      | ok value =>
          have stackEnd := (Storage.heap_popFrame after.storage).2.1
          exact Nat.le_trans (Nat.le_of_eq stackEnd.symm) fits
  | left_open isOpen => exact .left_open isOpen
  | halted later valid related => exact .halted later valid related
  | done later grown related result =>
      obtain ⟨next, grownBack, keptBack, storages⟩ := popped grown related.storages
      exact .done next grownBack (related.moved keptBack storages) (results_mono keptBack result)

variable {evaluator evaluator' : Evaluator} [evaluator.Stepwise]

theorem inside_agrees (calls : sim.Calls evaluator evaluator') (inCall : sim.InCall world)
    (function : FunctionDef) (location : Location) {args args' : List Value}
    (linked : List.Forall₂ (sim.values world) args args') {observe : Run Unit}
    [Stepwise observe]
    (observed : ∀ {later : sim.World}, sim.Agree later observe observe fun _ _ _ => True) :
    sim.Agree world (evaluator.inside function args location observe)
      (evaluator'.inside function args' location observe) sim.results := by
  have opened : sim.Agree world (evaluator.model.open function args location)
      (evaluator'.model.open function args' location) (fun _ _ _ => True) := by
    unfold Model.open
    rw [calls.left, calls.right]
    refine (Agree.transition _ _).bind fun grown _ => ?_
    refine (Agree.bindSlots ((sim.inCall_mono grown).mp inCall) function
      (list_mono grown linked)).bind fun _ _ => ?_
    exact .transition _ _
  unfold Evaluator.inside
  refine opened.bind fun grown _ => ?_
  refine (executeFrom_agrees calls ((sim.inCall_mono grown).mp inCall) function 0 _).bind
    fun _ returned => ?_
  refine observed.bind fun grown _ => ?_
  unfold FunctionDef.close
  refine (Agree.transition _ _).bind fun grown' _ => ?_
  exact .copyOut function (results_mono (sim.links_mono (sim.le_trans grown grown')) returned)

theorem perform_agrees (calls : sim.Calls evaluator evaluator') (function : FunctionDef)
    (callSite : Location) {args args' : List Value}
    (linked : List.Forall₂ (sim.values world) args args') :
    sim.Agree world (evaluator.perform function args callSite)
      (evaluator'.perform function args' callSite) sim.results := by
  rw [Evaluator.perform_eq, Evaluator.perform_eq]
  refine (Agree.framed _ _ fun {inside} kept inCall => ?_).bind fun _ result => ?_
  · have linked' := linked.imp fun _ _ (linked : sim.values world _ _) => linked.mono kept
    exact inside_agrees calls inCall function callSite linked' (.pure trivial)
  · refine (Agree.transition _ _).bind fun grown _ => ?_
    exact .pure (results_mono (sim.links_mono grown) result)

/-- Calls agree at every depth of nesting. -/
theorem invoke_calls (sim : Simulation) (depth : Nat) :
    sim.Calls ⟨sim.left, sim.left.invoke depth⟩ ⟨sim.right, sim.right.invoke depth⟩ := by
  induction depth with
  | zero => exact ⟨rfl, rfl, fun _ _ _ => .throw trivial⟩
  | succ depth inductionHypothesis =>
      exact ⟨rfl, rfl, fun function callSite linked =>
        perform_agrees inductionHypothesis function callSite linked⟩

end Simulation

/-- A simulation that also covers the root frame and what is observed at the end. -/
structure ProgramSimulation extends Simulation where
  globals : left.globals = right.globals
  entry : left.config.entry = right.config.entry
  declareGlobal : ∀ {world storage storage' value value'} (name : String) (kind : Kind),
    ¬ InCall world → storages world storage storage' → Value.Linked (links world) value value' →
      let slot := storage.declare name kind none .stack value
      let slot' := storage'.declare name kind none .stack value'
      slot.2.Fits → ∃ next, Le world next ∧ storages next slot.2 slot'.2
  sweep : ∀ {world storage storage'}, storages world storage storage' →
    ∃ next, Le world next ∧ storages next storage.sweep.2 storage'.sweep.2
  capture : ∀ {world storage storage'}, storages world storage storage' →
    finals (links world) (Run.captured storage) (Run.captured storage')

namespace ProgramSimulation

variable {sim : ProgramSimulation} {world : sim.World}

theorem capture_agrees :
    sim.Agree world Run.capture Run.capture (fun _ _ _ => True) :=
  fun _ _ related => .done world (sim.le_refl world)
    ⟨related.storages, related.abort, sim.capture related.storages⟩ trivial

theorem sweep_agrees : sim.Agree world Run.sweep Run.sweep (fun _ _ _ => True) := by
  unfold Run.sweep
  have marked : sim.Agree world (Run.allocate Storage.sweep) (Run.allocate Storage.sweep)
      (fun _ _ _ => True) := by
    refine .allocate fun related _ => ?_
    obtain ⟨next, grown, storages⟩ := sim.sweep related
    exact ⟨next, grown, storages, trivial⟩
  exact marked.bind fun _ _ => .silent
    (Run.silent_when _ (Run.silent_record _))
    (Run.silent_when _ (Run.silent_record _))

variable {evaluator evaluator' : Evaluator} [evaluator.Stepwise]
  (calls : sim.Calls evaluator evaluator')

include calls

theorem declareGlobal_agrees (atRoot : ¬ sim.InCall world) (location : Location)
    (decl : VarDecl) :
    sim.Agree world (evaluator.declareGlobal location decl)
      (evaluator'.declareGlobal location decl) (fun _ _ _ => True) := by
  unfold Evaluator.declareGlobal
  refine (Simulation.evaluateDecl_agrees location calls decl).bind
    fun {later value value'} grown linked => ?_
  have declared : sim.Agree later
      (Run.allocate (·.declare decl.name decl.kind none .stack value))
      (Run.allocate (·.declare decl.name decl.kind none .stack value'))
      (fun _ _ _ => True) := by
    refine .allocate fun related fits => ?_
    obtain ⟨next, grown', storages⟩ := sim.declareGlobal decl.name decl.kind
      (mt (sim.inCall_mono grown).mpr atRoot) related linked fits
    exact ⟨next, grown', storages, trivial⟩
  exact declared.bind fun _ _ =>
    .silent (Run.silent_record _) (Run.silent_record _)

theorem declareGlobals_agrees {world : sim.World} (atRoot : ¬ sim.InCall world) (index : Nat)
    (decls : List VarDecl) :
    sim.Agree world (evaluator.declareGlobals index decls)
      (evaluator'.declareGlobals index decls) (fun _ _ _ => True) := by
  induction decls generalizing world index with
  | nil =>
      rw [Evaluator.declareGlobals, Evaluator.declareGlobals]
      exact .pure trivial
  | cons decl decls inductionHypothesis =>
      rw [Evaluator.declareGlobals, Evaluator.declareGlobals]
      refine Simulation.Agree.checkpoint.bind fun grown _ => ?_
      have atRoot' := mt (sim.inCall_mono grown).mpr atRoot
      refine (declareGlobal_agrees calls atRoot' _ decl).bind fun grown' _ => ?_
      exact inductionHypothesis (mt (sim.inCall_mono grown').mpr atRoot') (index + 1)

theorem runEntry_agrees (entry : FunctionDef) :
    sim.Agree world (evaluator.runEntry entry) (evaluator'.runEntry entry) sim.results := by
  rw [Evaluator.runEntry_eq, Evaluator.runEntry_eq]
  refine (Simulation.Agree.framed _ _ fun _ inCall => ?_).bind fun _ result => ?_
  · exact Simulation.inside_agrees calls inCall entry _ .nil
      (capture_agrees.bind fun _ _ => sweep_agrees)
  · refine (Simulation.Agree.transition _ _).bind fun grown _ => ?_
    exact .pure (Simulation.results_mono (sim.links_mono grown) result)

/-- The whole run, from the globals to the end of the entry function. -/
theorem run_agrees (atRoot : ¬ sim.InCall world) :
    sim.Agree world evaluator.run evaluator'.run (fun _ _ _ => True) := by
  unfold Evaluator.run
  dsimp only
  rw [calls.left, calls.right, sim.globals, sim.entry]
  refine (declareGlobals_agrees calls atRoot 0 _).bind fun _ _ => ?_
  refine (Simulation.Agree.function _).bind fun _ same => ?_
  subst same
  exact (runEntry_agrees calls _).bind fun _ _ => .pure trivial

end ProgramSimulation

end ReferenceSemantics
