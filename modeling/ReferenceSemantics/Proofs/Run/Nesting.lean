import ReferenceSemantics.Proofs.Program.Ranking
import ReferenceSemantics.Proofs.Run.Alike

set_option autoImplicit false

/-!
How deep the calls of a run are nested.

The rank of a function bounds how many calls may be nested in a call of it. So the bound that the
interpreter sets on the nesting is never met, and the frames of a run are not more than the
functions and the root.
-/

namespace ReferenceSemantics

open Run

variable {α β : Type}

/-- An event of a call nested at most so deep, or another event. -/
def TraceEvent.Within (bound : Nat) : TraceEvent → Prop
  | .call _ _ depth => depth ≤ bound
  | _ => True

theorem TraceEvent.Plain.within {event : TraceEvent} (plain : event.Plain) (bound : Nat) :
    event.Within bound := by
  cases event <;> trivial

/-- What a computation leaves that was started with so many calls on the stack. -/
structure Nested (depth bound : Nat) (start : Machine) (last : Except Halt α × Machine) : Prop where
  events : ∃ events, last.2.trace = start.trace.recordAll events ∧
    ∀ event ∈ events, event.Within bound
  within : last.2.storage.calls.depth ≤ bound
  level : ∀ value, last.1 = .ok value → last.2.storage.calls.depth = depth
  deepEnough : last.1 ≠ .error .callDepthExceeded

/-- A computation whose calls are nested at most so deep. -/
def Nests (depth bound : Nat) (run : Run α) : Prop :=
  ∀ machine, machine.storage.calls.depth = depth → Nested depth bound machine (exec run machine)

theorem Storage.depth_of_skeleton {storage changed : Storage}
    (same : changed.skeleton = storage.skeleton) : changed.calls.depth = storage.calls.depth := by
  have sizes := congrArg List.length same
  simp only [Storage.skeleton, List.length_map, Storage.length_frames, Storage.depth] at sizes
  omega

theorem Storage.depth_declare (storage : Storage) (name : String) (kind : Kind)
    (site : Option SiteId) (placement : Placement) (value : Value) :
    (storage.declare name kind site placement value).2.calls.depth = storage.calls.depth := by
  let allocated := storage.allocate name kind site placement value
  have bound := allocated.2.frames_modifyCurrent (·.bind name allocated.1.address)
  have sizes := congrArg List.length bound
  have positive : 0 < allocated.2.frames.length := by
    rw [Storage.length_frames]
    exact Nat.succ_pos _
  rw [List.length_append, List.length_dropLast, List.length_singleton, Nat.sub_add_cancel positive,
    Storage.length_frames, Storage.length_frames] at sizes
  have kept := depth_of_skeleton (storage.skeleton_allocate name kind site placement value)
  exact (Nat.succ.inj sizes).trans kept

theorem Run.returned_deepEnough {value : α} :
    (.ok value : Except Halt α) ≠ .error .callDepthExceeded := by
  rintro ⟨⟩

theorem Run.failed_deepEnough {halt : Halt} (other : halt ≠ .callDepthExceeded) :
    (.error halt : Except Halt α) ≠ .error .callDepthExceeded :=
  fun same => other (Except.error.inj same)

variable {depth bound : Nat}

namespace Nested

variable {start : Machine}

/-- Nothing happened to the stack. -/
theorem flat {last : Except Halt α × Machine} (events : List TraceEvent) (room : depth ≤ bound)
    (started : start.storage.calls.depth = depth)
    (trace : last.2.trace = start.trace.recordAll events)
    (within : ∀ event ∈ events, event.Within bound)
    (level : last.2.storage.calls.depth = start.storage.calls.depth)
    (deepEnough : last.1 ≠ .error .callDepthExceeded) : Nested depth bound start last :=
  ⟨⟨events, trace, within⟩, level.trans started ▸ room, fun _ _ => level.trans started,
    deepEnough⟩

theorem trans {value : α} {middle : Machine} {last : Except Halt β × Machine}
    (before : Nested depth bound start ((.ok value, middle) : Except Halt α × Machine))
    (after : Nested depth bound middle last) : Nested depth bound start last := by
  obtain ⟨events, trace, within⟩ := before.events
  obtain ⟨later, trace', within'⟩ := after.events
  refine ⟨⟨events ++ later, ?_, List.forall_mem_append.mpr ⟨within, within'⟩⟩, after.within,
    after.level, after.deepEnough⟩
  rw [trace', Trace.recordAll_append]
  exact congrArg (Trace.recordAll · later) trace

theorem stopped {halt : Halt} {machine : Machine}
    (ended : Nested depth bound start ((.error halt, machine) : Except Halt α × Machine)) :
    Nested depth bound start ((.error halt, machine) : Except Halt β × Machine) := by
  refine ⟨ended.events, ended.within, ?_, fun same => ended.deepEnough ?_⟩
  · rintro value ⟨⟩
  · exact congrArg Except.error (Except.error.inj same)

end Nested

namespace Nests

theorem bind {first : Run α} {next : α → Run β} (start : Nests depth bound first)
    (rest : ∀ value, Nests depth bound (next value)) : Nests depth bound (first >>= next) := by
  intro machine started
  have ended := start machine started
  rw [exec_bind]
  generalize exec first machine = last at ended
  obtain ⟨result, middle⟩ := last
  cases result with
  | error halt => exact ended.stopped
  | ok value => exact ended.trans (rest value middle (ended.level value rfl))

theorem quiet {run : Run α} [Quiet run] (room : depth ≤ bound) : Nests depth bound run := by
  intro machine started
  obtain ⟨result, changed, events, reaction⟩ := Run.reacts run machine.storage
  rw [show exec run machine = _ from reaction.ran machine.trace machine.abort machine.finalValues]
  refine .flat events room started rfl
    (fun event member => (reaction.plain event member).within bound)
    (Storage.depth_of_skeleton reaction.skeleton) ?_
  cases result with
  | ok value => exact returned_deepEnough
  | error error => exact (failed_deepEnough (by rintro ⟨⟩))

theorem transition (room : depth ≤ bound) (function : String) (state : CallState) :
    Nests depth bound (transition function state) := by
  intro machine started
  refine .flat [.call function state (machine.storage.depth - 1)] room started rfl ?_
    rfl ?_
  · exact List.forall_mem_singleton.mpr (started ▸ room : machine.storage.calls.depth ≤ bound)
  · exact returned_deepEnough

/-- A computation in a frame of its own. -/
theorem framed {function : String} {callSite : Option Location} {inside : Run α}
    (nests : Nests (depth + 1) bound inside) :
    Nests depth bound (framed function callSite inside) := by
  intro machine started
  have pushed : (machine.storage.pushFrame function callSite).calls.depth = depth + 1 :=
    congrArg (· + 1) started
  have ended := nests { machine with storage := machine.storage.pushFrame function callSite } pushed
  simp only [Run.framed, pushFrame, popFrame, exec_bind, exec_modify, exec_pure]
  generalize exec inside _ = last at ended
  obtain ⟨result, after⟩ := last
  cases result with
  | error halt =>
      refine ⟨ended.events, ended.within, ?_, ended.deepEnough⟩
      rintro value ⟨⟩
  | ok value =>
      have level : after.storage.calls.depth = depth + 1 := ended.level value rfl
      have popped : after.storage.popFrame.calls.depth = depth := by
        unfold Storage.popFrame Storage.popFrame? CallStack.pop?
        unfold CallStack.depth at level
        cases frames : after.storage.calls.frames with
        | nil =>
            rw [frames] at level
            cases level
        | cons top below =>
            rw [frames] at level
            exact Nat.succ.inj level
      refine ⟨ended.events, ?_, fun _ _ => popped, returned_deepEnough⟩
      have within := ended.within
      dsimp only at within ⊢
      omega

end Nests

namespace Pairing.Alike

variable {pairing : Pairing} {run run' : Run α}

/-- Calls that are nested so deep at most leave the same bound to what makes them. -/
theorem nests (alike : pairing.Alike run run') (room : depth ≤ bound)
    (calls : ∀ {callee function}, pairing.calls callee →
      pairing.model.function? callee = some function → ∀ args location,
        Nests depth bound (pairing.invoke function args location)) : Nests depth bound run := by
  induction alike with
  | quiet run => exact .quiet room
  | bind start rest start_nests rest_nests => exact start_nests.bind rest_nests
  | @lookup name location permitted =>
      intro machine started
      rw [exec_lookup]
      cases machine.storage.lookup name with
      | some ref =>
          exact .flat [] room started rfl (List.forall_mem_nil _) rfl
            returned_deepEnough
      | none =>
          exact .flat [] room started rfl (List.forall_mem_nil _) rfl
            (failed_deepEnough (by rintro ⟨⟩))
  | call permitted found evaluated complete evaluated_nests =>
      exact evaluated_nests.bind fun args => calls permitted found args _
  | declare name kind site placement value permitted =>
      intro machine started
      exact .flat [] room started rfl (List.forall_mem_nil _)
        (machine.storage.depth_declare name kind site placement value)
        returned_deepEnough
  | checkpoint location permitted =>
      intro machine started
      simp only [Run.checkpoint, exec_bind, exec_modify, exec_get]
      split
      · exact .flat [] room started rfl (List.forall_mem_nil _) rfl
          (failed_deepEnough (by rintro ⟨⟩))
      · exact .flat [.statement location] room started rfl
          (List.forall_mem_singleton.mpr trivial) rfl returned_deepEnough
  | transition function state permitted => exact .transition room function state
  | capture permitted =>
      intro machine started
      exact .flat [] room started rfl (List.forall_mem_nil _) rfl
        returned_deepEnough

end Pairing.Alike

namespace Evaluator

variable {evaluator : Evaluator} {function : FunctionDef}

theorem perform_nests {args : List Value} {callSite : Location}
    (inside : Nests (depth + 1) bound (evaluator.inside function args callSite (pure ())))
    (room : depth ≤ bound) : Nests depth bound (evaluator.perform function args callSite) := by
  rw [perform_eq]
  refine (Nests.framed inside).bind fun result => ?_
  exact (Nests.transition room _ _).bind fun _ => .quiet room

theorem runEntry_nests
    (inside : Nests (depth + 1) bound
      (evaluator.inside function [] ⟨function.name, 0⟩ (do capture; Run.sweep)))
    (room : depth ≤ bound) : Nests depth bound (evaluator.runEntry function) := by
  rw [runEntry_eq]
  refine (Nests.framed inside).bind fun result => ?_
  exact (Nests.transition room _ _).bind fun _ => .quiet room

end Evaluator

namespace Model

variable {model : Model}

namespace Ranking

variable {rank : String → Nat} (ranking : model.Ranking rank)

include ranking

/-- A bound that is above the rank of a function makes no difference to its calls. -/
theorem invoke_eq {name : String} {function : FunctionDef}
    (found : model.function? name = some function) {first second : Nat}
    (above : rank name < first) (above' : rank name < second) :
    model.invoke first function = model.invoke second function := by
  induction first generalizing second name function with
  | zero => exact absurd above (Nat.not_lt_zero _)
  | succ first inductionHypothesis =>
      cases second with
      | zero => exact absurd above' (Nat.not_lt_zero _)
      | succ second =>
          have lower : ∀ {callee other}, callee ∈ function.callees →
              model.function? callee = some other →
                model.invoke first other = model.invoke second other := fun called defined => by
            have descends := ranking.descends found called defined
            exact inductionHypothesis defined (by omega) (by omega)
          have inside (args : List Value) (callSite : Location) :
              Evaluator.inside ⟨model, model.invoke first⟩ function args callSite (pure ()) =
                Evaluator.inside ⟨model, model.invoke second⟩ function args callSite (pure ()) :=
            ((model.leveled (· ∈ function.callees) first second).inside_alike
              (leveled_admits function fun _ called => called) args callSite
              (.quiet (pure ()))).eq lower
          funext args callSite
          rw [invoke, invoke, Evaluator.perform_eq, Evaluator.perform_eq, inside]

theorem invoke_nests {name : String} {function : FunctionDef}
    (found : model.function? name = some function) {limit : Nat} (above : rank name < limit)
    (args : List Value) (callSite : Location) (room : depth + rank name < bound) :
    Nests depth bound (model.invoke limit function args callSite) := by
  induction limit generalizing depth name function args callSite with
  | zero => exact absurd above (Nat.not_lt_zero _)
  | succ limit inductionHypothesis =>
      rw [invoke]
      refine Evaluator.perform_nests ?_ (by omega)
      have inside := (model.leveled (· ∈ function.callees) limit limit).inside_alike
        (leveled_admits function fun _ called => called) args callSite (.quiet (pure ()))
      refine inside.nests (by omega) fun called defined args location => ?_
      have lower := ranking.descends found called defined
      exact inductionHypothesis defined (by omega) args location (by omega)

/-- The interpreter does not depend on its bound, if it allows one call for each function. -/
theorem run_eq {limit : Nat} (enough : model.functions.length ≤ limit) :
    Evaluator.run ⟨model, model.invoke limit⟩ = model.execute := by
  have enough' : model.functions.length ≤ model.maxCallDepth := Nat.le_add_right _ _
  have same : ∀ {callee function}, model.function? callee = some function →
      model.invoke limit function = model.invoke model.maxCallDepth function := fun found =>
    ranking.invoke_eq found (Nat.lt_of_lt_of_le (ranking.bounded found) enough)
      (Nat.lt_of_lt_of_le (ranking.bounded found) enough')
  let pairing := model.leveled (fun _ => True) limit model.maxCallDepth
  have globals : Evaluator.declareGlobals ⟨model, model.invoke limit⟩ 0 model.globals =
      Evaluator.declareGlobals ⟨model, model.invoke model.maxCallDepth⟩ 0 model.globals :=
    (pairing.declareGlobals_alike trivial 0
      fun decl _ location => leveled_globals decl location).eq fun _ found => same found
  have entry (function : FunctionDef) :
      Evaluator.inside ⟨model, model.invoke limit⟩ function [] ⟨function.name, 0⟩
          (do capture; Run.sweep) =
        Evaluator.inside ⟨model, model.invoke model.maxCallDepth⟩ function []
          ⟨function.name, 0⟩ (do capture; Run.sweep) :=
    (pairing.inside_alike (leveled_admits function fun _ _ => trivial) [] ⟨function.name, 0⟩
      ((Pairing.Alike.capture trivial).bind fun _ => .quiet Run.sweep)).eq fun _ found => same found
  unfold execute Model.evaluator Evaluator.run
  dsimp only
  simp only [Evaluator.runEntry_eq]
  rw [globals]
  simp only [entry]

/-- What the interpreter does besides calls nests them as deep as there are functions. -/
theorem nests_of_alike {run run' : Run α} {limit : Nat} (enough : model.functions.length ≤ limit)
    (alike : (model.leveled (fun _ => True) limit limit).Alike run run') :
    Nests depth (depth + model.functions.length) run := by
  refine alike.nests (Nat.le_add_right _ _) fun _ found args location => ?_
  have bounded := ranking.bounded found
  exact ranking.invoke_nests found (Nat.lt_of_lt_of_le bounded enough) args location (by omega)

theorem declareGlobals_nests {limit : Nat} (enough : model.functions.length ≤ limit) :
    Nests depth (depth + model.functions.length)
      (Evaluator.declareGlobals ⟨model, model.invoke limit⟩ 0 model.globals) :=
  ranking.nests_of_alike enough <|
    (model.leveled (fun _ => True) limit limit).declareGlobals_alike trivial 0
      fun decl _ location => leveled_globals decl location

/-- The calls of a whole run are nested as deep as there are functions. -/
theorem run_nests {limit : Nat} (enough : model.functions.length ≤ limit) :
    Nests depth (depth + model.functions.length) (Evaluator.run ⟨model, model.invoke limit⟩) := by
  unfold Evaluator.run
  dsimp only
  refine Nests.bind (ranking.declareGlobals_nests enough) fun _ => ?_
  unfold Model.function
  cases found : model.function? model.config.entry with
  | none =>
      let unknown : Run Unit :=
        fail (.undefinedFunction model.config.entry ⟨model.config.entry, 0⟩)
      have quiet : Quiet unknown := quiet_fail fun _ _ same => RuntimeError.noConfusion same
      exact (Nests.quiet (Nat.le_add_right _ _) : Nests depth _ unknown)
  | some entry =>
      dsimp only
      rw [pure_bind]
      have bounded := ranking.bounded found
      refine Nests.bind (Evaluator.runEntry_nests ?_ (Nat.le_add_right _ _)) fun _ =>
        .quiet (Nat.le_add_right _ _)
      have inside := (model.leveled (· ∈ entry.callees) limit limit).inside_alike
        (leveled_admits entry fun _ called => called) [] ⟨entry.name, 0⟩
        ((Pairing.Alike.capture trivial).bind fun _ => .quiet Run.sweep)
      refine inside.nests (by omega) ?_
      intro callee function called defined args location
      have lower := ranking.descends found called defined
      exact ranking.invoke_nests defined (by omega) args location (by omega)

end Ranking

end Model

end ReferenceSemantics
