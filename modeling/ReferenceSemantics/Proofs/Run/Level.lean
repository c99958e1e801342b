import ReferenceSemantics.Proofs.Run.Alike
import ReferenceSemantics.Proofs.Run.Completion

set_option autoImplicit false

/-!
What a computation leaves of the frames.

A body binds names in its own frame only, and a call pops what it pushed. So a call that returns,
and every evaluation, leaves the frames and their names as they were.
-/

namespace ReferenceSemantics

open Run

namespace Storage

theorem base_modifyCurrent (storage : Storage) (f : Frame → Frame) :
    (storage.modifyCurrent f).skeleton.dropLast = storage.skeleton.dropLast := by
  rw [skeleton, frames_modifyCurrent, List.map_append, List.map_singleton, List.dropLast_concat,
    List.map_dropLast]
  rfl

theorem base_declare (storage : Storage) (name : String) (kind : Kind) (site : Option SiteId)
    (placement : Placement) (value : Value) :
    (storage.declare name kind site placement value).2.skeleton.dropLast =
      storage.skeleton.dropLast :=
  (base_modifyCurrent _ _).trans
    (congrArg List.dropLast (storage.skeleton_allocate name kind site placement value))

theorem skeleton_pushFrame (storage : Storage) (function : String) (callSite : Option Location) :
    (storage.pushFrame function callSite).skeleton =
      storage.skeleton ++ [.new function callSite] := by
  rw [skeleton, frames_pushFrame, List.map_append]
  rfl

theorem lookup_of_skeleton {storage changed : Storage}
    (same : changed.skeleton = storage.skeleton) (name : String) :
    changed.current.lookup name = storage.current.lookup name := by
  have lasts := congrArg List.getLast? same
  rw [skeleton, skeleton, frames_eq changed, frames_eq storage] at lasts
  simp only [List.map_append, List.map_cons, List.map_nil, List.getLast?_concat,
    Option.some.injEq] at lasts
  have bindings := congrArg Frame.bindings lasts
  simp only [Frame.bare] at bindings
  rw [Frame.lookup, Frame.lookup, bindings]

theorem lookup_declare (storage : Storage) (name other : String) (kind : Kind)
    (site : Option SiteId) (placement : Placement) (value : Value) :
    (storage.declare name kind site placement value).2.current.lookup other =
      if other = name then some (storage.declare name kind site placement value).1.address
      else storage.current.lookup other := by
  have same := lookup_of_skeleton (storage.skeleton_allocate name kind site placement value) other
  change ((storage.allocate name kind site placement value).2.modifyCurrent _).current.lookup _ = _
  rw [current_modifyCurrent, Frame.lookup_bind, same]
  rfl

section

variable {storage changed : Storage}
  (same : changed.skeleton.map (·.function) = storage.skeleton.map (·.function))

include same

theorem inCall_of_seated : changed.InCall ↔ storage.InCall := by
  have sizes := congrArg List.length same
  rw [List.length_map, List.length_map, skeleton, skeleton, List.length_map, List.length_map]
    at sizes
  rw [inCall_iff, inCall_iff, sizes]

theorem current_of_seated : changed.current.function = storage.current.function := by
  rw [functions_skeleton, functions_skeleton, functions_eq, functions_eq] at same
  exact List.singleton_inj.mp (List.append_inj_right' same rfl)

end

/-- What is pushed and popped again is as before. -/
theorem skeleton_popFrame {storage last : Storage} {function : String} {callSite : Option Location}
    (base : last.skeleton.dropLast = (storage.pushFrame function callSite).skeleton.dropLast) :
    last.popFrame.skeleton = storage.skeleton := by
  rw [skeleton_pushFrame, List.dropLast_concat] at base
  have called : last.InCall := by
    have sizes := congrArg List.length base
    rw [List.length_dropLast, skeleton, skeleton, List.length_map, List.length_map,
      storage.length_frames] at sizes
    rw [inCall_iff, ← Nat.sub_pos_iff_lt, sizes]
    exact Nat.succ_pos _
  rw [skeleton, frames_popFrame called, List.map_dropLast]
  exact base

end Storage

namespace Run

variable {α β γ : Type} {part : List Frame → γ}

/-- A computation that succeeds has left a part of what the frames are apart from their slots. -/
def Leaves (part : List Frame → γ) (run : Run α) : Prop :=
  ∀ machine value after, exec run machine = (.ok value, after) →
    part after.storage.skeleton = part machine.storage.skeleton

/-- A computation that succeeds has left the frames and their names. -/
abbrev Level (run : Run α) : Prop := Leaves id run

/-- A computation that succeeds has left the frames below the current one, and their names. -/
abbrev Based (run : Run α) : Prop := Leaves List.dropLast run

/-- A computation that succeeds has left the functions of the frames. -/
abbrev Seated (run : Run α) : Prop := Leaves (List.map Frame.function) run

namespace Leaves

theorem level {run : Run α} (level : Level run) : Leaves part run :=
  fun machine value after ran => congrArg part (level machine value after ran)

theorem bind {first : Run α} {next : α → Run β} (start : Leaves part first)
    (rest : ∀ value, Leaves part (next value)) : Leaves part (first >>= next) := by
  intro machine result after ran
  obtain ⟨value, middle, started, ran⟩ := ok_of_bind ran
  exact (rest value middle result after ran).trans (start machine value middle started)

theorem quiet (run : Run α) [Quiet run] : Leaves part run := by
  intro machine value after ran
  obtain ⟨result, changed, events, reaction⟩ := reacts run machine.storage
  have same : exec run machine = _ :=
    reaction.ran machine.trace machine.abort machine.finalValues
  obtain rfl : after = _ := congrArg Prod.snd (ran.symm.trans same)
  exact congrArg part reaction.skeleton

theorem lookup (name : String) (location : Location) : Leaves part (lookup name location) := by
  intro machine value after ran
  rw [exec_lookup] at ran
  split at ran <;> cases ran
  rfl

theorem silent {run : Run Unit} (silent : Silent run) : Leaves part run := by
  intro machine value after ran
  obtain ⟨trace, done⟩ := silent machine
  rw [done] at ran
  cases ran
  rfl

theorem checkpoint (location : Location) : Leaves part (checkpoint location) := by
  intro machine value after ran
  rw [Run.checkpoint, exec_bind, exec_modify] at ran
  dsimp only at ran
  rw [exec_bind, exec_get] at ran
  dsimp only at ran
  split at ran
  · cases ran
  · cases ran
    rfl

/-- What happens in a frame of its own leaves the frames. -/
theorem framed {function : String} {callSite : Option Location} {inside : Run α}
    (based : Based inside) : Level (framed function callSite inside) := by
  intro machine value after ran
  simp only [Run.framed, pushFrame, popFrame, exec_bind, exec_modify, exec_pure] at ran
  generalize done : exec inside _ = reached at ran
  obtain ⟨outcome, last⟩ := reached
  cases outcome with
  | error _ => cases ran
  | ok value =>
      cases ran
      exact Storage.skeleton_popFrame (based _ _ _ done)

/-- What is put together without statement boundaries leaves what its calls leave. -/
theorem of_alike {pairing : Pairing} {run run' : Run α} (alike : pairing.Alike run run')
    (confined : ¬ pairing.steps)
    (calls : ∀ function args location, Leaves part (pairing.invoke function args location)) :
    Leaves part run := by
  induction alike with
  | quiet run => exact .quiet run
  | bind start rest startLeaves restLeaves => exact startLeaves.bind restLeaves
  | lookup permitted => exact .lookup _ _
  | call permitted found evaluated complete evaluatedLeaves =>
      exact evaluatedLeaves.bind fun args => calls _ args _
  | declare _ _ _ _ _ permitted | checkpoint _ permitted | transition _ _ permitted
  | capture permitted => exact absurd permitted confined

end Leaves

/-- Whatever is put together, the frames below the current one stay. -/
theorem based_closed : Closed @Based where
  quiet := .quiet
  bind := .bind
  lookup := .lookup
  declare name kind site placement value := by
    rintro machine _ _ ⟨⟩
    exact machine.storage.base_declare name kind site placement value
  checkpoint := .checkpoint
  transition function state := .silent (silent_transition function state)
  capture := by
    rintro machine _ _ ⟨⟩
    rfl
  framed _ _ _ based := .level (.framed based)
  exceeded := by
    rintro machine _ _ ⟨⟩

/-- A call pops the frame that it pushed, so the functions of the frames stay. -/
theorem seated_closed : Closed @Seated where
  quiet := .quiet
  bind := .bind
  lookup := .lookup
  declare name kind site placement value := by
    rintro machine _ _ ⟨⟩
    have same := machine.storage.functions_declare name kind site placement value
    rw [← Storage.functions_skeleton, ← Storage.functions_skeleton] at same
    exact same
  checkpoint := .checkpoint
  transition function state := .silent (silent_transition function state)
  capture := by
    rintro machine _ _ ⟨⟩
    rfl
  framed function callSite inside seated machine value after ran := by
    simp only [Run.framed, pushFrame, popFrame, exec_bind, exec_modify, exec_pure] at ran
    generalize done : exec inside _ = reached at ran
    obtain ⟨outcome, last⟩ := reached
    cases outcome with
    | error _ => cases ran
    | ok value =>
        cases ran
        have same := seated _ _ _ done
        rw [Storage.functions_skeleton, Storage.functions_skeleton, Storage.functions_pushFrame]
          at same
        rw [Storage.functions_skeleton, Storage.functions_skeleton]
        exact Storage.functions_popFrame same (List.cons_ne_nil _ _)
  exceeded := by
    rintro machine _ _ ⟨⟩

end Run

/-! ### Calls and evaluation -/

/-- Calls that return leave the frames. -/
def Invocation.Level (invoke : Invocation) : Prop :=
  ∀ function args location, Run.Level (invoke function args location)

namespace Evaluator

variable {model : Model} {invoke : Invocation} (level : invoke.Level) {location : Location}

include level

theorem perform_level (function : FunctionDef) (args : List Value) (callSite : Location) :
    Run.Level (Evaluator.perform ⟨model, invoke⟩ function args callSite) := by
  let pairing : Pairing := ⟨model, invoke, invoke, fun _ _ => True, fun _ => True, True⟩
  have admits : pairing.AdmitsCall function := ⟨trivial, fun _ _ => trivial, fun _ _ => trivial⟩
  have inside := pairing.inside_alike admits args callSite (.quiet (pure ()))
  rw [perform_eq]
  refine (Leaves.framed ?_).bind fun _ => ?_
  · exact based_closed.alike inside fun _ _ _ => .level (level _ _ _)
  · exact (Leaves.silent (silent_transition _ _)).bind fun _ => .quiet _

theorem evaluateFor_level (kind : Kind) (expr : Expr) :
    Run.Level (Evaluator.evaluateFor ⟨model, invoke⟩ location kind expr) := by
  have admits : (model.between invoke).AdmitsAll location expr.parts :=
    fun _ _ => ⟨fun _ _ => trivial, fun _ _ => trivial⟩
  exact .of_alike (Pairing.evaluateFor_alike kind admits) id level

theorem evaluateDecl_level (decl : VarDecl) :
    Run.Level (Evaluator.evaluateDecl ⟨model, invoke⟩ location decl) :=
  .of_alike (model.between_evaluateDecl invoke location decl) id level

/-- A statement that declares nothing leaves the frames. -/
theorem execute_level {function : FunctionDef} {stmt : Stmt} (undeclared : stmt.declared? = none) :
    Run.Level (Evaluator.execute ⟨model, invoke⟩ function location stmt) :=
  .of_alike (Model.between_execute undeclared) id level

/-- A statement leaves the calls that are on the stack. -/
theorem execute_seated (function : FunctionDef) (stmt : Stmt) :
    Seated (Evaluator.execute ⟨model, invoke⟩ function location stmt) := by
  let pairing : Pairing := ⟨model, invoke, invoke, fun _ _ => True, fun _ => True, True⟩
  have alike : pairing.Alike (Evaluator.execute ⟨model, invoke⟩ function location stmt)
      (Evaluator.execute ⟨model, invoke⟩ function location stmt) :=
    Pairing.execute_alike (fun _ => trivial) (fun _ _ => trivial)
      ⟨fun _ _ => trivial, fun _ _ => trivial⟩
  exact seated_closed.alike alike fun _ _ _ => .level (level _ _ _)

/-- So does the initialiser of a global. -/
theorem declareGlobal_seated (decl : VarDecl) :
    Seated (Evaluator.declareGlobal ⟨model, invoke⟩ location decl) := by
  let pairing : Pairing := ⟨model, invoke, invoke, fun _ _ => True, fun _ => True, True⟩
  have alike : pairing.Alike (Evaluator.declareGlobal ⟨model, invoke⟩ location decl)
      (Evaluator.declareGlobal ⟨model, invoke⟩ location decl) :=
    Pairing.declareGlobal_alike trivial fun _ _ => ⟨fun _ _ => trivial, fun _ _ => trivial⟩
  exact seated_closed.alike alike fun _ _ _ => .level (level _ _ _)

end Evaluator

namespace Model

theorem function?_of_exec {model : Model} {name : String} {function : FunctionDef}
    {location : Location} {machine reached : Machine}
    (ran : exec (model.function name location) machine = (.ok function, reached)) :
    model.function? name = some function ∧ reached = machine := by
  unfold Model.function at ran
  split at ran
  next found =>
    cases ran
    exact ⟨found, rfl⟩
  next => cases ran

theorem open_seated (model : Model) (function : FunctionDef) (args : List Value)
    (location : Location) : Seated (model.open function args location) := by
  let pairing : Pairing :=
    ⟨model, model.invoke 0, model.invoke 0, fun _ _ => True, fun _ => True, True⟩
  have bound : pairing.Alike (model.bindSlots function args location)
      (model.bindSlots function args location) :=
    Pairing.bindSlots_alike trivial function args location
  have alike : pairing.Alike (model.open function args location)
      (model.open function args location) :=
    (Pairing.Alike.transition _ _ trivial).bind fun _ =>
      bound.bind fun _ => .transition _ _ trivial
  refine seated_closed.alike alike ?_
  rintro function args location machine _ _ ⟨⟩

theorem invoke_level (model : Model) (depth : Nat) : Invocation.Level (model.invoke depth) := by
  induction depth with
  | zero =>
      rintro function args location machine _ _ ⟨⟩
  | succ depth inductionHypothesis =>
      exact Evaluator.perform_level inductionHypothesis

theorem invokeUntil_level (model : Model) (watched : CompletedCall) (halt : Halt) (depth : Nat) :
    Invocation.Level (model.invokeUntil watched halt depth) := by
  induction depth with
  | zero =>
      rintro function args location machine _ _ ⟨⟩
  | succ depth inductionHypothesis =>
      intro function args location machine value after ran
      rw [exec_invokeUntil] at ran
      have leaves := @Evaluator.perform_level model _ inductionHypothesis function args location
        machine
      generalize exec (Evaluator.perform _ function args location) machine = last at ran leaves
      obtain ⟨result, last⟩ := last
      cases result with
      | error _ => cases ran
      | ok result =>
          dsimp only at ran
          split at ran <;> cases ran
          exact leaves _ _ rfl

theorem invokeBefore_level (model : Model) (watched : StartedCall) (halt : Halt) (depth : Nat) :
    Invocation.Level (model.invokeBefore watched halt depth) := by
  induction depth with
  | zero =>
      rintro function args location machine _ _ ⟨⟩
  | succ depth inductionHypothesis =>
      intro function args location machine value after ran
      rw [exec_invokeBefore] at ran
      split at ran
      · cases ran
      · exact Evaluator.perform_level inductionHypothesis function args location _ _ _ ran

end Model

end ReferenceSemantics
