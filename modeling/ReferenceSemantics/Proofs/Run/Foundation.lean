import ReferenceSemantics.Proofs.Run.Bindings
import ReferenceSemantics.Proofs.Run.Level

set_option autoImplicit false

/-!
The frames in the course of a run.

What is computed binds names in the current frame only, and only by declarations. A computation that
halts within calls leaves the frames of these calls on top, each with the place of its call, and the
frames below as they were.
-/

namespace ReferenceSemantics

open Run

namespace Storage

variable {storage changed : Storage}

theorem length_skeleton (storage : Storage) : storage.skeleton.length = storage.depth := by
  rw [skeleton, List.length_map, length_frames]

theorem depth_of_base (same : changed.skeleton.dropLast = storage.skeleton.dropLast) :
    changed.depth = storage.depth := by
  have sizes := congrArg List.length same
  rw [List.length_dropLast, List.length_dropLast, length_skeleton, length_skeleton] at sizes
  unfold depth at sizes ⊢
  exact congrArg (· + 1) sizes

theorem bare_of_skeleton (same : changed.skeleton = storage.skeleton) :
    changed.current.bare = storage.current.bare := by
  rw [skeleton_eq changed, skeleton_eq storage] at same
  exact List.singleton_inj.mp (List.append_inj_right' same rfl)

/-- A declaration binds its name in the current frame. -/
theorem bare_declare (storage : Storage) (name : String) (kind : Kind) (site : Option SiteId)
    (placement : Placement) (value : Value) :
    (storage.declare name kind site placement value).2.current.bare =
      storage.current.bare.bind name
        (storage.declare name kind site placement value).1.address := by
  let allocated := storage.allocate name kind site placement value
  have same := bare_of_skeleton (storage.skeleton_allocate name kind site placement value)
  calc (storage.declare name kind site placement value).2.current.bare
      = (allocated.2.current.bind name allocated.1.address).bare :=
        congrArg Frame.bare (current_modifyCurrent _ _)
    _ = allocated.2.current.bare.bind name allocated.1.address := rfl
    _ = storage.current.bare.bind name allocated.1.address := by rw [same]

/-! ### Frames that stay below -/

/-- The frames are the given ones and, on top of them, those of calls that were made somewhere. -/
def Above (storage : Storage) (base : List Frame) : Prop :=
  ∃ calls, storage.skeleton = base ++ calls ∧ ∀ frame ∈ calls, frame.callSite.isSome

theorem above_self (storage : Storage) : storage.Above storage.skeleton :=
  ⟨[], (List.append_nil _).symm, List.forall_mem_nil _⟩

variable {base : List Frame}

theorem Above.of_skeleton (above : storage.Above base)
    (same : changed.skeleton = storage.skeleton) : changed.Above base := by
  obtain ⟨calls, shape, called⟩ := above
  exact ⟨calls, same.trans shape, called⟩

theorem Above.pushFrame (above : storage.Above base) (function : String) (callSite : Location) :
    (storage.pushFrame function (some callSite)).Above base := by
  obtain ⟨calls, shape, called⟩ := above
  refine ⟨calls ++ [.new function (some callSite)], ?_, ?_⟩
  · rw [skeleton_pushFrame, shape, List.append_assoc]
  · exact List.forall_mem_append.mpr ⟨called, List.forall_mem_singleton.mpr rfl⟩

/-- A declaration in a call leaves the frames below the call. -/
theorem Above.declare (above : storage.Above base) (deep : base.length < storage.depth)
    (name : String) (kind : Kind) (site : Option SiteId) (placement : Placement) (value : Value) :
    (storage.declare name kind site placement value).2.Above base := by
  obtain ⟨calls, shape, called⟩ := above
  have nonempty : calls ≠ [] := by
    rintro rfl
    rw [List.append_nil] at shape
    rw [← shape, length_skeleton] at deep
    exact Nat.lt_irrefl _ deep
  obtain ⟨lower, top, rfl⟩ := List.eq_nil_or_concat' calls |>.resolve_left nonempty
  obtain ⟨lowerCalled, topCalled⟩ := List.forall_mem_append.mp called
  have whole := storage.skeleton_eq
  rw [shape, ← List.append_assoc, List.dropLast_concat] at whole
  have top_eq : top = storage.current.bare := List.singleton_inj.mp (List.append_cancel_left whole)
  refine ⟨lower ++ [(storage.declare name kind site placement value).2.current.bare], ?_, ?_⟩
  · rw [skeleton_eq, base_declare, shape, ← List.append_assoc, List.dropLast_concat,
      List.append_assoc]
  · refine List.forall_mem_append.mpr ⟨lowerCalled, List.forall_mem_singleton.mpr ?_⟩
    rw [bare_declare, ← top_eq]
    exact topCalled top (List.mem_singleton.mpr rfl)

end Storage

/-- However it ends, a computation leaves the frames below. One inside of a call leaves those below
the frame of the call, which it may bind names in. -/
structure Run.Rests {α : Type} (inside : Prop) (run : Run α) : Prop where
  based : Based run
  kept : ∀ base machine, machine.storage.Above base →
    (inside → base.length < machine.storage.depth) → (exec run machine).2.storage.Above base

namespace Run.Rests

variable {α β : Type} {inside : Prop}

theorem weaken {run : Run α} (rests : Rests False run) : Rests inside run :=
  ⟨rests.based, fun base machine above _ => rests.kept base machine above nofun⟩

/-- All frames stay below the end of a computation that is not inside of a call. -/
theorem above {run : Run α} (rests : Rests False run) {machine after : Machine}
    {result : Except Halt α} (ran : exec run machine = (result, after)) :
    after.storage.Above machine.storage.skeleton := by
  have kept := rests.kept _ machine machine.storage.above_self nofun
  rwa [ran] at kept

theorem bind {first : Run α} {next : α → Run β} (start : Rests inside first)
    (rest : ∀ value, Rests inside (next value)) : Rests inside (first >>= next) := by
  refine ⟨start.based.bind fun value => (rest value).based, fun base machine above deep => ?_⟩
  have reached := start.kept base machine above deep
  rw [exec_bind]
  generalize ran : exec first machine = last at reached
  obtain ⟨result, middle⟩ := last
  cases result with
  | error halt => exact reached
  | ok value =>
      refine (rest value).kept base middle reached fun within => ?_
      rw [Storage.depth_of_base (start.based machine value middle ran)]
      exact deep within

/-- A computation that leaves all frames and their names. -/
theorem still {run : Run α}
    (same : ∀ machine, (exec run machine).2.storage.skeleton = machine.storage.skeleton) :
    Rests inside run := by
  refine ⟨fun machine value after ran => ?_, fun base machine above _ =>
    above.of_skeleton (same machine)⟩
  have left := same machine
  rw [ran] at left
  exact congrArg List.dropLast left

theorem quiet {run : Run α} [Quiet run] : Rests inside run := by
  refine still fun machine => ?_
  obtain ⟨result, changed, events, reaction⟩ := Run.reacts run machine.storage
  rw [show exec run machine = _ from reaction.ran machine.trace machine.abort machine.finalValues]
  exact reaction.skeleton

theorem lookup (name : String) (location : Location) : Rests inside (lookup name location) := by
  refine still fun machine => ?_
  rw [exec_lookup]
  split <;> rfl

theorem declare (within : inside) (name : String) (kind : Kind) (site : Option SiteId)
    (placement : Placement) (value : Value) :
    Rests inside (allocate (·.declare name kind site placement value)) := by
  refine ⟨based_closed.declare _ _ _ _ _, fun base machine above deep => ?_⟩
  exact above.declare (deep within) name kind site placement value

theorem checkpoint (location : Location) : Rests inside (checkpoint location) := by
  refine still fun machine => ?_
  simp only [Run.checkpoint, exec_bind, exec_modify, exec_get]
  split <;> rfl

theorem transition (function : String) (state : CallState) :
    Rests inside (transition function state) :=
  still fun _ => rfl

theorem capture : Rests inside capture := still fun _ => rfl

/-- What is put together from calls that leave the frames below. -/
theorem of_alike {pairing : Pairing} {run run' : Run α} (alike : pairing.Alike run run')
    (steps : pairing.steps → inside)
    (calls : ∀ function args location, Rests False (pairing.invoke function args location)) :
    Rests inside run := by
  induction alike with
  | quiet run => exact .quiet
  | bind start rest startRests restRests => exact startRests.bind restRests
  | lookup permitted => exact .lookup _ _
  | call permitted found evaluated complete evaluatedRests =>
      exact evaluatedRests.bind fun args => (calls _ args _).weaken
  | declare _ _ _ _ _ permitted => exact .declare (steps permitted) _ _ _ _ _
  | checkpoint location _ => exact .checkpoint location
  | transition function state _ => exact .transition function state
  | capture _ => exact .capture

/-- A call halts in its frame, or it pops the frame. -/
theorem framed {function : String} {callSite : Location} {run : Run α} (rests : Rests True run) :
    Rests False (framed function (some callSite) run) := by
  have level : Level (Run.framed function (some callSite) run) := .framed rests.based
  refine ⟨.level level, fun base machine above _ => ?_⟩
  have pushed := above.pushFrame function callSite
  have deep : base.length < (machine.storage.pushFrame function (some callSite)).depth := by
    obtain ⟨calls, shape, -⟩ := above
    rw [← Storage.length_skeleton, Storage.skeleton_pushFrame, shape, List.length_append,
      List.length_append]
    exact Nat.lt_succ_of_le (Nat.le_add_right _ _)
  have reached := rests.kept base
    { machine with storage := machine.storage.pushFrame function (some callSite) } pushed
    fun _ => deep
  generalize ran : exec (Run.framed function (some callSite) run) machine = last
  obtain ⟨result, after⟩ := last
  cases result with
  | ok value => exact above.of_skeleton (level machine value after ran)
  | error halt =>
      simp only [Run.framed, Run.pushFrame, popFrame, exec_bind, exec_modify, exec_pure] at ran
      generalize exec run _ = inner at ran reached
      obtain ⟨outcome, last⟩ := inner
      cases outcome with
      | ok value => cases ran
      | error other =>
          cases ran
          exact reached

end Run.Rests

/-- Calls leave the frames below, however they end. -/
def Invocation.Rests (invoke : Invocation) : Prop :=
  ∀ function args location, Run.Rests False (invoke function args location)

namespace Evaluator

variable {model : Model} {invoke : Invocation} (rests : invoke.Rests) {location : Location}

include rests

theorem perform_rests : Invocation.Rests (Evaluator.perform ⟨model, invoke⟩) := by
  intro function args callSite
  let pairing : Pairing := ⟨model, invoke, invoke, fun _ _ => True, fun _ => True, True⟩
  have admits : pairing.AdmitsCall function := ⟨trivial, fun _ _ => trivial, fun _ _ => trivial⟩
  have inside := pairing.inside_alike admits args callSite (.quiet (pure ()))
  rw [perform_eq]
  refine (Run.Rests.framed (.of_alike inside (fun _ => trivial) rests)).bind fun _ => ?_
  exact (Run.Rests.transition _ _).bind fun _ => .quiet

theorem evaluateDecl_rests (decl : VarDecl) :
    Run.Rests False (Evaluator.evaluateDecl ⟨model, invoke⟩ location decl) :=
  .of_alike (model.between_evaluateDecl invoke location decl) id rests

/-- A statement that halts has declared nothing. -/
theorem execute_above {function : FunctionDef} {stmt : Stmt} {machine after : Machine} {halt : Halt}
    (halted : exec (Evaluator.execute ⟨model, invoke⟩ function location stmt) machine =
      (.error halt, after)) : after.storage.Above machine.storage.skeleton := by
  cases declared : stmt.declared? with
  | none => exact (Rests.of_alike (Model.between_execute declared) id rests).above halted
  | some decl =>
      rw [Stmt.eq_declare declared, execute] at halted
      obtain stopped | ⟨value, middle, -, bound⟩ := error_of_bind halted
      · exact (evaluateDecl_rests rests decl).above stopped
      · cases bound

/-- An initialiser that halts has declared nothing. -/
theorem declareGlobal_above {decl : VarDecl} {machine after : Machine} {halt : Halt}
    (halted : exec (Evaluator.declareGlobal ⟨model, invoke⟩ location decl) machine =
      (.error halt, after)) : after.storage.Above machine.storage.skeleton := by
  unfold declareGlobal at halted
  obtain stopped | ⟨value, middle, -, bound⟩ := error_of_bind halted
  · exact (evaluateDecl_rests rests decl).above stopped
  · cases bound

end Evaluator

theorem Model.invoke_rests (model : Model) (depth : Nat) :
    Invocation.Rests (model.invoke depth) := by
  induction depth with
  | zero =>
      intro function args location
      exact .still fun _ => rfl
  | succ depth inductionHypothesis => exact Evaluator.perform_rests inductionHypothesis

end ReferenceSemantics
