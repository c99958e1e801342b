import ReferenceSemantics.Proofs.Run.Level

set_option autoImplicit false

/-!
Computations that are watched at the statement boundaries.

A host can stop a run at any boundary, and then storage is as the statement there would find it. So
what is seen whenever a run stops is so before every statement that it comes to.
-/

namespace ReferenceSemantics

open Run

/-- Started on some storage, a computation ends on another, or stops where something is seen. -/
def Watches {α : Type} (seen : Location → Storage → Prop) (before : Storage) (run : Run α)
    (post : Storage → Prop) : Prop :=
  ∀ machine, machine.storage = before →
    (∀ value after, exec run machine = (.ok value, after) → post after.storage) ∧
    ∀ location after, exec run machine = (.error (.aborted location), after) →
      seen location after.storage

namespace Watches

variable {α β : Type} {seen : Location → Storage → Prop} {before : Storage}
  {middle post : Storage → Prop} {location : Location}

/-- What comes later may use what is known of the value. -/
theorem bind_of_exec {first : Run α} {next : α → Run β} (start : Watches seen before first middle)
    (rest : ∀ machine value reached, exec first machine = (.ok value, reached) →
      middle reached.storage → Watches seen reached.storage (next value) post) :
    Watches seen before (first >>= next) post := by
  intro machine started
  have here := start machine started
  rw [exec_bind]
  generalize ran : exec first machine = last at here
  obtain ⟨result, reached⟩ := last
  cases result with
  | error halt =>
      refine ⟨?_, ?_⟩
      · rintro value after ⟨⟩
      · rintro location after ⟨⟩
        exact here.2 location reached rfl
  | ok value => exact rest machine value reached ran (here.1 value reached rfl) reached rfl

theorem bind {first : Run α} {next : α → Run β} (start : Watches seen before first middle)
    (rest : ∀ value later, middle later → Watches seen later (next value) post) :
    Watches seen before (first >>= next) post :=
  start.bind_of_exec fun _ value reached _ holds => rest value reached.storage holds

theorem weaken {run : Run α} (watches : Watches seen before run middle)
    (weaker : ∀ after, middle after → post after) : Watches seen before run post :=
  fun machine started => ⟨fun value after ran =>
    weaker _ ((watches machine started).1 value after ran), (watches machine started).2⟩

/-- A computation that never stops. -/
theorem ends {run : Run α} (done : ∀ machine, machine.storage = before →
      ∃ value after, exec run machine = (.ok value, after) ∧ post after.storage) :
    Watches seen before run post := by
  intro machine started
  obtain ⟨value, after, ran, holds⟩ := done machine started
  rw [ran]
  refine ⟨?_, ?_⟩
  · rintro _ _ ⟨⟩
    exact holds
  · rintro location after ⟨⟩

theorem pure {value : α} (holds : post before) : Watches seen before (pure value) post := by
  refine .ends ?_
  rintro machine rfl
  exact ⟨value, machine, rfl, holds⟩

theorem quiet {run : Run α} [Quiet run] : Watches seen before run before.Fills := by
  rintro machine rfl
  obtain ⟨result, changed, events, reaction⟩ := Run.reacts run machine.storage
  rw [show exec run machine = _ from reaction.ran machine.trace machine.abort machine.finalValues]
  refine ⟨?_, ?_⟩
  · rintro value after same
    obtain ⟨-, rfl⟩ := Prod.mk.inj same
    exact reaction.fills
  · intro location after same
    obtain ⟨failed, -⟩ := Prod.mk.inj same
    cases result <;> cases failed

theorem allocate {change : Storage → α × Storage} (holds : post (change before).2) :
    Watches seen before (allocate change) post := by
  refine .ends ?_
  rintro machine rfl
  exact ⟨_, _, rfl, holds⟩

theorem silent {run : Run Unit} (silent : Silent run) : Watches seen before run (· = before) := by
  refine .ends ?_
  rintro machine rfl
  obtain ⟨trace, done⟩ := silent machine
  exact ⟨_, _, done, rfl⟩

theorem lookup (name : String) : Watches seen before (lookup name location) (· = before) := by
  rintro machine rfl
  rw [exec_lookup]
  refine ⟨?_, ?_⟩
  · intro value after ran
    split at ran <;> cases ran
    rfl
  · intro location after ran
    split at ran <;> cases ran

/-- A boundary where a run stops is one where it may go on. -/
theorem checkpoint (shown : seen location before) :
    Watches seen before (checkpoint location) (· = before) := by
  rintro machine rfl
  simp only [Run.checkpoint, exec_bind, exec_modify, exec_get]
  split
  · refine ⟨?_, ?_⟩
    · rintro value after ⟨⟩
    · rintro location after ⟨⟩
      exact shown
  · refine ⟨?_, ?_⟩
    · rintro value after ⟨⟩
      rfl
    · rintro location after ⟨⟩

theorem capture : Watches seen before capture (· = before) := by
  refine .ends ?_
  rintro machine rfl
  exact ⟨_, _, rfl, rfl⟩

/-- What a call leaves in its frame goes with the frame. -/
theorem framed {function : String} {callSite : Option Location} {inside : Run α}
    (watches : Watches seen (before.pushFrame function callSite) inside
      (before.pushFrame function callSite).Grown) :
    Watches seen before (framed function callSite inside) before.Grown := by
  rintro machine rfl
  have here := watches
    { machine with storage := machine.storage.pushFrame function callSite } rfl
  simp only [Run.framed, pushFrame, popFrame, exec_bind, exec_modify, exec_pure]
  generalize exec inside _ = last at here
  obtain ⟨result, reached⟩ := last
  cases result with
  | error halt =>
      refine ⟨?_, ?_⟩
      · rintro value after ⟨⟩
      · rintro location after ⟨⟩
        exact here.2 location reached rfl
  | ok value =>
      refine ⟨?_, ?_⟩
      · rintro value after ⟨⟩
        exact (Storage.grown_framed (here.1 _ reached rfl)).1
      · rintro location after ⟨⟩

/-- A computation that leaves the names and takes no slot away only fills the frames. -/
theorem level {run : Run α} (watches : Watches seen before run before.Grown) (level : Level run) :
    Watches seen before run before.Fills := by
  refine fun machine started => ⟨fun value after ran => ?_, (watches machine started).2⟩
  have grown := (watches machine started).1 value after ran
  subst started
  exact ⟨level machine value after ran, grown.toEmbeds⟩

/-- What is put together without statement boundaries is seen at the boundaries in its calls. -/
theorem of_alike {pairing : Pairing} {run run' : Run α} (alike : pairing.Alike run run')
    (confined : ¬ pairing.steps) {fit : Storage → Prop}
    (kept : ∀ {before after : Storage}, before.Fills after → fit before → fit after)
    (calls : ∀ {callee function args}, pairing.model.function? callee = some function →
      args.length = function.params.length → ∀ location {before : Storage}, fit before →
        Watches seen before (pairing.invoke function args location) before.Fills)
    (fits : fit before) : Watches seen before run before.Fills := by
  induction alike generalizing before with
  | quiet run => exact .quiet
  | bind start rest startWatches restWatches =>
      refine (startWatches fits).bind fun value later fills => ?_
      exact (restWatches value (kept fills fits)).weaken fun _ => fills.trans
  | lookup permitted => exact (Watches.lookup _).weaken fun _ same => same ▸ .refl _
  | call permitted found evaluated complete evaluatedWatches =>
      refine (evaluatedWatches fits).bind_of_exec fun machine args reached ran fills => ?_
      exact (calls found (complete machine args reached ran) _ (kept fills fits)).weaken
        fun _ => fills.trans
  | declare _ _ _ _ _ permitted | checkpoint _ permitted | transition _ _ permitted
  | capture permitted => exact absurd permitted confined

end Watches

end ReferenceSemantics
