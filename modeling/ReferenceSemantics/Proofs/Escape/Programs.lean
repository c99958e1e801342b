import ReferenceSemantics.Proofs.Escape.Calls

set_option autoImplicit false

/-!
Whole runs beside the rules of the classification.

The globals are initialised in the root frame, where no name is a local; what they hold lasts. The
run may be watched for the end of a call, whose result lasts as well.
-/

namespace ReferenceSemantics

open Run EscapeRule

namespace Audit

variable {audit : Audit} {before : Storage} {location : Location}

/-- The frame of the globals is the only one. -/
structure AtRoot (storage : Storage) : Prop where
  outside : ¬ storage.InCall
  named : storage.current.function = globalsFrame

theorem AtRoot.grown {after : Storage} (atRoot : AtRoot before) (grown : before.Grown after) :
    AtRoot after :=
  ⟨mt grown.inCall.mpr atRoot.outside, grown.current_function.trans atRoot.named⟩

/-- Outside of a call every name is one of the root frame. -/
theorem AtRoot.agrees (atRoot : AtRoot before) (facts : EscapeFacts) (mode : EscapeMode) :
    before.Agrees facts ⟨mode, facts, globalsFrame, []⟩ :=
  ⟨atRoot.named, rfl, nofun, fun inCall _ => absurd inCall atRoot.outside⟩

theorem Leads.capture : audit.Leads before Run.capture fun after _ => after = before := by
  rintro machine rfl secure
  exact .done secure (.refl _) rfl

theorem Leads.sweep : audit.Leads before Run.sweep fun after _ =>
    after.current.bindings = before.current.bindings := by
  unfold Run.sweep
  have marked : audit.Leads before (Run.allocate Storage.sweep) fun after _ =>
      after.current.bindings = before.current.bindings := by
    apply Leads.allocate
    intro secure _
    obtain ⟨secure, grown⟩ := secure.sweep
    exact ⟨secure, grown, rfl⟩
  apply marked.bind
  intro middle _ _ bindings
  apply (Leads.silent (silent_when _ (silent_record _))).weaken
  rintro _ _ - rfl
  exact bindings

variable {evaluator : Evaluator} [evaluator.Stepwise] (calls : audit.Calls evaluator)

include calls

/-- What a global is initialised with escapes. -/
theorem declareGlobal_leads {decl : VarDecl} (atRoot : AtRoot before)
    (settled : Settled audit.facts (Program.escapeGlobal audit.mode audit.facts decl) ()) :
    audit.Leads before (evaluator.declareGlobal location decl) fun _ _ => True := by
  let scope : EscapeScope := ⟨audit.mode, audit.facts, globalsFrame, []⟩
  obtain ⟨locs, holds, escapes⟩ : ∃ locs, (∀ init, decl.init = some init →
      ∃ inner, Settled audit.facts (scope.addrs init) inner ∧ inner ⊆ locs) ∧
        ∀ loc ∈ locs, audit.facts.Escapes loc := by
    unfold Program.escapeGlobal at settled
    cases initialised : decl.init with
    | none => exact ⟨[], nofun, nofun⟩
    | some init =>
        simp only [initialised, settled_bind] at settled
        obtain ⟨locs, ofInit, escapes⟩ := settled
        refine ⟨locs, ?_, fun _ member => settled_escape escapes member⟩
        rintro _ ⟨⟩
        exact ⟨locs, ofInit, List.Subset.refl _⟩
  unfold Evaluator.declareGlobal
  apply (Evaluates.evaluateDecl calls holds (atRoot.agrees _ audit.mode)).bind
  rintro middle value grown ⟨-, covers, same⟩
  have declared : audit.Leads middle
      (Run.allocate (·.declare decl.name decl.kind none .stack value)) fun _ _ => True := by
    apply Leads.allocate
    intro secure fits
    obtain ⟨secure, grown⟩ := secure.declareGlobal (atRoot.grown grown).outside
      (secure.lasting_of_covers covers escapes) same fits
    exact ⟨secure, grown, trivial⟩
  apply declared.bind
  intro _ _ _ _
  exact (Leads.silent (silent_record _)).weaken fun _ _ => trivial

theorem declareGlobals_leads {decls : List VarDecl} :
    ∀ {before : Storage} (index : Nat), AtRoot before →
      (∀ decl ∈ decls,
        Settled audit.facts (Program.escapeGlobal audit.mode audit.facts decl) ()) →
          audit.Leads before (evaluator.declareGlobals index decls) fun after _ =>
            AtRoot after := by
  induction decls with
  | nil =>
      intro before index atRoot _
      rw [Evaluator.declareGlobals]
      exact .pure atRoot
  | cons decl decls inductionHypothesis =>
      intro before index atRoot settled
      obtain ⟨here, rest⟩ := List.forall_mem_cons.mp settled
      rw [Evaluator.declareGlobals]
      apply Leads.checkpoint.bind
      rintro _ _ - rfl
      apply (declareGlobal_leads calls atRoot here).bind
      intro middle _ grown _
      exact inductionHypothesis (index + 1) (atRoot.grown grown) rest

theorem runEntry_leads {entry : FunctionDef}
    (found : audit.model.function? audit.model.config.entry = some entry) :
    audit.Leads before (evaluator.runEntry entry) fun after result =>
      ∀ value, result = some value → after.Lasting value := by
  have observed : ∀ {after : Storage}, audit.Leads after (do capture; Run.sweep) fun later _ =>
      later.current.bindings = after.current.bindings := by
    intro after
    apply Leads.capture.bind
    rintro _ _ - rfl
    exact .sweep
  have passes : before.PassesAll audit.facts (before.calls.depth + 1) audit.model.config.entry 0
      entry.params [] := by
    rw [audit.entry found]
    trivial
  rw [Evaluator.runEntry_eq]
  apply (Leads.framed (inside_leads calls found passes observed)).bind
  rintro after result _ ⟨-, lasting⟩
  apply (Leads.silent (silent_transition _ _)).bind
  rintro _ _ - rfl
  exact .pure lasting

/-- The whole run, from the globals to the end of the entry function. -/
theorem run_leads (atRoot : AtRoot before) :
    audit.Leads before evaluator.run fun _ _ => True := by
  unfold Evaluator.run
  dsimp only
  rw [calls.model]
  apply (declareGlobals_leads calls 0 atRoot audit.settledGlobals).bind
  intro middle _ _ atRoot
  apply (Evaluates.function (atRoot.agrees _ audit.mode)).bind
  rintro _ entry _ ⟨-, found⟩
  apply (runEntry_leads calls found).bind
  intro _ _ _ _
  exact .pure trivial

omit calls [evaluator.Stepwise] in
/-- Calls also keep to the rules in a run that stops where a call completes. -/
theorem watched_calls {call : CompletedCall} {halt : Halt}
    (opened : (∀ value, call.result = some value → call.after.storage.Lasting value) →
      audit.Open halt) :
    ∀ depth : Nat, audit.Calls ⟨audit.model, audit.model.invokeUntil call halt depth⟩ := by
  intro depth
  induction depth with
  | zero => exact ⟨rfl, fun _ _ => .throw trivial⟩
  | succ depth inductionHypothesis =>
      refine ⟨rfl, fun {before name function args callSite} found passes => ?_⟩
      rintro machine rfl secure
      have performs : audit.Leads machine.storage (Evaluator.perform
          ⟨audit.model, audit.model.invokeUntil call halt depth⟩ function args callSite) _ :=
        perform_leads inductionHypothesis found passes
      have ended := performs machine rfl secure
      dsimp only
      rw [exec_invokeUntil]
      generalize exec (Evaluator.perform _ function args callSite) machine = last at ended
      cases ended with
      | @overflow last full =>
          refine .overflow fun fits => full ?_
          obtain ⟨result, after⟩ := last
          cases result with
          | error _ => exact fits
          | ok _ =>
              dsimp only at fits
              split at fits <;> exact fits
      | left_open isOpen => exact .left_open isOpen
      | halted grounded secure => exact .halted grounded secure
      | @done result after secure grown kept =>
          dsimp only
          split
          next watched =>
            apply Ends.left_open
            apply opened
            rw [watched]
            exact kept.2
          next => exact .done secure grown kept

end Audit

end ReferenceSemantics
