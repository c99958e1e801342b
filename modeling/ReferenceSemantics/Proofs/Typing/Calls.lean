import ReferenceSemantics.Proofs.Run.Frame
import ReferenceSemantics.Proofs.Typing.Execution

set_option autoImplicit false

/-!
Calls and whole runs in regular storage.

The slots of a call are created with values of their kinds, and the named result is bound last, so
that its name designates it. By induction on how deeply calls may nest, every call keeps storage
regular, and so does a run, which may also stop where a watched call begins or completes.
-/

namespace ReferenceSemantics

open Run

namespace Typing

variable {typing : Typing} {before : Storage} {location : Location} {function : FunctionDef}

/-! ### The slots of a call -/

theorem bindParams_leads {name : String} {params : List Param} :
    ∀ {before : Storage} {args : List Value}, (∀ arg ∈ args, arg.Canonical) →
      typing.Leads before (typing.model.bindParams name location params args) fun _ _ => True := by
  induction params with
  | nil =>
      intro before args _
      rw [Model.bindParams]
      · exact .pure trivial
      · nofun
  | cons param params inductionHypothesis =>
      intro before args canonical
      cases args with
      | nil =>
          rw [Model.bindParams]
          · exact .pure trivial
          · nofun
      | cons arg args =>
          obtain ⟨here, rest⟩ := List.forall_mem_cons.mp canonical
          rw [Model.bindParams]
          refine Leads.expectKind.bind fun checked => ?_
          exact (Leads.bindSlot here checked.2).bind fun _ => inductionHypothesis rest

theorem Leads.bindResult : typing.Leads before (typing.model.bindResult function) fun after _ =>
    after.BindsResult function := by
  unfold Model.bindResult
  cases declared : function.result with
  | none => exact .pure fun _ _ found => by cases declared.symm.trans found
  | some result =>
      obtain ⟨name, kind⟩ := result
      cases name with
      | none => exact .pure fun _ _ found => by cases declared.symm.trans found
      | some name =>
          have zero : (Value.zero kind).kind = kind := by cases kind <;> rfl
          refine (Leads.bindSlot (Value.canonical_zero kind) zero).weaken fun gains => ?_
          intro other same found
          cases declared.symm.trans found
          exact gains.slot

theorem Leads.open {args : List Value} (canonical : ∀ arg ∈ args, arg.Canonical) :
    typing.Leads before (typing.model.open function args location) fun after _ =>
      after.BindsResult function := by
  have slots : ∀ {before : Storage}, typing.Leads before
      (typing.model.bindSlots function args location) fun after _ => after.BindsResult function :=
    (bindParams_leads canonical).bind fun _ => .bindResult
  unfold Model.open
  refine (Leads.silent (silent_transition _ _)).bind fun _ => slots.bind fun binds => ?_
  refine (Leads.silent (silent_transition _ _)).weaken ?_
  rintro _ _ rfl
  exact binds

theorem Leads.close {returned : Option Value}
    (canonical : CanonicalResult returned) :
    typing.Leads before (function.close returned) fun _ result =>
      CanonicalResult result := by
  unfold FunctionDef.close FunctionDef.copyOut
  refine (Leads.silent (silent_transition _ _)).bind fun _ => ?_
  split
  next => exact .pure canonical
  next name _ =>
    refine (Leads.lookup name).bind fun _ => ?_
    rw [map_eq_pure_bind]
    exact Leads.load.bind fun loaded => .pure (canonicalResult_some loaded.1)

theorem Leads.framed {α : Type} {callee : String} {callSite : Option Location} {run : Run α}
    {post : α → Prop}
    (inside : typing.Leads (before.pushFrame callee callSite) run fun _ result => post result) :
    typing.Leads before (Run.framed callee callSite run) fun _ result => post result := by
  rintro machine rfl regular
  have ended := inside { machine with storage := machine.storage.pushFrame callee callSite } rfl
    (regular.pushFrame callee callSite)
  simp only [Run.framed, Run.pushFrame, Run.popFrame, exec_bind, exec_modify, exec_pure]
  generalize exec run _ = last at ended
  cases ended with
  | left_open isOpen => exact .left_open isOpen
  | halted proper regular => exact .halted proper regular
  | done regular result => exact .done regular.popFrame result

/-! ### Calls -/

variable {evaluator : Evaluator} [evaluator.Stepwise] (calls : typing.Calls evaluator)

include calls

theorem inside_leads {name : String} {args : List Value} {observe : Run Unit}
    (found : typing.model.function? name = some function)
    (canonical : ∀ arg ∈ args, arg.Canonical)
    (observed : ∀ {before : Storage}, typing.Leads before observe fun _ _ => True) :
    typing.Leads before (evaluator.inside function args location observe) fun _ result =>
      CanonicalResult result := by
  unfold Evaluator.inside
  rw [calls.model]
  refine (Leads.open canonical).bind fun binds => ?_
  refine (executeFrom_leads calls 0 binds (typing.tagged found) (typing.single found)).bind
    fun ⟨_, canonical⟩ => ?_
  exact observed.bind fun _ => .close canonical

theorem perform_leads {name : String} {args : List Value} {callSite : Location}
    (found : typing.model.function? name = some function)
    (canonical : ∀ arg ∈ args, arg.Canonical) :
    typing.Leads before (evaluator.perform function args callSite) fun _ result =>
      CanonicalResult result := by
  rw [Evaluator.perform_eq]
  refine (Leads.framed (inside_leads calls found canonical (.pure trivial))).bind
    fun canonical => ?_
  exact (Leads.silent (silent_transition _ _)).bind fun _ => .pure canonical

omit evaluator [evaluator.Stepwise] calls in
theorem invoke_calls (typing : Typing) (depth : Nat) :
    typing.Calls ⟨typing.model, typing.model.invoke depth⟩ := by
  induction depth with
  | zero => exact ⟨rfl, typing.model.invoke_level 0, fun _ _ => .throw trivial⟩
  | succ depth inductionHypothesis =>
      exact ⟨rfl, typing.model.invoke_level (depth + 1), perform_leads inductionHypothesis⟩

/-! ### Runs -/

omit evaluator [evaluator.Stepwise] calls in
theorem Leads.capture : typing.Leads before Run.capture fun _ _ => True := by
  rintro machine rfl regular
  exact .done regular trivial

omit evaluator [evaluator.Stepwise] calls in
theorem Leads.sweep : typing.Leads before Run.sweep fun _ _ => True := by
  unfold Run.sweep
  have marked : typing.Leads before (Run.allocate Storage.sweep) fun _ _ => True :=
    .allocate fun regular => ⟨regular.sweep, trivial⟩
  refine marked.bind fun _ => ?_
  exact (Leads.silent (silent_when _ (silent_record _))).weaken fun _ => trivial

omit [evaluator.Stepwise] in
theorem declareGlobal_leads {decl : VarDecl} (tagged : AllTagged decl.parts) :
    typing.Leads before (evaluator.declareGlobal location decl) fun _ _ => True := by
  unfold Evaluator.declareGlobal
  refine (Leads.evaluateDecl calls tagged).bind fun {middle value} ⟨canonical, same⟩ => ?_
  have declared : typing.Leads middle
      (Run.allocate (·.declare decl.name decl.kind none .stack value)) fun _ _ => True :=
    .allocate fun regular => ⟨regular.declare decl.name none .stack canonical same, trivial⟩
  exact declared.bind fun _ => (Leads.silent (silent_record _)).weaken fun _ => trivial

omit [evaluator.Stepwise] in
theorem declareGlobals_leads {decls : List VarDecl} : ∀ {before : Storage} (index : Nat),
    (∀ decl ∈ decls, AllTagged decl.parts) →
      typing.Leads before (evaluator.declareGlobals index decls) fun _ _ => True := by
  induction decls with
  | nil =>
      intro before index _
      rw [Evaluator.declareGlobals]
      exact .pure trivial
  | cons decl decls inductionHypothesis =>
      intro before index tagged
      obtain ⟨here, rest⟩ := List.forall_mem_cons.mp tagged
      rw [Evaluator.declareGlobals]
      exact Leads.checkpoint.bind fun _ => (declareGlobal_leads calls here).bind fun _ =>
        inductionHypothesis (index + 1) rest

theorem runEntry_leads {name : String} {entry : FunctionDef}
    (found : typing.model.function? name = some entry) :
    typing.Leads before (evaluator.runEntry entry) fun _ result =>
      CanonicalResult result := by
  have observed : ∀ {before : Storage},
      typing.Leads before (do Run.capture; Run.sweep) fun _ _ => True :=
    Leads.capture.bind fun _ => .sweep
  rw [Evaluator.runEntry_eq]
  refine (Leads.framed (inside_leads calls found (List.forall_mem_nil _) observed)).bind
    fun canonical => ?_
  exact (Leads.silent (silent_transition _ _)).bind fun _ => .pure canonical

/-- The whole run, from the globals to the end of the entry function. -/
theorem run_leads : typing.Leads before evaluator.run fun _ _ => True := by
  unfold Evaluator.run
  dsimp only
  rw [calls.model]
  refine (declareGlobals_leads calls 0 typing.taggedGlobals).bind fun _ => ?_
  refine Leads.functionOf.bind fun found => ?_
  exact (runEntry_leads calls found).bind fun _ => .pure trivial

/-! ### Watched calls -/

/-- A halt that no run comes to by itself. -/
def improperHalt : Halt := .error (.fault (.makeLength 0 1) default)

/-- A run that nevertheless halts so was told to. -/
theorem open_of_improper {machine last : Machine} (regular : machine.storage.Regular)
    (stopped : exec evaluator.run machine = (.error improperHalt, last)) :
    typing.Open improperHalt := by
  have ended := run_leads calls machine rfl regular
  rw [stopped] at ended
  cases ended with
  | left_open isOpen => exact isOpen
  | halted proper _ => exact (Nat.not_lt_zero 1 proper).elim

omit evaluator [evaluator.Stepwise] calls

/-- Calls keep to the rules in a run that stops where a call completes. -/
theorem completed_calls {call : CompletedCall} {halt : Halt}
    (opened : call.before.storage.Regular → (∀ arg ∈ call.args, arg.Canonical) →
      call.after.storage.Regular → CanonicalResult call.result → typing.Open halt) :
    ∀ depth : Nat, typing.Calls ⟨typing.model, typing.model.invokeUntil call halt depth⟩ := by
  intro depth
  have level := typing.model.invokeUntil_level call halt depth
  induction depth with
  | zero => exact ⟨rfl, level, fun _ _ => .throw trivial⟩
  | succ depth inductionHypothesis =>
      have calls := inductionHypothesis (typing.model.invokeUntil_level call halt depth)
      refine ⟨rfl, level, fun {before name function args callSite} found canonical => ?_⟩
      intro machine here regular
      have performs : typing.Leads before (Evaluator.perform
          ⟨typing.model, typing.model.invokeUntil call halt depth⟩ function args callSite) _ :=
        perform_leads calls found canonical
      have ended := performs machine here regular
      dsimp only
      rw [exec_invokeUntil]
      generalize exec (Evaluator.perform _ function args callSite) machine = last at ended
      cases ended with
      | left_open isOpen => exact .left_open isOpen
      | halted proper regular => exact .halted proper regular
      | done regular' result =>
          dsimp only
          split
          next watched =>
            subst here
            exact .left_open (opened (watched ▸ regular) (watched ▸ canonical)
              (watched ▸ regular') (watched ▸ result))
          next => exact .done regular' result

/-- Calls keep to the rules in a run that stops where a call begins. -/
theorem started_calls {call : StartedCall} {halt : Halt}
    (opened : call.before.storage.Regular → (∀ arg ∈ call.args, arg.Canonical) →
      typing.Open halt) :
    ∀ depth : Nat, typing.Calls ⟨typing.model, typing.model.invokeBefore call halt depth⟩ := by
  intro depth
  have level := typing.model.invokeBefore_level call halt depth
  induction depth with
  | zero => exact ⟨rfl, level, fun _ _ => .throw trivial⟩
  | succ depth inductionHypothesis =>
      have calls := inductionHypothesis (typing.model.invokeBefore_level call halt depth)
      refine ⟨rfl, level, fun {before name function args callSite} found canonical => ?_⟩
      rintro machine rfl regular
      dsimp only
      rw [exec_invokeBefore]
      split
      next watched => exact .left_open (opened (watched ▸ regular) (watched ▸ canonical))
      next => exact perform_leads calls found canonical machine rfl regular

end Typing

end ReferenceSemantics
