import ReferenceSemantics.Proofs.Escape.Execution
import ReferenceSemantics.Proofs.Escape.Fixpoint
import ReferenceSemantics.Proofs.Run.Completion
import ReferenceSemantics.Proofs.Run.Frame

set_option autoImplicit false

/-!
Calls and whole runs beside the rules of the classification.

The slots of a call are bound to what the rules say of its parameters. The body keeps to the rules,
so what the call hands back lasts, and its frame can go without anything pointing into it.
-/

namespace ReferenceSemantics

open Run EscapeRule

namespace EscapeScope

/-- The scope with the parameters bound. -/
def bindParams (scope : EscapeScope) (function : String) (params : List Param) : EscapeScope :=
  params.foldl
    (fun scope param => scope.bind param.name (defaultSite function param.name) param.kind) scope

end EscapeScope

namespace FunctionDef

variable {function : FunctionDef}

/-- The named result is bound after the parameters. -/
theorem escapeScope_eq_bind (function : FunctionDef) (mode : EscapeMode) (known : EscapeFacts) :
    function.escapeScope mode known =
      let bound := EscapeScope.bindParams ⟨mode, known, function.name, []⟩ function.name
        function.params
      match function.result with
      | some ⟨some name, kind⟩ => bound.bind name (defaultSite function.name name) kind
      | _ => bound := by
  unfold escapeScope slots EscapeScope.bindParams
  rw [List.foldl_append, List.foldl_map]
  cases function.result with
  | none => rfl
  | some result =>
      obtain ⟨name, kind⟩ := result
      cases name <;> rfl

theorem escapeScope_hasResult (function : FunctionDef) (mode : EscapeMode) (known : EscapeFacts) :
    (function.escapeScope mode known).HasResult function := by
  intro name kind found
  rw [escapeScope_eq_bind, found]
  dsimp only
  rw [EscapeScope.bind, List.lookup_cons, beq_self_eq_true]

end FunctionDef

namespace Storage

/-- The value may be held under the site of a parameter. -/
theorem Passes.covers {storage : Storage} {facts : EscapeFacts} {callee : String} {param : Nat}
    {value : Value} {locs : List Loc}
    (passes : storage.Passes facts storage.calls.depth callee param value)
    (current : storage.current.function = callee) (member : .content callee param ∈ locs)
    (again : .content callee param ∈ facts.heldBy (.content callee param)) :
    storage.Covers facts locs value := by
  intro target inside
  rcases passes target inside with outlives | ⟨kept, lower, owner, slot, below, owned, here⟩
  · exact .outlives outlives
  · subst current
    exact .passed lower owner slot param below owned here member kept again

/-- The frame of the function is at its end, with the named result bound. -/
def Finishes (storage : Storage) (facts : EscapeFacts) (function : FunctionDef) : Prop :=
  ∃ scope : EscapeScope, storage.Agrees facts scope ∧ scope.HasResult function

/-- A new frame binds nothing. -/
theorem agrees_pushFrame (storage : Storage) (facts : EscapeFacts) (mode : EscapeMode)
    (function : String) (callSite : Option Location) :
    (storage.pushFrame function callSite).Agrees facts ⟨mode, facts, function, []⟩ := by
  have current : (storage.pushFrame function callSite).current = .new function callSite := by
    have lasts := congrArg List.getLast? (frames_pushFrame storage function callSite)
    rw [frames_eq (storage.pushFrame function callSite)] at lasts
    simpa using lasts
  refine ⟨congrArg Frame.function current, rfl, nofun, ?_⟩
  intro name _ _
  rw [current]
  rfl

end Storage

namespace Audit

variable {audit : Audit} {scope : EscapeScope} {before : Storage} {location : Location}
  {function : FunctionDef}

/-! ### The slots of a call -/

theorem Leads.bindSlot {name : String} {kind : Kind} {site : SiteId} {value : Value}
    (inCall : before.InCall) (agrees : before.Agrees audit.facts scope)
    (covers : before.Covers audit.facts (audit.facts.heldBy (.site site)) value)
    (same : value.kind = kind) :
    audit.Leads before (audit.model.bind name kind site value) fun after _ =>
      after.Agrees audit.facts (scope.bind name site kind) := by
  unfold Model.bind
  have declared : audit.Leads before
      (Run.allocate (·.declare name kind (some site) (audit.model.placement site) value))
      fun after _ => after.Agrees audit.facts (scope.bind name site kind) :=
    .allocate fun secure fits =>
      secure.declare audit.closed (audit.placed site) inCall agrees covers same fits
  apply declared.bind
  intro after ref _ agrees
  apply (Leads.silent (silent_record _)).weaken
  rintro _ _ - rfl
  exact agrees

theorem bindParams_leads {params : List Param} (function : FunctionDef) :
    ∀ {before : Storage} {scope : EscapeScope} {index : Nat} {args : List Value},
      before.InCall → before.Agrees audit.facts scope → scope.function = function.name →
        Settled audit.facts (function.holdParams index params) () →
        before.PassesAll audit.facts before.calls.depth function.name index params args →
          audit.Leads before (audit.model.bindParams function.name location params args)
            fun after _ => after.Agrees audit.facts (scope.bindParams function.name params) := by
  induction params with
  | nil =>
      intro before scope index args _ agrees _ _ _
      rw [Model.bindParams]
      · exact .pure agrees
      · nofun
  | cons param params inductionHypothesis =>
      intro before scope index args inCall agrees named settled passes
      cases args with
      | nil => exact passes.elim
      | cons arg args =>
          obtain ⟨held, again, rest⟩ := FunctionDef.settled_holdParams settled
          rw [Model.bindParams]
          have checked : audit.Leads before (expectKind location param.kind arg) fun after _ =>
              after = before ∧ arg.kind = param.kind := by
            unfold expectKind
            split
            next same => exact .pure ⟨rfl, same⟩
            next => exact .throw trivial
          apply checked.bind
          rintro _ _ - ⟨rfl, same⟩
          have covers := passes.1.covers (agrees.function.trans named) held again
          apply (Leads.bindSlot inCall agrees covers same).bind
          intro after _ grown agrees
          have passes := passes.2.embeds grown.toEmbeds
          rw [← grown.calls_depth] at passes
          exact inductionHypothesis (grown.inCall.mp inCall) agrees named rest passes

/-- The parameters and the named result of the function are bound in its frame. -/
theorem Leads.bindSlots {args : List Value} (inCall : before.InCall)
    (agrees : before.Agrees audit.facts ⟨audit.mode, audit.facts, function.name, []⟩)
    (settled : Settled audit.facts (function.holdParams 0 function.params) ())
    (passes : before.PassesAll audit.facts before.calls.depth function.name 0 function.params args) :
    audit.Leads before (audit.model.bindSlots function args location) fun after _ =>
      after.Agrees audit.facts (function.escapeScope audit.mode audit.facts) := by
  unfold Model.bindSlots
  apply (bindParams_leads function inCall agrees rfl settled passes).bind
  intro middle _ grown agrees
  unfold Model.bindResult
  rw [FunctionDef.escapeScope_eq_bind]
  cases function.result with
  | none => exact .pure agrees
  | some result =>
      obtain ⟨name, kind⟩ := result
      cases name with
      | none => exact .pure agrees
      | some name =>
          have zero : middle.Covers audit.facts
              (audit.facts.heldBy (.site (defaultSite function.name name))) (.zero kind) :=
            Storage.covers_of_nil (Value.pointees_zero kind)
          exact .bindSlot (grown.inCall.mp inCall) agrees zero (by cases kind <;> rfl)

/-! ### Results -/

theorem Evaluates.deliver {value : Value} (hasResult : scope.HasResult function)
    (fitting : value.kind = (function.result.map (·.kind)).getD .value)
    (lasting : before.Lasting value) :
    audit.Evaluates scope before (function.deliver location value) fun after result =>
      ∀ value, result = some value → after.Lasting value := by
  unfold FunctionDef.deliver
  split
  next => exact .pure fun _ same => Option.some.inj same ▸ lasting
  next name named =>
    obtain ⟨kind, found⟩ := FunctionDef.result_of_namedResult named
    apply (Evaluates.lookup name).bind
    rintro middle ref grown ⟨-, names⟩
    unfold Storage.Names at names
    rw [hasResult name kind found] at names
    have typed : middle.Typed ref value.kind := by
      intro _
      obtain ⟨slot, lives, same⟩ := names.lives
      refine ⟨slot, lives, ?_⟩
      rw [fitting, found]
      exact same
    apply (Evaluates.store_lasting names.tracks.lives typed (lasting.embeds grown.toEmbeds)).bind
    intro _ _ _ _
    apply Evaluates.pure
    rintro value ⟨⟩

/-- What a call hands back lasts: the content of a named result escapes. -/
theorem Leads.copyOut {returned : Option Value}
    (settled : Settled audit.facts function.escapeResult ())
    (finishes : before.Finishes audit.facts function)
    (lasting : ∀ value, returned = some value → before.Lasting value) :
    audit.Leads before (function.copyOut returned) fun after result =>
      ∀ value, result = some value → after.Lasting value := by
  unfold FunctionDef.copyOut
  split
  next => exact .pure lasting
  next name named =>
    obtain ⟨scope, agrees, hasResult⟩ := finishes
    obtain ⟨kind, found⟩ := FunctionDef.result_of_namedResult named
    let location : Location := ⟨function.name, function.body.length⟩
    have loaded : audit.Evaluates scope before (do
        let ref ← Run.lookup name location
        some <$> Run.load location ref) fun after result =>
          ∀ value, result = some value → after.Lasting value := by
      apply (Evaluates.lookup name).bind
      rintro _ ref _ ⟨-, names⟩
      unfold Storage.Names at names
      rw [hasResult name kind found] at names
      rw [map_eq_pure_bind]
      apply (Evaluates.load names.tracks).bind
      rintro after value _ ⟨covers, -⟩
      apply Evaluates.secured
      intro secure _
      apply Evaluates.pure
      rintro _ ⟨⟩
      apply secure.lasting_of_covers covers
      intro loc inside
      obtain ⟨holder, member, held⟩ := EscapeFacts.mem_contents.mp inside
      obtain rfl := List.mem_singleton.mp member
      exact FunctionDef.settled_escapeResult settled named held
    exact (loaded agrees).weaken fun _ result => result.2

/-- What lasts in a frame lasts after it. -/
theorem Leads.framed {callee : String} {callSite : Option Location} {run : Run (Option Value)}
    (inside : audit.Leads (before.pushFrame callee callSite) run fun after result =>
      ∀ value, result = some value → after.Lasting value) :
    audit.Leads before (Run.framed callee callSite run) fun after result =>
      after.current.bindings = before.current.bindings ∧
        ∀ value, result = some value → after.Lasting value := by
  rintro machine rfl secure
  have ended := inside { machine with storage := machine.storage.pushFrame callee callSite } rfl
    (secure.pushFrame callee callSite)
  simp only [Run.framed, Run.pushFrame, Run.popFrame, exec_bind, exec_modify, exec_pure]
  generalize exec run _ = last at ended
  cases ended with
  | overflow full =>
      refine .overflow fun fits => full ?_
      obtain ⟨result, after⟩ := last
      cases result with
      | error _ => exact fits
      | ok value =>
          have stackEnd := (Storage.heap_popFrame after.storage).2.1
          exact Nat.le_trans (Nat.le_of_eq stackEnd.symm) fits
  | left_open isOpen => exact .left_open isOpen
  | halted grounded secure => exact .halted grounded secure
  | @done result after secure grown lasting =>
      have called : after.storage.InCall := by
        rw [Storage.inCall_iff_depth, grown.calls_depth, Storage.calls_depth_pushFrame]
        exact Nat.succ_pos _
      obtain ⟨grown, bindings⟩ := Storage.grown_framed grown
      refine .done (secure.popFrame called) grown
        ⟨Storage.current_bindings_of_map bindings, fun value found target inside => ?_⟩
      exact Storage.outlives_popFrame.mpr (lasting value found target inside)

variable {evaluator : Evaluator} [evaluator.Stepwise] (calls : audit.Calls evaluator)

include calls

theorem Evaluates.returnValue {locs : List Loc} {value : Expr} {reason : EscapeReason}
    (hasResult : scope.HasResult function) (settled : Settled audit.facts (scope.addrs value) locs)
    (escapes : Settled audit.facts (escape locs reason) ()) :
    audit.Evaluates scope before (evaluator.returnValue function location value)
      fun after result => ∀ value, result = some value → after.Lasting value := by
  unfold Evaluator.returnValue
  apply (Evaluates.evaluateFor calls settled).bind
  intro _ value _ covers
  apply Evaluates.expectKind.bind
  intro after _ grown same
  apply Evaluates.secured
  intro secure _
  exact .deliver hasResult same (lasting_of_escape escapes secure (covers.grown grown))

/-! ### Bodies -/

theorem execute_leads {stmt : Stmt} (inCall : before.InCall)
    (agrees : before.Agrees audit.facts scope) (hasResult : scope.HasResult function)
    (named : scope.function = function.name)
    (settled : Settled audit.facts (scope.statement stmt) ()) :
    audit.Leads before (evaluator.execute function location stmt) fun after flow =>
      after.Agrees audit.facts (scope.afterStatement stmt) ∧
        ∀ value, flow = .returned (some value) → after.Lasting value := by
  have proceeds : ∀ {run : Run Flow}, audit.Evaluates scope before run (fun _ flow => flow = .next) →
      audit.Leads before run fun after flow => after.Agrees audit.facts scope ∧
        ∀ value, flow = .returned (some value) → after.Lasting value := by
    intro run evaluates
    apply (evaluates agrees).weaken
    rintro _ _ - ⟨agrees, rfl⟩
    refine ⟨agrees, ?_⟩
    rintro value ⟨⟩
  cases stmt with
  | declare decl =>
      rw [EscapeScope.afterStatement, Stmt.declared?]
      have holds : ∀ init, decl.init = some init → ∃ inner,
          Settled audit.facts (scope.addrs init) inner ∧
            inner ⊆ audit.facts.heldBy (.site (decl.siteId scope.function)) := by
        intro init initialised
        obtain ⟨inner, ofInit, held⟩ := EscapeScope.settled_declare settled initialised
        exact ⟨inner, ofInit, fun _ member => settled_hold held member⟩
      rw [Evaluator.execute, calls.model, ← named]
      apply (Evaluates.evaluateDecl calls holds agrees).bind
      rintro middle value grown ⟨agrees, covers, same⟩
      apply (Leads.bindSlot (grown.inCall.mp inCall) agrees covers same).bind
      intro _ _ _ agrees
      apply Leads.pure
      refine ⟨agrees, ?_⟩
      rintro value ⟨⟩
  | assign target value => exact proceeds (.assign calls settled function)
  | setField target name value => exact proceeds (.setField calls settled function)
  | store pointer value => exact proceeds (.storeThrough calls settled function)
  | setIndex target index value => exact proceeds (.setIndex calls settled function)
  | setKey target key value => exact proceeds (.setKey calls settled function)
  | append target values => exact proceeds (.appendTo calls settled function)
  | call callee args => exact proceeds (.callStatement calls settled function)
  | ret value =>
      cases value with
      | none =>
          rw [Evaluator.execute]
          apply Leads.pure
          refine ⟨agrees, ?_⟩
          rintro value ⟨⟩
      | some value =>
          rw [EscapeScope.statement, settled_bind] at settled
          obtain ⟨locs, ofValue, escapes⟩ := settled
          rw [Evaluator.execute, map_eq_pure_bind]
          apply (Evaluates.returnValue calls hasResult ofValue escapes agrees).bind
          rintro after result - ⟨agrees, lasting⟩
          apply Leads.pure
          refine ⟨agrees, ?_⟩
          rintro value ⟨⟩
          exact lasting value rfl

theorem executeFrom_leads {stmts : List Stmt} :
    ∀ {before : Storage} {scope : EscapeScope} (index : Nat), before.InCall →
      before.Agrees audit.facts scope → scope.HasResult function →
        scope.function = function.name → Settled audit.facts (scope.body stmts) () →
          (∀ result, function.namedResult = some result →
            ∀ stmt ∈ stmts, ∀ decl, stmt.declared? = some decl → decl.name ≠ result) →
              audit.Leads before (evaluator.executeFrom function index stmts)
                fun after result => after.Finishes audit.facts function ∧
                  ∀ value, result = some value → after.Lasting value := by
  induction stmts with
  | nil =>
      intro before scope index _ agrees hasResult _ _ _
      rw [Evaluator.executeFrom]
      exact .pure ⟨⟨scope, agrees, hasResult⟩, nofun⟩
  | cons stmt stmts inductionHypothesis =>
      intro before scope index inCall agrees hasResult named settled single
      rw [EscapeScope.body, settled_bind] at settled
      obtain ⟨_, here, rest⟩ := settled
      rw [Evaluator.executeFrom]
      apply Leads.checkpoint.bind
      rintro _ _ - rfl
      apply (execute_leads calls inCall agrees hasResult named here).bind
      rintro middle flow grown ⟨agrees, lasting⟩
      have hasResult := hasResult.afterStatement fun result found =>
        single result found stmt (List.mem_cons_self ..)
      cases flow with
      | next =>
          apply inductionHypothesis (index + 1) (grown.inCall.mp inCall) agrees hasResult
            ((scope.function_afterStatement stmt).trans named) rest
          intro result found later member
          exact single result found later (List.mem_cons_of_mem _ member)
      | returned value =>
          refine .pure ⟨⟨_, agrees, hasResult⟩, ?_⟩
          rintro value rfl
          exact lasting value rfl

/-! ### Calls -/

/-- The inside of a call; what is observed at the end of the body leaves its bindings. -/
theorem inside_leads {name : String} {args : List Value} {callSite : Option Location}
    {observe : Run Unit} [Stepwise observe]
    (found : audit.model.function? name = some function)
    (passes : before.PassesAll audit.facts (before.calls.depth + 1) name 0 function.params args)
    (observed : ∀ {after : Storage}, audit.Leads after observe fun later _ =>
      later.current.bindings = after.current.bindings) :
    audit.Leads (before.pushFrame function.name callSite)
      (evaluator.inside function args location observe) fun after result =>
        ∀ value, result = some value → after.Lasting value := by
  obtain rfl := Model.name_of_function? found
  have settled := audit.settled found
  unfold FunctionDef.escapeRules at settled
  obtain ⟨_, ofParams, settled⟩ := settled_bind.mp settled
  obtain ⟨_, ofResult, ofBody⟩ := settled_bind.mp settled
  have inCall : (before.pushFrame function.name callSite).InCall := by
    rw [Storage.inCall_iff_depth, Storage.calls_depth_pushFrame]
    exact Nat.succ_pos _
  have agrees := before.agrees_pushFrame audit.facts audit.mode function.name callSite
  have passes := passes.embeds (before.embeds_pushFrame function.name callSite)
  rw [← before.calls_depth_pushFrame function.name callSite] at passes
  have opened : audit.Leads (before.pushFrame function.name callSite)
      (audit.model.open function args location) fun after _ =>
        after.Agrees audit.facts (function.escapeScope audit.mode audit.facts) := by
    unfold Model.open
    apply (Leads.silent (Run.silent_transition _ _)).bind
    rintro _ _ - rfl
    apply (Leads.bindSlots inCall agrees ofParams passes).bind
    intro _ _ _ agrees
    apply (Leads.silent (Run.silent_transition _ _)).weaken
    rintro _ _ - rfl
    exact agrees
  unfold Evaluator.inside
  rw [calls.model]
  apply opened.bind
  intro middle _ grown agrees
  apply (executeFrom_leads calls 0 (grown.inCall.mp inCall) agrees
    (function.escapeScope_hasResult _ _) (function.function_escapeScope _ _) ofBody
    (audit.single found)).bind
  rintro after returned _ ⟨⟨scope, agrees, hasResult⟩, lasting⟩
  apply observed.bind
  intro later _ grown bindings
  unfold FunctionDef.close
  apply (Leads.silent (Run.silent_transition _ _)).bind
  rintro _ _ - rfl
  apply Leads.copyOut ofResult ⟨scope, agrees.grown grown bindings, hasResult⟩
  intro value found
  exact (lasting value found).embeds grown.toEmbeds

theorem perform_leads {name : String} {args : List Value} {callSite : Location}
    (found : audit.model.function? name = some function)
    (passes : before.PassesAll audit.facts (before.calls.depth + 1) name 0 function.params args) :
    audit.Leads before (evaluator.perform function args callSite) fun after result =>
      after.current.bindings = before.current.bindings ∧
        ∀ value, result = some value → after.Lasting value := by
  rw [Evaluator.perform_eq]
  apply (Leads.framed (inside_leads calls found passes (.pure rfl))).bind
  intro after result _ kept
  apply (Leads.silent (Run.silent_transition _ _)).bind
  rintro _ _ - rfl
  exact .pure kept

omit calls [evaluator.Stepwise] in
/-- Calls keep to the rules at every depth of nesting. -/
theorem invoke_calls (audit : Audit) (depth : Nat) :
    audit.Calls ⟨audit.model, audit.model.invoke depth⟩ := by
  induction depth with
  | zero => exact ⟨rfl, fun _ _ => .throw trivial⟩
  | succ depth inductionHypothesis =>
      exact ⟨rfl, fun found passes => perform_leads inductionHypothesis found passes⟩

end Audit

end ReferenceSemantics
