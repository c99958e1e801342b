import ReferenceSemantics.Proofs.Run.Simulation.Evaluation

set_option autoImplicit false

/-!
Statements, bodies and calls in a simulation.

A call runs in a frame of its own: what it hands back stays linked after the frame is popped.
-/

namespace ReferenceSemantics

namespace Simulation

variable {sim : Simulation} {world : sim.World} {location : Location}

/-- The same continuation, with linked results. -/
inductive Flows (sim : Simulation) (world : sim.World) : Flow → Flow → Prop where
  | next : Flows sim world .next .next
  | returned {value value' : Option Value} (linked : Option.Rel (sim.values world) value value') :
      Flows sim world (.returned value) (.returned value')

/-- Linked results of calls. -/
def results (sim : Simulation) (world : sim.World) : Option Value → Option Value → Prop :=
  Option.Rel (sim.values world)

theorem results_mono {before after : sim.World} {result result' : Option Value}
    (kept : (sim.links before).Le (sim.links after))
    (linked : sim.results before result result') : sim.results after result result' := by
  cases linked with
  | none => exact .none
  | some linked => exact .some (linked.mono kept)

/-! ### Slots of a function -/

theorem Agree.bindSlot (inCall : sim.InCall world) (name : String) (kind : Kind) (site : SiteId)
    {value value' : Value} (linked : sim.values world value value') :
    sim.Agree world (sim.left.bind name kind site value) (sim.right.bind name kind site value')
      (fun _ _ _ => True) := by
  unfold Model.bind
  have declared : sim.Agree world
      (Run.allocate (·.declare name kind (some site) (sim.left.placement site) value))
      (Run.allocate (·.declare name kind (some site) (sim.right.placement site) value'))
      (fun _ _ _ => True) := by
    refine .allocate fun related fits => ?_
    obtain ⟨next, grown, storages⟩ :=
      sim.declare name kind site inCall related linked fits
    exact ⟨next, grown, storages, trivial⟩
  exact declared.bind fun _ _ => .silent (Run.silent_record _) (Run.silent_record _)

theorem bindParams_agrees {world : sim.World} (inCall : sim.InCall world) (function : String) :
    ∀ {params : List Param} {args args' : List Value},
      List.Forall₂ (sim.values world) args args' →
        sim.Agree world (sim.left.bindParams function location params args)
          (sim.right.bindParams function location params args') (fun _ _ _ => True)
  | [], _, _, _ => by
      simp only [Model.bindParams]
      exact .pure trivial
  | _ :: _, _, _, .nil => by
      simp only [Model.bindParams]
      exact .pure trivial
  | param :: params, _, _, .cons linked rest => by
      rw [Model.bindParams, Model.bindParams]
      refine (Agree.expectKind param.kind linked).bind fun grown _ => ?_
      refine (Agree.bindSlot ((sim.inCall_mono grown).mp inCall) _ _ _
        (values_mono grown linked)).bind fun grown' _ => ?_
      exact bindParams_agrees ((sim.inCall_mono (sim.le_trans grown grown')).mp inCall) function
        (list_mono grown' (list_mono grown rest))

theorem Agree.bindResult (inCall : sim.InCall world) (function : FunctionDef) :
    sim.Agree world (sim.left.bindResult function) (sim.right.bindResult function)
      (fun _ _ _ => True) := by
  unfold Model.bindResult
  split
  · exact .bindSlot inCall _ _ _ (.zero _)
  · exact .pure trivial

theorem Agree.bindSlots (inCall : sim.InCall world) (function : FunctionDef)
    {args args' : List Value} (linked : List.Forall₂ (sim.values world) args args') :
    sim.Agree world (sim.left.bindSlots function args location)
      (sim.right.bindSlots function args' location) (fun _ _ _ => True) := by
  unfold Model.bindSlots
  exact (bindParams_agrees inCall function.name linked).bind fun grown _ =>
    .bindResult ((sim.inCall_mono grown).mp inCall) function

theorem Agree.copyOut (function : FunctionDef) {returned returned' : Option Value}
    (linked : sim.results world returned returned') :
    sim.Agree world (function.copyOut returned) (function.copyOut returned') sim.results := by
  unfold FunctionDef.copyOut
  split
  · exact .pure linked
  · refine (Agree.lookup _).bind fun _ refs => ?_
    exact (Agree.load refs).map fun _ loaded => .some loaded

theorem Agree.deliver (function : FunctionDef) {value value' : Value}
    (linked : sim.values world value value') :
    sim.Agree world (function.deliver location value) (function.deliver location value')
      sim.results := by
  unfold FunctionDef.deliver
  split
  · exact .pure (.some linked)
  · refine (Agree.lookup _).bind fun grown refs => ?_
    exact (Agree.store refs (values_mono grown linked)).bind fun _ _ => .pure .none

theorem Agree.checkpoint :
    sim.Agree world (Run.checkpoint location) (Run.checkpoint location) (fun _ _ _ => True) := by
  intro machine machine' related
  have abort := related.abort
  have ticked : sim.Related world { machine with abort := machine.abort.tick }
      { machine' with abort := machine'.abort.tick } :=
    ⟨related.storages, congrArg AbortSignal.tick abort, related.finals⟩
  simp only [Run.checkpoint, Run.exec_bind, Run.exec_modify, Run.exec_get, ← abort]
  rw [← abort] at ticked
  split
  · exact .halted world trivial ticked
  · exact .done world (sim.le_refl world)
      ⟨ticked.storages, ticked.abort, ticked.finals⟩ trivial

/-! ### Statements -/

/-- Linked operands of an append. -/
structure Operands (sim : Simulation) (world : sim.World) (operands operands' : AppendOperands) :
    Prop where
  ref : sim.refs world operands.ref operands'.ref
  header : sim.values world operands.header operands'.header
  values : List.Forall₂ (sim.values world) operands.values operands'.values

variable {evaluator evaluator' : Evaluator} [evaluator.Stepwise]
  (calls : sim.Calls evaluator evaluator') (location)

include calls

theorem evaluateFor_agrees (kind : Kind) (expr : Expr) :
    sim.Agree world (evaluator.evaluateFor location kind expr)
      (evaluator'.evaluateFor location kind expr) sim.values :=
  .flowInto (evaluate_agrees location calls expr)

theorem evaluateDecl_agrees (decl : VarDecl) :
    sim.Agree world (evaluator.evaluateDecl location decl)
      (evaluator'.evaluateDecl location decl) sim.values := by
  have checked : ∀ {later : sim.World} {value value' : Value}, sim.values later value value' →
      sim.Agree later (do Run.expectKind location decl.kind value; return value)
        (do Run.expectKind location decl.kind value'; return value') sim.values :=
    fun linked => (Agree.expectKind decl.kind linked).bind fun grown _ =>
      .pure (values_mono grown linked)
  unfold Evaluator.evaluateDecl
  cases decl.init with
  | none => exact checked (.zero _)
  | some init =>
      exact (evaluateFor_agrees location calls decl.kind init).bind fun _ linked => checked linked

theorem call_agrees (callee : String) (args : List Expr) :
    sim.Agree world (evaluator.call location callee args)
      (evaluator'.call location callee args) sim.results := by
  unfold Evaluator.call
  refine (Agree.function' location calls callee).bind fun _ same => ?_
  subst same
  refine (Agree.checkArgumentCount _ _).bind fun _ _ => ?_
  refine (evaluateArgs_agrees location calls _ args).bind fun _ linked => ?_
  exact calls.invoke _ location linked

theorem overwrite_agrees {ref ref' : SlotRef} (kind : Kind) (value : Expr)
    (linked : sim.refs world ref ref') :
    sim.Agree world (evaluator.overwrite location ref kind value)
      (evaluator'.overwrite location ref' kind value) (fun _ _ _ => True) := by
  unfold Evaluator.overwrite
  refine (evaluateFor_agrees location calls kind value).bind fun grown new => ?_
  refine (Agree.expectKind kind new).bind fun grown' _ => ?_
  exact .store (refs_mono grown' (refs_mono grown linked)) (values_mono grown' new)

theorem evaluateElement_agrees (kind : Option Kind) (expr : Expr) :
    sim.Agree world (evaluator.evaluateElement location kind expr)
      (evaluator'.evaluateElement location kind expr) sim.values := by
  cases kind with
  | none => exact evaluate_agrees location calls expr
  | some kind => exact evaluateFor_agrees location calls kind expr

theorem evaluateElements_agrees (kind : Option Kind) {world : sim.World} (exprs : List Expr) :
    sim.Agree world (evaluator.evaluateElements location kind exprs)
      (evaluator'.evaluateElements location kind exprs)
      (fun later => List.Forall₂ (sim.values later)) := by
  induction exprs generalizing world with
  | nil =>
      rw [Evaluator.evaluateElements, Evaluator.evaluateElements]
      exact .pure .nil
  | cons expr exprs inductionHypothesis =>
      rw [Evaluator.evaluateElements, Evaluator.evaluateElements]
      refine (evaluateElement_agrees location calls kind expr).bind fun _ linked => ?_
      exact inductionHypothesis.bind fun grown rest =>
        .pure (.cons (values_mono grown linked) rest)

theorem appendOperands_agrees (target : Place) (values : List Expr) :
    sim.Agree world (evaluator.appendOperands location target values)
      (evaluator'.appendOperands location target values) sim.Operands := by
  unfold Evaluator.appendOperands
  refine (placeRef_agrees location calls target).bind fun _ refs => ?_
  refine (Agree.load refs).bind fun grown header => ?_
  refine (Agree.elementKind header).bind fun grown' same => ?_
  subst same
  refine (evaluateElements_agrees location calls _ values).bind fun grown'' new => .pure ?_
  have toRead := sim.le_trans grown (sim.le_trans grown' grown'')
  exact ⟨refs_mono toRead refs, values_mono grown'' (values_mono grown' header), new⟩

theorem append_agrees (target : Place) (values : List Expr) :
    sim.Agree world (evaluator.append location target values)
      (evaluator'.append location target values) (fun _ _ _ => True) := by
  unfold Evaluator.append
  refine (appendOperands_agrees location calls target values).bind fun _ operands => ?_
  refine (Agree.append operands.header operands.values).bind fun grown result => ?_
  refine (Agree.silent (Run.silent_recordMove _ _) (Run.silent_recordMove _ _)).bind
    fun grown' _ => ?_
  exact .store (refs_mono (sim.le_trans grown grown') operands.ref) (values_mono grown' result)

theorem returnValue_agrees (function : FunctionDef) (value : Expr) :
    sim.Agree world (evaluator.returnValue function location value)
      (evaluator'.returnValue function location value) sim.results := by
  unfold Evaluator.returnValue
  refine (evaluateFor_agrees location calls _ value).bind fun _ new => ?_
  exact (Agree.expectKind _ new).bind fun grown _ => .deliver function (values_mono grown new)

theorem execute_agrees (inCall : sim.InCall world) (function : FunctionDef) (stmt : Stmt) :
    sim.Agree world (evaluator.execute function location stmt)
      (evaluator'.execute function location stmt) sim.Flows := by
  cases stmt with
  | declare decl =>
      rw [Evaluator.execute, Evaluator.execute, calls.left, calls.right]
      refine (evaluateDecl_agrees location calls decl).bind fun grown linked => ?_
      exact (Agree.bindSlot ((sim.inCall_mono grown).mp inCall) _ _ _ linked).bind
        fun _ _ => .pure .next
  | assign target value =>
      rw [Evaluator.execute, Evaluator.execute]
      refine (Agree.lookup target).bind fun _ refs => ?_
      have slots : sim.Agree _ (Run.read location (·.slot _)) (Run.read location (·.slot _))
          (fun later => (sim.links later).Slots) := .read fun related => .slot related refs.2
      refine slots.bind fun grown same => ?_
      rw [same.1]
      exact (overwrite_agrees location calls _ value (refs_mono grown refs)).bind
        fun _ _ => .pure .next
  | setField target name value =>
      rw [Evaluator.execute, Evaluator.execute]
      refine (placeRef_agrees location calls target).bind fun _ base => ?_
      refine (Agree.fieldRef name base).bind fun _ refs => ?_
      refine (Agree.load refs).bind fun grown old => ?_
      rw [old.kind]
      exact (overwrite_agrees location calls _ value (refs_mono grown refs)).bind
        fun _ _ => .pure .next
  | store pointer value =>
      rw [Evaluator.execute, Evaluator.execute]
      refine (evaluate_agrees location calls pointer).bind fun _ linked => ?_
      refine (Agree.dereference linked).bind fun _ refs => ?_
      refine (Agree.load refs).bind fun grown old => ?_
      rw [old.kind]
      exact (overwrite_agrees location calls _ value (refs_mono grown refs)).bind
        fun _ _ => .pure .next
  | setIndex target index value =>
      rw [Evaluator.execute, Evaluator.execute]
      refine (placeRef_agrees location calls target).bind fun _ refs => ?_
      refine (Agree.load refs).bind fun _ header => ?_
      refine (evaluate_agrees location calls index).bind fun grown linked => ?_
      refine (Agree.asInt linked).bind fun grown' same => ?_
      subst same
      have header' := values_mono grown' (values_mono grown header)
      refine (Agree.element header').bind fun grown old => ?_
      rw [old.kind]
      refine (evaluateFor_agrees location calls _ value).bind fun grown' new => ?_
      exact (Agree.setElement (values_mono grown' (values_mono grown header')) new).bind
        fun _ _ => .pure .next
  | setKey target key value =>
      rw [Evaluator.execute, Evaluator.execute]
      refine (placeRef_agrees location calls target).bind fun _ refs => ?_
      refine (Agree.load refs).bind fun _ header => ?_
      refine (evaluate_agrees location calls key).bind fun grown keys => ?_
      refine (Agree.tableValueKind (values_mono grown header) keys).bind fun grown' same => ?_
      subst same
      refine (evaluateElement_agrees location calls _ value).bind fun grown'' new => ?_
      have later := sim.le_trans grown' grown''
      exact (Agree.tableInsert (values_mono (sim.le_trans grown later) header)
        (values_mono later keys) new).bind fun _ _ => .pure .next
  | append target values =>
      rw [Evaluator.execute, Evaluator.execute]
      exact (append_agrees location calls target values).bind fun _ _ => .pure .next
  | call callee args =>
      rw [Evaluator.execute, Evaluator.execute]
      exact (call_agrees location calls callee args).bind fun _ _ => .pure .next
  | ret value =>
      cases value with
      | none =>
          rw [Evaluator.execute, Evaluator.execute]
          exact .pure (.returned .none)
      | some value =>
          rw [Evaluator.execute, Evaluator.execute]
          exact (returnValue_agrees location calls function value).map
            fun _ linked => .returned linked

omit location in
theorem executeFrom_agrees {world : sim.World} (inCall : sim.InCall world)
    (function : FunctionDef) (index : Nat) (stmts : List Stmt) :
    sim.Agree world (evaluator.executeFrom function index stmts)
      (evaluator'.executeFrom function index stmts) sim.results := by
  induction stmts generalizing world index with
  | nil =>
      rw [Evaluator.executeFrom, Evaluator.executeFrom]
      exact .pure .none
  | cons stmt stmts inductionHypothesis =>
      rw [Evaluator.executeFrom, Evaluator.executeFrom]
      refine Agree.checkpoint.bind fun grown _ => ?_
      have inCall' := (sim.inCall_mono grown).mp inCall
      refine (execute_agrees _ calls inCall' function stmt).bind fun grown' flows => ?_
      cases flows with
      | returned linked => exact .pure linked
      | next =>
          exact inductionHypothesis ((sim.inCall_mono grown').mp inCall') (index + 1)

end Simulation

end ReferenceSemantics
