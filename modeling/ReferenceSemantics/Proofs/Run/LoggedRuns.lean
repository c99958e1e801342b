import ReferenceSemantics.Proofs.Run.Logging
import ReferenceSemantics.Proofs.Run.Nesting

set_option autoImplicit false

/-!
The log of a whole run.

An evaluator that knows the sites of the functions logs what is so. A global gets its slot in the
root frame, as no call is on the stack when its initial value is there.
-/

namespace ReferenceSemantics

open Run

/-! ### Functions -/

/-- The calls of an evaluator log what is so. -/
class Evaluator.Truthful (evaluator : Evaluator) : Prop where
  invoke : ∀ function ∈ evaluator.model.functions, ∀ args callSite,
    Run.Truthful evaluator.model (evaluator.invoke function args callSite)

namespace Evaluator

variable (evaluator : Evaluator) [evaluator.Stepwise] [calls : evaluator.Truthful]
  (location : Location)

-- Some members of the block need the calls only through other members, which the linter misses.
set_option linter.unusedSectionVars false

mutual

theorem placeRef_truthful : ∀ place : Place, evaluator.model.KnowsAll place.parts →
    Run.Truthful evaluator.model (evaluator.placeRef location place)
  | .var name, _ => by
      rw [placeRef]
      infer_instance
  | .field base name, known => by
      rw [Place.parts] at known
      have := placeRef_truthful base known
      rw [placeRef]
      infer_instance
  | .deref pointer, known => by
      rw [Place.parts] at known
      have := evaluate_truthful pointer known
      rw [placeRef]
      infer_instance

theorem evaluate_truthful : ∀ expr : Expr, evaluator.model.KnowsAll expr.parts →
    Run.Truthful evaluator.model (evaluator.evaluate location expr)
  | .lit _, _ | .nil, _ | .var _, _ => by
      rw [evaluate]
      infer_instance
  | .field base _, known | .len base, known | .cap base, known | .reslice base _ _, known
  | .boxed _ base, known | .isNil base, known | .deref base, known => by
      rw [Expr.parts] at known
      have := evaluate_truthful base known.tail
      rw [evaluate]
      infer_instance
  | .addrOf place, known => by
      rw [Expr.parts] at known
      have := placeRef_truthful place known.tail
      rw [evaluate]
      infer_instance
  | .new init site, known => by
      rw [Expr.parts] at known
      have := evaluate_truthful init known.tail
      have (value : Value) : Run.Truthful evaluator.model (evaluator.allocateNew site value) :=
        Truthful.allocateNew_known (known _ (List.mem_cons_self ..) site rfl) value
      rw [evaluate]
      infer_instance
  | .composite _ fields, known => by
      rw [Expr.parts] at known
      have := evaluateFields_truthful fields known.tail
      rw [evaluate]
      infer_instance
  | .sliceLit elems _, known => by
      rw [Expr.parts] at known
      have := evaluateAll_truthful elems known.tail
      rw [evaluate]
      infer_instance
  | .makeSlice _ _ zero, known => by
      rw [Expr.parts] at known
      have := evaluate_truthful zero known.tail
      rw [evaluate]
      infer_instance
  | .mapLit entries, known => by
      rw [Expr.parts] at known
      have := evaluateEntries_truthful entries known.tail
      rw [evaluate]
      infer_instance
  | .index base position, known => by
      rw [Expr.parts] at known
      have := evaluate_truthful base known.tail.left
      have := evaluate_truthful position known.tail.right
      rw [evaluate]
      infer_instance
  | .lookup base key default, known => by
      rw [Expr.parts] at known
      have := evaluate_truthful base known.tail.left.left
      have := evaluate_truthful key known.tail.left.right
      have := evaluate_truthful default known.tail.right
      rw [evaluate]
      infer_instance
  | .call callee args, known => by
      rw [Expr.parts] at known
      have (params : List Param) := evaluateArgs_truthful params args known.tail
      rw [evaluate]
      refine Truthful.function_bind fun function member => ?_
      have := calls.invoke function member
      infer_instance

theorem evaluateAll_truthful : ∀ exprs : List Expr, evaluator.model.KnowsAll (partsOfExprs exprs) →
    Run.Truthful evaluator.model (evaluator.evaluateAll location exprs)
  | [], _ => by
      rw [evaluateAll]
      infer_instance
  | expr :: exprs, known => by
      rw [partsOfExprs] at known
      have := evaluate_truthful expr known.left
      have := evaluateAll_truthful exprs known.right
      rw [evaluateAll]
      infer_instance

theorem evaluateFields_truthful : ∀ fields : List (String × Expr),
    evaluator.model.KnowsAll (partsOfFields fields) →
      Run.Truthful evaluator.model (evaluator.evaluateFields location fields)
  | [], _ => by
      rw [evaluateFields]
      infer_instance
  | (_, expr) :: fields, known => by
      rw [partsOfFields] at known
      have := evaluate_truthful expr known.left
      have := evaluateFields_truthful fields known.right
      rw [evaluateFields]
      infer_instance

theorem evaluateEntries_truthful : ∀ entries : List (Expr × Expr),
    evaluator.model.KnowsAll (partsOfEntries entries) →
      Run.Truthful evaluator.model (evaluator.evaluateEntries location entries)
  | [], _ => by
      rw [evaluateEntries]
      infer_instance
  | (key, value) :: entries, known => by
      rw [partsOfEntries] at known
      have := evaluate_truthful key known.left.left
      have := evaluate_truthful value known.left.right
      have := evaluateEntries_truthful entries known.right
      rw [evaluateEntries]
      infer_instance

theorem evaluateArgs_truthful : ∀ (params : List Param) (args : List Expr),
    evaluator.model.KnowsAll (partsOfExprs args) →
      Run.Truthful evaluator.model (evaluator.evaluateArgs location params args)
  | param :: params, arg :: args, known => by
      rw [partsOfExprs] at known
      have := evaluate_truthful arg known.left
      have := evaluateArgs_truthful params args known.right
      rw [evaluateArgs]
      infer_instance
  | [], _, _ | _ :: _, [], _ => by
      simp only [evaluateArgs]
      infer_instance

end

theorem evaluateFor_truthful (kind : Kind) {expr : Expr}
    (known : evaluator.model.KnowsAll expr.parts) :
    Run.Truthful evaluator.model (evaluator.evaluateFor location kind expr) := by
  have := evaluate_truthful evaluator location expr known
  unfold evaluateFor
  infer_instance

theorem evaluateDecl_truthful {decl : VarDecl} (known : evaluator.model.KnowsAll decl.parts) :
    Run.Truthful evaluator.model (evaluator.evaluateDecl location decl) := by
  unfold evaluateDecl
  unfold VarDecl.parts at known
  dsimp only
  split
  next init initial =>
    rw [initial] at known
    have := evaluator.evaluateFor_truthful location decl.kind known
    infer_instance
  next => infer_instance

theorem call_truthful (callee : String) {args : List Expr}
    (known : evaluator.model.KnowsAll (partsOfExprs args)) :
    Run.Truthful evaluator.model (evaluator.call location callee args) := by
  have (params : List Param) := evaluateArgs_truthful evaluator location params args known
  unfold call
  refine Truthful.function_bind fun function member => ?_
  have := calls.invoke function member
  infer_instance

theorem overwrite_truthful (ref : SlotRef) (kind : Kind) {value : Expr}
    (known : evaluator.model.KnowsAll value.parts) :
    Run.Truthful evaluator.model (evaluator.overwrite location ref kind value) := by
  have := evaluator.evaluateFor_truthful location kind known
  unfold overwrite
  infer_instance

theorem evaluateElement_truthful (kind : Option Kind) {expr : Expr}
    (known : evaluator.model.KnowsAll expr.parts) :
    Run.Truthful evaluator.model (evaluator.evaluateElement location kind expr) := by
  unfold evaluateElement
  split
  · exact evaluator.evaluateFor_truthful location _ known
  · exact evaluate_truthful evaluator location expr known

theorem evaluateElements_truthful (kind : Option Kind) : ∀ {exprs : List Expr},
    evaluator.model.KnowsAll (partsOfExprs exprs) →
      Run.Truthful evaluator.model (evaluator.evaluateElements location kind exprs)
  | [], _ => by
      rw [evaluateElements]
      infer_instance
  | expr :: exprs, known => by
      rw [partsOfExprs] at known
      have := evaluator.evaluateElement_truthful location kind known.left
      have := evaluateElements_truthful kind known.right
      rw [evaluateElements]
      infer_instance

theorem append_truthful {target : Place} {values : List Expr}
    (known : evaluator.model.KnowsAll (target.parts ++ partsOfExprs values)) :
    Run.Truthful evaluator.model (evaluator.append location target values) := by
  have operands : Run.Truthful evaluator.model
      (evaluator.appendOperands location target values) := by
    have := placeRef_truthful evaluator location target known.left
    have (kind : Option Kind) :=
      evaluator.evaluateElements_truthful location kind known.right
    unfold appendOperands
    infer_instance
  have grown (operands : AppendOperands) : Run.Truthful evaluator.model (do
      let moved ← update location (·.append operands.header operands.values)
      recordMove operands.header moved
      store location operands.ref moved) := by
    have logged : Run.Truthful evaluator.model (do
        let moved ← update location (·.append operands.header operands.values)
        recordMove operands.header moved
        return moved) :=
      .grow location operands.header operands.values
    have stored : Run.Truthful evaluator.model (do
        let moved ← (do
          let moved ← update location (·.append operands.header operands.values)
          recordMove operands.header moved
          return moved)
        store location operands.ref moved) := inferInstance
    simpa only [bind_assoc, pure_bind] using stored
  unfold append
  infer_instance

theorem returnValue_truthful (function : FunctionDef) {value : Expr}
    (known : evaluator.model.KnowsAll value.parts) :
    Run.Truthful evaluator.model (evaluator.returnValue function location value) := by
  have (kind : Kind) := evaluator.evaluateFor_truthful location kind known
  unfold returnValue
  infer_instance

theorem execute_truthful (function : FunctionDef) (stmt : Stmt)
    (known : ∀ site ∈ stmt.sites function.name, evaluator.model.Knows site) :
    Run.Truthful evaluator.model (evaluator.execute function location stmt) := by
  have parts : evaluator.model.KnowsAll stmt.parts := by
    intro part inside site creates
    exact known site (List.mem_append_right _ (List.mem_filterMap.mpr ⟨part, inside, creates⟩))
  cases stmt with
  | declare decl =>
      have := evaluator.evaluateDecl_truthful location parts
      have declared : decl.siteId function.name ∈ (Stmt.declare decl).sites function.name :=
        List.mem_append_left _ (List.mem_singleton.mpr rfl)
      have := Truthful.bind_known (known _ declared) decl.name decl.kind
      rw [execute]
      infer_instance
  | assign target value =>
      have (ref : SlotRef) (kind : Kind) := evaluator.overwrite_truthful location ref kind parts
      rw [execute]
      infer_instance
  | setField target name value =>
      rw [Stmt.parts] at parts
      have := placeRef_truthful evaluator location target parts.left
      have (ref : SlotRef) (kind : Kind) :=
        evaluator.overwrite_truthful location ref kind parts.right
      rw [execute]
      infer_instance
  | store pointer value =>
      rw [Stmt.parts] at parts
      have := evaluate_truthful evaluator location pointer parts.left
      have (ref : SlotRef) (kind : Kind) :=
        evaluator.overwrite_truthful location ref kind parts.right
      rw [execute]
      infer_instance
  | setIndex target position value =>
      rw [Stmt.parts] at parts
      have := evaluate_truthful evaluator location position parts.left.right
      have (kind : Kind) := evaluator.evaluateFor_truthful location kind parts.right
      rw [execute]
      refine (placeRef_truthful evaluator location target parts.left.left).bind fun ref => ?_
      refine Run.Truthful.bind inferInstance fun header => ?_
      infer_instance
  | setKey target key value =>
      rw [Stmt.parts] at parts
      have := evaluate_truthful evaluator location key parts.left.right
      have (kind : Option Kind) := evaluator.evaluateElement_truthful location kind parts.right
      rw [execute]
      refine (placeRef_truthful evaluator location target parts.left.left).bind fun ref => ?_
      infer_instance
  | append target values =>
      have := evaluator.append_truthful location parts
      rw [execute]
      infer_instance
  | call callee args =>
      have := evaluator.call_truthful location callee parts
      rw [execute]
      infer_instance
  | ret value =>
      cases value with
      | none =>
          rw [execute]
          infer_instance
      | some value =>
          have := evaluator.returnValue_truthful location function parts
          rw [execute]
          infer_instance

theorem executeFrom_truthful (function : FunctionDef) (stmts : List Stmt) : ∀ index : Nat,
    (∀ stmt ∈ stmts, ∀ site ∈ stmt.sites function.name, evaluator.model.Knows site) →
      Run.Truthful evaluator.model (evaluator.executeFrom function index stmts) := by
  induction stmts with
  | nil =>
      intro index _
      rw [executeFrom]
      infer_instance
  | cons stmt stmts inductionHypothesis =>
      intro index known
      obtain ⟨here, later⟩ := List.forall_mem_cons.mp known
      have := evaluator.execute_truthful ⟨function.name, index⟩ function stmt here
      have rest := inductionHypothesis (index + 1) later
      have (flow : Flow) : Run.Truthful evaluator.model
          (flow.resume (evaluator.executeFrom function (index + 1) stmts)) := by
        cases flow with
        | next => exact rest
        | returned value => exact inferInstanceAs (Run.Truthful evaluator.model (pure value))
      rw [executeFrom]
      infer_instance

theorem executeBody_truthful (function : FunctionDef)
    (known : ∀ site ∈ function.sites, evaluator.model.Knows site) :
    Run.Truthful evaluator.model (evaluator.executeBody function) := by
  refine evaluator.executeFrom_truthful function function.body 0 fun stmt member site inStmt => ?_
  exact known site (List.mem_append_right _ (List.mem_flatMap.mpr ⟨stmt, member, inStmt⟩))

end Evaluator

namespace Model

variable {model : Model} {function : FunctionDef}

theorem bindParams_truthful (location : Location) :
    ∀ {params : List Param}, (∀ param ∈ params, model.Knows (defaultSite function.name param.name)) →
      ∀ args : List Value,
        Truthful model (model.bindParams function.name location params args)
  | param :: params, known, arg :: args => by
      obtain ⟨here, rest⟩ := List.forall_mem_cons.mp known
      have := Truthful.bind_known here param.name param.kind
      have := bindParams_truthful location rest args
      rw [bindParams]
      infer_instance
  | [], _, _ | _ :: _, _, [] => by
      simp only [bindParams]
      infer_instance

theorem bindResult_truthful
    (known : ∀ site ∈ function.sites, model.Knows site) :
    Truthful model (model.bindResult function) := by
  unfold bindResult
  split
  next name kind declared =>
    refine Truthful.bind_known (known _ ?_) name kind _
    apply List.mem_append_left
    apply List.mem_map_of_mem
    apply List.mem_append_right
    simp [FunctionDef.namedResult, declared]
  next => infer_instance

theorem enter_truthful (known : ∀ site ∈ function.sites, model.Knows site) (args : List Value)
    (callSite : Option Location) : Truthful model (model.enter function args callSite) := by
  have params (location : Location) :
      Truthful model (model.bindParams function.name location function.params args) := by
    refine bindParams_truthful location (fun param member => known _ ?_) args
    apply List.mem_append_left
    apply List.mem_map_of_mem
    exact List.mem_append_left _ (List.mem_map_of_mem member)
  have := bindResult_truthful known
  unfold enter bindSlots
  infer_instance

/-- The sites of the functions are known. -/
def KnowsFunctions (model : Model) : Prop :=
  ∀ function ∈ model.functions, ∀ site ∈ function.sites, model.Knows site

theorem invoke_truthful (known : model.KnowsFunctions) (depth : Nat) :
    Evaluator.Truthful ⟨model, model.invoke depth⟩ := by
  induction depth with
  | zero =>
      exact ⟨fun _ _ _ _ =>
        inferInstanceAs (Truthful model (throw .callDepthExceeded : Run (Option Value)))⟩
  | succ depth inductionHypothesis =>
      refine ⟨fun function member args callSite => ?_⟩
      have sites := known function member
      have := enter_truthful sites args (some callSite)
      have := Evaluator.executeBody_truthful ⟨model, model.invoke depth⟩ function sites
      change Truthful model (Evaluator.perform ⟨model, model.invoke depth⟩ function args callSite)
      unfold Evaluator.perform
      infer_instance

theorem runEntry_truthful (known : model.KnowsFunctions) (member : function ∈ model.functions) :
    Truthful model (model.evaluator.runEntry function) := by
  have := invoke_truthful known model.maxCallDepth
  have sites := known function member
  have := enter_truthful sites [] none
  have := Evaluator.executeBody_truthful ⟨model, model.invoke model.maxCallDepth⟩ function sites
  unfold evaluator Evaluator.runEntry
  infer_instance

end Model

/-! ### Globals -/

/-- A computation that logs what is so when no call is on the stack. -/
def Run.TruthfulAtRoot {α : Type} (model : Model) (run : Run α) : Prop :=
  ∀ machine : Machine, machine.storage.calls.depth = 0 → (exec run machine).2.storage.Fits →
    machine.Confirmed model → (exec run machine).2.Confirmed model

namespace Run.TruthfulAtRoot

variable {α β : Type} {model : Model} {bound : Nat}

theorem of_truthful {run : Run α} (truthful : Truthful model run) : TruthfulAtRoot model run :=
  fun machine _ => truthful.confirmed machine

theorem bind {first : Run α} {next : α → Run β} (start : TruthfulAtRoot model first)
    (nests : Nests 0 bound first) (rest : ∀ value, TruthfulAtRoot model (next value))
    [∀ value, Stepwise (next value)] : TruthfulAtRoot model (first >>= next) := by
  intro machine atRoot fits before
  refine confirmed_bind (fun room => start machine atRoot room before) ?_ fits
  intro value middle ran room begun
  have ended := nests machine atRoot
  rw [ran] at ended
  exact rest value middle (ended.level value rfl) room begun

end Run.TruthfulAtRoot

/-- Outside of calls a new slot on the stack is one of the root frame. -/
theorem Storage.HasGlobal.declare (storage : Storage) (atRoot : storage.calls.depth = 0)
    {globals : List VarDecl} {decl : VarDecl} (member : decl ∈ globals) (value : Value) :
    (storage.declare decl.name decl.kind none .stack value).2.HasGlobal globals
      (storage.declare decl.name decl.kind none .stack value).1.address := by
  obtain ⟨root, ⟨frames⟩, heap, next⟩ := storage
  obtain rfl : frames = [] := List.eq_nil_of_length_eq_zero atRoot
  refine ⟨decl, member, ⟨decl.name, decl.kind, value, none, next⟩, ?_, rfl, rfl⟩
  exact List.mem_append_right root.slots (List.mem_singleton.mpr rfl)

namespace Evaluator

variable {evaluator : Evaluator} [evaluator.Stepwise] [calls : evaluator.Truthful]

theorem declareGlobal_truthful {bound : Nat} (location : Location) {decl : VarDecl}
    (member : decl ∈ evaluator.model.globals) (known : evaluator.model.KnowsAll decl.parts)
    (nests : Nests 0 bound (evaluator.evaluateDecl location decl)) :
    TruthfulAtRoot evaluator.model (evaluator.declareGlobal location decl) := by
  unfold declareGlobal
  refine (TruthfulAtRoot.of_truthful (evaluator.evaluateDecl_truthful location known)).bind nests
    fun value => ?_
  intro machine atRoot _ before event logged
  rcases Trace.mem_record logged with old | rfl
  · exact (Storage.Step.declare decl.name decl.kind none .stack value).retains.confirms
      (before event old)
  · exact .inl ⟨rfl, .declare machine.storage atRoot member value⟩

end Evaluator

namespace Model

variable {model : Model} {rank : String → Nat}

/-- The sites of the initial values of the globals are known. -/
def KnowsGlobals (model : Model) : Prop := ∀ decl ∈ model.globals, model.KnowsAll decl.parts

theorem declareGlobals_truthful [Evaluator.Truthful ⟨model, model.invoke model.maxCallDepth⟩]
    (ranking : model.Ranking rank) {decls : List VarDecl}
    (members : ∀ decl ∈ decls, decl ∈ model.globals) (known : model.KnowsGlobals) :
    ∀ index : Nat, TruthfulAtRoot model
      (Evaluator.declareGlobals ⟨model, model.invoke model.maxCallDepth⟩ index decls) := by
  have enough : model.functions.length ≤ model.maxCallDepth := Nat.le_add_right _ _
  induction decls with
  | nil =>
      intro index
      rw [Evaluator.declareGlobals]
      exact .of_truthful inferInstance
  | cons decl decls inductionHypothesis =>
      intro index
      obtain ⟨member, rest⟩ := List.forall_mem_cons.mp members
      let location : Location := ⟨globalsFrame, index⟩
      let pairing := model.leveled (fun _ => True) model.maxCallDepth model.maxCallDepth
      have admits : pairing.AdmitsAll location decl.parts := leveled_globals decl location
      rw [Evaluator.declareGlobals]
      refine TruthfulAtRoot.bind (.of_truthful inferInstance)
        (ranking.nests_of_alike enough (.checkpoint location trivial)) fun _ => ?_
      refine TruthfulAtRoot.bind ?_
        (ranking.nests_of_alike enough (Pairing.declareGlobal_alike trivial admits)) fun _ => ?_
      · exact Evaluator.declareGlobal_truthful location member (known decl member)
          (ranking.nests_of_alike enough (Pairing.evaluateDecl_alike admits))
      · exact inductionHypothesis rest (index + 1)

/-- A run that starts without calls on the stack logs what is so, if all sites are known. -/
theorem execute_truthful (ranking : model.Ranking rank) (globals : model.KnowsGlobals)
    (functions : model.KnowsFunctions) : TruthfulAtRoot model model.execute := by
  have := invoke_truthful functions model.maxCallDepth
  have entry : Truthful model (do
      let entry ← model.function model.config.entry ⟨model.config.entry, 0⟩
      let _ ← Evaluator.runEntry ⟨model, model.invoke model.maxCallDepth⟩ entry) := by
    refine Truthful.function_bind fun entry member => ?_
    have : Truthful model (Evaluator.runEntry ⟨model, model.invoke model.maxCallDepth⟩ entry) :=
      runEntry_truthful functions member
    infer_instance
  exact (declareGlobals_truthful ranking (fun _ member => member) globals 0).bind
    (ranking.declareGlobals_nests (Nat.le_add_right _ _)) fun _ => .of_truthful entry

end Model

end ReferenceSemantics
