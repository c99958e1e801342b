import ReferenceSemantics.Proofs.Typing.Evaluation

set_option autoImplicit false

/-!
Statements and bodies in regular storage.

A statement looks at the kind of a place before it evaluates the value for it. The evaluation may
call functions that write to the same slot, but it cannot change the kind of the slot. The named
result of the function stays in its slot, because no statement declares its name again.
-/

namespace ReferenceSemantics

open Run

/-- What a statement returns is canonical, if it returns anything. -/
def Flow.Canonical : Flow → Prop
  | next => True
  | returned value => CanonicalResult value

namespace Typing

variable {typing : Typing} {before : Storage} {location : Location} {kind : Kind} {ref : SlotRef}
  {function : FunctionDef}

/-- A returned value goes into the slot of a named result, which is of the kind of the result. -/
theorem Leads.deliver {value : Value} (binds : before.BindsResult function)
    (canonical : value.Canonical)
    (fitting : value.kind = (function.result.map (·.kind)).getD .value) :
    typing.Leads before (function.deliver location value) fun _ result =>
      CanonicalResult result := by
  unfold FunctionDef.deliver
  split
  next => exact .pure (canonicalResult_some canonical)
  next name named =>
    obtain ⟨kind, found⟩ := FunctionDef.result_of_namedResult named
    obtain ⟨address, bound, known⟩ := binds name kind found
    refine (Leads.lookup name).bind ?_
    rintro _ ref ⟨rfl, designated⟩
    rw [Storage.lookup, bound] at designated
    cases designated
    rw [found] at fitting
    exact (Leads.store canonical fun _ => fitting ▸ known).bind fun _ => .pure canonicalResult_none

variable {evaluator : Evaluator} [evaluator.Stepwise] (calls : typing.Calls evaluator)

include calls

/-! ### Values for a place -/

omit [evaluator.Stepwise] in
theorem Leads.evaluateFor {expr : Expr} (tagged : AllTagged expr.parts) :
    typing.Leads before (evaluator.evaluateFor location kind expr) fun _ value =>
      value.Canonical :=
  .flowInto (evaluate_leads calls location expr tagged)

omit [evaluator.Stepwise] in
theorem Leads.evaluateDecl {decl : VarDecl} (tagged : AllTagged decl.parts) :
    typing.Leads before (evaluator.evaluateDecl location decl) fun _ value =>
      value.Canonical ∧ value.kind = decl.kind := by
  have checked : ∀ {middle : Storage} {value : Value}, value.Canonical →
      typing.Leads middle (do Run.expectKind location decl.kind value; return value)
        fun _ value => value.Canonical ∧ value.kind = decl.kind := fun canonical =>
    Leads.expectKind.bind fun same => .pure ⟨canonical, same.2⟩
  rw [VarDecl.parts] at tagged
  unfold Evaluator.evaluateDecl
  cases initialised : decl.init with
  | none => exact checked (Value.canonical_zero decl.kind)
  | some init =>
      rw [initialised] at tagged
      exact (evaluateFor calls tagged).bind checked

theorem Leads.overwrite {value : Expr} (tagged : AllTagged value.parts)
    (suits : before.Suits ref kind) :
    typing.Leads before (evaluator.overwrite location ref kind value) fun _ _ => True := by
  unfold Evaluator.overwrite
  refine ((evaluateFor calls tagged).suits suits).bind fun ⟨suits, canonical⟩ => ?_
  refine Leads.expectKind.bind ?_
  rintro _ _ ⟨rfl, rfl⟩
  exact .store canonical suits

omit [evaluator.Stepwise] in
theorem Leads.evaluateElement {expr : Expr} {kind : Option Kind} (tagged : AllTagged expr.parts) :
    typing.Leads before (evaluator.evaluateElement location kind expr) fun _ value =>
      value.Canonical := by
  cases kind with
  | none => exact evaluate_leads calls location expr tagged
  | some kind => exact evaluateFor calls tagged

omit [evaluator.Stepwise] in
theorem Leads.evaluateElements {exprs : List Expr} {kind : Option Kind}
    (tagged : AllTagged (partsOfExprs exprs)) :
    typing.Leads before (evaluator.evaluateElements location kind exprs) fun _ values =>
      ∀ value ∈ values, value.Canonical := by
  induction exprs generalizing before with
  | nil =>
      rw [Evaluator.evaluateElements]
      exact .pure (List.forall_mem_nil _)
  | cons expr exprs inductionHypothesis =>
      rw [partsOfExprs] at tagged
      rw [Evaluator.evaluateElements]
      exact (evaluateElement calls tagged.append.1).bind fun canonical =>
        (inductionHypothesis tagged.append.2).bind fun rest =>
          .pure (List.forall_mem_cons.mpr ⟨canonical, rest⟩)

/-! ### Statements -/

/-- A new header goes where the old one is, and is of its kind. -/
theorem Leads.append {target : Place} {values : List Expr}
    (tagged : AllTagged (target.parts ++ partsOfExprs values)) :
    typing.Leads before (evaluator.append location target values) fun _ _ => True := by
  have operands : typing.Leads before (evaluator.appendOperands location target values)
      fun after operands => after.Suits operands.ref operands.header.kind ∧
        ∀ value ∈ operands.values, value.Canonical := by
    unfold Evaluator.appendOperands
    refine (placeRef_leads calls location target tagged.append.1).bind fun _ => ?_
    refine Leads.load.bind fun ⟨_, suits⟩ => ?_
    refine (Leads.readAny.suits suits).bind fun ⟨suits, _⟩ => ?_
    exact ((evaluateElements calls tagged.append.2).suits suits).bind fun operands =>
      .pure operands
  unfold Evaluator.append
  refine operands.bind ?_
  rintro middle ⟨ref, header, values⟩ ⟨suits, canonical⟩
  have grows : typing.Leads middle (Run.update location (·.append header values))
      fun _ grown => grown.Canonical ∧ grown.kind = header.kind :=
    .update fun _ _ regular appended => regular.append canonical appended
  refine (grows.suits suits).bind ?_
  rintro after grown ⟨suits, canonical, same⟩
  refine (Leads.silent (silent_recordMove header grown)).bind ?_
  rintro _ _ rfl
  exact .store canonical (same ▸ suits)

theorem Leads.returnValue {value : Expr} (binds : before.BindsResult function)
    (tagged : AllTagged value.parts) :
    typing.Leads before (evaluator.returnValue function location value) fun _ result =>
      CanonicalResult result := by
  unfold Evaluator.returnValue
  have leaves : Run.Level (evaluator.evaluateFor location
      ((function.result.map (·.kind)).getD .value) value) :=
    Evaluator.evaluateFor_level calls.level _ value
  refine ((evaluateFor calls tagged).bindsResult leaves binds).bind fun ⟨binds, canonical⟩ => ?_
  refine Leads.expectKind.bind ?_
  rintro _ _ ⟨rfl, same⟩
  exact .deliver binds canonical same

omit [evaluator.Stepwise] in
theorem Leads.call {callee : String} {args : List Expr} (tagged : AllTagged (partsOfExprs args)) :
    typing.Leads before (evaluator.call location callee args) fun _ _ => True := by
  unfold Evaluator.call
  refine (calledFunction calls).bind fun found => Leads.checkArgumentCount.bind fun _ => ?_
  exact (evaluateArgs_leads calls location _ args tagged).bind fun canonical =>
    (calls.invoke found canonical).weaken fun _ => trivial

/-- A statement that declares nothing. -/
theorem Leads.execute {stmt : Stmt} (undeclared : stmt.declared? = none)
    (binds : before.BindsResult function) (tagged : AllTagged stmt.parts) :
    typing.Leads before (evaluator.execute function location stmt) fun _ flow =>
      flow.Canonical := by
  have proceeds : ∀ {before : Storage} {run : Run Unit}, typing.Leads before run (fun _ _ => True) →
      typing.Leads before (do run; return Flow.next) fun _ flow => flow.Canonical :=
    fun leads => leads.bind fun _ => .pure trivial
  cases stmt with
  | declare decl => cases undeclared
  | assign target value =>
      rw [Stmt.parts] at tagged
      rw [Evaluator.execute]
      refine (Leads.lookup target).bind ?_
      rintro middle ref -
      have slots : typing.Leads middle (Run.read location (·.slot ref.address)) fun after slot =>
          after.Suits ref slot.kind :=
        .read fun slot regular found _ => regular.kindAt (Storage.has_of_slot found)
      exact slots.bind fun suits => proceeds (.overwrite calls tagged suits)
  | setField target name value =>
      rw [Stmt.parts] at tagged
      rw [Evaluator.execute]
      refine (placeRef_leads calls location target tagged.append.1).bind fun _ => ?_
      refine Leads.fieldRef.bind fun _ => Leads.load.bind fun loaded => ?_
      exact proceeds (.overwrite calls tagged.append.2 loaded.2)
  | store pointer value =>
      rw [Stmt.parts] at tagged
      rw [Evaluator.execute]
      refine (evaluate_leads calls location pointer tagged.append.1).bind fun _ => ?_
      refine Leads.dereference.bind fun _ => Leads.load.bind fun loaded => ?_
      exact proceeds (.overwrite calls tagged.append.2 loaded.2)
  | setIndex target index value =>
      rw [Stmt.parts] at tagged
      obtain ⟨first, ofValue⟩ := tagged.append
      rw [Evaluator.execute]
      refine (placeRef_leads calls location target first.append.1).bind fun _ => ?_
      refine Leads.load.bind fun _ => ?_
      refine (evaluate_leads calls location index first.append.2).bind fun _ => ?_
      refine Leads.asInt.bind fun _ => Leads.element.bind fun _ => ?_
      refine (Leads.evaluateFor calls ofValue).bind fun canonical => proceeds ?_
      exact .write fun _ regular done => regular.setElement canonical done
  | setKey target key value =>
      rw [Stmt.parts] at tagged
      obtain ⟨first, ofValue⟩ := tagged.append
      rw [Evaluator.execute]
      refine (placeRef_leads calls location target first.append.1).bind fun _ => ?_
      refine Leads.load.bind fun _ => ?_
      refine (evaluate_leads calls location key first.append.2).bind fun ofKey => ?_
      refine Leads.readAny.bind fun _ => ?_
      refine (Leads.evaluateElement calls ofValue).bind fun canonical => proceeds ?_
      exact .write fun _ regular done => regular.tableInsert ofKey canonical done
  | append target values =>
      rw [Stmt.parts] at tagged
      rw [Evaluator.execute]
      exact proceeds (.append calls tagged)
  | call callee args =>
      rw [Stmt.parts] at tagged
      rw [Evaluator.execute]
      exact (Leads.call calls tagged).bind fun _ => .pure trivial
  | ret value =>
      cases value with
      | none =>
          rw [Evaluator.execute]
          exact .pure canonicalResult_none
      | some value =>
          rw [Evaluator.execute, map_eq_pure_bind]
          exact (Leads.returnValue calls binds tagged).bind fun canonical => .pure canonical

/-- A statement leaves the named result in its slot. -/
theorem execute_leads {stmt : Stmt} (binds : before.BindsResult function)
    (tagged : AllTagged stmt.parts)
    (single : ∀ result, function.namedResult = some result →
      ∀ decl, stmt.declared? = some decl → decl.name ≠ result) :
    typing.Leads before (evaluator.execute function location stmt) fun after flow =>
      after.BindsResult function ∧ flow.Canonical := by
  cases declared : stmt.declared? with
  | none =>
      exact (Leads.execute calls declared binds tagged).bindsResult
        (Evaluator.execute_level calls.level declared) binds
  | some decl =>
      obtain rfl := Stmt.eq_declare declared
      rw [Stmt.parts] at tagged
      rw [Evaluator.execute, calls.model]
      have leaves : Run.Level (evaluator.evaluateDecl location decl) :=
        Evaluator.evaluateDecl_level calls.level decl
      refine ((Leads.evaluateDecl calls tagged).bindsResult leaves binds).bind ?_
      rintro middle value ⟨binds, canonical, same⟩
      refine (Leads.bindSlot canonical same).bind fun gains => .pure ⟨?_, trivial⟩
      exact binds.gains gains fun result named => single result named decl declared

/-! ### Bodies -/

theorem executeFrom_leads {stmts : List Stmt} : ∀ {before : Storage} (index : Nat),
    before.BindsResult function → (∀ stmt ∈ stmts, AllTagged stmt.parts) →
      (∀ result, function.namedResult = some result →
        ∀ stmt ∈ stmts, ∀ decl, stmt.declared? = some decl → decl.name ≠ result) →
          typing.Leads before (evaluator.executeFrom function index stmts) fun after result =>
            after.BindsResult function ∧ CanonicalResult result := by
  induction stmts with
  | nil =>
      intro before index binds _ _
      rw [Evaluator.executeFrom]
      exact .pure ⟨binds, canonicalResult_none⟩
  | cons stmt stmts inductionHypothesis =>
      intro before index binds tagged single
      obtain ⟨here, later⟩ := List.forall_mem_cons.mp tagged
      rw [Evaluator.executeFrom]
      refine Leads.checkpoint.bind ?_
      rintro _ _ rfl
      refine (execute_leads calls binds here fun result named =>
        single result named stmt (List.mem_cons_self ..)).bind ?_
      rintro middle flow ⟨binds, canonical⟩
      cases flow with
      | next =>
          exact inductionHypothesis (index + 1) binds later fun result named other member =>
            single result named other (List.mem_cons_of_mem _ member)
      | returned value => exact .pure ⟨binds, canonical⟩

end Typing

end ReferenceSemantics
