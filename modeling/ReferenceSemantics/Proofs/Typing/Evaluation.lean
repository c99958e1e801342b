import ReferenceSemantics.Proofs.Typing.Rules

set_option autoImplicit false

/-!
Evaluation in regular storage.

Every value an expression has is canonical: a value is read from storage, built from values, or
boxed with a tag. A box without one is written around the literal `nil` only.
-/

namespace ReferenceSemantics

open Run

namespace Typing

variable {typing : Typing}

/-- Calls keep storage regular, leave the frames, and hand back canonical values. -/
structure Calls (typing : Typing) (evaluator : Evaluator) : Prop where
  model : evaluator.model = typing.model
  level : Invocation.Level evaluator.invoke
  invoke : ∀ {before : Storage} {name : String} {function : FunctionDef} {args : List Value}
    {callSite : Location}, typing.model.function? name = some function →
      (∀ arg ∈ args, arg.Canonical) →
        typing.Leads before (evaluator.invoke function args callSite) fun _ result =>
          CanonicalResult result

variable {before : Storage} {evaluator : Evaluator} (calls : typing.Calls evaluator)

include calls

theorem Leads.calledFunction {location : Location} {name : String} :
    typing.Leads before (evaluator.model.function name location) fun _ function =>
      typing.model.function? name = some function := by
  rw [calls.model]
  exact .functionOf

variable (location : Location)

-- Some members of the block need the calls only through other members, which the linter misses.
set_option linter.unusedSectionVars false

mutual

theorem placeRef_leads {before : Storage} : ∀ place : Place, AllTagged place.parts →
    typing.Leads before (evaluator.placeRef location place) fun _ _ => True
  | .var name, _ => by
      rw [Evaluator.placeRef]
      exact (Leads.lookup name).weaken fun _ => trivial
  | .field base name, tagged => by
      rw [Place.parts] at tagged
      rw [Evaluator.placeRef]
      exact (placeRef_leads base tagged).bind fun _ => .fieldRef
  | .deref pointer, tagged => by
      rw [Place.parts] at tagged
      rw [Evaluator.placeRef]
      exact (evaluate_leads pointer tagged).bind fun _ => .dereference

theorem evaluate_leads {before : Storage} : ∀ expr : Expr, AllTagged expr.parts →
    typing.Leads before (evaluator.evaluate location expr) fun _ value => value.Canonical
  | .lit value, _ => by
      rw [Evaluator.evaluate]
      exact .pure (Value.canonical_primitive value)
  | .nil, _ => by
      rw [Evaluator.evaluate]
      exact .pure (Value.canonical_pointer none)
  | .var name, _ => by
      rw [Evaluator.evaluate]
      exact (Leads.lookup name).bind fun _ => Leads.load.weaken And.left
  | .field base name, tagged => by
      rw [Expr.parts] at tagged
      rw [Evaluator.evaluate]
      exact (evaluate_leads base tagged.cons.2).bind fun canonical =>
        (Leads.followPointer canonical).bind .selectField
  | .deref pointer, tagged => by
      rw [Expr.parts] at tagged
      rw [Evaluator.evaluate]
      exact (evaluate_leads pointer tagged.cons.2).bind fun _ =>
        Leads.dereference.bind fun _ => Leads.load.weaken And.left
  | .addrOf place, tagged => by
      rw [Expr.parts] at tagged
      rw [Evaluator.evaluate]
      exact (placeRef_leads place tagged.cons.2).bind fun _ => .pure (Value.canonical_pointer _)
  | .new init site, tagged => by
      rw [Expr.parts] at tagged
      rw [Evaluator.evaluate]
      exact (evaluate_leads init tagged.cons.2).bind .allocateNew
  | .composite typeName fields, tagged => by
      rw [Expr.parts] at tagged
      rw [Evaluator.evaluate]
      exact (evaluateFields_leads fields tagged.cons.2).bind fun canonical =>
        .pure (Value.canonical_composite canonical)
  | .sliceLit elems capacity, tagged => by
      rw [Expr.parts] at tagged
      rw [Evaluator.evaluate]
      exact (evaluateAll_leads elems tagged.cons.2).bind .allocateSlice
  | .makeSlice len cap zero, tagged => by
      rw [Expr.parts] at tagged
      rw [Evaluator.evaluate]
      split
      next short => exact .throw short
      next =>
        refine (evaluate_leads zero tagged.cons.2).bind fun {_ value} canonical => ?_
        have cells : ∀ cell ∈ List.replicate cap value, cell.Canonical := fun cell member =>
          List.eq_of_mem_replicate member ▸ canonical
        exact (Leads.allocBlock cells canonical).bind fun header =>
          Leads.recordBehind.bind fun _ => .pure header
  | .mapLit entries, tagged => by
      rw [Expr.parts] at tagged
      rw [Evaluator.evaluate]
      exact (evaluateEntries_leads entries tagged.cons.2).bind fun canonical =>
        (Leads.allocTable canonical).bind fun header =>
          Leads.recordBehind.bind fun _ => .pure header
  | .index base index, tagged => by
      rw [Expr.parts] at tagged
      obtain ⟨ofBase, ofIndex⟩ := tagged.cons.2.append
      rw [Evaluator.evaluate]
      refine (evaluate_leads base ofBase).bind fun _ => ?_
      refine (evaluate_leads index ofIndex).bind fun _ => Leads.asInt.bind fun _ => ?_
      exact .element
  | .lookup base key default, tagged => by
      rw [Expr.parts] at tagged
      obtain ⟨first, ofDefault⟩ := tagged.cons.2.append
      obtain ⟨ofBase, ofKey⟩ := first.append
      rw [Evaluator.evaluate]
      refine (evaluate_leads base ofBase).bind fun _ => ?_
      refine (evaluate_leads key ofKey).bind fun _ => ?_
      refine Leads.tableGet.bind fun {_ found} canonical => ?_
      cases found with
      | none => exact evaluate_leads default ofDefault
      | some value => exact .pure (canonical value rfl)
  | .len base, tagged => by
      rw [Expr.parts] at tagged
      rw [Evaluator.evaluate]
      exact (evaluate_leads base tagged.cons.2).bind fun _ =>
        Leads.readAny.bind fun _ => .pure (Value.canonical_primitive _)
  | .cap base, tagged => by
      rw [Expr.parts] at tagged
      rw [Evaluator.evaluate]
      exact (evaluate_leads base tagged.cons.2).bind fun _ =>
        Leads.readAny.bind fun _ => .pure (Value.canonical_primitive _)
  | .reslice base low high, tagged => by
      rw [Expr.parts] at tagged
      rw [Evaluator.evaluate]
      exact (evaluate_leads base tagged.cons.2).bind fun _ => .reslice
  | .boxed typeTag value, tagged => by
      rw [Expr.parts] at tagged
      obtain ⟨here, inside⟩ := tagged.cons
      rw [Evaluator.evaluate]
      cases typeTag with
      | none =>
          -- The content is known to be empty because the expression is the literal.
          obtain rfl : value = .nil := here
          rw [Evaluator.evaluate]
          exact Leads.pure ((Value.canonical_pointer none).tagged fun _ => rfl)
      | some tag =>
          exact (evaluate_leads value inside).bind fun canonical => .pure (canonical.tagged nofun)
  | .isNil value, tagged => by
      rw [Expr.parts] at tagged
      rw [Evaluator.evaluate]
      exact (evaluate_leads value tagged.cons.2).bind fun _ => .pure (Value.canonical_primitive _)
  | .call callee args, tagged => by
      rw [Expr.parts] at tagged
      rw [Evaluator.evaluate]
      refine (Leads.calledFunction calls).bind fun found => ?_
      refine Leads.checkArgumentCount.bind fun _ => ?_
      refine (evaluateArgs_leads _ args tagged.cons.2).bind fun canonical => ?_
      exact (calls.invoke found canonical).bind .expectResult

theorem evaluateAll_leads {before : Storage} : ∀ exprs : List Expr, AllTagged (partsOfExprs exprs) →
    typing.Leads before (evaluator.evaluateAll location exprs) fun _ values =>
      ∀ value ∈ values, value.Canonical
  | [], _ => by
      rw [Evaluator.evaluateAll]
      exact .pure (List.forall_mem_nil _)
  | expr :: exprs, tagged => by
      rw [partsOfExprs] at tagged
      rw [Evaluator.evaluateAll]
      exact (evaluate_leads expr tagged.append.1).bind fun canonical =>
        (evaluateAll_leads exprs tagged.append.2).bind fun rest =>
          .pure (List.forall_mem_cons.mpr ⟨canonical, rest⟩)

theorem evaluateFields_leads {before : Storage} : ∀ fields : List (String × Expr),
    AllTagged (partsOfFields fields) →
      typing.Leads before (evaluator.evaluateFields location fields) fun _ values =>
        ∀ field ∈ values, field.2.Canonical
  | [], _ => by
      rw [Evaluator.evaluateFields]
      exact .pure (List.forall_mem_nil _)
  | (name, expr) :: fields, tagged => by
      rw [partsOfFields] at tagged
      rw [Evaluator.evaluateFields]
      exact (evaluate_leads expr tagged.append.1).bind fun canonical =>
        (evaluateFields_leads fields tagged.append.2).bind fun rest =>
          .pure (List.forall_mem_cons.mpr ⟨canonical, rest⟩)

theorem evaluateEntries_leads {before : Storage} : ∀ entries : List (Expr × Expr),
    AllTagged (partsOfEntries entries) →
      typing.Leads before (evaluator.evaluateEntries location entries) fun _ values =>
        ∀ entry ∈ values, entry.1.Canonical ∧ entry.2.Canonical
  | [], _ => by
      rw [Evaluator.evaluateEntries]
      exact .pure (List.forall_mem_nil _)
  | (key, value) :: entries, tagged => by
      rw [partsOfEntries] at tagged
      obtain ⟨first, others⟩ := tagged.append
      rw [Evaluator.evaluateEntries]
      refine (evaluate_leads key first.append.1).bind fun ofKey => ?_
      refine (evaluate_leads value first.append.2).bind fun ofValue => ?_
      exact (evaluateEntries_leads entries others).bind fun rest =>
        .pure (List.forall_mem_cons.mpr ⟨⟨ofKey, ofValue⟩, rest⟩)

theorem evaluateArgs_leads {before : Storage} : ∀ (params : List Param) (args : List Expr),
    AllTagged (partsOfExprs args) →
      typing.Leads before (evaluator.evaluateArgs location params args) fun _ values =>
        ∀ value ∈ values, value.Canonical
  | param :: params, arg :: args, tagged => by
      rw [partsOfExprs] at tagged
      rw [Evaluator.evaluateArgs]
      exact (Leads.flowInto (evaluate_leads arg tagged.append.1)).bind fun canonical =>
        (evaluateArgs_leads params args tagged.append.2).bind fun rest =>
          .pure (List.forall_mem_cons.mpr ⟨canonical, rest⟩)
  | [], args, _ => by
      rw [Evaluator.evaluateArgs]
      · exact .pure (List.forall_mem_nil _)
      · nofun
  | _ :: _, [], _ => by
      rw [Evaluator.evaluateArgs]
      · exact .pure (List.forall_mem_nil _)
      · nofun

end

end Typing

end ReferenceSemantics
