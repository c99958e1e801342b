import ReferenceSemantics.Proofs.Run.Simulation.Operations

set_option autoImplicit false

/-!
Expressions and places in a simulation.

Evaluation follows the structure of the expression on both sides at once. Values found earlier stay
linked while the worlds grow.
-/

namespace ReferenceSemantics

open Value (Linked FieldsLinked)

namespace Simulation

variable {sim : Simulation} {world : sim.World} {location : Location}

/-! ### Parts of evaluation -/

theorem Agree.mismatch {α α' : Type} {reason : Mismatch}
    {post : sim.World → α → α' → Prop} :
    sim.Agree world (Run.mismatch location reason) (Run.mismatch location reason) post :=
  .fail trivial

theorem Agree.flowInto {kind : Kind} {expr : Expr} {evaluated evaluated' : Run Value}
    (agree : sim.Agree world evaluated evaluated' sim.values) :
    sim.Agree world (flowInto location kind expr evaluated)
      (flowInto location kind expr evaluated') sim.values := by
  unfold ReferenceSemantics.flowInto
  split
  · split
    · exact .mismatch
    · exact .pure (.zero kind)
  · refine agree.bind fun grown linked => .pure ?_
    split
    · exact linked.inBox
    · exact linked

theorem Agree.followPointer {value value' : Value} (linked : sim.values world value value') :
    sim.Agree world (followPointer location value) (followPointer location value')
      sim.values := by
  unfold ReferenceSemantics.followPointer
  rw [← linked.isPointer]
  split
  · exact (Agree.dereference linked).bind fun _ refs => .load refs
  · exact .pure linked

theorem Agree.selectField {value value' : Value} (name : String)
    (linked : sim.values world value value') :
    sim.Agree world (selectField location name value) (selectField location name value')
      sim.values := by
  cases linked with
  | @composite typeName fields fields' inner =>
      have found := inner.lookup name
      simp only [ReferenceSemantics.selectField]
      generalize fields.lookup name = field at found
      generalize fields'.lookup name = field' at found
      cases found with
      | none => exact .fail trivial
      | some found => exact .pure found
  | primitive _ | nilReference | reference _ _ | nilKeyValue | keyValue _ | nilPointer
  | pointer _ _ | interfaceBox _ _ => exact .mismatch

theorem Agree.fieldHolder {base base' : SlotRef} {found found' : Value}
    (linked : sim.refs world base base') (held : sim.values world found found') :
    sim.Agree world (fieldHolder location base found) (fieldHolder location base' found')
      sim.refs := by
  cases held with
  | nilPointer => exact .dereference .nilPointer
  | pointer path target => exact .dereference (.pointer path target)
  | composite _ _ => exact .pure linked
  | primitive _ | nilReference | reference _ _ | nilKeyValue | keyValue _
  | interfaceBox _ _ => exact .mismatch

theorem refs_field {ref ref' : SlotRef} (linked : sim.refs world ref ref') (name : String) :
    sim.refs world (ref.field name) (ref'.field name) :=
  ⟨congrArg (· ++ [name]) linked.1, linked.2⟩

theorem Agree.fieldOf {holder holder' : SlotRef} (name : String) {found found' : Value}
    (linked : sim.refs world holder holder') (held : sim.values world found found') :
    sim.Agree world (fieldOf location holder name found) (fieldOf location holder' name found')
      sim.refs := by
  cases held with
  | composite _ _ =>
      have fields := refs_field linked name
      exact (Agree.load fields).bind fun grown _ => .pure (refs_mono grown fields)
  | primitive _ | nilReference | reference _ _ | nilKeyValue | keyValue _ | nilPointer
  | pointer _ _ | interfaceBox _ _ => exact .mismatch

theorem Agree.fieldRef {base base' : SlotRef} (name : String)
    (linked : sim.refs world base base') :
    sim.Agree world (fieldRef location base name) (fieldRef location base' name) sim.refs := by
  unfold ReferenceSemantics.fieldRef
  refine (Agree.load linked).bind fun grown found => ?_
  refine (Agree.fieldHolder (refs_mono grown linked) found).bind fun _ holders => ?_
  exact (Agree.load holders).bind fun grown held =>
    .fieldOf name (refs_mono grown holders) held

theorem Agree.asInt {value value' : Value} (linked : sim.values world value value') :
    sim.Agree world (asInt location value) (asInt location value')
      (fun _ index index' => index = index') := by
  unfold ReferenceSemantics.asInt
  rw [← linked.asInt?, ← linked.shape]
  split
  · exact .pure rfl
  · exact .mismatch

theorem Agree.checkArgumentCount (function : FunctionDef) (count : Nat) :
    sim.Agree world (checkArgumentCount location function count)
      (checkArgumentCount location function count) (fun _ _ _ => True) := by
  unfold ReferenceSemantics.checkArgumentCount
  split
  · exact .pure trivial
  · exact .mismatch

theorem Agree.function (name : String) :
    sim.Agree world (sim.left.function name location) (sim.right.function name location)
      (fun _ function function' => function = function') := by
  unfold Model.function Model.function?
  rw [← sim.functions]
  split
  · exact .pure rfl
  · exact .fail trivial

theorem Agree.expectKind {value value' : Value} (kind : Kind)
    (linked : sim.values world value value') :
    sim.Agree world (Run.expectKind location kind value) (Run.expectKind location kind value')
      (fun _ _ _ => True) := by
  unfold Run.expectKind
  rw [← linked.kind, ← linked.shape]
  split
  · exact .pure trivial
  · exact .mismatch

theorem pointerTo_linked {ref ref' : SlotRef} (linked : sim.refs world ref ref') :
    sim.values world (.pointerTo ref) (.pointerTo ref') := by
  obtain ⟨address, names⟩ := ref
  obtain ⟨address', names'⟩ := ref'
  obtain ⟨path, slot⟩ := linked
  obtain rfl : names = names' := path
  exact .pointer names slot

theorem Agree.allocateNew {evaluator evaluator' : Evaluator} (site : SiteId)
    (left : evaluator.model = sim.left) (right : evaluator'.model = sim.right)
    {value value' : Value} (linked : sim.values world value value') :
    sim.Agree world (evaluator.allocateNew site value) (evaluator'.allocateNew site value')
      sim.values := by
  unfold Evaluator.allocateNew
  rw [left, right, ← linked.kind]
  have allocated : sim.Agree world
      (Run.allocate (·.allocate site value.kind (some site) (sim.left.placement site) value))
      (Run.allocate (·.allocate site value.kind (some site) (sim.right.placement site) value'))
      sim.refs := by
    refine .allocate fun related fits => ?_
    obtain ⟨next, grown, refs, storages⟩ :=
      sim.allocate site value.kind site related linked fits
    exact ⟨next, grown, storages, refs⟩
  refine allocated.bind fun _ refs => ?_
  refine (Agree.silent (Run.silent_record _) (Run.silent_record _)).bind fun grown _ => ?_
  exact .pure (pointerTo_linked (refs_mono grown refs))

theorem Agree.allocateSlice {cells cells' : List Value} (capacity : Option Nat)
    (linked : List.Forall₂ (sim.values world) cells cells') :
    sim.Agree world (Evaluator.allocateSlice cells capacity)
      (Evaluator.allocateSlice cells' capacity) sim.values := by
  unfold Evaluator.allocateSlice
  rw [← linked.length_eq]
  have zeros : sim.values world ((cells.head?.map Value.zeroLike).getD (.int 0))
      ((cells'.head?.map Value.zeroLike).getD (.int 0)) := by
    cases linked with
    | nil => exact .primitive (.int 0)
    | cons head _ => exact head.zeroLike
  refine (Agree.allocBlock _ (forall₂_padCells linked _ zeros) zeros).bind fun _ header => ?_
  refine (Agree.silent (Run.silent_recordBehind _) (Run.silent_recordBehind _)).bind
          fun grown _ => ?_
  exact .pure (values_mono grown header)

/-! ### Expressions and places -/

/-- Two evaluators for the two models, whose calls agree. -/
structure Calls (sim : Simulation) (evaluator evaluator' : Evaluator) : Prop where
  left : evaluator.model = sim.left
  right : evaluator'.model = sim.right
  invoke : ∀ {world args args'} (function : FunctionDef) (callSite : Location),
    List.Forall₂ (sim.values world) args args' →
      sim.Agree world (evaluator.invoke function args callSite)
        (evaluator'.invoke function args' callSite) (fun later => Option.Rel (sim.values later))

variable {evaluator evaluator' : Evaluator} (calls : sim.Calls evaluator evaluator') (location)

theorem list_mono {later : sim.World} (grown : sim.Le world later) {values values' : List Value}
    (linked : List.Forall₂ (sim.values world) values values') :
    List.Forall₂ (sim.values later) values values' :=
  linked.imp fun _ _ => values_mono grown

include calls

theorem Agree.function' (name : String) :
    sim.Agree world (evaluator.model.function name location)
      (evaluator'.model.function name location)
      (fun _ function function' => function = function') := by
  rw [calls.left, calls.right]
  exact .function name

variable [evaluator.Stepwise]

-- Some members of the block need the calls only through other members, which the linter misses.
set_option linter.unusedSectionVars false

mutual

theorem placeRef_agrees {world : sim.World} :
    ∀ place : Place, sim.Agree world (evaluator.placeRef location place)
      (evaluator'.placeRef location place) sim.refs
  | .var name => by
      rw [Evaluator.placeRef, Evaluator.placeRef]
      exact .lookup name
  | .field base name => by
      rw [Evaluator.placeRef, Evaluator.placeRef]
      exact (placeRef_agrees base).bind fun _ refs => .fieldRef name refs
  | .deref pointer => by
      rw [Evaluator.placeRef, Evaluator.placeRef]
      exact (evaluate_agrees pointer).bind fun _ linked => .dereference linked

theorem evaluate_agrees {world : sim.World} :
    ∀ expr : Expr, sim.Agree world (evaluator.evaluate location expr)
      (evaluator'.evaluate location expr) sim.values
  | .lit value => by
      rw [Evaluator.evaluate, Evaluator.evaluate]
      exact .pure (.primitive value)
  | .nil => by
      rw [Evaluator.evaluate, Evaluator.evaluate]
      exact .pure .nilPointer
  | .var name => by
      rw [Evaluator.evaluate, Evaluator.evaluate]
      exact (Agree.lookup name).bind fun _ refs => .load refs
  | .field base name => by
      rw [Evaluator.evaluate, Evaluator.evaluate]
      refine (evaluate_agrees base).bind fun _ linked => ?_
      exact (Agree.followPointer linked).bind fun _ held => .selectField name held
  | .deref pointer => by
      rw [Evaluator.evaluate, Evaluator.evaluate]
      refine (evaluate_agrees pointer).bind fun _ linked => ?_
      exact (Agree.dereference linked).bind fun _ refs => .load refs
  | .addrOf place => by
      rw [Evaluator.evaluate, Evaluator.evaluate]
      exact (placeRef_agrees place).bind fun _ refs => .pure (pointerTo_linked refs)
  | .new init site => by
      rw [Evaluator.evaluate, Evaluator.evaluate]
      exact (evaluate_agrees init).bind fun _ linked =>
        .allocateNew site calls.left calls.right linked
  | .composite typeName fields => by
      rw [Evaluator.evaluate, Evaluator.evaluate]
      exact (evaluateFields_agrees fields).bind fun _ linked => .pure (.composite typeName linked)
  | .sliceLit elems capacity => by
      rw [Evaluator.evaluate, Evaluator.evaluate]
      exact (evaluateAll_agrees elems).bind fun _ linked => .allocateSlice capacity linked
  | .makeSlice len cap zero => by
      rw [Evaluator.evaluate, Evaluator.evaluate]
      split
      · exact .fail trivial
      · refine (evaluate_agrees zero).bind fun _ linked => ?_
        refine (Agree.allocBlock len (forall₂_replicate linked cap) linked).bind fun _ header => ?_
        refine (Agree.silent (Run.silent_recordBehind _) (Run.silent_recordBehind _)).bind
          fun grown _ => ?_
        exact .pure (values_mono grown header)
  | .mapLit entries => by
      rw [Evaluator.evaluate, Evaluator.evaluate]
      refine (evaluateEntries_agrees entries).bind fun _ linked => ?_
      refine (Agree.allocTable linked).bind fun _ header => ?_
      refine (Agree.silent (Run.silent_recordBehind _) (Run.silent_recordBehind _)).bind
          fun grown _ => ?_
      exact .pure (values_mono grown header)
  | .index base index => by
      rw [Evaluator.evaluate, Evaluator.evaluate]
      refine (evaluate_agrees base).bind fun _ header => ?_
      refine (evaluate_agrees index).bind fun grown linked => ?_
      refine (Agree.asInt linked).bind fun grown' same => ?_
      subst same
      exact .element (values_mono grown' (values_mono grown header))
  | .lookup base key default => by
      rw [Evaluator.evaluate, Evaluator.evaluate]
      refine (evaluate_agrees base).bind fun _ header => ?_
      refine (evaluate_agrees key).bind fun grown keys => ?_
      refine (Agree.tableGet (values_mono grown header) keys).bind fun _ found => ?_
      cases found with
      | none => exact evaluate_agrees default
      | some linked => exact .pure linked
  | .len base => by
      rw [Evaluator.evaluate, Evaluator.evaluate]
      refine (evaluate_agrees base).bind fun _ linked => ?_
      refine (Agree.headerLen linked).bind fun _ same => .pure ?_
      subst same
      exact .primitive _
  | .cap base => by
      rw [Evaluator.evaluate, Evaluator.evaluate]
      refine (evaluate_agrees base).bind fun _ linked => ?_
      refine (Agree.headerCap linked).bind fun _ same => .pure ?_
      subst same
      exact .primitive _
  | .reslice base low high => by
      rw [Evaluator.evaluate, Evaluator.evaluate]
      exact (evaluate_agrees base).bind fun _ linked => .reslice low high linked
  | .boxed typeTag value => by
      rw [Evaluator.evaluate, Evaluator.evaluate]
      exact (evaluate_agrees value).bind fun _ linked => .pure (linked.tagged typeTag)
  | .isNil value => by
      rw [Evaluator.evaluate, Evaluator.evaluate]
      refine (evaluate_agrees value).bind fun _ linked => .pure ?_
      rw [linked.isEmpty]
      exact .primitive _
  | .call callee args => by
      rw [Evaluator.evaluate, Evaluator.evaluate]
      refine (Agree.function' location calls callee).bind fun _ same => ?_
      subst same
      refine (Agree.checkArgumentCount _ _).bind fun _ _ => ?_
      refine (evaluateArgs_agrees _ args).bind fun _ linked => ?_
      refine (calls.invoke _ location linked).bind fun _ result => ?_
      cases result with
      | none => exact .mismatch
      | some linked => exact .pure linked

theorem evaluateAll_agrees {world : sim.World} :
    ∀ exprs : List Expr, sim.Agree world (evaluator.evaluateAll location exprs)
      (evaluator'.evaluateAll location exprs) (fun later => List.Forall₂ (sim.values later))
  | [] => by
      rw [Evaluator.evaluateAll, Evaluator.evaluateAll]
      exact .pure .nil
  | expr :: exprs => by
      rw [Evaluator.evaluateAll, Evaluator.evaluateAll]
      refine (evaluate_agrees expr).bind fun _ linked => ?_
      exact (evaluateAll_agrees exprs).bind fun grown rest =>
        .pure (.cons (values_mono grown linked) rest)

theorem evaluateFields_agrees {world : sim.World} :
    ∀ fields : List (String × Expr), sim.Agree world (evaluator.evaluateFields location fields)
      (evaluator'.evaluateFields location fields)
      (fun later => FieldsLinked (sim.links later))
  | [] => by
      rw [Evaluator.evaluateFields, Evaluator.evaluateFields]
      exact .pure .nil
  | (name, expr) :: fields => by
      rw [Evaluator.evaluateFields, Evaluator.evaluateFields]
      refine (evaluate_agrees expr).bind fun _ linked => ?_
      exact (evaluateFields_agrees fields).bind fun grown rest =>
        .pure (.cons name (values_mono grown linked) rest)

theorem evaluateEntries_agrees {world : sim.World} :
    ∀ entries : List (Expr × Expr), sim.Agree world (evaluator.evaluateEntries location entries)
      (evaluator'.evaluateEntries location entries)
      (fun later => List.Forall₂ (sim.links later).Entry)
  | [] => by
      rw [Evaluator.evaluateEntries, Evaluator.evaluateEntries]
      exact .pure .nil
  | (key, value) :: entries => by
      rw [Evaluator.evaluateEntries, Evaluator.evaluateEntries]
      refine (evaluate_agrees key).bind fun _ keys => ?_
      refine (evaluate_agrees value).bind fun grown linked => ?_
      exact (evaluateEntries_agrees entries).bind fun grown' rest =>
        .pure (.cons ⟨values_mono grown' (values_mono grown keys), values_mono grown' linked⟩ rest)

theorem evaluateArgs_agrees {world : sim.World} :
    ∀ (params : List Param) (args : List Expr),
      sim.Agree world (evaluator.evaluateArgs location params args)
        (evaluator'.evaluateArgs location params args)
        (fun later => List.Forall₂ (sim.values later))
  | param :: params, arg :: args => by
      rw [Evaluator.evaluateArgs, Evaluator.evaluateArgs]
      refine (Agree.flowInto (evaluate_agrees arg)).bind fun _ linked => ?_
      exact (evaluateArgs_agrees params args).bind fun grown rest =>
        .pure (.cons (values_mono grown linked) rest)
  | [], _ | _ :: _, [] => by
      simp only [Evaluator.evaluateArgs]
      exact .pure .nil

end

end Simulation

end ReferenceSemantics
