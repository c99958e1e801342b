import ReferenceSemantics.Proofs.Run.Progress
import ReferenceSemantics.Proofs.Storage.Spare

set_option autoImplicit false

/-!
Zero values in runs.

A check of kinds, and an access to a field, end for the zero of a value as they end for the value. A
pointer has the empty one for its zero, and to follow that is a nil dereference. So the spare cells of
slices do no harm: those of a literal, and those that the first append to an empty header makes.
-/

namespace ReferenceSemantics

open Run

variable {location : Location} {name : String} {value : Value}

/-! ### Reading zeros -/

theorem expectKind_zeroLike (location : Location) (kind : Kind) (value : Value) :
    expectKind location kind value.zeroLike = expectKind location kind value := by
  rw [expectKind, expectKind, Value.kind_zeroLike, Value.shape_zeroLike]

theorem selectField_zeroLike (location : Location) (name : String) (value : Value) :
    selectField location name value.zeroLike =
      Value.zeroLike <$> selectField location name value := by
  cases value with
  | composite typeName fields =>
      rw [Value.zeroLike, selectField, selectField, Value.lookup_zeroFields]
      cases fields.lookup name <;> rfl
  | _ => rw [Value.zeroLike]; rfl

theorem followPointer_of_not_isPointer (location : Location) (other : value.isPointer = false) :
    followPointer location value = pure value := by
  rw [followPointer, other]
  rfl

/-- A field of the zero is the zero of the field, unless a pointer would have to be followed. -/
theorem accessField_zeroLike (location : Location) (name : String) (value : Value) :
    (followPointer location value.zeroLike >>= selectField location name) =
      if value.isPointer then fail (.fault .nilDereference location)
      else Value.zeroLike <$> (followPointer location value >>= selectField location name) := by
  have same : value.zeroLike.isPointer = value.isPointer := by
    cases value <;> rw [Value.zeroLike] <;> rfl
  cases pointer : value.isPointer with
  | true =>
      cases value with
      | pointer target => rw [Value.zeroLike]; rfl
      | _ => cases pointer
  | false =>
      rw [followPointer_of_not_isPointer location (same.trans pointer),
        followPointer_of_not_isPointer location pointer, pure_bind, pure_bind,
        selectField_zeroLike]
      rfl

/-! ### Making spare capacity -/

/-- A literal is a block of its elements, with spare cells up to its capacity. -/
theorem Evaluator.sliceLit_sparesLike (evaluator : Evaluator) {elems : List Expr}
    {machine reached : Machine} {first : Value} {rest : List Value} (capacity : Option Nat)
    (evaluated :
      exec (evaluator.evaluateAll location elems) machine = (.ok (first :: rest), reached)) :
    ∃ header after,
      exec (evaluator.evaluate location (.sliceLit elems capacity)) machine =
          (.ok header, after) ∧
        after.storage.SparesLike header (rest.length + 1)
          (capacity.getD (rest.length + 1) - (rest.length + 1)) first rest := by
  rw [evaluate, exec_bind_ok _ evaluated]
  exact ⟨_, _, rfl, reached.storage.sparesLike_allocBlock first rest (Nat.le_max_left ..)⟩

/-- Zero values are inert and keep the form of what they are zeros of. They pass and fail the same
checks of kinds, and their fields are the zeros of the fields. So spare capacity that is made for the
first element of a literal, or for the first value appended to an empty header, does not lead to an
object and has the form of that value, in every machine that later steps lead to, and in the blocks
that grow from the one that was made. -/
theorem zeros_inert :
    (∀ value : Value, value.ZeroOf value.zeroLike) ∧
      (∀ (value : Value) (location : Location),
        (∀ kind, expectKind location kind value.zeroLike = expectKind location kind value) ∧
        ∀ name, (followPointer location value.zeroLike >>= selectField location name) =
          if value.isPointer then fail (.fault .nilDereference location)
          else Value.zeroLike <$> (followPointer location value >>= selectField location name)) ∧
      (∀ (evaluator : Evaluator) (location : Location) (elems : List Expr) (capacity : Option Nat)
          (machine reached : Machine) (first : Value) (rest : List Value),
        exec (evaluator.evaluateAll location elems) machine = (.ok (first :: rest), reached) →
          ∃ header after,
            exec (evaluator.evaluate location (.sliceLit elems capacity)) machine =
                (.ok header, after) ∧
              after.storage.SparesLike header (rest.length + 1)
                (capacity.getD (rest.length + 1) - (rest.length + 1)) first rest) ∧
      (∀ (storage : Storage) (len cap offset : Nat) (first : Value) (rest : List Value),
        ∃ header changed,
          storage.append (.referenceHeader len cap offset none) (first :: rest) =
              .ok (header, changed) ∧
            changed.SparesLike header (len + (rest.length + 1))
              (max (len + (rest.length + 1)) (cap * 2) - (rest.length + 1)) first rest) ∧
      ∀ (machine later : Machine) (address : Address), machine.Steps later →
        machine.storage.Descends address later.storage address :=
  ⟨Value.zeroOf_zeroLike,
    fun value location => ⟨fun kind => expectKind_zeroLike location kind value,
      fun name => accessField_zeroLike location name value⟩,
    fun evaluator _ _ capacity _ _ _ _ evaluated =>
      evaluator.sliceLit_sparesLike capacity evaluated,
    Storage.append_none_sparesLike, fun _ _ address steps => Storage.descends_of_steps steps address⟩

/-- A machine with a slot in the heap. -/
def sparingMachine : Machine :=
  { Machine.new 100 with storage := (Storage.empty.declare "y" .value none .heap (.int 7)).2 }

def sparingEvaluator : Evaluator := (Model.new ⟨[], []⟩ .default).evaluator

/-- An element that points to the slot. -/
def sparedExpr : Expr := .composite "P" [("x", .lit (.int 1)), ("at", .addrOf (.var "y"))]

def sparedValue : Value :=
  .composite "P" [("x", .int 1), ("at", .pointerTo (.ofAddress heapStart))]

/-- The machine after a literal with one spare cell. -/
def sparedMachine : Machine :=
  (exec (sparingEvaluator.evaluate ⟨"main", 0⟩ (.sliceLit [sparedExpr] (some 2))) sparingMachine).2

/-- Two more values than the literal has need a new block, which has a spare cell as well; the zero
of the first element is read from it. -/
theorem zeros_inert_grown :
    let header : Value := .referenceHeader 1 2 0 (some (heapStart + 8))
    let grown := exec (update ⟨"main", 0⟩ (·.append header [.int 5, .int 6])) sparedMachine
    exec (sparingEvaluator.evaluate ⟨"main", 0⟩ (.sliceLit [sparedExpr] (some 2)))
        sparingMachine = (.ok header, sparedMachine) ∧
      grown.1 = .ok (.referenceHeader 3 4 0 (some (heapStart + 16))) ∧
      grown.2.storage.SpareLike (heapStart + 8) sparedValue ∧
      grown.2.storage.SpareLike (heapStart + 16) sparedValue ∧
      grown.2.storage.element (.referenceHeader 1 1 3 (some (heapStart + 16))) 0 =
        .ok (.composite "P" [("x", .int 0), ("at", .nilPointer)]) := by
  intro header grown
  obtain ⟨-, -, literal, -, onward⟩ := zeros_inert
  have evaluated : exec (sparingEvaluator.evaluateAll ⟨"main", 0⟩ [sparedExpr]) sparingMachine =
      (.ok [sparedValue], sparingMachine) := rfl
  have computed : exec (sparingEvaluator.evaluate ⟨"main", 0⟩ (.sliceLit [sparedExpr] (some 2)))
      sparingMachine = (.ok header, sparedMachine) := rfl
  obtain ⟨made, after, ran, spares⟩ := literal _ _ _ (some 2) _ _ _ _ evaluated
  obtain ⟨same, rfl⟩ := Prod.mk.inj (ran.symm.trans computed)
  obtain rfl := Except.ok.inj same
  have appended : sparedMachine.storage.append header [.int 5, .int 6] =
      .ok (.referenceHeader 3 4 0 (some (heapStart + 16)), grown.2.storage) := rfl
  have kept := onward _ grown.2 (heapStart + 8) (Run.steps _ sparedMachine)
  exact ⟨computed, rfl, spares.lasts _ _ _ rfl kept,
    spares.lasts _ _ _ rfl (.append .same appended rfl), rfl⟩

end ReferenceSemantics
