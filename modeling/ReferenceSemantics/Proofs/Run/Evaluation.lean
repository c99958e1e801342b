import ReferenceSemantics.Proofs.Run.Additions
import ReferenceSemantics.Proofs.Run.Alike

set_option autoImplicit false

/-!
How evaluation and statements are put together.

An evaluation reads storage, adds to it and calls, and it fails at the location that it was given. A
statement evaluates first. Then it makes one change, and what may fail is done before the change.
-/

namespace ReferenceSemantics

open Run

/-- A computation that evaluates something at a location. Calls are only made when they are
permitted. -/
class inductive Evaluates (invoke : Invocation) (location : Location) (calls : Prop) :
    {α : Type} → Run α → Prop where
  | pure {α : Type} (value : α) : Evaluates invoke location calls (pure value : Run α)
  | bind {α β : Type} {first : Run α} {next : α → Run β}
      (start : Evaluates invoke location calls first)
      (rest : ∀ value, Evaluates invoke location calls (next value)) :
      Evaluates invoke location calls (first >>= next)
  | fail {α : Type} {error : RuntimeError} (here : error.location = location) :
      Evaluates invoke location calls (fail error : Run α)
  | read {α : Type} (look : Storage → Except StorageError α) :
      Evaluates invoke location calls (read location look)
  | lookup (name : String) : Evaluates invoke location calls (lookup name location)
  | create {α : Type} {change : Storage → α × Storage}
      (adds : ∀ storage : Storage, storage.Adds (change storage).2)
      (gets : ∀ storage : Storage, storage.heap.Gets (change storage).2.heap) :
      Evaluates invoke location calls (allocate change)
  | record {event : TraceEvent} (plain : event.Plain) :
      Evaluates invoke location calls (record event)
  | invoke (permitted : calls) (function : FunctionDef) (args : List Value) :
      Evaluates invoke location calls (invoke function args location)

variable {invoke : Invocation} {location : Location} {calls : Prop} {α β : Type}

namespace Evaluates

attribute [instance] pure read lookup

instance (first : Run α) (next : α → Run β) [start : Evaluates invoke location calls first]
    [rest : ∀ value, Evaluates invoke location calls (next value)] :
    Evaluates invoke location calls (first >>= next) :=
  .bind start rest

instance (condition : Prop) [Decidable condition] (first second : Run α)
    [Evaluates invoke location calls first] [Evaluates invoke location calls second] :
    Evaluates invoke location calls (if condition then first else second) := by
  split <;> infer_instance

instance (reason : Mismatch) :
    Evaluates invoke location calls (mismatch location reason : Run α) :=
  .fail rfl

instance (ref : SlotRef) : Evaluates invoke location calls (load location ref) := .read _

instance (pointer : Value) : Evaluates invoke location calls (dereference location pointer) :=
  .read _

instance (cells : List Value) (len : Nat) (zero : Value) :
    Evaluates invoke location calls (allocate (·.allocBlock cells len zero)) :=
  .create (fun storage => .push storage _) fun _ => .object _

instance (entries : List (Value × Value)) :
    Evaluates invoke location calls (allocate (·.allocTable entries)) :=
  .create (fun storage => .push storage _) fun _ => .object _

instance (name : String) (kind : Kind) (site : Option SiteId) (placement : Placement)
    (value : Value) :
    Evaluates invoke location calls (allocate (·.allocate name kind site placement value)) :=
  .create (fun storage => .allocate storage name kind site placement value)
    fun storage => storage.gets_allocate name kind site placement value

instance (site : Option SiteId) (address : Address) (placement : Placement) :
    Evaluates invoke location calls (Run.record (.alloc site address placement)) :=
  .record trivial

instance (kind : Kind) (value : Value) :
    Evaluates invoke location calls (expectKind location kind value) := by
  unfold expectKind
  infer_instance

instance (header : Value) : Evaluates invoke location calls (recordBehind header) := by
  unfold recordBehind
  split <;> infer_instance

instance (header moved : Value) : Evaluates invoke location calls (recordMove header moved) := by
  unfold recordMove
  infer_instance

/-! ### Parts of evaluation -/

instance (kind : Kind) (expr : Expr) (evaluated : Run Value)
    [Evaluates invoke location calls evaluated] :
    Evaluates invoke location calls (flowInto location kind expr evaluated) := by
  unfold flowInto
  split <;> infer_instance

instance (value : Value) : Evaluates invoke location calls (followPointer location value) := by
  unfold followPointer
  infer_instance

instance (name : String) (value : Value) :
    Evaluates invoke location calls (selectField location name value) := by
  unfold selectField
  split
  · split
    · infer_instance
    · exact .fail rfl
  · infer_instance

instance (base : SlotRef) (found : Value) :
    Evaluates invoke location calls (fieldHolder location base found) := by
  unfold fieldHolder
  split <;> infer_instance

instance (holder : SlotRef) (name : String) (found : Value) :
    Evaluates invoke location calls (fieldOf location holder name found) := by
  unfold fieldOf
  split <;> infer_instance

instance (base : SlotRef) (name : String) :
    Evaluates invoke location calls (fieldRef location base name) := by
  unfold fieldRef
  infer_instance

instance (value : Value) : Evaluates invoke location calls (asInt location value) := by
  unfold asInt
  split <;> infer_instance

instance (callee : String) (result : Option Value) :
    Evaluates invoke location calls (expectResult location callee result) := by
  unfold expectResult
  split <;> infer_instance

instance (function : FunctionDef) (count : Nat) :
    Evaluates invoke location calls (checkArgumentCount location function count) := by
  unfold checkArgumentCount
  infer_instance

instance (model : Model) (name : String) :
    Evaluates invoke location calls (model.function name location) := by
  unfold Model.function
  split
  · infer_instance
  · exact .fail rfl

instance (evaluator : Evaluator) (site : SiteId) (value : Value) :
    Evaluates invoke location calls (evaluator.allocateNew site value) := by
  unfold Evaluator.allocateNew
  infer_instance

instance (cells : List Value) (capacity : Option Nat) :
    Evaluates invoke location calls (Evaluator.allocateSlice cells capacity) := by
  unfold Evaluator.allocateSlice
  infer_instance

end Evaluates

/-! ### Expressions and places -/

/-- Where something is called in the parts, calls are permitted. -/
def Permits (calls : Prop) (parts : List Expr) : Prop :=
  ∀ part ∈ parts, part.callee?.isSome → calls

theorem Permits.tail {part : Expr} {parts : List Expr} (permits : Permits calls (part :: parts)) :
    Permits calls parts :=
  (List.forall_mem_cons.mp permits).2

theorem permits_append {first second : List Expr} :
    Permits calls (first ++ second) ↔ Permits calls first ∧ Permits calls second :=
  List.forall_mem_append

namespace Evaluator

variable (model : Model) (invoke location)

/-- Calls that are permitted are evaluated. -/
theorem call_evaluates (permitted : calls) (callee : String) (args : List Expr)
    (evaluated : ∀ params, Evaluates invoke location calls
      (Evaluator.evaluateArgs ⟨model, invoke⟩ location params args)) :
    Evaluates invoke location calls (Evaluator.call ⟨model, invoke⟩ location callee args) := by
  have run (function : FunctionDef) (values : List Value) :
      Evaluates invoke location calls (invoke function values location) :=
    .invoke permitted function values
  unfold Evaluator.call
  infer_instance

mutual

theorem placeRef_evaluates : ∀ place : Place, Permits calls place.parts →
    Evaluates invoke location calls (Evaluator.placeRef ⟨model, invoke⟩ location place)
  | .var _, _ => by
      rw [placeRef]
      infer_instance
  | .field base _, permits => by
      have := placeRef_evaluates base permits
      rw [placeRef]
      infer_instance
  | .deref pointer, permits => by
      have := evaluate_evaluates pointer permits
      rw [placeRef]
      infer_instance

theorem evaluate_evaluates : ∀ expr : Expr, Permits calls expr.parts →
    Evaluates invoke location calls (Evaluator.evaluate ⟨model, invoke⟩ location expr)
  | .lit _, _ | .nil, _ | .var _, _ => by
      rw [evaluate]
      infer_instance
  | .field operand _, permits | .deref operand, permits | .new operand _, permits
  | .len operand, permits | .cap operand, permits | .reslice operand _ _, permits
  | .boxed _ operand, permits | .isNil operand, permits => by
      rw [Expr.parts] at permits
      have := evaluate_evaluates operand permits.tail
      rw [evaluate]
      infer_instance
  | .addrOf place, permits => by
      rw [Expr.parts] at permits
      have := placeRef_evaluates place permits.tail
      rw [evaluate]
      infer_instance
  | .composite _ fields, permits => by
      rw [Expr.parts] at permits
      have := evaluateFields_evaluates fields permits.tail
      rw [evaluate]
      infer_instance
  | .sliceLit elems _, permits => by
      rw [Expr.parts] at permits
      have := evaluateAll_evaluates elems permits.tail
      rw [evaluate]
      infer_instance
  | .makeSlice len cap zero, permits => by
      rw [Expr.parts] at permits
      have := evaluate_evaluates zero permits.tail
      have : Evaluates invoke location calls
          (fail (.fault (.makeLength len cap) location) : Run Value) := .fail rfl
      rw [evaluate]
      infer_instance
  | .mapLit entries, permits => by
      rw [Expr.parts] at permits
      have := evaluateEntries_evaluates entries permits.tail
      rw [evaluate]
      infer_instance
  | .index base index, permits => by
      rw [Expr.parts] at permits
      obtain ⟨first, second⟩ := permits_append.mp permits.tail
      have := evaluate_evaluates base first
      have := evaluate_evaluates index second
      rw [evaluate]
      infer_instance
  | .lookup base key default, permits => by
      rw [Expr.parts] at permits
      obtain ⟨inside, third⟩ := permits_append.mp permits.tail
      obtain ⟨first, second⟩ := permits_append.mp inside
      have := evaluate_evaluates base first
      have := evaluate_evaluates key second
      have (found : Option Value) : Evaluates invoke location calls
          (found.elim (Evaluator.evaluate ⟨model, invoke⟩ location default) Pure.pure) := by
        cases found with
        | none => exact evaluate_evaluates default third
        | some value => exact .pure value
      rw [evaluate]
      infer_instance
  | .call callee args, permits => by
      rw [Expr.parts] at permits
      have permitted : calls := permits _ (List.mem_cons_self ..) rfl
      have := call_evaluates invoke location model permitted callee args fun params =>
        evaluateArgs_evaluates params args permits.tail
      rw [evaluate_call]
      infer_instance

theorem evaluateAll_evaluates : ∀ exprs : List Expr, Permits calls (partsOfExprs exprs) →
    Evaluates invoke location calls (Evaluator.evaluateAll ⟨model, invoke⟩ location exprs)
  | [], _ => by
      rw [evaluateAll]
      infer_instance
  | expr :: exprs, permits => by
      rw [partsOfExprs] at permits
      obtain ⟨first, rest⟩ := permits_append.mp permits
      have := evaluate_evaluates expr first
      have := evaluateAll_evaluates exprs rest
      rw [evaluateAll]
      infer_instance

theorem evaluateFields_evaluates :
    ∀ fields : List (String × Expr), Permits calls (partsOfFields fields) →
      Evaluates invoke location calls (Evaluator.evaluateFields ⟨model, invoke⟩ location fields)
  | [], _ => by
      rw [evaluateFields]
      infer_instance
  | (_, expr) :: fields, permits => by
      rw [partsOfFields] at permits
      obtain ⟨first, rest⟩ := permits_append.mp permits
      have := evaluate_evaluates expr first
      have := evaluateFields_evaluates fields rest
      rw [evaluateFields]
      infer_instance

theorem evaluateEntries_evaluates :
    ∀ entries : List (Expr × Expr), Permits calls (partsOfEntries entries) →
      Evaluates invoke location calls (Evaluator.evaluateEntries ⟨model, invoke⟩ location entries)
  | [], _ => by
      rw [evaluateEntries]
      infer_instance
  | (key, value) :: entries, permits => by
      rw [partsOfEntries] at permits
      obtain ⟨both, rest⟩ := permits_append.mp permits
      obtain ⟨first, second⟩ := permits_append.mp both
      have := evaluate_evaluates key first
      have := evaluate_evaluates value second
      have := evaluateEntries_evaluates entries rest
      rw [evaluateEntries]
      infer_instance

theorem evaluateArgs_evaluates : ∀ (params : List Param) (args : List Expr),
    Permits calls (partsOfExprs args) →
      Evaluates invoke location calls
        (Evaluator.evaluateArgs ⟨model, invoke⟩ location params args)
  | param :: params, arg :: args, permits => by
      rw [partsOfExprs] at permits
      obtain ⟨first, rest⟩ := permits_append.mp permits
      have := evaluate_evaluates arg first
      have := evaluateArgs_evaluates params args rest
      rw [evaluateArgs]
      infer_instance
  | [], _, _ | _ :: _, [], _ => by
      simp only [evaluateArgs]
      infer_instance

end

/-! ### Statements -/

variable {invoke location}

instance evaluateFor_evaluates (kind : Kind) (expr : Expr)
    [evaluated : Evaluates invoke location calls
      (Evaluator.evaluate ⟨model, invoke⟩ location expr)] :
    Evaluates invoke location calls (Evaluator.evaluateFor ⟨model, invoke⟩ location kind expr) := by
  unfold evaluateFor
  infer_instance

theorem evaluateDecl_evaluates {decl : VarDecl} (permits : Permits calls decl.parts) :
    Evaluates invoke location calls (Evaluator.evaluateDecl ⟨model, invoke⟩ location decl) := by
  unfold evaluateDecl
  dsimp only
  rw [VarDecl.parts] at permits
  split
  next init same =>
    rw [same] at permits
    have := evaluate_evaluates invoke location model init permits
    infer_instance
  next => infer_instance

instance evaluateElement_evaluates (kind : Option Kind) (expr : Expr)
    [evaluated : Evaluates invoke location calls
      (Evaluator.evaluate ⟨model, invoke⟩ location expr)] :
    Evaluates invoke location calls
      (Evaluator.evaluateElement ⟨model, invoke⟩ location kind expr) := by
  unfold evaluateElement
  split <;> infer_instance

theorem evaluateElements_evaluates (kind : Option Kind) :
    ∀ exprs : List Expr, Permits calls (partsOfExprs exprs) →
      Evaluates invoke location calls
        (Evaluator.evaluateElements ⟨model, invoke⟩ location kind exprs)
  | [], _ => by
      rw [evaluateElements]
      infer_instance
  | expr :: exprs, permits => by
      rw [partsOfExprs] at permits
      obtain ⟨first, rest⟩ := permits_append.mp permits
      have := evaluate_evaluates invoke location model expr first
      have := evaluateElements_evaluates kind exprs rest
      rw [evaluateElements]
      infer_instance

theorem appendOperands_evaluates {target : Place} {values : List Expr}
    (permits : Permits calls (target.parts ++ partsOfExprs values)) :
    Evaluates invoke location calls
      (Evaluator.appendOperands ⟨model, invoke⟩ location target values) := by
  obtain ⟨first, rest⟩ := permits_append.mp permits
  have := placeRef_evaluates invoke location model target first
  have (kind : Option Kind) : Evaluates invoke location calls
      (Evaluator.evaluateElements ⟨model, invoke⟩ location kind values) :=
    evaluateElements_evaluates model kind values rest
  unfold appendOperands
  infer_instance

end Evaluator

theorem Storage.edits_store {storage changed : Storage} {ref : SlotRef} {value : Value}
    (stored : storage.store ref value = .ok changed) : storage.Edits changed := by
  obtain ⟨slot, whole, read, -, rfl⟩ := store_eq_ok.mp stored
  exact edits_setSlot read whole

/-- A computation that evaluates and then makes at most one change: it writes, declares or
appends. -/
inductive Settles (evaluator : Evaluator) (location : Location) (calls : Prop) :
    {α : Type} → Run α → Prop where
  | evaluates {α : Type} {run : Run α} (whole : Evaluates evaluator.invoke location calls run) :
      Settles evaluator location calls run
  | after {α β : Type} {first : Run α} {next : α → Run β}
      (start : Evaluates evaluator.invoke location calls first)
      (rest : ∀ value, Settles evaluator location calls (next value)) :
      Settles evaluator location calls (first >>= next)
  | finish {α β : Type} {first : Run α} (start : Settles evaluator location calls first)
      (f : α → β) : Settles evaluator location calls (first >>= fun value => pure (f value))
  | write {change : Storage → Except StorageError Storage}
      (kept : ∀ storage changed : Storage, change storage = .ok changed →
        storage.Edits changed) :
      Settles evaluator location calls (write location change)
  | declare (name : String) (kind : Kind) (site : Option SiteId) (placement : Placement)
      (value : Value) :
      Settles evaluator location calls (do
        let ref ← allocate (·.declare name kind site placement value)
        record (.alloc site ref.address placement))
  | append {target : Place} {values : List Expr}
      (permits : Permits calls (target.parts ++ partsOfExprs values)) :
      Settles evaluator location calls (evaluator.append location target values)

namespace Settles

variable {evaluator : Evaluator}

theorem store (ref : SlotRef) (value : Value) :
    Settles evaluator location calls (store location ref value) :=
  .write fun _ _ => Storage.edits_store

theorem setElement (header value : Value) (index : Int) :
    Settles evaluator location calls (Run.write location (·.setElement header index value)) :=
  .write fun storage changed stored => by
    obtain ⟨address, cell, block, -, read, -, rfl⟩ := Storage.setElement_eq_ok.mp stored
    refine ⟨.heapSet (Storage.block_eq_ok_iff.mp read) ?_, rfl⟩
    exact congrArg HeapObject.Form.block List.length_set

theorem tableInsert (header key value : Value) :
    Settles evaluator location calls (Run.write location (·.tableInsert header key value)) :=
  .write fun storage changed stored => by
    obtain ⟨address, table, -, read, rfl⟩ := Storage.tableInsert_eq_ok.mp stored
    exact ⟨.heapSet (Storage.table_eq_ok_iff.mp read) rfl, rfl⟩

end Settles

namespace Evaluator

variable {model : Model}

theorem overwrite_settles (ref : SlotRef) (kind : Kind) {value : Expr}
    (permits : Permits calls value.parts) :
    Settles ⟨model, invoke⟩ location calls
      (Evaluator.overwrite ⟨model, invoke⟩ location ref kind value) := by
  have := evaluate_evaluates invoke location model value permits
  unfold overwrite
  refine .after (evaluateFor_evaluates model kind value) fun value => ?_
  exact .after inferInstance fun _ => .store ref value

theorem returnValue_settles (function : FunctionDef) {value : Expr}
    (permits : Permits calls value.parts) :
    Settles ⟨model, invoke⟩ location calls
      (Evaluator.returnValue ⟨model, invoke⟩ function location value) := by
  have := evaluate_evaluates invoke location model value permits
  unfold returnValue FunctionDef.deliver
  refine .after (evaluateFor_evaluates model _ value) fun value => ?_
  refine .after inferInstance fun _ => ?_
  split
  · exact .evaluates inferInstance
  · refine .after inferInstance fun ref => ?_
    exact .finish (.store ref value) fun _ => none

/-- Every statement evaluates, and then makes at most one change. -/
theorem execute_settles (function : FunctionDef) {stmt : Stmt} (permits : Permits calls stmt.parts)
    (called : ∀ callee args, stmt = .call callee args → calls) :
    Settles ⟨model, invoke⟩ location calls
      (Evaluator.execute ⟨model, invoke⟩ function location stmt) := by
  cases stmt with
  | declare decl =>
      rw [execute]
      refine .after (evaluateDecl_evaluates model permits) fun value => ?_
      exact .finish (.declare _ _ _ _ _) fun _ => Flow.next
  | assign target value =>
      rw [execute]
      refine .after inferInstance fun ref => .after inferInstance fun slot => ?_
      exact .finish (overwrite_settles ref slot.kind permits) fun _ => Flow.next
  | setField target name value =>
      obtain ⟨first, second⟩ := permits_append.mp permits
      rw [execute]
      refine .after (placeRef_evaluates invoke location model target first) fun base => ?_
      refine .after inferInstance fun ref => .after inferInstance fun old => ?_
      exact .finish (overwrite_settles ref old.kind second) fun _ => Flow.next
  | store pointer value =>
      obtain ⟨first, second⟩ := permits_append.mp permits
      rw [execute]
      refine .after (evaluate_evaluates invoke location model pointer first) fun found => ?_
      refine .after inferInstance fun ref => .after inferInstance fun old => ?_
      exact .finish (overwrite_settles ref old.kind second) fun _ => Flow.next
  | setIndex target index value =>
      obtain ⟨inside, third⟩ := permits_append.mp permits
      obtain ⟨first, second⟩ := permits_append.mp inside
      have := evaluate_evaluates invoke location model value third
      rw [execute]
      refine .after (placeRef_evaluates invoke location model target first) fun ref => ?_
      refine .after inferInstance fun header => ?_
      refine .after (evaluate_evaluates invoke location model index second) fun found => ?_
      refine .after inferInstance fun index => .after inferInstance fun old => ?_
      refine .after (evaluateFor_evaluates model old.kind value) fun value => ?_
      exact .finish (.setElement header value index) fun _ => Flow.next
  | setKey target key value =>
      obtain ⟨inside, third⟩ := permits_append.mp permits
      obtain ⟨first, second⟩ := permits_append.mp inside
      have := evaluate_evaluates invoke location model value third
      rw [execute]
      refine .after (placeRef_evaluates invoke location model target first) fun ref => ?_
      refine .after inferInstance fun header => ?_
      refine .after (evaluate_evaluates invoke location model key second) fun key => ?_
      refine .after inferInstance fun kind => ?_
      refine .after (evaluateElement_evaluates model kind value) fun value => ?_
      exact .finish (.tableInsert header key value) fun _ => Flow.next
  | append target values =>
      rw [execute]
      exact .finish (.append permits) fun _ => Flow.next
  | call callee args =>
      rw [execute]
      have := call_evaluates invoke location model (called callee args rfl) callee args
        fun params => evaluateArgs_evaluates invoke location model params args permits
      exact .evaluates inferInstance
  | ret value =>
      cases value with
      | none =>
          rw [execute]
          exact .evaluates inferInstance
      | some value =>
          rw [execute, map_eq_pure_bind]
          exact .finish (returnValue_settles function permits) Flow.returned

theorem declareGlobal_settles {decl : VarDecl} (permits : Permits calls decl.parts) :
    Settles ⟨model, invoke⟩ location calls
      (Evaluator.declareGlobal ⟨model, invoke⟩ location decl) := by
  unfold declareGlobal
  exact .after (evaluateDecl_evaluates model permits) fun value => .declare _ _ _ _ value

end Evaluator

end ReferenceSemantics
