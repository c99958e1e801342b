import ReferenceSemantics.Proofs.Run.Progress
import ReferenceSemantics.Proofs.Run.Quiet

set_option autoImplicit false

/-!
What is logged of allocations is so.

An allocation is logged right after it is made, with the placement that was asked for. What the log
says stays true: slots of the root frame and objects of the heap are never removed.
-/

namespace ReferenceSemantics

open Run

/-! ### What storage keeps for good -/

namespace Storage

variable {storage changed : Storage}

theorem Step.retains (step : storage.Step changed) : storage.Retains changed := by
  cases step with
  | setSlot address slot value read => exact .setSlot read value
  | setBlock address block cells read size =>
      exact .heapSet (block_eq_ok_iff.mp read) (congrArg HeapObject.Form.block size)
  | setTable address table new read => exact .heapSet (table_eq_ok_iff.mp read) rfl
  | addBlock block => exact .heapPush storage _
  | addTable table => exact .heapPush storage _
  | allocate name kind site placement value => exact .allocate storage name kind site placement value
  | declare name kind site placement value => exact .declare storage name kind site placement value
  | pushFrame function callSite => exact ⟨List.Subset.refl _, (Retains.refl storage).objects⟩
  | popFrame =>
      obtain ⟨heap, -, root⟩ := heap_popFrame storage
      refine ⟨by rw [root]; exact List.Subset.refl _, ?_⟩
      rw [heap]
      exact (Retains.refl storage).objects
  | sweep => exact .sweep storage

end Storage

theorem Run.Stepwise.retains {α : Type} (run : Run α) [Stepwise run] (machine : Machine) :
    machine.storage.Retains (exec run machine).2.storage := by
  refine preserves run (fun machine after => machine.storage.Retains after.storage)
    (fun _ => .refl _) (fun _ _ _ => .trans) ?_ machine
  intro machine after step
  cases step with
  | storage changed step => exact step.retains
  | record | tick | capture => exact .refl _

/-! ### What is logged -/

namespace Storage

/-- The slot of a global is at the address, in the root frame. -/
def HasGlobal (storage : Storage) (globals : List VarDecl) (address : Address) : Prop :=
  ∃ decl ∈ globals, ∃ slot ∈ storage.root.slots, slot.name = decl.name ∧ slot.address = address

/-- A block or a table is at the address, in the heap. -/
def HasBehind (storage : Storage) (address : Address) : Prop :=
  (∃ block, storage.heap.get? address = some (.block block)) ∨
    ∃ table, storage.heap.get? address = some (.table table)

/-- What an event says of an allocation is so. -/
def Confirms (storage : Storage) (model : Model) : TraceEvent → Prop
  | .alloc (some site) address placement =>
      model.placements.table.get? site = some placement ∧ (heapStart ≤ address ↔ placement = .heap)
  | .alloc none address placement =>
      (placement = .stack ∧ storage.HasGlobal model.globals address) ∨
        (placement = .heap ∧ storage.HasBehind address)
  | _ => True

variable {storage changed : Storage}

theorem Retains.hasGlobal (retains : storage.Retains changed) {globals : List VarDecl}
    {address : Address} (found : storage.HasGlobal globals address) :
    changed.HasGlobal globals address := by
  obtain ⟨decl, member, slot, inRoot, named, rfl⟩ := found
  obtain ⟨later, there, same⟩ := List.mem_map.mp (retains.root (List.mem_map_of_mem inRoot))
  refine ⟨decl, member, later, there, ?_, ?_⟩
  · exact (congrArg Slot.name same).trans named
  · exact (congrArg Slot.address same).trans rfl

theorem Retains.hasBehind (retains : storage.Retains changed) {address : Address}
    (found : storage.HasBehind address) : changed.HasBehind address := by
  rcases found with ⟨block, here⟩ | ⟨table, here⟩
  · obtain ⟨later, there, form⟩ := retains.objects here
    cases later with
    | block other => exact .inl ⟨other, there⟩
    | slot _ | table _ => cases form
  · obtain ⟨later, there, form⟩ := retains.objects here
    cases later with
    | table other => exact .inr ⟨other, there⟩
    | slot _ | block _ => cases form

theorem Retains.confirms (retains : storage.Retains changed) {model : Model} {event : TraceEvent}
    (confirmed : storage.Confirms model event) : changed.Confirms model event := by
  cases event with
  | alloc site address placement =>
      cases site with
      | some site => exact confirmed
      | none => exact confirmed.imp (.imp_right retains.hasGlobal) (.imp_right retains.hasBehind)
  | statement | call | fault | sweep => trivial

end Storage

/-- What the log of a machine says of allocations is so. -/
def Machine.Confirmed (machine : Machine) (model : Model) : Prop :=
  ∀ event ∈ machine.trace.events, machine.storage.Confirms model event

/-- What is logged by a computation and then by the next is so if each of them logs what is so. -/
theorem Run.confirmed_bind {α β : Type} {model : Model} {first : Run α} {next : α → Run β}
    [∀ value, Stepwise (next value)] {machine : Machine}
    (start : (exec first machine).2.storage.Fits → (exec first machine).2.Confirmed model)
    (rest : ∀ value middle, exec first machine = (.ok value, middle) →
      (exec (next value) middle).2.storage.Fits → middle.Confirmed model →
        (exec (next value) middle).2.Confirmed model)
    (fits : (exec (first >>= next) machine).2.storage.Fits) :
    (exec (first >>= next) machine).2.Confirmed model := by
  rw [exec_bind] at fits ⊢
  generalize exec first machine = last at start rest fits ⊢
  obtain ⟨result, middle⟩ := last
  cases result with
  | error halt => exact start fits
  | ok value =>
      have room : middle.storage.Fits := Stepwise.fits (next value) fits
      exact rest value middle rfl fits (start room)

/-- A computation that logs what is so, while there is room on the stack. -/
class Run.Truthful {α : Type} (model : Model) (run : Run α) : Prop where
  confirmed : ∀ machine : Machine, (exec run machine).2.storage.Fits →
    machine.Confirmed model → (exec run machine).2.Confirmed model

namespace Run.Truthful

variable {α β : Type} {model : Model}

/-- A computation all of whose events are so at its end. -/
theorem of_events {run : Run α} [Stepwise run]
    (logged : ∀ machine : Machine, ∃ events,
      (exec run machine).2.trace = machine.trace.recordAll events ∧
        ((exec run machine).2.storage.Fits →
          ∀ event ∈ events, (exec run machine).2.storage.Confirms model event)) :
    Truthful model run where
  confirmed machine fits before := by
    obtain ⟨events, trace, new⟩ := logged machine
    intro event member
    rw [trace] at member
    rcases Trace.mem_recordAll member with old | recorded
    · exact (Stepwise.retains run machine).confirms (before event old)
    · exact new fits event recorded

/-- A computation that logs nothing. -/
theorem of_untraced {run : Run α} [Stepwise run]
    (same : ∀ machine : Machine, (exec run machine).2.trace = machine.trace) :
    Truthful model run :=
  of_events fun machine => ⟨[], same machine, fun _ => List.forall_mem_nil _⟩

instance (value : α) : Truthful model (pure value : Run α) := of_untraced fun _ => rfl

instance (error : RuntimeError) : Truthful model (fail error : Run α) := of_untraced fun _ => rfl

instance (location : Location) (reason : Mismatch) :
    Truthful model (mismatch location reason : Run α) := of_untraced fun _ => rfl

instance : Truthful model (throw .callDepthExceeded : Run α) := of_untraced fun _ => rfl

theorem bind {first : Run α} {next : α → Run β} (start : Truthful model first)
    (rest : ∀ value, Truthful model (next value)) [∀ value, Stepwise (next value)] :
    Truthful model (first >>= next) where
  confirmed machine fits before :=
    confirmed_bind (fun room => start.confirmed machine room before)
      (fun value middle _ room begun => (rest value).confirmed middle room begun) fits

instance (first : Run α) (next : α → Run β) [start : Truthful model first]
    [rest : ∀ value, Truthful model (next value)] [∀ value, Stepwise (next value)] :
    Truthful model (first >>= next) :=
  start.bind rest

instance (f : α → β) (run : Run α) [Truthful model run] : Truthful model (f <$> run) := by
  rw [map_eq_pure_bind]
  infer_instance

instance (condition : Prop) [Decidable condition] (first second : Run α) [Truthful model first]
    [Truthful model second] : Truthful model (if condition then first else second) := by
  split <;> infer_instance

instance (location : Location) (look : Storage → Except StorageError α) :
    Truthful model (read location look) :=
  of_untraced fun machine => by
    rw [exec_read]
    cases look machine.storage <;> rfl

instance (name : String) (location : Location) : Truthful model (lookup name location) :=
  of_untraced fun machine => by
    rw [exec_lookup]
    cases machine.storage.lookup name <;> rfl

instance (location : Location) (ref : SlotRef) : Truthful model (load location ref) :=
  inferInstanceAs (Truthful model (read _ _))

instance (location : Location) (pointer : Value) : Truthful model (dereference location pointer) :=
  inferInstanceAs (Truthful model (read _ _))

theorem of_write {location : Location} {change : Storage → Except StorageError Storage}
    [Stepwise (write location change)] : Truthful model (write location change) :=
  of_untraced fun machine => by
    rw [exec_write]
    cases change machine.storage <;> rfl

instance (location : Location) (ref : SlotRef) (value : Value) :
    Truthful model (store location ref value) :=
  have : Stepwise (write location (·.store ref value)) :=
    inferInstanceAs (Stepwise (store location ref value))
  of_write

instance (location : Location) (header value : Value) (index : Int) :
    Truthful model (write location (·.setElement header index value)) :=
  of_write

instance (location : Location) (header key value : Value) :
    Truthful model (write location (·.tableInsert header key value)) :=
  of_write

instance (function : String) (callSite : Option Location) :
    Truthful model (pushFrame function callSite) :=
  of_untraced fun _ => rfl

instance : Truthful model popFrame := of_untraced fun _ => rfl

instance : Truthful model capture := of_untraced fun _ => rfl

theorem truthful_record {event : TraceEvent} [Stepwise (record event)]
    (so : ∀ storage : Storage, storage.Confirms model event) : Truthful model (record event) :=
  of_events fun _ => ⟨[event], rfl, fun _ => List.forall_mem_singleton.mpr (so _)⟩

instance (location : Location) : Truthful model (record (.statement location)) :=
  truthful_record fun _ => trivial

instance (unreachable : Nat) : Truthful model (record (.sweep unreachable)) :=
  truthful_record fun _ => trivial

instance (function : String) (state : CallState) : Truthful model (transition function state) :=
  of_events fun machine =>
    ⟨[.call function state (machine.storage.depth - 1)], rfl,
      fun _ => List.forall_mem_singleton.mpr trivial⟩

instance (location : Location) : Truthful model (checkpoint location) :=
  of_events fun machine => by
    simp only [checkpoint, exec_bind, exec_modify, exec_get]
    split
    · exact ⟨[], rfl, fun _ => List.forall_mem_nil _⟩
    · exact ⟨[.statement location], rfl, fun _ => List.forall_mem_singleton.mpr trivial⟩

instance (change : Storage → α × Storage) [Stepwise (allocate change)] :
    Truthful model (allocate change) :=
  of_untraced fun _ => rfl

instance : Truthful model sweep := by
  unfold sweep
  have swept : Stepwise (allocate Storage.sweep) := stepwise_allocate fun _ => .sweep
  infer_instance

instance (location : Location) (kind : Kind) (value : Value) :
    Truthful model (expectKind location kind value) := by
  unfold expectKind
  infer_instance

instance (location : Location) (kind : Kind) (expr : Expr) (evaluated : Run Value)
    [Truthful model evaluated] : Truthful model (flowInto location kind expr evaluated) := by
  unfold flowInto
  split <;> infer_instance

instance (location : Location) (value : Value) : Truthful model (followPointer location value) := by
  unfold followPointer
  infer_instance

instance (location : Location) (name : String) (value : Value) :
    Truthful model (selectField location name value) := by
  unfold selectField
  split
  · split <;> infer_instance
  · infer_instance

instance (location : Location) (base : SlotRef) (found : Value) :
    Truthful model (fieldHolder location base found) := by
  unfold fieldHolder
  split <;> infer_instance

instance (location : Location) (holder : SlotRef) (name : String) (found : Value) :
    Truthful model (fieldOf location holder name found) := by
  unfold fieldOf
  split <;> infer_instance

instance (location : Location) (base : SlotRef) (name : String) :
    Truthful model (fieldRef location base name) := by
  unfold fieldRef
  infer_instance

instance (location : Location) (callee : String) (result : Option Value) :
    Truthful model (expectResult location callee result) := by
  unfold expectResult
  split <;> infer_instance

instance (found : Option Value) (otherwise : Run Value) (next : Value → Run Value)
    [first : Truthful model otherwise] [second : ∀ value, Truthful model (next value)] :
    Truthful model (found.elim otherwise next) := by
  cases found with
  | none => exact first
  | some value => exact second value

instance (location : Location) (value : Value) : Truthful model (asInt location value) := by
  unfold asInt
  split <;> infer_instance

instance (location : Location) (function : FunctionDef) (count : Nat) :
    Truthful model (checkArgumentCount location function count) := by
  unfold checkArgumentCount
  infer_instance

instance (location : Location) (function : FunctionDef) (value : Value) :
    Truthful model (function.deliver location value) := by
  unfold FunctionDef.deliver
  split <;> infer_instance

instance (function : FunctionDef) (returned : Option Value) :
    Truthful model (function.copyOut returned) := by
  unfold FunctionDef.copyOut
  split <;> infer_instance

instance (function : FunctionDef) (returned : Option Value) :
    Truthful model (function.leave returned) := by
  unfold FunctionDef.leave
  infer_instance

end Run.Truthful

/-! ### Allocations and their events -/

namespace Storage

variable {storage changed : Storage}

theorem HasBehind.pushBlock (storage : Storage) (block : Block) :
    HasBehind { storage with heap := storage.heap.push (.block block) }
      storage.heap.nextAddress :=
  .inl ⟨block, (Heap.get?_push _ _ _).trans (if_pos rfl)⟩

theorem HasBehind.pushTable (storage : Storage) (table : Table) :
    HasBehind { storage with heap := storage.heap.push (.table table) }
      storage.heap.nextAddress :=
  .inr ⟨table, (Heap.get?_push _ _ _).trans (if_pos rfl)⟩

/-- The header of an append keeps its block or gets a new one. -/
theorem append_behind {header moved : Value} {values : List Value}
    (appended : storage.append header values = .ok (moved, changed)) :
    moved.behind? = header.behind? ∨
      ∃ address, moved.behind? = some address ∧ changed.HasBehind address := by
  cases append_eq_ok appended with
  | nothing | inPlace => exact .inl rfl
  | grown | first => exact .inr ⟨_, rfl, .pushBlock storage _⟩

/-- Slots of the heap are above the stack, and as long as it fits those of the stack below. -/
theorem allocate_region (storage : Storage) (name : String) (kind : Kind) (site : Option SiteId)
    (placement : Placement) (value : Value)
    (fits : (storage.allocate name kind site placement value).2.Fits) :
    heapStart ≤ (storage.allocate name kind site placement value).1.address ↔
      placement = .heap := by
  cases placement with
  | stack =>
      have below : storage.nextStackAddress < heapStart := Nat.lt_of_lt_of_le
        (Nat.lt_add_of_pos_right (by decide : 0 < slotSize)) fits
      exact iff_of_false (Nat.not_le.mpr below) (by decide)
  | heap => exact iff_of_true (Nat.le_add_right _ _) rfl

end Storage

namespace Model

/-- The site has the placement that the run asks for. -/
def Knows (model : Model) (site : SiteId) : Prop :=
  model.placements.table.get? site = some (model.placement site)

/-- The sites of the `new` expressions among these are known. -/
def KnowsAll (model : Model) (parts : List Expr) : Prop :=
  ∀ part ∈ parts, ∀ site, part.newSite? = some site → model.Knows site

variable {model : Model} {first second : List Expr} {expr : Expr}

theorem KnowsAll.tail (known : model.KnowsAll (expr :: first)) : model.KnowsAll first :=
  fun part member => known part (List.mem_cons_of_mem _ member)

theorem KnowsAll.left (known : model.KnowsAll (first ++ second)) : model.KnowsAll first :=
  fun part member => known part (List.mem_append_left _ member)

theorem KnowsAll.right (known : model.KnowsAll (first ++ second)) : model.KnowsAll second :=
  fun part member => known part (List.mem_append_right _ member)

end Model

namespace Run.Truthful

variable {model : Model}

theorem bind_known {site : SiteId} (known : model.Knows site) (name : String) (kind : Kind)
    (value : Value) : Truthful model (model.bind name kind site value) :=
  of_events fun machine => by
    let placement := model.placement site
    let declared := machine.storage.declare name kind (some site) placement value
    refine ⟨[.alloc (some site) declared.1.address placement], rfl, fun fits => ?_⟩
    refine List.forall_mem_singleton.mpr ⟨known, ?_⟩
    apply machine.storage.allocate_region name kind (some site) placement value
    exact Nat.le_trans (Nat.le_of_eq (Storage.nextStackAddress_modifyCurrent _ _).symm) fits

theorem allocateNew_known {evaluator : Evaluator} {site : SiteId}
    (known : evaluator.model.Knows site) (value : Value) :
    Truthful evaluator.model (evaluator.allocateNew site value) :=
  of_events fun machine => by
    let placement := evaluator.model.placement site
    let allocated := machine.storage.allocate site value.kind (some site) placement value
    refine ⟨[.alloc (some site) allocated.1.address placement], rfl, fun fits => ?_⟩
    refine List.forall_mem_singleton.mpr ⟨known, ?_⟩
    exact machine.storage.allocate_region site value.kind (some site) placement value fits

instance allocBlock (cells : List Value) (len : Nat) (zero : Value) :
    Truthful model (do
      let header ← allocate (·.allocBlock cells len zero)
      recordBehind header
      return header) :=
  of_events fun machine =>
    ⟨[.alloc none machine.storage.heap.nextAddress .heap], rfl, fun _ =>
      List.forall_mem_singleton.mpr (.inr ⟨rfl, .pushBlock machine.storage _⟩)⟩

instance allocTable (entries : List (Value × Value)) :
    Truthful model (do
      let header ← allocate (·.allocTable entries)
      recordBehind header
      return header) :=
  of_events fun machine =>
    ⟨[.alloc none machine.storage.heap.nextAddress .heap], rfl, fun _ =>
      List.forall_mem_singleton.mpr (.inr ⟨rfl, .pushTable machine.storage _⟩)⟩

instance (cells : List Value) (capacity : Option Nat) :
    Truthful model (Evaluator.allocateSlice cells capacity) := by
  unfold Evaluator.allocateSlice
  infer_instance

/-- An append that moves its header logs the new block. -/
theorem grow (location : Location) (header : Value) (values : List Value) :
    Truthful model (do
      let moved ← update location (·.append header values)
      recordMove header moved
      return moved) :=
  of_events fun machine => by
    rw [exec_bind, exec_update]
    cases appended : machine.storage.append header values with
    | error error => exact ⟨[], rfl, fun _ => List.forall_mem_nil _⟩
    | ok result =>
        obtain ⟨moved, changed⟩ := result
        unfold recordMove
        dsimp only
        by_cases same : moved.behind? = header.behind?
        · rw [if_neg (Classical.not_not.mpr same)]
          exact ⟨[], rfl, fun _ => List.forall_mem_nil _⟩
        · obtain ⟨address, behind, there⟩ := (Storage.append_behind appended).resolve_left same
          rw [if_pos same, recordBehind, behind]
          exact ⟨[.alloc none address .heap], rfl, fun _ =>
            List.forall_mem_singleton.mpr (.inr ⟨rfl, there⟩)⟩

/-- Only functions of the model are found in it. -/
theorem function_bind {α : Type} {name : String} {location : Location}
    {next : FunctionDef → Run α} (rest : ∀ function ∈ model.functions, Truthful model (next function)) :
    Truthful model (model.function name location >>= next) := by
  unfold Model.function
  cases found : model.function? name with
  | none => exact inferInstanceAs (Truthful model (fail (.undefinedFunction name location)))
  | some function => exact rest function (List.mem_reverse.mp (List.mem_of_find?_eq_some found))

end Run.Truthful

end ReferenceSemantics
