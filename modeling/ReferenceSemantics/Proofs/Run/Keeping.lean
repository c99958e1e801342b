import ReferenceSemantics.Proofs.Run.Evaluation

set_option autoImplicit false

/-!
Properties of the heap that computations keep.

Evaluation adds objects to the heap, frames come and go without touching it, and an assignment
changes the content of a slot.
-/

namespace ReferenceSemantics

open Run

/-- New objects and new contents of slots leave the property alone. -/
structure Heap.Lasting (holds : Heap → Prop) : Prop where
  push : ∀ {heap : Heap} (object : HeapObject), holds heap → holds (heap.push object)
  setSlot : ∀ {heap : Heap} {address : Address} {old : Slot} (new : Slot),
    heap.get? address = some (.slot old) → holds heap → holds (heap.set address (.slot new))

namespace Heap.Lasting

variable {holds : Heap → Prop} {storage changed : Storage}

theorem gets (lasting : Lasting holds) {heap later : Heap} (gets : heap.Gets later)
    (before : holds heap) : holds later := by
  cases gets with
  | nothing => exact before
  | object object => exact lasting.push object before

theorem store (lasting : Lasting holds) {ref : SlotRef} {value : Value}
    (stored : storage.store ref value = .ok changed) (before : holds storage.heap) :
    holds changed.heap := by
  obtain ⟨slot, whole, read, -, rfl⟩ := Storage.store_eq_ok.mp stored
  rcases storage.owned_or_absent ref.address with ⟨old, ⟨owned⟩⟩ | ⟨absent, -, replaced⟩
  · rw [(owned.replaced _).2.1]
    exact before
  · rw [replaced]
    have inHeap : storage.heap.get? ref.address = some (.slot slot) := by
      simpa [Storage.objectAt?, absent] using Storage.slot_ok_iff.mp read
    exact lasting.setSlot _ inHeap before

theorem declare (lasting : Lasting holds) (name : String) (kind : Kind) (site : Option SiteId)
    (placement : Placement) (value : Value) (before : holds storage.heap) :
    holds (storage.declare name kind site placement value).2.heap := by
  let allocated := storage.allocate name kind site placement value
  have bound : (storage.declare name kind site placement value).2.heap = allocated.2.heap :=
    allocated.2.heap_modifyCurrent _
  rw [bound]
  exact lasting.gets (storage.gets_allocate name kind site placement value) before

end Heap.Lasting

namespace Run

variable {holds : Heap → Prop} {α β : Type} {location : Location}

/-- However it ends, the computation keeps the property. -/
def Keeps (holds : Heap → Prop) (run : Run α) : Prop :=
  ∀ machine, holds machine.storage.heap → holds (exec run machine).2.storage.heap

namespace Keeps

theorem of_exec {run : Run α} (keeps : Keeps holds run) {machine last : Machine}
    {result : Except Halt α} (before : holds machine.storage.heap)
    (ran : exec run machine = (result, last)) : holds last.storage.heap := by
  have after := keeps machine before
  rwa [ran] at after

theorem still {run : Run α}
    (same : ∀ machine, (exec run machine).2.storage.heap = machine.storage.heap) :
    Keeps holds run := by
  intro machine before
  rwa [same]

theorem pure (value : α) : Keeps holds (Pure.pure value : Run α) := still fun _ => rfl

theorem throw (halt : Halt) : Keeps holds (MonadExcept.throw halt : Run α) := still fun _ => rfl

theorem bind {first : Run α} {next : α → Run β} (start : Keeps holds first)
    (rest : ∀ value, Keeps holds (next value)) : Keeps holds (first >>= next) := by
  intro machine before
  have middle := start machine before
  rw [exec_bind]
  generalize exec first machine = reached at middle
  obtain ⟨result, after⟩ := reached
  cases result with
  | error halt => exact middle
  | ok value => exact rest value after middle

theorem silent {run : Run Unit} (silent : Silent run) : Keeps holds run := by
  refine still fun machine => ?_
  obtain ⟨trace, ran⟩ := silent machine
  rw [ran]

theorem read (look : Storage → Except StorageError α) : Keeps holds (Run.read location look) := by
  refine still fun machine => ?_
  rw [exec_read]
  cases look machine.storage <;> rfl

theorem lookup (name : String) : Keeps holds (Run.lookup name location) := by
  refine still fun machine => ?_
  rw [exec_lookup]
  cases machine.storage.lookup name <;> rfl

theorem allocate {change : Storage → α × Storage}
    (kept : ∀ storage, holds storage.heap → holds (change storage).2.heap) :
    Keeps holds (Run.allocate change) :=
  fun machine before => kept machine.storage before

theorem write {change : Storage → Except StorageError Storage}
    (kept : ∀ storage changed : Storage, change storage = .ok changed → holds storage.heap →
      holds changed.heap) : Keeps holds (Run.write location change) := by
  intro machine before
  rw [exec_write]
  cases made : change machine.storage with
  | ok changed => exact kept _ _ made before
  | error error => exact before

theorem update {change : Storage → Except StorageError (α × Storage)}
    (kept : ∀ storage result changed, change storage = .ok (result, changed) →
      holds storage.heap → holds changed.heap) : Keeps holds (Run.update location change) := by
  intro machine before
  rw [exec_update]
  cases made : change machine.storage with
  | ok both => exact kept _ both.1 both.2 made before
  | error error => exact before

theorem checkpoint (location : Location) : Keeps holds (Run.checkpoint location) := by
  refine still fun machine => ?_
  simp only [Run.checkpoint, exec_bind, exec_modify, exec_get]
  split <;> rfl

theorem pushFrame (function : String) (callSite : Option Location) :
    Keeps holds (Run.pushFrame function callSite) :=
  still fun _ => rfl

theorem popFrame : Keeps holds Run.popFrame :=
  still fun machine => machine.storage.heap_popFrame.1

theorem expectKind (kind : Kind) (value : Value) :
    Keeps holds (Run.expectKind location kind value) := by
  unfold Run.expectKind
  split
  · exact .pure ()
  · exact .throw _

variable (lasting : Heap.Lasting holds)

include lasting

theorem store (ref : SlotRef) (value : Value) : Keeps holds (Run.store location ref value) :=
  write fun _ _ => lasting.store

theorem declare (name : String) (kind : Kind) (site : Option SiteId) (placement : Placement)
    (value : Value) :
    Keeps holds (Run.allocate (·.declare name kind site placement value)) :=
  allocate fun _ => lasting.declare name kind site placement value

/-- What the calls in it keep, an evaluation keeps. -/
theorem evaluates {invoke : Invocation} {calls : Prop} {run : Run α}
    (evaluates : Evaluates invoke location calls run)
    (called : ∀ function args location, Keeps holds (invoke function args location)) :
    Keeps holds run := by
  induction evaluates with
  | pure value => exact .pure value
  | bind _ _ start rest => exact start.bind rest
  | fail here => exact .throw _
  | read look => exact .read look
  | lookup name => exact .lookup name
  | create _ gets => exact .allocate fun storage => lasting.gets (gets storage)
  | record plain => exact .silent (silent_record _)
  | invoke permitted function args => exact called function args _

end Keeps

end Run

end ReferenceSemantics
