import ReferenceSemantics.Proofs.Reference.Confined
import ReferenceSemantics.Proofs.Run.Simulation.Program

set_option autoImplicit false

/-!
A run beside itself: what it may hold and touch.

A model simulates itself on confined storage. Related values are the same value, well referenced and
with admitted addresses only, so the simulation says of a single run that it stays confined.
-/

namespace ReferenceSemantics

namespace Storage

variable {start storage : Storage} {below : Nat} {admitted : Address → Prop}

/-- Addresses, links and the number of frames are carried over to later storage. -/
structure Carries (storage later : Storage) : Prop where
  keeps : storage.Keeps later
  frames : later.frames.length = storage.frames.length

theorem Carries.refl (storage : Storage) : storage.Carries storage := ⟨.refl storage, rfl⟩

theorem Carries.trans {first second third : Storage} (before : first.Carries second)
    (after : second.Carries third) : first.Carries third :=
  ⟨before.keeps.trans after.keeps, after.frames.trans before.frames⟩

theorem Carries.inCall {later : Storage} (carries : storage.Carries later) :
    storage.InCall ↔ later.InCall := by
  rw [inCall_iff, inCall_iff, carries.frames]

theorem slotAddress_of_objectAt? (coherent : storage.Coherent) {address : Address} {slot : Slot}
    (found : storage.objectAt? address = some (.slot slot)) : storage.SlotAddress address := by
  rcases coherent.region found with ⟨handedOut, -⟩ | ⟨-, -, inHeap⟩
  · exact .inl handedOut
  · exact .inr ⟨slot, inHeap⟩

/-- At an address of a slot the slot lives, or it is gone. -/
theorem slot_of_slotAddress (coherent : storage.Coherent) {address : Address}
    (handedOut : storage.SlotAddress address) :
    (∃ slot, storage.objectAt? address = some (.slot slot)) ∨
      (storage.objectAt? address = none ∧ storage.slot address = .error (.dangling address)) := by
  rcases handedOut with handedOut | ⟨slot, found⟩
  · have low := coherent.stack_below handedOut
    rw [slot_eq, Coherent.objectAt?_stack storage low]
    cases storage.stackSlot? address with
    | none => exact .inr ⟨rfl, if_pos low⟩
    | some slot => exact .inl ⟨slot, rfl⟩
  · have inHeap := (Heap.lt_nextAddress_of_get? found).1
    exact .inl ⟨slot, (coherent.objectAt?_heap inHeap).trans found⟩

theorem blocks_iff {cells : Nat} {block block' : Block} :
    (storage.validLinks admitted).Blocks cells block block' ↔
      block = block' ∧ block.cells.length = cells ∧
        ∀ value ∈ (HeapObject.block block).contents, storage.Admits admitted value := by
  refine ⟨?_, ?_⟩
  · rintro ⟨size, linked, zeros⟩
    obtain ⟨sameCells, valid⟩ := forall₂_linked_iff.mp linked
    obtain ⟨sameZero, validZero⟩ := linked_iff.mp zeros
    refine ⟨?_, size, List.forall_mem_cons.mpr ⟨validZero, valid⟩⟩
    cases block
    cases block'
    exact congr (congrArg Block.mk sameCells) sameZero
  · rintro ⟨rfl, size, valid⟩
    obtain ⟨validZero, valid⟩ := List.forall_mem_cons.mp valid
    exact ⟨size, forall₂_linked_iff.mpr ⟨rfl, valid⟩, linked_iff.mpr ⟨rfl, validZero⟩⟩

theorem entries_iff {entries entries' : List (Value × Value)} :
    List.Forall₂ (storage.validLinks admitted).Entry entries entries' ↔
      entries = entries' ∧
        ∀ value ∈ (HeapObject.table ⟨entries⟩).contents, storage.Admits admitted value := by
  simp only [HeapObject.contents]
  induction entries generalizing entries' with
  | nil => simp [eq_comm]
  | cons entry entries inductionHypothesis =>
      obtain ⟨key, value⟩ := entry
      rw [List.forall₂_cons_left_iff]
      simp only [List.flatMap_cons, List.cons_append, List.nil_append, List.forall_mem_cons]
      refine ⟨?_, ?_⟩
      · rintro ⟨⟨key', value'⟩, others, ⟨keys, values⟩, rest, rfl⟩
        obtain ⟨sameKey, validKey⟩ := linked_iff.mp keys
        obtain ⟨sameValue, validValue⟩ := linked_iff.mp values
        obtain ⟨rfl, valid⟩ := inductionHypothesis.mp rest
        dsimp only at sameKey sameValue
        subst sameKey sameValue
        exact ⟨rfl, validKey, validValue, valid⟩
      · rintro ⟨rfl, validKey, validValue, valid⟩
        exact ⟨(key, value), entries, ⟨linked_iff.mpr ⟨rfl, validKey⟩,
          linked_iff.mpr ⟨rfl, validValue⟩⟩, inductionHypothesis.mpr ⟨rfl, valid⟩, rfl⟩

theorem tables_iff {table table' : Table} :
    (storage.validLinks admitted).Tables table table' ↔
      table = table' ∧
        ∀ value ∈ (HeapObject.table table).contents, storage.Admits admitted value := by
  obtain ⟨entries⟩ := table
  obtain ⟨entries'⟩ := table'
  rw [Links.Tables, entries_iff, Table.mk.injEq]

namespace Confined

theorem lookup (confined : Confined start below admitted storage) (name : String) :
    Option.Rel (storage.validLinks admitted).Ref (storage.lookup name) (storage.lookup name) := by
  cases found : storage.lookup name with
  | none => exact .none
  | some ref =>
      refine .some ⟨rfl, rfl, ?_, ?_⟩
      all_goals
        rw [Storage.lookup, Option.map_eq_some_iff] at found
        obtain ⟨address, found, rfl⟩ := found
        unfold SlotRef.ofAddress
      · rcases Option.or_eq_some_iff.mp found with inCurrent | ⟨-, inRoot⟩
        · exact confined.current_within.2 _ (Frame.mem_of_lookup inCurrent)
        · exact confined.rootBound _ (Frame.mem_of_lookup inRoot)
      · have coherent := confined.sound.coherent
        rcases Option.or_eq_some_iff.mp found with inCurrent | ⟨-, inRoot⟩
        · obtain ⟨⟨slot, present⟩, -⟩ := coherent.bound _ storage.current_mem_frames _
            (Frame.mem_of_lookup inCurrent)
          exact slotAddress_of_objectAt? coherent present
        · obtain ⟨⟨slot, present⟩, -⟩ := coherent.bound storage.root (List.mem_cons_self ..) _
            (Frame.mem_of_lookup inRoot)
          exact slotAddress_of_objectAt? coherent present

/-- A write of the same form at an admitted address. -/
theorem written {changed : Storage} {address : Address} {old object : HeapObject}
    (confined : Confined start below admitted storage) (known : admitted address)
    (rewrites : storage.Rewrites changed address object)
    (found : storage.objectAt? address = some old) (form : object.form = old.form)
    (valid : ∀ value ∈ object.contents, storage.Admits admitted value) :
    storage.Carries changed ∧ Confined start below admitted changed := by
  refine ⟨⟨rewrites.keeps confined.sound.coherent found form, ?_⟩,
    confined.rewrites known rewrites found form valid⟩
  have size := congrArg List.length rewrites.outline
  simpa [outline] using size

theorem added (confined : Confined start below admitted storage)
    (fresh : ∀ address, start.objectAt? address = none → admitted address)
    (object : HeapObject) (valid : ∀ value ∈ object.contents, storage.Admits admitted value) :
    let changed := { storage with heap := storage.heap.push object }
    storage.Carries changed ∧ admitted storage.heap.nextAddress ∧
      changed.heap.get? storage.heap.nextAddress = some object ∧
      Confined start below admitted changed := by
  have extended := confined.sound.coherent.extends_push object
  refine ⟨⟨extended.keeps confined.sound.coherent, rfl⟩,
    confined.admitted_of_fresh fresh extended.fresh, ?_, confined.extended fresh extended valid⟩
  rw [Heap.get?_push, if_pos rfl]

/-- What a call starts from, and what is known after its frame is popped. -/
theorem called (confined : Confined start below admitted storage) (function : String)
    (callSite : Option Location) :
    let pushed := storage.pushFrame function callSite
    (storage.validLinks admitted).Le (pushed.validLinks admitted) ∧ pushed.InCall ∧
      Confined start below admitted pushed ∧
      ∀ {last : Storage}, pushed.Carries last → Confined start below admitted last →
        storage.Carries last.popFrame ∧
          (last.validLinks admitted).Le (last.popFrame.validLinks admitted) ∧
          Confined start below admitted last.popFrame := by
  intro pushed
  have deeper := confined.deeper
  refine ⟨(keeps_pushFrame _ function callSite).links admitted, ?_,
    confined.pushFrame function callSite, ?_⟩
  · rw [inCall_iff, frames_pushFrame, List.length_append]
    exact Nat.lt_add_of_pos_left (by omega)
  · intro last carries inside
    have frames := carries.frames
    rw [frames_pushFrame, List.length_append, List.length_singleton] at frames
    refine ⟨⟨?_, ?_⟩, (keeps_popFrame _).links admitted, inside.popFrame (by omega)⟩
    · exact ((keeps_pushFrame _ function callSite).trans carries.keeps).trans (keeps_popFrame _)
    · rw [frames_popFrame (inCall_iff.mpr (by omega)), List.length_dropLast, frames]
      omega

end Confined

end Storage

open Storage

/-- The simulation of a model by itself on confined storage. The ends in `isOpen` are left open. -/
def confinement (model : Model) (start : Storage) (below : Nat) (admitted : Address → Prop)
    (fresh : ∀ address, start.objectAt? address = none → admitted address)
    (isOpen : Halt → Prop) : ProgramSimulation where
  left := model
  right := model
  World := Storage
  Le := Carries
  links world := world.validLinks admitted
  storages world storage storage' :=
    storage = world ∧ storage' = world ∧ Confined start below admitted world
  InCall := InCall
  finals _ _ _ := True
  Open := isOpen
  functions := rfl
  globals := rfl
  entry := rfl
  le_refl := .refl
  le_trans := .trans
  links_mono carries := carries.keeps.links admitted
  inCall_mono := Carries.inCall
  finals_mono _ _ := trivial
  biUnique _ := (validLinks_diagonal _ _).biUnique
  lookup := by
    rintro world _ _ name ⟨rfl, rfl, confined⟩
    exact confined.lookup name
  readSlot := by
    rintro world _ _ address _ ⟨rfl, rfl, confined⟩ ⟨rfl, known, handedOut⟩
    rcases slot_of_slotAddress confined.sound.coherent handedOut with ⟨slot, found⟩ | ⟨-, gone⟩
    · have read := slot_ok_iff.mpr found
      refine .inl ⟨slot, slot, read, read, rfl, linked_iff.mpr ⟨rfl, ?_⟩⟩
      exact confined.admits known found slot.value (List.mem_singleton.mpr rfl)
    · exact .inr ⟨address, gone, .inr gone⟩
  writeSlot := by
    rintro world _ _ address _ slot slot' value value' ⟨rfl, rfl, confined⟩ ⟨rfl, known, -⟩ read
      read' linked
    obtain rfl := Except.ok.inj (read.symm.trans read')
    obtain ⟨rfl, valid⟩ := linked_iff.mp linked
    obtain ⟨carries, confined⟩ := confined.written known (rewrites_setSlot read value)
      (slot_ok_iff.mp read) rfl (by simpa [HeapObject.contents] using valid)
    exact ⟨_, carries, rfl, rfl, confined⟩
  readBlock := by
    rintro world _ _ address _ cells ⟨rfl, rfl, confined⟩ ⟨rfl, known, block, found, size⟩
    have read := block_eq_ok_iff.mpr found
    refine ⟨block, block, read, read, blocks_iff.mpr ⟨rfl, size, ?_⟩⟩
    exact confined.admits known (confined.sound.coherent.objectAt?_of_get? found)
  writeBlock := by
    rintro world _ _ address _ cells block block' ⟨rfl, rfl, confined⟩
      ⟨rfl, known, old, found, size⟩ blocks
    obtain ⟨rfl, size', valid⟩ := blocks_iff.mp blocks
    have present := confined.sound.coherent.objectAt?_of_get? found
    obtain ⟨carries, confined⟩ := confined.written known
      (rewrites_heapSet present (by simp) (.block block)) present (congrArg HeapObject.Form.block (size'.trans size.symm)) valid
    exact ⟨_, carries, rfl, rfl, confined⟩
  readTable := by
    rintro world _ _ address _ ⟨rfl, rfl, confined⟩ ⟨rfl, known, table, found⟩
    have read := table_eq_ok_iff.mpr found
    refine ⟨table, table, read, read, tables_iff.mpr ⟨rfl, ?_⟩⟩
    exact confined.admits known (confined.sound.coherent.objectAt?_of_get? found)
  writeTable := by
    rintro world _ _ address _ table table' ⟨rfl, rfl, confined⟩ ⟨rfl, known, old, found⟩ tables
    obtain ⟨rfl, valid⟩ := tables_iff.mp tables
    have present := confined.sound.coherent.objectAt?_of_get? found
    obtain ⟨carries, confined⟩ := confined.written known
      (rewrites_heapSet present (by simp) (.table table)) present rfl valid
    exact ⟨_, carries, rfl, rfl, confined⟩
  addBlock := by
    rintro world _ _ block block' ⟨rfl, rfl, confined⟩ blocks
    obtain ⟨rfl, -, valid⟩ := blocks_iff.mp blocks
    obtain ⟨carries, known, found, confined⟩ := confined.added fresh (.block _) valid
    exact ⟨_, carries, ⟨rfl, known, _, found, rfl⟩, rfl, rfl, confined⟩
  addTable := by
    rintro world _ _ table table' ⟨rfl, rfl, confined⟩ tables
    obtain ⟨rfl, valid⟩ := tables_iff.mp tables
    obtain ⟨carries, known, found, confined⟩ := confined.added fresh (.table _) valid
    exact ⟨_, carries, ⟨rfl, known, _, found⟩, rfl, rfl, confined⟩
  allocate := by
    rintro world _ _ value value' name kind site ⟨rfl, rfl, confined⟩ linked
    obtain ⟨rfl, valid⟩ := linked_iff.mp linked
    intro slot slot' fits
    have coherent := confined.sound.coherent
    obtain ⟨address, changed, result, allocated⟩ := coherent.allocates name kind (some site)
      (model.placement site) value fits
    have fits' : changed.Fits := by
      rw [show changed = slot.2 from (congrArg Prod.snd result).symm]
      exact fits
    have later := confined.allocated fresh allocated fits' valid
    have here : changed.objectAt? address =
        some (.slot ⟨name, kind, value, some site, address⟩) := by
      rw [allocated.objects, if_pos rfl]
    refine ⟨changed, ⟨allocated.keeps coherent later.sound.coherent, ?_⟩, ?_, ?_⟩
    · have place := allocated.place
      cases shape : model.placement site with
      | stack =>
          rw [shape] at place
          rw [place.2.2.2, length_modified]
      | heap =>
          rw [shape] at place
          rw [place.2.2.2]
    · rw [show slot.1 = .ofAddress address from congrArg Prod.fst result]
      exact ⟨rfl, rfl, confined.admitted_of_fresh fresh allocated.fresh,
        slotAddress_of_objectAt? later.sound.coherent here⟩
    · exact ⟨congrArg Prod.snd result, congrArg Prod.snd result, later⟩
  declare := by
    rintro world _ _ value value' name kind site inCall ⟨rfl, rfl, confined⟩ linked
    obtain ⟨rfl, valid⟩ := linked_iff.mp linked
    intro slot slot' fits
    obtain ⟨later, keeps, frames⟩ := confined.declares fresh name kind (some site)
      (model.placement site) valid fits fun _ => inCall
    exact ⟨_, ⟨keeps, frames⟩, rfl, rfl, later⟩
  call := by
    rintro world _ _ function callSite ⟨rfl, rfl, confined⟩
    obtain ⟨kept, inCall, pushed, popped⟩ := confined.called function callSite
    refine ⟨_, kept, inCall, ⟨rfl, rfl, pushed⟩, ?_⟩
    rintro last _ _ carries ⟨rfl, rfl, inside⟩
    obtain ⟨carriesBack, keptBack, confined⟩ := popped carries inside
    exact ⟨_, carriesBack, keptBack, rfl, rfl, confined⟩
  declareGlobal := by
    rintro world _ _ value value' name kind - ⟨rfl, rfl, confined⟩ linked
    obtain ⟨rfl, valid⟩ := linked_iff.mp linked
    intro slot slot' fits
    obtain ⟨later, keeps, frames⟩ := confined.declares fresh name kind none .stack valid fits nofun
    exact ⟨_, ⟨keeps, frames⟩, rfl, rfl, later⟩
  sweep := by
    rintro world _ _ ⟨rfl, rfl, confined⟩
    exact ⟨_, ⟨keeps_sweep _, rfl⟩, rfl, rfl, confined.sweep⟩
  capture _ := trivial

end ReferenceSemantics
