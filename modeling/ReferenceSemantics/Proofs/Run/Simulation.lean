import Mathlib.Data.List.Forall2
import ReferenceSemantics.Proofs.Run.Progress
import ReferenceSemantics.Proofs.Storage.Objects
import ReferenceSemantics.Proofs.Value.Linked

set_option autoImplicit false

/-!
Two runs of one program, side by side.

A simulation relates two machines in a world that says which addresses stand for each other. Worlds
grow as objects are created. What a simulation has to supply is one fact for each operation on
storage; the runs then stay related to their end, unless the stack of the left one grows into the
heap or it ends in a way that the simulation leaves open.
-/

namespace ReferenceSemantics

/-- No address designates something else than the values say. -/
def StorageError.Valid : StorageError → Prop
  | .invalidAddress _ _ => False
  | _ => True

/-- No address designates something else than the values say. -/
def Halt.Valid : Halt → Prop
  | .error (.invalidState _ _ _) => False
  | _ => True

/-- References by one path into linked slots. -/
def Links.Ref (links : Links) (ref ref' : SlotRef) : Prop :=
  ref.path = ref'.path ∧ links.slot ref.address ref'.address

/-- Slots of one kind with linked values. -/
def Links.Slots (links : Links) (slot slot' : Slot) : Prop :=
  slot.kind = slot'.kind ∧ Value.Linked links slot.value slot'.value

/-- Blocks of one size with linked cells. -/
structure Links.Blocks (links : Links) (cells : Nat) (block block' : Block) : Prop where
  size : block.cells.length = cells
  cells : List.Forall₂ (Value.Linked links) block.cells block'.cells
  zero : Value.Linked links block.zero block'.zero

/-- Entries whose keys and values are linked. -/
def Links.Entry (links : Links) (entry entry' : Value × Value) : Prop :=
  Value.Linked links entry.1 entry'.1 ∧ Value.Linked links entry.2 entry'.2

/-- Tables with linked entries, in the same order. -/
def Links.Tables (links : Links) (table table' : Table) : Prop :=
  List.Forall₂ links.Entry table.entries table'.entries

/-- Two sides of a simulation. -/
structure Simulation where
  left : Model
  right : Model
  World : Type
  Le : World → World → Prop
  links : World → Links
  storages : World → Storage → Storage → Prop
  /-- A call is being run. -/
  InCall : World → Prop
  /-- What is said of the captured values. -/
  finals : Links → NameMap Value → NameMap Value → Prop
  /-- The ends of the left run after which nothing is said. -/
  Open : Halt → Prop
  functions : left.functions = right.functions
  le_refl : ∀ world, Le world world
  le_trans : ∀ {first second third}, Le first second → Le second third → Le first third
  links_mono : ∀ {first second}, Le first second → (links first).Le (links second)
  inCall_mono : ∀ {first second}, Le first second → (InCall first ↔ InCall second)
  finals_mono : ∀ {first second : Links} {values values'}, first.Le second →
    finals first values values' → finals second values values'
  biUnique : ∀ {world storage storage'}, storages world storage storage' →
    (links world).BiUnique
  lookup : ∀ {world storage storage'} (name : String), storages world storage storage' →
    Option.Rel (links world).Ref (storage.lookup name) (storage'.lookup name)
  readSlot : ∀ {world storage storage' address address'}, storages world storage storage' →
    (links world).slot address address' →
      (∃ slot slot', storage.slot address = .ok slot ∧ storage'.slot address' = .ok slot' ∧
        (links world).Slots slot slot') ∨
      (∃ gone, storage.slot address = .error (.dangling gone) ∧
        ((∀ location, Open (.error (.fault (.dangling gone) location))) ∨
          storage'.slot address' = .error (.dangling gone)))
  writeSlot : ∀ {world storage storage' address address' slot slot' value value'},
    storages world storage storage' → (links world).slot address address' →
      storage.slot address = .ok slot → storage'.slot address' = .ok slot' →
      Value.Linked (links world) value value' →
      ∃ next, Le world next ∧
        storages next (storage.setSlot address { slot with value })
          (storage'.setSlot address' { slot' with value := value' })
  readBlock : ∀ {world storage storage' address address' cells},
    storages world storage storage' → (links world).block address address' cells →
      ∃ block block', storage.block address = .ok block ∧ storage'.block address' = .ok block' ∧
        (links world).Blocks cells block block'
  writeBlock : ∀ {world storage storage' address address' cells} (block block' : Block),
    storages world storage storage' → (links world).block address address' cells →
      (links world).Blocks cells block block' →
      ∃ next, Le world next ∧
        storages next { storage with heap := storage.heap.set address (.block block) }
          { storage' with heap := storage'.heap.set address' (.block block') }
  readTable : ∀ {world storage storage' address address'},
    storages world storage storage' → (links world).table address address' →
      ∃ table table', storage.table address = .ok table ∧ storage'.table address' = .ok table' ∧
        (links world).Tables table table'
  writeTable : ∀ {world storage storage' address address'} (table table' : Table),
    storages world storage storage' → (links world).table address address' →
      (links world).Tables table table' →
      ∃ next, Le world next ∧
        storages next { storage with heap := storage.heap.set address (.table table) }
          { storage' with heap := storage'.heap.set address' (.table table') }
  addBlock : ∀ {world storage storage'} (block block' : Block),
    storages world storage storage' →
    (links world).Blocks block.cells.length block block' →
      ∃ next, Le world next ∧
        (links next).block storage.heap.nextAddress storage'.heap.nextAddress
          block.cells.length ∧
        storages next { storage with heap := storage.heap.push (.block block) }
          { storage' with heap := storage'.heap.push (.block block') }
  addTable : ∀ {world storage storage'} (table table' : Table),
    storages world storage storage' →
    (links world).Tables table table' →
      ∃ next, Le world next ∧
        (links next).table storage.heap.nextAddress storage'.heap.nextAddress ∧
        storages next { storage with heap := storage.heap.push (.table table) }
          { storage' with heap := storage'.heap.push (.table table') }
  allocate : ∀ {world storage storage' value value'} (name : String) (kind : Kind)
    (site : SiteId), storages world storage storage' → Value.Linked (links world) value value' →
      let slot := storage.allocate name kind (some site) (left.placement site) value
      let slot' := storage'.allocate name kind (some site) (right.placement site) value'
      slot.2.Fits →
        ∃ next, Le world next ∧ (links next).Ref slot.1 slot'.1 ∧ storages next slot.2 slot'.2
  declare : ∀ {world storage storage' value value'} (name : String) (kind : Kind)
    (site : SiteId), InCall world → storages world storage storage' →
      Value.Linked (links world) value value' →
      let slot := storage.declare name kind (some site) (left.placement site) value
      let slot' := storage'.declare name kind (some site) (right.placement site) value'
      slot.2.Fits → ∃ next, Le world next ∧ storages next slot.2 slot'.2
  /-- The frame of a call is pushed, and popped after the call has run. -/
  call : ∀ {world storage storage'} (function : String) (callSite : Option Location),
    storages world storage storage' →
      ∃ inside, (links world).Le (links inside) ∧ InCall inside ∧
        storages inside (storage.pushFrame function callSite)
          (storage'.pushFrame function callSite) ∧
        ∀ {last storage storage'}, Le inside last → storages last storage storage' →
          ∃ next, Le world next ∧ (links last).Le (links next) ∧
            storages next storage.popFrame storage'.popFrame

namespace Simulation

variable (sim : Simulation)

/-- The machines of the two runs. -/
structure Related (world : sim.World) (machine machine' : Machine) : Prop where
  storages : sim.storages world machine.storage machine'.storage
  abort : machine.abort = machine'.abort
  finals : sim.finals (sim.links world) machine.finalValues machine'.finalValues

variable {α α' β β' : Type}

/-- How two computations end that were started in related machines. -/
inductive Ends (world : sim.World) (post : sim.World → α → α' → Prop) :
    Except Halt α × Machine → Except Halt α' × Machine → Prop where
  | overflow {last last'} (full : ¬ last.2.storage.Fits) :
      Ends world post last last'
  | left_open {halt machine last'} (isOpen : sim.Open halt) :
      Ends world post (.error halt, machine) last'
  | halted {halt machine machine'} (next : sim.World) (valid : halt.Valid)
      (related : sim.Related next machine machine') :
      Ends world post (.error halt, machine) (.error halt, machine')
  | done {value value' machine machine'} (next : sim.World) (grown : sim.Le world next)
      (related : sim.Related next machine machine') (result : post next value value') :
      Ends world post (.ok value, machine) (.ok value', machine')

/-- Two computations do the same, as far as the simulation can tell. -/
def Agree (world : sim.World) (run : Run α) (run' : Run α')
    (post : sim.World → α → α' → Prop) : Prop :=
  ∀ machine machine', sim.Related world machine machine' →
    sim.Ends world post (run.exec machine) (run'.exec machine')

variable {sim} {world : sim.World} {post : sim.World → α → α' → Prop}
  {posts : sim.World → β → β' → Prop}

/-! ### Composition -/

theorem Agree.pure {value : α} {value' : α'} (result : post world value value') :
    sim.Agree world (pure value) (pure value') post :=
  fun _ _ related => .done world (sim.le_refl world) related result

theorem Agree.throw {halt : Halt} (valid : halt.Valid) :
    sim.Agree world (throw halt : Run α) (throw halt : Run α') post :=
  fun _ _ related => .halted world valid related

theorem Agree.fail {error : RuntimeError} (valid : (Halt.error error).Valid) :
    sim.Agree world (Run.fail error : Run α) (Run.fail error : Run α') post :=
  fun _ _ related => .halted world valid related

/-- What comes later starts in a world that has grown. -/
theorem Agree.bind {first : Run α} {first' : Run α'} {next : α → Run β} {next' : α' → Run β'}
    [∀ value, Run.Stepwise (next value)]
    (start : sim.Agree world first first' post)
    (rest : ∀ {later value value'}, sim.Le world later → post later value value' →
      sim.Agree later (next value) (next' value') posts) :
    sim.Agree world (first >>= next) (first' >>= next') posts := by
  intro machine machine' related
  have ended := start machine machine' related
  rw [Run.exec_bind, Run.exec_bind]
  generalize first.exec machine = last at ended
  generalize first'.exec machine' = last' at ended
  cases ended with
  | overflow full =>
      refine .overflow fun fits => full ?_
      obtain ⟨result, after⟩ := last
      cases result with
      | error _ => exact fits
      | ok value => exact Run.Stepwise.fits (next value) fits
  | left_open isOpen => exact .left_open isOpen
  | halted later valid related => exact .halted later valid related
  | done later grown related result =>
      have ended := rest grown result _ _ related
      dsimp only
      generalize (next _).exec _ = last at ended
      generalize (next' _).exec _ = last' at ended
      cases ended with
      | overflow full => exact .overflow full
      | left_open isOpen => exact .left_open isOpen
      | halted last valid related => exact .halted last valid related
      | done last grown' related result =>
          exact .done last (sim.le_trans grown grown') related result

theorem Agree.map {run : Run α} {run' : Run α'} {f : α → β} {f' : α' → β'}
    (agree : sim.Agree world run run' post)
    (mapped : ∀ {later value value'}, sim.Le world later → post later value value' →
      posts later (f value) (f' value')) : sim.Agree world (f <$> run) (f' <$> run') posts := by
  rw [map_eq_pure_bind, map_eq_pure_bind]
  exact agree.bind fun grown result => .pure (mapped grown result)

/-! ### Single operations -/

/-- How two looks at storage may answer. -/
inductive Answer (sim : Simulation) (location : Location) (post : α → α' → Prop) :
    Except StorageError α → Except StorageError α' → Prop where
  | found {value value'} (result : post value value') :
      Answer sim location post (.ok value) (.ok value')
  | refused {error : StorageError} (valid : error.Valid) :
      Answer sim location post (.error error) (.error error)
  | left_open {error : StorageError} {answer'}
      (isOpen : sim.Open (.error (.ofStorage location error))) :
      Answer sim location post (.error error) answer'

theorem Answer.bind {location : Location} {post : α → α' → Prop} {posts : β → β' → Prop}
    {first : Except StorageError α} {first' : Except StorageError α'}
    {next : α → Except StorageError β} {next' : α' → Except StorageError β'}
    (start : Answer sim location post first first')
    (rest : ∀ value value', post value value' →
      Answer sim location posts (next value) (next' value')) :
    Answer sim location posts (first >>= next) (first' >>= next') := by
  cases start with
  | found result => exact rest _ _ result
  | refused valid => exact .refused valid
  | left_open isOpen => exact .left_open isOpen

theorem valid_ofStorage {location : Location} {error : StorageError} (valid : error.Valid) :
    (Halt.error (.ofStorage location error)).Valid := by
  cases error with
  | invalidAddress _ _ => exact valid
  | _ => exact trivial

theorem Agree.read {location : Location} {look : Storage → Except StorageError α}
    {look' : Storage → Except StorageError α'} {post : sim.World → α → α' → Prop}
    (answer : ∀ {storage storage'}, sim.storages world storage storage' →
      Answer sim location (post world) (look storage) (look' storage')) :
    sim.Agree world (Run.read location look) (Run.read location look') post := by
  intro machine machine' related
  have answered := answer related.storages
  rw [Run.exec_read, Run.exec_read]
  generalize look machine.storage = found at answered
  generalize look' machine'.storage = found' at answered
  cases answered with
  | found result => exact .done world (sim.le_refl world) related result
  | refused valid => exact .halted world (valid_ofStorage valid) related
  | left_open isOpen => exact .left_open isOpen

theorem Related.moved {world next : sim.World} {machine machine' : Machine}
    {storage storage' : Storage} (related : sim.Related world machine machine')
    (kept : (sim.links world).Le (sim.links next))
    (storages : sim.storages next storage storage') :
    sim.Related next { machine with storage } { machine' with storage := storage' } :=
  ⟨storages, related.abort, sim.finals_mono kept related.finals⟩

theorem Agree.update {location : Location}
    {change : Storage → Except StorageError (α × Storage)}
    {change' : Storage → Except StorageError (α' × Storage)}
    (answer : ∀ {storage storage'}, sim.storages world storage storage' →
      Answer sim location
        (fun changed changed' => ∃ next, sim.Le world next ∧
          sim.storages next changed.2 changed'.2 ∧ post next changed.1 changed'.1)
        (change storage) (change' storage')) :
    sim.Agree world (Run.update location change) (Run.update location change') post := by
  intro machine machine' related
  have answered := answer related.storages
  rw [Run.exec_update, Run.exec_update]
  generalize change machine.storage = found at answered
  generalize change' machine'.storage = found' at answered
  cases answered with
  | found result =>
      obtain ⟨next, grown, storages, result⟩ := result
      exact .done next grown (related.moved (sim.links_mono grown) storages) result
  | refused valid => exact .halted world (valid_ofStorage valid) related
  | left_open isOpen => exact .left_open isOpen

theorem Agree.write {location : Location} {change change' : Storage → Except StorageError Storage}
    (answer : ∀ {storage storage'}, sim.storages world storage storage' →
      Answer sim location
        (fun changed changed' => ∃ next, sim.Le world next ∧ sim.storages next changed changed')
        (change storage) (change' storage')) :
    sim.Agree world (Run.write location change) (Run.write location change')
      (fun _ _ _ => True) := by
  intro machine machine' related
  have answered := answer related.storages
  rw [Run.exec_write, Run.exec_write]
  generalize change machine.storage = found at answered
  generalize change' machine'.storage = found' at answered
  cases answered with
  | found result =>
      obtain ⟨next, grown, storages⟩ := result
      exact .done next grown (related.moved (sim.links_mono grown) storages) trivial
  | refused valid => exact .halted world (valid_ofStorage valid) related
  | left_open isOpen => exact .left_open isOpen

/-- A change that cannot fail, unless the stack overflows. -/
theorem Agree.allocate {change : Storage → α × Storage} {change' : Storage → α' × Storage}
    (step : ∀ {storage storage'}, sim.storages world storage storage' →
      (change storage).2.Fits →
        ∃ next, sim.Le world next ∧ sim.storages next (change storage).2 (change' storage').2 ∧
          post next (change storage).1 (change' storage').1) :
    sim.Agree world (Run.allocate change) (Run.allocate change') post := by
  intro machine machine' related
  rw [Run.exec_allocate, Run.exec_allocate]
  by_cases fits : (change machine.storage).2.Fits
  · obtain ⟨next, grown, storages, result⟩ := step related.storages fits
    exact .done next grown (related.moved (sim.links_mono grown) storages) result
  · exact .overflow fits

/-! ### The trace -/

/-- Simulations say nothing about traces. -/
theorem Agree.silent {run run' : Run Unit} (silent : Run.Silent run) (silent' : Run.Silent run') :
    sim.Agree world run run' (fun _ _ _ => True) := by
  intro machine machine' related
  obtain ⟨trace, left⟩ := silent machine
  obtain ⟨trace', right⟩ := silent' machine'
  rw [left, right]
  exact .done world (sim.le_refl world)
    ⟨related.storages, related.abort, related.finals⟩ trivial

theorem Agree.transition (function : String) (state : CallState) :
    sim.Agree world (Run.transition function state) (Run.transition function state)
      (fun _ _ _ => True) :=
  .silent (Run.silent_transition _ _) (Run.silent_transition _ _)

end Simulation

end ReferenceSemantics
