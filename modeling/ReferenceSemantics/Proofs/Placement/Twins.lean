import Mathlib.Data.List.Forall2
import ReferenceSemantics.Proofs.Run.Simulation
import ReferenceSemantics.Proofs.Storage.Allocation

set_option autoImplicit false

/-!
Storage beside storage that keeps every slot.

Addresses are paired as objects are created. The right storage owns no stack slots but those of the
globals, so everything paired is there for good; in the left one a slot may have gone with its
frame. Objects that are there on both sides hold linked values.
-/

namespace ReferenceSemantics

/-- What an address designates. -/
inductive Role where
  | slot
  | block (cells : Nat)
  | table

namespace HeapObject

def role : HeapObject → Role
  | slot _ => .slot
  | block b => .block b.cells.length
  | table _ => .table

theorem role_of_form {object other : HeapObject} (same : object.form = other.form) :
    object.role = other.role := by
  cases object <;> cases other <;> simp_all [form, role]

end HeapObject

/-- Which addresses stand for each other, and as what. -/
structure Pairs where
  stands : Role → Address → Address → Prop

namespace Pairs

def links (pairs : Pairs) : Links :=
  ⟨pairs.stands .slot, fun address address' cells => pairs.stands (.block cells) address address',
    pairs.stands .table⟩

/-- No address stands for two, whatever they designate. -/
def Unique (pairs : Pairs) : Prop :=
  ∀ {role other address address' next next'}, pairs.stands role address address' →
    pairs.stands other next next' → (address = next ↔ address' = next')

/-- Everything paired before is paired still. -/
def Le (first second : Pairs) : Prop :=
  ∀ role address address', first.stands role address address' → second.stands role address address'

/-- One more pair. -/
def add (pairs : Pairs) (role : Role) (address address' : Address) : Pairs :=
  ⟨fun other next next' =>
    pairs.stands other next next' ∨ (other = role ∧ next = address ∧ next' = address')⟩

theorem Le.links {first second : Pairs} (kept : first.Le second) : first.links.Le second.links :=
  ⟨kept _ _ _, kept _ _ _, kept _ _ _⟩

theorem le_add (pairs : Pairs) (role : Role) (address address' : Address) :
    pairs.Le (pairs.add role address address') :=
  fun _ _ _ => .inl

theorem add_here (pairs : Pairs) (role : Role) (address address' : Address) :
    (pairs.add role address address').stands role address address' := .inr ⟨rfl, rfl, rfl⟩

theorem Unique.links {pairs : Pairs} (unique : pairs.Unique) : pairs.links.BiUnique :=
  ⟨unique, unique, unique⟩

theorem Unique.add {pairs : Pairs} (unique : pairs.Unique) (role : Role)
    {address address' : Address} (fresh : ∀ other next next', pairs.stands other next next' →
      next ≠ address ∧ next' ≠ address') : (pairs.add role address address').Unique := by
  rintro _ _ _ _ _ _ (old | ⟨-, rfl, rfl⟩) (old' | ⟨-, rfl, rfl⟩)
  · exact unique old old'
  · exact iff_of_false (fresh _ _ _ old).1 (fresh _ _ _ old).2
  · exact iff_of_false (fresh _ _ _ old').1.symm (fresh _ _ _ old').2.symm
  · exact iff_of_true rfl rfl

end Pairs

namespace Links

/-- Objects of one role with linked contents. -/
inductive Objects (links : Links) : HeapObject → HeapObject → Prop where
  | slot {slot slot' : Slot} (linked : links.Slots slot slot') :
      Objects links (.slot slot) (.slot slot')
  | block {block block' : Block} (linked : links.Blocks block.cells.length block block') :
      Objects links (.block block) (.block block')
  | table {table table' : Table} (linked : links.Tables table table') :
      Objects links (.table table) (.table table')

variable {links later : Links} {object object' : HeapObject}

theorem Objects.role (linked : links.Objects object object') : object.role = object'.role := by
  cases linked with
  | slot _ => rfl
  | block linked => exact congrArg Role.block linked.cells.length_eq
  | table _ => rfl

theorem Objects.mono (kept : links.Le later) (linked : links.Objects object object') :
    later.Objects object object' := by
  cases linked with
  | slot linked => exact .slot ⟨linked.1, linked.2.mono kept⟩
  | block linked =>
      exact .block ⟨rfl, linked.cells.imp fun _ _ cell => cell.mono kept, linked.zero.mono kept⟩
  | table linked =>
      exact .table (linked.imp fun _ _ entry => ⟨entry.1.mono kept, entry.2.mono kept⟩)

/-- Bindings of the same names to linked slots. -/
def Bindings (links : Links) (bindings bindings' : List (String × Address)) : Prop :=
  List.Forall₂ (fun binding binding' => binding.1 = binding'.1 ∧ links.slot binding.2 binding'.2)
    bindings bindings'

/-- Frames that were called from the same place and bind the same names. -/
def Shells (links : Links) (shell shell' : Option Location × List (String × Address)) : Prop :=
  shell.1 = shell'.1 ∧ links.Bindings shell.2 shell'.2

variable {bindings bindings' : List (String × Address)} {address address' : Address}

theorem Bindings.lookup (linked : links.Bindings bindings bindings') (name : String) :
    Option.Rel links.slot (bindings.lookup name) (bindings'.lookup name) := by
  induction linked with
  | nil => exact .none
  | @cons first first' rest rest' here _ inductionHypothesis =>
      obtain ⟨bound, slot⟩ := first
      obtain ⟨_, slot'⟩ := first'
      obtain ⟨rfl, same⟩ := here
      simp only [List.lookup_cons]
      split
      · exact .some same
      · exact inductionHypothesis

theorem Bindings.bind (linked : links.Bindings bindings bindings') (name : String)
    (slot : links.slot address address') :
    links.Bindings (Frame.bindIn name address bindings) (Frame.bindIn name address' bindings') := by
  induction linked with
  | nil => exact .cons ⟨rfl, slot⟩ .nil
  | @cons first first' rest rest' here linked inductionHypothesis =>
      obtain ⟨bound, old⟩ := first
      obtain ⟨_, old'⟩ := first'
      obtain ⟨rfl, same⟩ := here
      simp only [Frame.bindIn]
      split
      · exact .cons ⟨rfl, slot⟩ linked
      · exact .cons ⟨rfl, same⟩ inductionHypothesis

theorem Shells.mono (kept : links.Le later)
    {shell shell' : Option Location × List (String × Address)} (linked : links.Shells shell shell') : later.Shells shell shell' :=
  ⟨linked.1, linked.2.imp fun _ _ binding => ⟨binding.1, kept.slot binding.2⟩⟩

end Links

theorem forall₂_concat {α β : Type} {related : α → β → Prop} {front : List α} {front' : List β}
    {last : α} {last' : β}
    (linked : List.Forall₂ related (front ++ [last]) (front' ++ [last'])) :
    List.Forall₂ related front front' ∧ related last last' := by
  have reversed := List.forall₂_reverse_iff.mpr linked
  rw [List.reverse_append, List.reverse_append, List.reverse_singleton, List.reverse_singleton,
    List.singleton_append, List.singleton_append, List.forall₂_cons] at reversed
  exact ⟨List.forall₂_reverse_iff.mp reversed.2, reversed.1⟩

/-- Where a frame was called from, and what it binds. -/
def Frame.shell (frame : Frame) : Option Location × List (String × Address) :=
  (frame.callSite, frame.bindings)

def Frame.owned (frame : Frame) : List Address := frame.slots.map (·.address)

namespace Storage

def shells (storage : Storage) : List (Option Location × List (String × Address)) :=
  storage.frames.map Frame.shell

/-- The addresses of the slots of each frame, from the root up. -/
def owned (storage : Storage) : List (List Address) := storage.frames.map Frame.owned

variable {storage changed : Storage} {address : Address} {object : HeapObject} {slot : Slot}

theorem Rewrites.shells (rewrites : storage.Rewrites changed address object) :
    changed.shells = storage.shells := by
  have through : ∀ other : Storage, other.shells = other.outline.map Frame.shell := fun other => by
    rw [Storage.shells, Storage.outline, List.map_map]
    rfl
  rw [through, through, rewrites.outline]

theorem Rewrites.owned (rewrites : storage.Rewrites changed address object) :
    changed.owned = storage.owned := by
  have through : ∀ other : Storage, other.owned = other.outline.map Frame.owned := fun other => by
    rw [Storage.owned, Storage.outline, List.map_map]
    refine List.map_congr_left fun frame _ => ?_
    simp only [Function.comp, Frame.owned, Frame.outline, List.map_map]
    rfl
  rw [through, through, rewrites.outline]

theorem map_frames_modified {α : Type} (f : Frame → α) {frame : Frame}
    (modified : changed.frames = storage.frames.dropLast ++ [frame])
    (same : f frame = f storage.current) : changed.frames.map f = storage.frames.map f := by
  conv => rhs; rw [frames_eq storage]
  rw [modified, List.map_append, List.map_append, List.map_singleton, List.map_singleton, same]

theorem Allocates.shells {placement : Placement}
    (allocated : storage.Allocates changed placement slot) : changed.shells = storage.shells := by
  have place := allocated.place
  cases placement with
  | stack => exact map_frames_modified Frame.shell place.2.2.2 rfl
  | heap => exact congrArg (List.map Frame.shell) place.2.2.2

theorem Binds.owned {name : String} (bound : storage.Binds changed name address) :
    changed.owned = storage.owned :=
  map_frames_modified Frame.owned bound.frames rfl

end Storage

open Storage

/-- Two storages with paired objects. -/
structure Twins (pairs : Pairs) (left right : Storage) : Prop where
  coherent : left.Coherent
  coherent' : right.Coherent
  stackEnd : right.nextStackAddress ≤ left.nextStackAddress
  unique : pairs.Unique
  objects : ∀ {role address address'}, pairs.stands role address address' →
    ∃ object', right.objectAt? address' = some object' ∧ object'.role = role ∧
      ((∃ object, left.objectAt? address = some object ∧ pairs.links.Objects object object') ∨
        (role = .slot ∧ left.objectAt? address = none ∧ left.StackAddress address))
  shells : List.Forall₂ pairs.links.Shells left.shells right.shells
  /-- Only the root frame owns slots on the right. -/
  bare : ∀ owned ∈ right.owned.tail, owned = []

namespace Twins

variable {pairs : Pairs} {left right changed changed' : Storage} {address address' : Address}
  {role : Role} {object object' : HeapObject}

/-! ### Looking -/

theorem depth (twins : Twins pairs left right) : right.frames.length = left.frames.length := by
  have sizes := twins.shells.length_eq
  rw [Storage.shells, Storage.shells, List.length_map, List.length_map] at sizes
  exact sizes.symm

theorem current (twins : Twins pairs left right) :
    pairs.links.Bindings left.current.bindings right.current.bindings := by
  have linked := twins.shells
  rw [Storage.shells, Storage.shells, frames_eq left, frames_eq right, List.map_append,
    List.map_append] at linked
  exact (forall₂_concat linked).2.2

theorem root (twins : Twins pairs left right) :
    pairs.links.Bindings left.root.bindings right.root.bindings :=
  (List.forall₂_cons.mp twins.shells).1.2

theorem lookup (twins : Twins pairs left right) (name : String) :
    Option.Rel pairs.links.Ref (left.lookup name) (right.lookup name) := by
  have inCurrent := twins.current.lookup name
  have inRoot := twins.root.lookup name
  unfold Storage.lookup Frame.lookup
  generalize left.current.bindings.lookup name = here at inCurrent
  generalize right.current.bindings.lookup name = here' at inCurrent
  cases inCurrent with
  | some linked => exact .some ⟨rfl, linked⟩
  | none =>
      generalize left.root.bindings.lookup name = there at inRoot
      generalize right.root.bindings.lookup name = there' at inRoot
      cases inRoot with
      | some linked => exact .some ⟨rfl, linked⟩
      | none => exact .none

/-- What is bound on the left is there. -/
theorem slots_of_present (twins : Twins pairs left right)
    (stands : pairs.stands .slot address address') {slot : Slot} (found : left.objectAt? address = some (.slot slot)) :
    ∃ slot', right.objectAt? address' = some (.slot slot') ∧ pairs.links.Slots slot slot' := by
  obtain ⟨object', found', -, ⟨object, present, linked⟩ | ⟨-, gone, -⟩⟩ := twins.objects stands
  · obtain rfl := Option.some.inj (present.symm.trans found)
    cases linked with
    | slot linked => exact ⟨_, found', linked⟩
  · rw [gone] at found
    cases found

theorem slots (twins : Twins pairs left right) (stands : pairs.stands .slot address address') :
    (∃ slot slot', left.objectAt? address = some (.slot slot) ∧
        right.objectAt? address' = some (.slot slot') ∧ pairs.links.Slots slot slot') ∨
      left.slot address = .error (.dangling address) := by
  obtain ⟨object', found', role, ⟨object, present, linked⟩ | ⟨-, gone, handedOut⟩⟩ :=
    twins.objects stands
  · rw [← linked.role] at role
    cases linked with
    | slot linked => exact .inl ⟨_, _, present, found', linked⟩
    | block _ => cases role
    | table _ => cases role
  · refine .inr ?_
    rw [slot_eq, gone]
    exact if_pos (twins.coherent.stack_below handedOut)

theorem blocks (twins : Twins pairs left right) {cells : Nat}
    (stands : pairs.stands (.block cells) address address') :
    ∃ block block', left.objectAt? address = some (.block block) ∧
      right.objectAt? address' = some (.block block') ∧ pairs.links.Blocks cells block block' := by
  obtain ⟨object', found', role, ⟨object, present, linked⟩ | ⟨absurdity, -⟩⟩ := twins.objects stands
  · rw [← linked.role] at role
    cases linked with
    | slot _ => cases role
    | block linked =>
        obtain rfl := Role.block.inj role
        exact ⟨_, _, present, found', linked⟩
    | table _ => cases role
  · cases absurdity

theorem tables (twins : Twins pairs left right) (stands : pairs.stands .table address address') :
    ∃ table table', left.objectAt? address = some (.table table) ∧
      right.objectAt? address' = some (.table table') ∧ pairs.links.Tables table table' := by
  obtain ⟨object', found', role, ⟨object, present, linked⟩ | ⟨absurdity, -⟩⟩ := twins.objects stands
  · rw [← linked.role] at role
    cases linked with
    | slot _ => cases role
    | block _ => cases role
    | table linked => exact ⟨_, _, present, found', linked⟩
  · cases absurdity

/-! ### Writing -/

theorem rewrites (twins : Twins pairs left right) {old old' : HeapObject}
    (stands : pairs.stands role address address') (rewrites : left.Rewrites changed address object)
    (rewrites' : right.Rewrites changed' address' object')
    (found : left.objectAt? address = some old) (found' : right.objectAt? address' = some old')
    (form : object.form = old.form) (form' : object'.form = old'.form)
    (linked : pairs.links.Objects object object') : Twins pairs changed changed' := by
  refine ⟨twins.coherent.rewrites rewrites found form,
    twins.coherent'.rewrites rewrites' found' form', ?_, twins.unique, fun {other next next'} stands' => ?_, ?_, ?_⟩
  · rw [rewrites.stackEnd, rewrites'.stackEnd]
    exact twins.stackEnd
  · obtain ⟨here', present', sameRole, before⟩ := twins.objects stands'
    rw [rewrites.objects, rewrites'.objects]
    have together := twins.unique stands' stands
    by_cases same : next = address
    · rw [if_pos same, if_pos (together.mp same)]
      rw [together.mp same, found'] at present'
      obtain rfl := Option.some.inj present'
      have role' := (HeapObject.role_of_form form').trans sameRole
      exact ⟨object', rfl, role', .inl ⟨object, rfl, linked⟩⟩
    · rw [if_neg same, if_neg (mt together.mpr same)]
      refine ⟨here', present', sameRole, before.imp_right fun ⟨isSlot, gone, handedOut⟩ => ?_⟩
      refine ⟨isSlot, gone, handedOut.1, ?_, handedOut.2.2⟩
      rw [rewrites.stackEnd]
      exact handedOut.2.1
  · rw [rewrites.shells, rewrites'.shells]
    exact twins.shells
  · rw [rewrites'.owned]
    exact twins.bare

/-! ### Creating -/

theorem fresh (twins : Twins pairs left right) (absent : left.objectAt? address = none)
    (new : ¬ left.StackAddress address) (absent' : right.objectAt? address' = none) :
    ∀ other next next', pairs.stands other next next' → next ≠ address ∧ next' ≠ address' := by
  intro other next next' stands
  obtain ⟨here', present', -, ⟨here, present, -⟩ | ⟨-, -, handedOut⟩⟩ := twins.objects stands
  all_goals refine ⟨?_, ?_⟩
  · rintro rfl
    rw [absent] at present
    cases present
  · rintro rfl
    rw [absent'] at present'
    cases present'
  · rintro rfl
    exact new handedOut
  · rintro rfl
    rw [absent'] at present'
    cases present'

/-- Linked objects are created at new addresses. -/
theorem grow (twins : Twins pairs left right) (coherent : changed.Coherent)
    (coherent' : changed'.Coherent) (absent : left.objectAt? address = none)
    (new : ¬ left.StackAddress address) (absent' : right.objectAt? address' = none)
    (objects : ∀ other, changed.objectAt? other =
      if other = address then some object else left.objectAt? other)
    (objects' : ∀ other, changed'.objectAt? other =
      if other = address' then some object' else right.objectAt? other)
    (linked : pairs.links.Objects object object')
    (grown : left.nextStackAddress ≤ changed.nextStackAddress)
    (stackEnd : changed'.nextStackAddress ≤ changed.nextStackAddress)
    (shells : changed.shells = left.shells) (shells' : changed'.shells = right.shells)
    (bare : ∀ owned ∈ changed'.owned.tail, owned = []) :
    Twins (pairs.add object'.role address address') changed changed' := by
  have kept := (pairs.le_add object'.role address address').links
  have different := twins.fresh absent new absent'
  refine ⟨coherent, coherent', stackEnd, Pairs.Unique.add twins.unique _ different, ?_, ?_, bare⟩
  · rintro other next next' (stands | ⟨rfl, rfl, rfl⟩)
    · obtain ⟨other, other'⟩ := different _ _ _ stands
      obtain ⟨here', present', sameRole, before⟩ := twins.objects stands
      rw [objects, objects', if_neg other, if_neg other']
      refine ⟨here', present', sameRole, before.imp ?_ ?_⟩
      · rintro ⟨here, present, inside⟩
        exact ⟨here, present, inside.mono kept⟩
      · rintro ⟨isSlot, gone, start, below, aligned⟩
        exact ⟨isSlot, gone, start, Nat.lt_of_lt_of_le below grown, aligned⟩
    · rw [objects, objects', if_pos rfl, if_pos rfl]
      exact ⟨object', rfl, rfl, .inl ⟨object, rfl, linked.mono kept⟩⟩
  · rw [shells, shells']
    exact twins.shells.imp fun _ _ shell => shell.mono kept

theorem blocks_objects {links : Links} {block block' : Block} {cells : Nat}
    (linked : links.Blocks cells block block') : links.Objects (.block block) (.block block') :=
  .block ⟨rfl, linked.cells, linked.zero⟩

/-- Blocks and tables are created at the ends of both heaps. -/
theorem push (twins : Twins pairs left right) (linked : pairs.links.Objects object object') :
    Twins (pairs.add object'.role left.heap.nextAddress right.heap.nextAddress)
      { left with heap := left.heap.push object }
      { right with heap := right.heap.push object' } := by
  have extended := twins.coherent.extends_push object
  have extended' := twins.coherent'.extends_push object'
  refine twins.grow (twins.coherent.extends extended) (twins.coherent'.extends extended')
    extended.fresh ?_ extended'.fresh extended.objects extended'.objects linked (Nat.le_refl _)
    twins.stackEnd rfl rfl twins.bare
  intro handedOut
  exact absurd (twins.coherent.stack_below handedOut) (Nat.not_lt.mpr (Nat.le_add_right _ _))

/-- A new slot is not where a slot was before. -/
theorem new_of_allocates {storage : Storage} {placement : Placement} {slot : Slot}
    (coherent : storage.Coherent) (allocated : storage.Allocates changed placement slot) :
    ¬ storage.StackAddress slot.address := by
  intro handedOut
  have place := allocated.place
  cases placement with
  | stack => exact absurd (place.1 ▸ handedOut.2.1) (Nat.lt_irrefl _)
  | heap =>
      have low := coherent.stack_below handedOut
      rw [place.1] at low
      exact absurd low (Nat.not_lt.mpr (Nat.le_add_right _ _))

/-- The slots of a site go anywhere on the left, and to the heap on the right. -/
theorem allocates (twins : Twins pairs left right) {placement : Placement} {slot slot' : Slot}
    (allocated : left.Allocates changed placement slot) (fits : changed.Fits)
    (allocated' : right.Allocates changed' .heap slot') (linked : pairs.links.Slots slot slot') :
    Twins (pairs.add .slot slot.address slot'.address) changed changed' := by
  obtain ⟨-, stackEnd', -, frames'⟩ := allocated'.place
  have grown := allocated.stackEnd_le
  have stackEnd : changed'.nextStackAddress ≤ changed.nextStackAddress := by
    rw [stackEnd']
    exact Nat.le_trans twins.stackEnd grown
  refine twins.grow (twins.coherent.allocated allocated fits)
    (twins.coherent'.allocated allocated' (Nat.le_trans stackEnd fits)) allocated.fresh
    (new_of_allocates twins.coherent allocated) allocated'.fresh allocated.objects
    allocated'.objects (.slot linked) grown stackEnd allocated.shells allocated'.shells ?_
  rw [Storage.owned, frames']
  exact twins.bare

/-- The slots of globals go to the stack on both sides. -/
theorem allocates_global (twins : Twins pairs left right) (outside : ¬ right.InCall)
    {slot slot' : Slot} (allocated : left.Allocates changed .stack slot) (fits : changed.Fits)
    (allocated' : right.Allocates changed' .stack slot') (linked : pairs.links.Slots slot slot') :
    Twins (pairs.add .slot slot.address slot'.address) changed changed' := by
  obtain ⟨-, grownEnd, -, -⟩ := allocated.place
  obtain ⟨-, grownEnd', -, frames'⟩ := allocated'.place
  have stackEnd : changed'.nextStackAddress ≤ changed.nextStackAddress := by
    rw [grownEnd, grownEnd']
    exact Nat.add_le_add_right twins.stackEnd _
  refine twins.grow (twins.coherent.allocated allocated fits)
    (twins.coherent'.allocated allocated' (Nat.le_trans stackEnd fits)) allocated.fresh
    (new_of_allocates twins.coherent allocated) allocated'.fresh allocated.objects
    allocated'.objects (.slot linked) allocated.stackEnd_le stackEnd allocated.shells
    allocated'.shells ?_
  have single : right.frames.dropLast = [] := by
    rw [← List.length_eq_zero_iff, List.length_dropLast]
    have low := mt inCall_iff.mpr outside
    omega
  rw [Storage.owned, frames', single]
  exact List.forall_mem_nil _

/-- A name is bound to paired slots. -/
theorem binds (twins : Twins pairs left right) (coherent : changed.Coherent)
    (coherent' : changed'.Coherent) {name : String} (bound : left.Binds changed name address)
    (bound' : right.Binds changed' name address') (stands : pairs.stands .slot address address') :
    Twins pairs changed changed' := by
  refine ⟨coherent, coherent', ?_, twins.unique, fun {role next next'} stands' => ?_, ?_, ?_⟩
  · rw [bound.stackEnd, bound'.stackEnd]
    exact twins.stackEnd
  · rw [bound.objects, bound'.objects]
    obtain ⟨here', present', sameRole, before⟩ := twins.objects stands'
    refine ⟨here', present', sameRole, before.imp_right fun ⟨isSlot, gone, start, below, aligned⟩ =>
      ⟨isSlot, gone, start, ?_, aligned⟩⟩
    rw [bound.stackEnd]
    exact below
  · have linked := twins.shells
    rw [Storage.shells, Storage.shells, frames_eq left, frames_eq right, List.map_append,
      List.map_append] at linked
    obtain ⟨front, site, last⟩ := forall₂_concat linked
    rw [Storage.shells, Storage.shells, bound.frames, bound'.frames, List.map_append,
      List.map_append]
    exact List.rel_append front (.cons ⟨site, last.bind name stands⟩ .nil)
  · rw [bound'.owned]
    exact twins.bare

/-! ### Frames -/

theorem pushFrame (twins : Twins pairs left right) (function : String)
    (callSite : Option Location) :
    Twins pairs (left.pushFrame function callSite) (right.pushFrame function callSite) := by
  refine ⟨twins.coherent.pushFrame _ _, twins.coherent'.pushFrame _ _, twins.stackEnd, twins.unique,
    fun {role next next'} stands => ?_, ?_, ?_⟩
  · rw [objectAt?_pushFrame, objectAt?_pushFrame]
    exact twins.objects stands
  · rw [Storage.shells, Storage.shells, frames_pushFrame, frames_pushFrame, List.map_append,
      List.map_append]
    exact List.rel_append twins.shells (.cons ⟨rfl, .nil⟩ .nil)
  · rw [Storage.owned, frames_pushFrame, List.map_append]
    intro owned member
    rcases List.mem_append.mp member with before | here
    · exact twins.bare owned before
    · exact List.mem_singleton.mp here

/-- The current frame of the right storage owns nothing, so only the left one loses slots. -/
theorem popFrame (twins : Twins pairs left right) (called : left.InCall) :
    Twins pairs left.popFrame right.popFrame := by
  have called' : right.InCall := by
    rw [inCall_iff, twins.depth]
    exact inCall_iff.mp called
  have empty : right.current.slots.map (·.address) = [] := by
    refine twins.bare _ ?_
    have deep := inCall_iff.mp called'
    rw [Storage.owned, frames_eq right, List.map_append]
    have front : right.frames.dropLast ≠ [] := by
      intro none
      have size := congrArg List.length none
      rw [List.length_dropLast, List.length_nil] at size
      omega
    rw [List.tail_append_of_ne_nil (mt List.map_eq_nil_iff.mp front)]
    exact List.mem_append_right _ (List.mem_singleton.mpr rfl)
  have stackEnd := (heap_popFrame left).2.1
  have stackEnd' := (heap_popFrame right).2.1
  refine ⟨twins.coherent.popFrame called, twins.coherent'.popFrame called', ?_, twins.unique,
    fun {role next next'} stands => ?_, ?_, ?_⟩
  · rw [stackEnd, stackEnd']
    exact twins.stackEnd
  · rw [twins.coherent.objectAt?_popFrame called, twins.coherent'.objectAt?_popFrame called',
      empty, if_neg List.not_mem_nil]
    obtain ⟨here', present', sameRole, before⟩ := twins.objects stands
    refine ⟨here', present', sameRole, ?_⟩
    have handedOutStill : left.StackAddress next → left.popFrame.StackAddress next := by
      rintro ⟨start, below, aligned⟩
      exact ⟨start, stackEnd ▸ below, aligned⟩
    by_cases lost : next ∈ left.current.slots.map (·.address)
    · rw [if_pos lost]
      obtain ⟨slot, member, rfl⟩ := List.mem_map.mp lost
      have inFrames : slot ∈ left.stackSlots :=
        List.mem_flatMap.mpr ⟨left.current, left.current_mem_frames, member⟩
      have present := twins.coherent.objectAt?_of_mem inFrames
      have handedOut := twins.coherent.handedOut _ (List.mem_map_of_mem inFrames)
      rcases before with ⟨object, found, linked⟩ | ⟨-, gone, -⟩
      · obtain rfl := Option.some.inj (found.symm.trans present)
        exact .inr ⟨sameRole.symm.trans linked.role.symm, rfl, handedOutStill handedOut⟩
      · rw [gone] at present
        cases present
    · rw [if_neg lost]
      exact before.imp_right fun ⟨isSlot, gone, handedOut⟩ =>
        ⟨isSlot, gone, handedOutStill handedOut⟩
  · have linked := twins.shells
    rw [Storage.shells, Storage.shells, frames_eq left, frames_eq right, List.map_append,
      List.map_append] at linked
    rw [Storage.shells, Storage.shells, frames_popFrame called, frames_popFrame called']
    exact (forall₂_concat linked).1
  · rw [Storage.owned, frames_popFrame called']
    intro owned member
    refine twins.bare owned ?_
    rw [List.map_dropLast] at member
    exact List.dropLast_subset _ (List.tail_dropLast ▸ member)

theorem sweep (twins : Twins pairs left right) : Twins pairs left.sweep.2 right.sweep.2 := by
  refine ⟨twins.coherent.sweep, twins.coherent'.sweep, twins.stackEnd, twins.unique,
    fun {role next next'} stands => ?_, twins.shells, twins.bare⟩
  rw [objectAt?_sweep, objectAt?_sweep]
  exact twins.objects stands

theorem empty : Twins ⟨fun _ _ _ => False⟩ .empty .empty :=
  ⟨.empty, .empty, Nat.le_refl _, fun absurdity => absurdity.elim, fun absurdity => absurdity.elim,
    .cons ⟨rfl, .nil⟩ .nil, List.forall_mem_nil _⟩

end Twins

end ReferenceSemantics
