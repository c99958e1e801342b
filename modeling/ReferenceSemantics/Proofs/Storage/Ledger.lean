import ReferenceSemantics.Proofs.Run.Bindings

set_option autoImplicit false

/-!
A ledger of the stack, kept beside the frames.

It has an index from the addresses of live stack slots to the depth of the frame and the place of
the slot in it, and for every frame a map of the bound names with the order in which they were
first bound. It also remembers the addresses of the slots that went with their frames. The index
and the maps are brought up to date by single entries, never computed from the frames; what they
say about the frames depends only on the layout of these, on where their slots live and what they
bind.
-/

namespace ReferenceSemantics

/-- A frame apart from what its slots hold. -/
structure Layout where
  function : String
  addresses : List Address
  bindings : List (String × Address)

def Frame.layout (frame : Frame) : Layout :=
  ⟨frame.function, frame.slots.map (·.address), frame.bindings⟩

/-- One more slot at the end. -/
def Layout.push (layout : Layout) (address : Address) : Layout :=
  { layout with addresses := layout.addresses ++ [address] }

/-- The slot at a place of the frame at a depth has the address. -/
def Layout.At (layouts : List Layout) (address : Address) (depth place : Nat) : Prop :=
  ∃ layout, layouts[depth]? = some layout ∧ layout.addresses[place]? = some address

/-- The names that a frame binds: a map, and the order of the first bindings. -/
structure NameTable where
  address? : String → Option Address
  order : List String

structure Ledger where
  /-- The depth and the place of the live stack slot at an address. -/
  index : Address → Option (Nat × Nat)
  /-- The names of the frames, the top frame first. -/
  names : List NameTable
  /-- The addresses of the stack slots that are gone. -/
  popped : List Address

namespace NameTable

def empty : NameTable := ⟨fun _ => none, []⟩

def bind (table : NameTable) (name : String) (address : Address) : NameTable where
  address? other := if other = name then some address else table.address? other
  order := if (table.address? name).isSome then table.order else table.order ++ [name]

/-- The table has the names of the bindings, each once, in their order. -/
structure Lists (table : NameTable) (bindings : List (String × Address)) : Prop where
  bound : ∀ name, table.address? name = bindings.lookup name
  order : table.order = bindings.map (·.1)
  once : table.order.Nodup

end NameTable

namespace Ledger

def empty : Ledger := ⟨fun _ => none, [.empty], []⟩

def enter (ledger : Ledger) : Ledger := { ledger with names := .empty :: ledger.names }

/-- Forget the slots of the top frame and its names. -/
def leave (ledger : Ledger) (gone : List Address) : Ledger where
  index address := if address ∈ gone then none else ledger.index address
  names := ledger.names.tail
  popped := ledger.popped ++ gone

def insert (ledger : Ledger) (address : Address) (depth place : Nat) : Ledger :=
  { ledger with
    index := fun other => if other = address then some (depth, place) else ledger.index other }

def bind (ledger : Ledger) (name : String) (address : Address) : Ledger :=
  { ledger with names := ledger.names.modifyHead (·.bind name address) }

/-- What the ledger says of frames of these layouts, when the stack ends at the address. -/
structure Follows (ledger : Ledger) (layouts : List Layout) (stackEnd : Address) : Prop where
  root : layouts.head?.map (·.function) = some globalsFrame
  index : ∀ address depth place, ledger.index address = some (depth, place) ↔
    Layout.At layouts address depth place
  distinct : (layouts.flatMap (·.addresses) ++ ledger.popped).Nodup
  handedOut : ∀ address ∈ layouts.flatMap (·.addresses) ++ ledger.popped,
    address % slotSize = 0 ∧ address < stackEnd
  aligned : stackEnd % slotSize = 0
  names : List.Forall₂ NameTable.Lists ledger.names (layouts.reverse.map (·.bindings))

end Ledger

/-! ### Names -/

namespace NameTable.Lists

variable {table : NameTable}

theorem empty : NameTable.empty.Lists [] := ⟨fun _ => rfl, rfl, List.nodup_nil⟩

theorem isSome_iff {bindings : List (String × Address)} (lists : table.Lists bindings)
    (name : String) : (table.address? name).isSome ↔ name ∈ table.order := by
  rw [lists.bound, lists.order, List.lookup_isSome_iff]
  simp

theorem bind {frame : Frame} (lists : table.Lists frame.bindings) (name : String)
    (address : Address) :
    (table.bind name address).Lists (frame.bind name address).bindings := by
  have bound := lists.isSome_iff name
  refine ⟨fun other => ?_, ?_, ?_⟩
  · simp only [NameTable.bind, lists.bound]
    exact (Storage.Frame.lookup_bind frame name other address).symm
  · simp only [NameTable.bind, Frame.bind, Frame.names_bindIn, bound, lists.order]
  · simp only [NameTable.bind, bound]
    split
    next => exact lists.once
    next fresh =>
      rw [← List.concat_eq_append]
      exact lists.once.concat fresh

end NameTable.Lists

/-! ### Places -/

namespace Layout

variable {layouts : List Layout} {top : Layout} {address : Address} {depth place : Nat}

theorem mem_addresses_iff :
    address ∈ layouts.flatMap (·.addresses) ↔ ∃ depth place, At layouts address depth place := by
  rw [List.mem_flatMap]
  constructor
  · rintro ⟨layout, member, own⟩
    obtain ⟨depth, found⟩ := List.getElem?_of_mem member
    obtain ⟨place, here⟩ := List.getElem?_of_mem own
    exact ⟨depth, place, layout, found, here⟩
  · rintro ⟨depth, place, layout, found, here⟩
    exact ⟨layout, List.mem_of_getElem? found, List.mem_of_getElem? here⟩

theorem At.lt_length (there : At layouts address depth place) : depth < layouts.length := by
  obtain ⟨layout, found, -⟩ := there
  exact (List.getElem?_eq_some_iff.mp found).1

theorem getElem?_concat_eq_some {α : Type} {items : List α} {last item : α} {index : Nat} :
    (items ++ [last])[index]? = some item ↔
      items[index]? = some item ∨ index = items.length ∧ last = item := by
  rw [List.getElem?_append]
  split
  next inside => simp [Nat.ne_of_lt inside]
  next outside =>
    rw [List.getElem?_eq_none (Nat.le_of_not_lt outside), List.getElem?_singleton]
    have first : index - items.length = 0 ↔ index = items.length := by omega
    by_cases here : index = items.length <;> simp [first, here]

theorem at_concat : At (layouts ++ [top]) address depth place ↔
    At layouts address depth place ∨
      depth = layouts.length ∧ top.addresses[place]? = some address := by
  unfold At
  constructor
  · rintro ⟨layout, found, here⟩
    exact (getElem?_concat_eq_some.mp found).imp (⟨layout, ·, here⟩) fun ⟨last, same⟩ =>
      ⟨last, same ▸ here⟩
  · rintro (⟨layout, found, here⟩ | ⟨last, here⟩)
    · exact ⟨layout, getElem?_concat_eq_some.mpr (.inl found), here⟩
    · exact ⟨top, getElem?_concat_eq_some.mpr (.inr ⟨last, rfl⟩), here⟩

end Layout

/-! ### What keeps the ledger right -/

namespace Ledger.Follows

variable {ledger : Ledger} {layouts : List Layout} {top : Layout} {stackEnd address : Address}

theorem empty (callSite : Option Location) :
    Ledger.empty.Follows [(Frame.new globalsFrame callSite).layout] stackStart where
  root := rfl
  index := by
    intro address depth place
    simp only [Ledger.empty, reduceCtorEq, false_iff]
    rintro ⟨layout, found, here⟩
    obtain rfl := List.mem_singleton.mp (List.mem_of_getElem? found)
    cases here
  distinct := List.nodup_nil
  handedOut := nofun
  aligned := rfl
  names := .cons .empty .nil

theorem enter (follows : ledger.Follows layouts stackEnd) (function : String)
    (callSite : Option Location) :
    ledger.enter.Follows (layouts ++ [(Frame.new function callSite).layout]) stackEnd where
  root := by
    obtain ⟨first, found, named⟩ := Option.map_eq_some_iff.mp follows.root
    simp [List.head?_append, found, named]
  index := by
    intro address depth place
    rw [Layout.at_concat, ← follows.index]
    simp [Ledger.enter, Frame.new, Frame.layout]
  distinct := by simpa [Frame.new, Frame.layout, Ledger.enter] using follows.distinct
  handedOut := by simpa [Frame.new, Frame.layout, Ledger.enter] using follows.handedOut
  aligned := follows.aligned
  names := by
    rw [List.reverse_append]
    exact .cons .empty follows.names

theorem leave (follows : ledger.Follows (layouts ++ [top]) stackEnd) (rooted : layouts ≠ []) :
    (ledger.leave top.addresses).Follows layouts stackEnd := by
  have moved : ((layouts ++ [top]).flatMap (·.addresses) ++ ledger.popped).Perm
      (layouts.flatMap (·.addresses) ++ (ledger.leave top.addresses).popped) := by
    rw [List.flatMap_append, List.flatMap_singleton, List.append_assoc]
    exact List.perm_append_comm.append_left _
  refine ⟨?_, ?_, moved.nodup_iff.mp follows.distinct,
    fun address member => follows.handedOut address (moved.mem_iff.mpr member),
    follows.aligned, ?_⟩
  · have root := follows.root
    rwa [List.head?_append_of_ne_nil _ rooted] at root
  · intro address depth place
    have before := follows.index address
    simp only [Layout.at_concat] at before
    simp only [Ledger.leave]
    split
    next gone =>
      -- A slot of the top frame is in no frame below it, where the index would have led.
      obtain ⟨last, here⟩ := List.getElem?_of_mem gone
      have indexed := (before _ _).mpr (.inr ⟨rfl, here⟩)
      refine ⟨nofun, fun below => ?_⟩
      rw [(before _ _).mpr (.inl below)] at indexed
      cases indexed
      exact absurd below.lt_length (Nat.lt_irrefl _)
    next kept =>
      rw [before]
      refine or_iff_left ?_
      rintro ⟨-, here⟩
      exact kept (List.mem_of_getElem? here)
  · have names := follows.names
    rw [List.reverse_append] at names
    cases shape : ledger.names with
    | nil =>
        rw [shape] at names
        cases names
    | cons first rest =>
        rw [shape] at names
        rw [Ledger.leave, shape]
        exact (List.forall₂_cons.mp names).2

/-- A slot is created at the end of the stack, in the top frame. -/
theorem insert (follows : ledger.Follows (layouts ++ [top]) stackEnd) :
    (ledger.insert stackEnd layouts.length top.addresses.length).Follows
      (layouts ++ [top.push stackEnd]) (stackEnd + slotSize) := by
  have moved : (stackEnd :: ((layouts ++ [top]).flatMap (·.addresses) ++ ledger.popped)).Perm
      ((layouts ++ [top.push stackEnd]).flatMap (·.addresses) ++ ledger.popped) := by
    have grid : (layouts ++ [top.push stackEnd]).flatMap (·.addresses) =
        (layouts ++ [top]).flatMap (·.addresses) ++ [stackEnd] := by
      simp [Layout.push]
    rw [grid, List.append_assoc]
    exact List.perm_middle.symm
  have fresh : stackEnd ∉ (layouts ++ [top]).flatMap (·.addresses) ++ ledger.popped :=
    fun member => Nat.lt_irrefl _ (follows.handedOut stackEnd member).2
  have grown : stackEnd < stackEnd + slotSize := Nat.lt_add_of_pos_right (by decide)
  refine ⟨?_, ?_, moved.nodup_iff.mp (List.nodup_cons.mpr ⟨fresh, follows.distinct⟩), ?_, ?_, ?_⟩
  · have root := follows.root
    rw [List.head?_append] at root ⊢
    cases layouts <;> exact root
  · intro address depth place
    have before := follows.index address depth place
    rw [Layout.at_concat] at before
    rw [Layout.at_concat, Layout.push, Layout.getElem?_concat_eq_some, and_or_left, ← or_assoc,
      ← before]
    simp only [Ledger.insert]
    split
    next new =>
      subst new
      have notIndexed : ledger.index address ≠ some (depth, place) := fun indexed =>
        fresh (List.mem_append_left _ (Layout.mem_addresses_iff.mpr
          ⟨depth, place, (follows.index ..).mp indexed⟩))
      simp [notIndexed, eq_comm]
    next old => simp [Ne.symm old]
  · intro address member
    rcases List.mem_cons.mp (moved.mem_iff.mpr member) with rfl | old
    · exact ⟨follows.aligned, grown⟩
    · have before := follows.handedOut address old
      exact ⟨before.1, Nat.lt_trans before.2 grown⟩
  · rw [Nat.add_mod, follows.aligned]
    rfl
  · have names := follows.names
    rw [List.reverse_append] at names ⊢
    exact names

/-- A name is bound in the top frame. -/
theorem bind {frame : Frame} (follows : ledger.Follows (layouts ++ [frame.layout]) stackEnd)
    (name : String) (address : Address) :
    (ledger.bind name address).Follows (layouts ++ [(frame.bind name address).layout])
      stackEnd := by
  have same : (layouts ++ [(frame.bind name address).layout]).flatMap (·.addresses) =
      (layouts ++ [frame.layout]).flatMap (·.addresses) := by
    simp [Frame.layout, Frame.bind]
  refine ⟨?_, fun address depth place => ?_, ?_, ?_, follows.aligned, ?_⟩
  · have root := follows.root
    rw [List.head?_append] at root ⊢
    cases layouts <;> exact root
  · have before := follows.index address depth place
    rw [Layout.at_concat] at before ⊢
    exact before
  · exact same ▸ follows.distinct
  · exact same ▸ follows.handedOut
  · have names := follows.names
    rw [List.reverse_append] at names ⊢
    cases shape : ledger.names with
    | nil =>
        rw [shape] at names
        cases names
    | cons first rest =>
        rw [shape] at names
        obtain ⟨here, below⟩ := List.forall₂_cons.mp names
        rw [Ledger.bind, shape]
        exact .cons (here.bind name address) below

end Ledger.Follows

end ReferenceSemantics
