import ReferenceSemantics.Proofs.Escape.Audit
import ReferenceSemantics.Proofs.Storage.Contents

set_option autoImplicit false

/-!
Operations on storage in an audit.

Reading from a block or a table gives lasting values, and only such are written there. A slot gives
what the facts say that it holds. Nothing that the facts cover is ever found gone.
-/

namespace ReferenceSemantics

open Run

namespace Storage

/-- What an operation in the current frame leads to. -/
structure Advances (storage : Storage) (facts : EscapeFacts) (changed : Storage) : Prop where
  secure : changed.Secure facts
  grown : storage.Grown changed
  bindings : changed.current.bindings = storage.current.bindings

variable {storage changed : Storage} {facts : EscapeFacts} {locs : List Loc} {address : Address}
  {slot : Slot} {value header key : Value} {kind : Kind} {site : SiteId}

theorem current_bindings_of_map
    (same : changed.outline.map (·.bindings) = storage.outline.map (·.bindings)) :
    changed.current.bindings = storage.current.bindings := by
  have lasts := congrArg List.getLast? same
  rw [outline_eq changed, outline_eq storage] at lasts
  simpa [Frame.outline] using lasts

theorem current_bindings_of_outline (same : changed.outline = storage.outline) :
    changed.current.bindings = storage.current.bindings :=
  current_bindings_of_map (congrArg (List.map (·.bindings)) same)

theorem current_of_frames (f : Frame → Frame)
    (modified : changed.frames = storage.frames.dropLast ++ [f storage.current]) :
    changed.current = f storage.current := by
  have lasts := congrArg List.getLast? modified
  rw [frames_eq changed] at lasts
  simpa using lasts

theorem pointees_reslice {low high : Nat} (found : reslice header low high = .ok value) :
    value.pointees = [] := by
  obtain ⟨len, cap, offset, block, rfl⟩ := header_of_reslice found
  simp

namespace Secure

/-! ### Lasting values -/

/-- The heap holds nothing that goes away. -/
theorem lasting_of_heap (secure : storage.Secure facts) {object : HeapObject}
    (found : storage.heap.get? address = some object) (member : value ∈ object.contents) :
    storage.Lasting value := by
  intro target inside
  have admissible := secure.objects (secure.coherent.objectAt?_of_get? found)
  cases admissible.pointees value member target inside with
  | outlives outlives => exact outlives
  | held depth function slot site inCall owned here named covered =>
      have below := secure.coherent.lt_heapStart_of_owns owned
      have region := (Heap.lt_nextAddress_of_get? found).1
      exact absurd (here ▸ below) (Nat.not_lt.mpr region)

theorem lasting_of_covers (secure : storage.Secure facts) (covers : storage.Covers facts locs value)
    (escapes : ∀ loc ∈ locs, facts.Escapes loc) : storage.Lasting value :=
  fun target inside => secure.outlives_of_escapes (covers target inside) escapes

theorem lasting_element (secure : storage.Secure facts) {index : Int}
    (found : storage.element header index = .ok value) : storage.Lasting value := by
  obtain ⟨address, cell, block, -, read, present⟩ := element_eq_ok.mp found
  apply secure.lasting_of_heap (block_eq_ok_iff.mp read)
  exact List.mem_cons_of_mem _ (List.mem_of_getElem? present)

theorem lasting_tableGet (secure : storage.Secure facts)
    (found : storage.tableGet header key = .ok (some value)) : storage.Lasting value := by
  obtain ⟨address, table, -, read, present⟩ := tableGet_eq_some.mp found
  obtain ⟨entry, inTable, rfl⟩ := Option.map_eq_some_iff.mp present
  apply secure.lasting_of_heap (table_eq_ok_iff.mp read)
  apply List.mem_flatMap.mpr
  exact ⟨entry, List.mem_of_find?_eq_some inTable, by simp⟩

/-! ### Writes -/

theorem admissible_of_lasting {object : HeapObject}
    (lasting : ∀ value ∈ object.contents, storage.Lasting value)
    (kind : ∀ slot, object = .slot slot → slot.value.kind = slot.kind) :
    storage.Admissible facts address object :=
  ⟨fun value member target inside => .outlives (lasting value member target inside), kind⟩

/-- The objects that are not slots hold lasting values. -/
theorem writes (secure : storage.Secure facts) {old object : HeapObject}
    (found : storage.heap.get? address = some old) (sameForm : object.form = old.form)
    (notSlot : ∀ slot, old ≠ .slot slot) (lasting : ∀ value ∈ object.contents, storage.Lasting value) :
    storage.Advances facts { storage with heap := storage.heap.set address object } := by
  have present := secure.coherent.objectAt?_of_get? found
  have rewrites := rewrites_heapSet present notSlot object
  have otherSlot : ∀ slot, object ≠ .slot slot := by
    rintro slot rfl
    cases old with
    | slot _ => exact notSlot _ rfl
    | block _ => simp [HeapObject.form] at sameForm
    | table _ => simp [HeapObject.form] at sameForm
  obtain ⟨secure, grown⟩ := secure.rewrites rewrites present sameForm
    (admissible_of_lasting lasting fun slot same => absurd same (otherSlot slot))
  exact ⟨secure, grown, current_bindings_of_outline rewrites.outline⟩

theorem adds (secure : storage.Secure facts) (object : HeapObject)
    (notSlot : ∀ slot, object ≠ .slot slot)
    (lasting : ∀ value ∈ object.contents, storage.Lasting value) :
    storage.Advances facts { storage with heap := storage.heap.push object } := by
  have extended := secure.coherent.extends_push object
  obtain ⟨secure, grown⟩ := secure.extended extended
    (admissible_of_lasting lasting fun slot same => absurd same (notSlot slot))
  exact ⟨secure, grown, rfl⟩

theorem setElement (secure : storage.Secure facts) {index : Int}
    (written : storage.setElement header index value = .ok changed)
    (lasting : storage.Lasting value) : storage.Advances facts changed := by
  obtain ⟨address, cell, block, -, read, -, rfl⟩ := setElement_eq_ok.mp written
  have found := block_eq_ok_iff.mp read
  apply secure.writes found
  · exact congrArg HeapObject.Form.block List.length_set
  · nofun
  · intro held member
    rcases List.mem_cons.mp member with rfl | inCells
    · exact secure.lasting_of_heap found (List.mem_cons_self ..)
    · rcases List.mem_or_eq_of_mem_set inCells with old | rfl
      · exact secure.lasting_of_heap found (List.mem_cons_of_mem _ old)
      · exact lasting

theorem tableInsert (secure : storage.Secure facts)
    (written : storage.tableInsert header key value = .ok changed)
    (lastingKey : storage.Lasting key) (lasting : storage.Lasting value) :
    storage.Advances facts changed := by
  obtain ⟨address, table, -, read, rfl⟩ := tableInsert_eq_ok.mp written
  have found := table_eq_ok_iff.mp read
  have sameForm : (HeapObject.table (table.insert key value)).form =
      (HeapObject.table table).form := rfl
  apply secure.writes found sameForm
  · nofun
  · intro held member
    rcases mem_contents_insert member with old | rfl | rfl
    · exact secure.lasting_of_heap found old
    · exact lastingKey
    · exact lasting

theorem lasting_zeroLike (storage : Storage) (value : Value) : storage.Lasting value.zeroLike := by
  intro target inside
  rw [Value.pointees_zeroLike] at inside
  cases inside

theorem allocBlock (secure : storage.Secure facts) {cells : List Value} {zero : Value} (len : Nat)
    (lasting : ∀ cell ∈ cells, storage.Lasting cell) (lastingZero : storage.Lasting zero) :
    storage.Advances facts (storage.allocBlock cells len zero).2 := by
  apply secure.adds
  · nofun
  · exact List.forall_mem_cons.mpr ⟨lastingZero, lasting⟩

theorem allocTable (secure : storage.Secure facts) {entries : List (Value × Value)}
    (lasting : ∀ entry ∈ entries, storage.Lasting entry.1 ∧ storage.Lasting entry.2) :
    storage.Advances facts (storage.allocTable entries).2 := by
  apply secure.adds
  · nofun
  · intro held member
    obtain ⟨entry, inEntries, rfl | rfl⟩ := mem_contents_ofList member
    · exact (lasting entry inEntries).1
    · exact (lasting entry inEntries).2

theorem append (secure : storage.Secure facts) {values : List Value} {grown : Value}
    (appended : storage.append header values = .ok (grown, changed))
    (lasting : ∀ value ∈ values, storage.Lasting value) :
    storage.Advances facts changed ∧ grown.kind = header.kind ∧ grown.pointees = [] := by
  cases append_eq_ok appended with
  | nothing len cap offset block => exact ⟨⟨secure, .refl _, rfl⟩, rfl, by simp⟩
  | inPlace len cap offset address block values read room =>
      have found := block_eq_ok_iff.mp read
      refine ⟨secure.writes found ?_ nofun ?_, rfl, by simp⟩
      · exact congrArg HeapObject.Form.block (length_overwrite _ _ _)
      · intro held member
        rcases List.mem_cons.mp member with rfl | inCells
        · exact secure.lasting_of_heap found (List.mem_cons_self ..)
        · rcases mem_overwrite inCells with old | new
          · exact secure.lasting_of_heap found (List.mem_cons_of_mem _ old)
          · exact lasting held new
  | grown len cap offset address block values cells read full filled =>
      have found := block_eq_ok_iff.mp read
      have zero := secure.lasting_of_heap found (List.mem_cons_self ..)
      refine ⟨secure.allocBlock _ ?_ zero, rfl, by simp [Storage.allocBlock]⟩
      intro held member
      rw [filled] at member
      rcases mem_padCells member with inCells | rfl
      · rcases List.mem_append.mp inCells with visible | new
        · have old := List.mem_of_mem_drop (List.mem_of_mem_take visible)
          exact secure.lasting_of_heap found (List.mem_cons_of_mem _ old)
        · exact lasting held new
      · exact zero
  | first len cap offset value values cells filled =>
      refine ⟨secure.allocBlock _ ?_ (lasting_zeroLike _ _), rfl, by simp [Storage.allocBlock]⟩
      intro held member
      rw [filled] at member
      rcases mem_padCells member with new | rfl
      · exact lasting held new
      · exact lasting_zeroLike _ _

/-! ### Slots -/

theorem store (secure : storage.Secure facts) {ref : SlotRef}
    (stored : storage.store ref value = .ok changed) (typed : storage.Typed ref value.kind)
    (held : ∀ target ∈ value.pointees, storage.MayHold facts ref.address target) :
    storage.Advances facts changed := by
  obtain ⟨slot, whole, read, written, rfl⟩ := store_eq_ok.mp stored
  have found := slot_ok_iff.mp read
  have before := secure.objects found
  have rewrites := rewrites_setSlot read whole
  have fitting : slot.value.kind = slot.kind := before.kind slot rfl
  have sameKind : whole.kind = slot.value.kind := by
    apply Value.kind_setAtPath? written
    intro path
    obtain ⟨outline, lives, same⟩ := typed path
    obtain ⟨content, present, rfl⟩ := secure.coherent.objectAt?_of_lives lives
    rw [found] at present
    cases present
    exact same.symm.trans fitting.symm
  have admissible : storage.Admissible facts ref.address (.slot { slot with value := whole }) := by
    constructor
    · intro inner member target inside
      obtain rfl := List.mem_singleton.mp member
      rcases Value.pointees_setAtPath? written inside with old | new
      · exact before.pointees slot.value (List.mem_singleton.mpr rfl) target old
      · exact held target new
    · rintro _ ⟨⟩
      exact sameKind.trans fitting
  obtain ⟨secure, grown⟩ := secure.rewrites rewrites found rfl admissible
  exact ⟨secure, grown, current_bindings_of_outline rewrites.outline⟩

/-- A new slot of a site, placed by whether the site escapes, with what the site holds in it. -/
theorem allocated_site {placement : Placement} {name : String} (secure : storage.Secure facts)
    (closed : facts.Closed) (placed : placement = .heap ↔ facts.Escapes (.site site))
    (allocated : storage.Allocates changed placement ⟨name, kind, value, some site, address⟩)
    (coherent : changed.Coherent)
    (covers : storage.Covers facts (facts.heldBy (.site site)) value) (same : value.kind = kind) :
    storage.Advances facts changed ∧ changed.IsLocal facts address site kind := by
  have grown := allocated.grown secure.coherent coherent
  have place := allocated.place
  have owner := allocated.owner coherent
  have fitting : ∀ slot : Slot, HeapObject.slot ⟨name, kind, value, some site, address⟩ =
      .slot slot → slot.value.kind = slot.kind := by
    rintro _ ⟨⟩
    exact same
  cases placement with
  | heap =>
      have escapes := placed.mp rfl
      have lasting : storage.Lasting value :=
        secure.lasting_of_covers covers fun loc held => closed escapes held
      have admissible : changed.Admissible facts address
          (.slot ⟨name, kind, value, some site, address⟩) := by
        apply admissible_of_lasting ?_ fitting
        intro inner member
        exact List.mem_singleton.mp member ▸ lasting.embeds grown.toEmbeds
      obtain ⟨secure, grown⟩ := secure.allocated allocated coherent admissible
        fun onStack => Placement.noConfusion onStack
      refine ⟨⟨secure, grown, ?_⟩, _, rfl, .inr ⟨owner, escapes⟩⟩
      apply current_bindings_of_outline
      rw [outline, outline, place.2.2.2]
  | stack =>
      have stays : ¬ facts.Escapes (.site site) := fun escapes =>
        Placement.noConfusion (placed.mpr escapes)
      have admissible : changed.Admissible facts address
          (.slot ⟨name, kind, value, some site, address⟩) := by
        refine ⟨?_, fitting⟩
        intro inner member target inside
        obtain rfl := List.mem_singleton.mp member
        have covered := covers target inside
        rcases Nat.eq_zero_or_pos storage.calls.depth with atRoot | inCall
        · unfold Tracks at covered
          rw [atRoot] at covered
          exact .outlives (grown.outlives covered.outlives_of_root)
        · exact .held _ _ _ site inCall owner rfl rfl (covered.embeds grown.toEmbeds)
      obtain ⟨secure, grown⟩ := secure.allocated allocated coherent admissible
        fun _ _ => ⟨site, rfl, stays⟩
      refine ⟨⟨secure, grown, ?_⟩, Slot.outline ⟨name, kind, value, some site, address⟩, rfl,
        .inl ⟨?_, rfl, rfl⟩⟩
      · rw [current_of_frames (·.push _) place.2.2.2]
        rfl
      · rw [grown.calls_depth, grown.current_function]
        exact owner

theorem allocate {placement : Placement} (name : String) (secure : storage.Secure facts)
    (closed : facts.Closed) (placed : placement = .heap ↔ facts.Escapes (.site site))
    (covers : storage.Covers facts (facts.heldBy (.site site)) value) :
    let result := storage.allocate name value.kind (some site) placement value
    result.2.Fits → storage.Advances facts result.2 ∧
      result.2.IsLocal facts result.1.address site value.kind := by
  intro result fits
  obtain ⟨address, changed, made, allocated⟩ :=
    secure.coherent.allocates name value.kind (some site) placement value fits
  have last : result = (.ofAddress address, changed) := made
  rw [last] at fits ⊢
  exact secure.allocated_site closed placed allocated
    (secure.coherent.allocated allocated fits) covers rfl

/-- A global belongs to the root frame, and what is in it has to last. -/
theorem declareGlobal {name : String} (secure : storage.Secure facts) (atRoot : ¬ storage.InCall)
    (lasting : storage.Lasting value) (same : value.kind = kind) :
    let result := storage.declare name kind none .stack value
    result.2.Fits → result.2.Secure facts ∧ storage.Grown result.2 := by
  intro result fits
  obtain ⟨address, middle, changed, made, allocated, bound, middleCoherent, coherent⟩ :=
    secure.coherent.declares name kind none .stack value fits nofun
  have last : result = (.ofAddress address, changed) := made
  have grown := allocated.grown secure.coherent middleCoherent
  have admissible : middle.Admissible facts address
      (.slot ⟨name, kind, value, none, address⟩) := by
    apply admissible_of_lasting
    · intro inner member
      exact List.mem_singleton.mp member ▸ lasting.embeds grown.toEmbeds
    · rintro _ ⟨⟩
      exact same
  obtain ⟨secure, grown⟩ := secure.allocated allocated middleCoherent admissible
    fun _ inCall => absurd inCall atRoot
  obtain ⟨secure, grown'⟩ := secure.binds coherent bound
  rw [last]
  exact ⟨secure, grown.trans grown'⟩

/-- A declaration in a call adds a local to the scope. -/
theorem declare {placement : Placement} {name : String} {scope : EscapeScope}
    (secure : storage.Secure facts) (closed : facts.Closed)
    (placed : placement = .heap ↔ facts.Escapes (.site site)) (inCall : storage.InCall)
    (agrees : storage.Agrees facts scope)
    (covers : storage.Covers facts (facts.heldBy (.site site)) value) (same : value.kind = kind) :
    let result := storage.declare name kind (some site) placement value
    result.2.Fits → result.2.Secure facts ∧ storage.Grown result.2 ∧
      result.2.Agrees facts (scope.bind name site kind) := by
  intro result fits
  obtain ⟨address, middle, changed, made, allocated, bound, middleCoherent, coherent⟩ :=
    secure.coherent.declares name kind (some site) placement value fits fun _ => inCall
  have last : result = (.ofAddress address, changed) := made
  obtain ⟨advances, isLocal⟩ :=
    secure.allocated_site closed placed allocated middleCoherent covers same
  obtain ⟨secure, grown⟩ := advances.secure.binds coherent bound
  have agrees := agrees.grown advances.grown advances.bindings
  have current := current_of_frames (·.bind name address) bound.frames
  rw [last]
  refine ⟨secure, advances.grown.trans grown, ?_, agrees.known, ?_, ?_⟩
  · rw [grown.current_function]
    exact agrees.function
  · intro other otherSite otherKind found
    rw [current, Frame.lookup_bind]
    rw [EscapeScope.bind, List.lookup_cons] at found
    by_cases here : other = name
    · subst here
      simp only [beq_self_eq_true, Option.some.injEq, Prod.mk.injEq] at found
      obtain ⟨rfl, rfl⟩ := found
      exact ⟨address, if_pos rfl, isLocal.grown grown⟩
    · simp only [beq_eq_false_iff_ne.mpr here] at found
      obtain ⟨place, boundThere, isLocal⟩ := agrees.bound found
      exact ⟨place, by rw [if_neg here]; exact boundThere, isLocal.grown grown⟩
  · intro other called absent
    rw [current, Frame.lookup_bind]
    rw [EscapeScope.bind, List.lookup_cons] at absent
    by_cases here : other = name
    · subst here
      simp at absent
    · simp only [beq_eq_false_iff_ne.mpr here] at absent
      rw [if_neg here]
      exact agrees.free (grown.inCall.mpr called) absent

end Secure

end Storage

end ReferenceSemantics
