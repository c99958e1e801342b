import ReferenceSemantics.Proofs.Placement.Twins
import ReferenceSemantics.Proofs.Run.Simulation.Program

set_option autoImplicit false

/-!
A run beside one with every site in the heap.

Whatever the left run puts on the stack, the right run has a slot for in the heap. The two go on
together until the left one comes upon a slot whose frame is gone.
-/

namespace ReferenceSemantics

open Storage

namespace Links

variable {links later : Links}

/-- Maps of the same names to linked values. -/
def Entries (links : Links) (entries entries' : List (String × Value)) : Prop :=
  List.Forall₂ (fun entry entry' => entry.1 = entry'.1 ∧ Value.Linked links entry.2 entry'.2)
    entries entries'

variable {entries entries' : List (String × Value)}

theorem Entries.mono (kept : links.Le later) (linked : links.Entries entries entries') :
    later.Entries entries entries' :=
  linked.imp fun _ _ entry => ⟨entry.1, entry.2.mono kept⟩

theorem Entries.place (linked : links.Entries entries entries') (name : String)
    {value value' : Value} (new : Value.Linked links value value') :
    links.Entries (NameMap.place name value entries) (NameMap.place name value' entries') := by
  induction linked with
  | nil => exact .cons ⟨rfl, new⟩ .nil
  | @cons first first' rest rest' here linked inductionHypothesis =>
      obtain ⟨other, old⟩ := first
      obtain ⟨_, old'⟩ := first'
      obtain ⟨rfl, same⟩ := here
      simp only [NameMap.place]
      split
      · exact .cons ⟨rfl, new⟩ (.cons ⟨rfl, same⟩ linked)
      · split
        · exact .cons ⟨rfl, new⟩ linked
        · exact .cons ⟨rfl, same⟩ inductionHypothesis

theorem Entries.ofList (linked : links.Entries entries entries') :
    links.Entries (NameMap.ofList entries).entries (NameMap.ofList entries').entries := by
  have inserted : ∀ map map' : NameMap Value, links.Entries map.entries map'.entries →
      links.Entries (map.insertAll entries).entries (map'.insertAll entries').entries := by
    induction linked with
    | nil => exact fun _ _ same => same
    | @cons first first' rest rest' here linked inductionHypothesis =>
        obtain ⟨name, value⟩ := first
        obtain ⟨_, value'⟩ := first'
        obtain ⟨rfl, new⟩ := here
        exact fun map map' same => inductionHypothesis _ _ (same.place name new)
  exact inserted _ _ .nil

end Links

namespace Twins

variable {pairs : Pairs} {left right : Storage}

/-- The values of bound slots, which are there on both sides. -/
theorem values (twins : Twins pairs left right) {bindings bindings' : List (String × Address)}
    (linked : pairs.links.Bindings bindings bindings')
    (present : ∀ binding ∈ bindings, ∃ slot, left.objectAt? binding.2 = some (.slot slot)) :
    pairs.links.Entries
      (bindings.filterMap fun (name, address) =>
        (left.load (.ofAddress address)).toOption.map (name, ·))
      (bindings'.filterMap fun (name, address) =>
        (right.load (.ofAddress address)).toOption.map (name, ·)) := by
  induction linked with
  | nil => exact .nil
  | @cons first first' rest rest' here linked inductionHypothesis =>
      obtain ⟨name, address⟩ := first
      obtain ⟨_, address'⟩ := first'
      obtain ⟨rfl, stands⟩ := here
      obtain ⟨⟨slot, found⟩, present⟩ := List.forall_mem_cons.mp present
      obtain ⟨slot', found', -, same⟩ := twins.slots_of_present stands found
      have loaded : left.load (.ofAddress address) = .ok slot.value :=
        load_eq_ok.mpr ⟨slot, slot_ok_iff.mpr found, rfl⟩
      have loaded' : right.load (.ofAddress address') = .ok slot'.value :=
        load_eq_ok.mpr ⟨slot', slot_ok_iff.mpr found', rfl⟩
      simp only [List.filterMap_cons, loaded, loaded', Except.toOption, Option.map_some]
      exact .cons ⟨rfl, same⟩ (inductionHypothesis present)

theorem frame? (twins : Twins pairs left right) (depth : Nat) :
    Option.Rel (fun frame frame' => pairs.links.Shells frame.shell frame'.shell)
      (left.frame? depth) (right.frame? depth) := by
  have linked := twins.shells
  rw [Storage.shells, Storage.shells, List.forall₂_map_left_iff,
    List.forall₂_map_right_iff] at linked
  rw [frame?_eq, frame?_eq]
  exact Simulation.forall₂_getElem? linked depth

theorem frameValues (twins : Twins pairs left right) (depth : Nat) :
    pairs.links.Entries (left.frameValues depth) (right.frameValues depth) := by
  have linked := twins.frame? depth
  unfold Storage.frameValues
  cases found : left.frame? depth with
  | none =>
      rw [found] at linked
      generalize right.frame? depth = found' at linked
      cases linked
      exact .nil
  | some frame =>
      rw [found] at linked
      generalize right.frame? depth = found' at linked
      cases linked with
      | some shell =>
          have member : frame ∈ left.frames := by
            rw [frame?_eq] at found
            exact List.mem_of_getElem? found
          exact twins.values shell.2 fun binding bound =>
            (twins.coherent.bound frame member binding bound).1

theorem entryBindings (twins : Twins pairs left right) :
    pairs.links.Entries (Run.entryBindings left) (Run.entryBindings right) := by
  have linked := twins.frame? 1
  have values := twins.frameValues 1
  unfold Run.entryBindings
  generalize left.frame? 1 = found at linked
  generalize right.frame? 1 = found' at linked
  cases linked with
  | none => exact .nil
  | @some frame frame' shell =>
      obtain ⟨_, callSite, _, _⟩ := frame
      obtain ⟨_, callSite', _, _⟩ := frame'
      obtain rfl : callSite = callSite' := shell.1
      cases callSite with
      | none => exact values
      | some _ => exact .nil

theorem captured (twins : Twins pairs left right) :
    pairs.links.Entries (Run.captured left).entries (Run.captured right).entries :=
  Links.Entries.ofList (List.rel_append (twins.frameValues 0) twins.entryBindings)

end Twins

/-- A pairing of addresses, and the number of frames. -/
structure Paired where
  pairs : Pairs
  depth : Nat

namespace Paired

def Le (world later : Paired) : Prop := world.pairs.Le later.pairs ∧ world.depth = later.depth

def Relates (world : Paired) (left right : Storage) : Prop :=
  left.frames.length = world.depth ∧ Twins world.pairs left right

variable {world : Paired} {left right changed changed' : Storage} {address address' : Address}

theorem Le.of_pairs {pairs : Pairs} (kept : world.pairs.Le pairs) : world.Le ⟨pairs, world.depth⟩ :=
  ⟨kept, rfl⟩

theorem le_refl (world : Paired) : world.Le world := ⟨fun _ _ _ => id, rfl⟩

theorem Relates.depth_of_shells (relates : world.Relates left right)
    (shells : changed.shells = left.shells) : changed.frames.length = world.depth := by
  have sizes := congrArg List.length shells
  rw [Storage.shells, Storage.shells, List.length_map, List.length_map] at sizes
  exact sizes.trans relates.1

/-- Storage after a write is related in the same world. -/
theorem Relates.written {role : Role} {old old' object object' : HeapObject}
    (relates : world.Relates left right)
    (stands : world.pairs.stands role address address')
    (rewrites : left.Rewrites changed address object)
    (rewrites' : right.Rewrites changed' address' object')
    (found : left.objectAt? address = some old) (found' : right.objectAt? address' = some old')
    (form : object.form = old.form) (form' : object'.form = old'.form)
    (linked : world.pairs.links.Objects object object') :
    ∃ next, world.Le next ∧ next.Relates changed changed' :=
  ⟨world, world.le_refl, relates.depth_of_shells rewrites.shells,
    relates.2.rewrites stands rewrites rewrites' found found' form form' linked⟩

theorem Relates.pushed {object object' : HeapObject} (relates : world.Relates left right)
    (linked : world.pairs.links.Objects object object') :
    ∃ next : Paired, world.Le next ∧
      next.pairs.stands object'.role left.heap.nextAddress right.heap.nextAddress ∧
      next.Relates { left with heap := left.heap.push object }
        { right with heap := right.heap.push object' } :=
  ⟨⟨_, world.depth⟩, .of_pairs (Pairs.le_add _ _ _ _), Pairs.add_here _ _ _ _, relates.1,
    relates.2.push linked⟩

/-- A slot of a site is created and linked. -/
theorem Relates.allocated (relates : world.Relates left right) (name : String) (kind : Kind)
    (site : SiteId) (placement : Placement) {value value' : Value}
    (linked : Value.Linked world.pairs.links value value')
    (fits : (left.allocate name kind (some site) placement value).2.Fits) :
    ∃ next : Paired, world.Le next ∧
      next.pairs.links.Ref (left.allocate name kind (some site) placement value).1
        (right.allocate name kind (some site) .heap value').1 ∧
      next.Relates (left.allocate name kind (some site) placement value).2
        (right.allocate name kind (some site) .heap value').2 := by
  obtain ⟨address, changed, result, allocated⟩ :=
    relates.2.coherent.allocates name kind (some site) placement value fits
  obtain ⟨address', changed', result', allocated'⟩ :=
    relates.2.coherent'.allocates name kind (some site) .heap value' relates.2.coherent'.fits
  rw [result] at fits ⊢
  rw [result']
  have twins := relates.2.allocates allocated fits allocated' ⟨rfl, linked⟩
  exact ⟨⟨_, world.depth⟩, .of_pairs (Pairs.le_add _ _ _ _),
    ⟨rfl, Pairs.add_here _ _ _ _⟩, relates.depth_of_shells allocated.shells, twins⟩

theorem depth_of_binds {name : String} (bound : left.Binds changed name address) :
    changed.frames.length = left.frames.length := by
  rw [bound.frames, length_modified]

theorem inCall_of_depth (twins : Twins world.pairs left right) (inCall : left.InCall) :
    right.InCall := by
  rw [inCall_iff, twins.depth]
  exact inCall_iff.mp inCall

/-- A declaration in a call. -/
theorem Relates.declared (relates : world.Relates left right) (inCall : 1 < world.depth)
    (name : String) (kind : Kind) (site : SiteId) (placement : Placement) {value value' : Value}
    (linked : Value.Linked world.pairs.links value value')
    (fits : (left.declare name kind (some site) placement value).2.Fits) :
    ∃ next : Paired, world.Le next ∧
      next.Relates (left.declare name kind (some site) placement value).2
        (right.declare name kind (some site) .heap value').2 := by
  have called : left.InCall := inCall_iff.mpr (relates.1 ▸ inCall)
  obtain ⟨address, middle, changed, result, allocated, bound, between, coherent⟩ :=
    relates.2.coherent.declares name kind (some site) placement value fits fun _ => called
  have called' := inCall_of_depth relates.2 called
  obtain ⟨address', middle', changed', result', allocated', bound', between', coherent'⟩ :=
    relates.2.coherent'.declares name kind (some site) .heap value'
      (by
        have kept : (right.declare name kind (some site) .heap value').2.nextStackAddress =
            right.nextStackAddress := nextStackAddress_modifyCurrent _ _
        rw [kept]
        exact relates.2.coherent'.fits) fun _ => called'
  rw [result] at fits ⊢
  rw [result']
  have twins := relates.2.allocates allocated between.fits allocated' ⟨rfl, linked⟩
  refine ⟨⟨_, world.depth⟩, .of_pairs (Pairs.le_add _ _ _ _), ?_,
    twins.binds coherent coherent' bound bound' (Pairs.add_here _ _ _ _)⟩
  exact (depth_of_binds bound).trans (relates.depth_of_shells allocated.shells)

/-- The declaration of a global. -/
theorem Relates.declaredGlobal (relates : world.Relates left right) (outside : ¬ 1 < world.depth)
    (name : String) (kind : Kind) {value value' : Value}
    (linked : Value.Linked world.pairs.links value value')
    (fits : (left.declare name kind none .stack value).2.Fits) :
    ∃ next : Paired, world.Le next ∧
      next.Relates (left.declare name kind none .stack value).2
        (right.declare name kind none .stack value').2 := by
  have outside' : ¬ right.InCall := by
    rw [inCall_iff, relates.2.depth, relates.1]
    exact outside
  have stackEnd : ∀ (storage : Storage) (value : Value),
      (storage.declare name kind none .stack value).2.nextStackAddress =
        storage.nextStackAddress + slotSize := fun storage value =>
    (nextStackAddress_modifyCurrent _ _).trans rfl
  have fits' : (right.declare name kind none .stack value').2.Fits := by
    unfold Fits at fits ⊢
    rw [stackEnd] at fits ⊢
    exact Nat.le_trans (Nat.add_le_add_right relates.2.stackEnd _) fits
  obtain ⟨address, middle, changed, result, allocated, bound, between, coherent⟩ :=
    relates.2.coherent.declares name kind none .stack value fits (by rintro ⟨⟩)
  obtain ⟨address', middle', changed', result', allocated', bound', between', coherent'⟩ :=
    relates.2.coherent'.declares name kind none .stack value' fits' (by rintro ⟨⟩)
  rw [result, result']
  have twins := relates.2.allocates_global outside' allocated between.fits allocated'
    ⟨rfl, linked⟩
  refine ⟨⟨_, world.depth⟩, .of_pairs (Pairs.le_add _ _ _ _), ?_,
    twins.binds coherent coherent' bound bound' (Pairs.add_here _ _ _ _)⟩
  exact (depth_of_binds bound).trans (relates.depth_of_shells allocated.shells)

end Paired

/-- The left run comes upon a slot whose frame is gone. -/
def Halt.Dangles (halt : Halt) : Prop :=
  ∃ address location, halt = .error (.fault (.dangling address) location)

/-- A run of one model beside a run of another that puts every site in the heap. -/
def relocation (left right : Model) (functions : left.functions = right.functions)
    (globals : left.globals = right.globals) (entry : left.config.entry = right.config.entry)
    (inHeap : ∀ site, right.placement site = .heap) : ProgramSimulation where
  left := left
  right := right
  World := Paired
  Le := Paired.Le
  links world := world.pairs.links
  storages := Paired.Relates
  InCall world := 1 < world.depth
  finals links values values' := links.Entries values.entries values'.entries
  Open := Halt.Dangles
  functions := functions
  globals := globals
  entry := entry
  le_refl := Paired.le_refl
  le_trans before after :=
    ⟨fun _ _ _ stands => after.1 _ _ _ (before.1 _ _ _ stands), before.2.trans after.2⟩
  links_mono kept := Pairs.Le.links kept.1
  inCall_mono kept := kept.2 ▸ Iff.rfl
  finals_mono kept same := same.mono kept
  biUnique relates := Pairs.Unique.links relates.2.unique
  lookup name relates := relates.2.lookup name
  readSlot := by
    intro world storage storage' address address' relates stands
    rcases relates.2.slots stands with ⟨slot, slot', found, found', linked⟩ | gone
    · exact .inl ⟨slot, slot', slot_ok_iff.mpr found, slot_ok_iff.mpr found', linked⟩
    · exact .inr ⟨address, gone, .inl fun location => ⟨address, location, rfl⟩⟩
  writeSlot := by
    intro world storage storage' address address' slot slot' value value' relates stands read read'
      linked
    have found := slot_ok_iff.mp read
    obtain ⟨same, found', kinds⟩ := relates.2.slots_of_present stands found
    obtain rfl : slot' = same := by
      have here := slot_ok_iff.mp read'
      rw [found'] at here
      exact (HeapObject.slot.inj (Option.some.inj here)).symm
    exact relates.written stands (rewrites_setSlot read value) (rewrites_setSlot read' value') found
      found' rfl rfl (.slot ⟨kinds.1, linked⟩)
  readBlock := by
    intro world storage storage' address address' cells relates stands
    obtain ⟨block, block', found, found', linked⟩ := relates.2.blocks stands
    exact ⟨block, block', block_eq_ok found, block_eq_ok found', linked⟩
  writeBlock := by
    intro world storage storage' address address' cells block block' relates stands linked
    obtain ⟨old, old', found, found', before⟩ := relates.2.blocks stands
    have size := linked.size.trans before.size.symm
    have size' := linked.cells.length_eq.symm.trans (size.trans before.cells.length_eq)
    exact relates.written stands (rewrites_heapSet found (by simp) (.block block))
      (rewrites_heapSet found' (by simp) (.block block')) found found'
      (congrArg HeapObject.Form.block size) (congrArg HeapObject.Form.block size')
      (Twins.blocks_objects linked)
  readTable := by
    intro world storage storage' address address' relates stands
    obtain ⟨table, table', found, found', linked⟩ := relates.2.tables stands
    exact ⟨table, table', table_eq_ok found, table_eq_ok found', linked⟩
  writeTable := by
    intro world storage storage' address address' table table' relates stands linked
    obtain ⟨old, old', found, found', -⟩ := relates.2.tables stands
    exact relates.written stands (rewrites_heapSet found (by simp) (.table table))
      (rewrites_heapSet found' (by simp) (.table table')) found found' rfl rfl (.table linked)
  addBlock := by
    intro world storage storage' block block' relates linked
    obtain ⟨next, kept, stands, related⟩ := relates.pushed (Twins.blocks_objects linked)
    refine ⟨next, kept, ?_, related⟩
    have size := linked.cells.length_eq
    rw [size]
    exact stands
  addTable := by
    intro world storage storage' table table' relates linked
    exact relates.pushed (.table linked)
  allocate := by
    intro world storage storage' value value' name kind site relates linked slot slot' fits
    have result := relates.allocated name kind site (left.placement site) linked fits
    rw [← inHeap site] at result
    exact result
  declare := by
    intro world storage storage' value value' name kind site inCall relates linked slot slot' fits
    have result := relates.declared inCall name kind site (left.placement site) linked fits
    rw [← inHeap site] at result
    exact result
  call := by
    intro world storage storage' function callSite relates
    have started : 0 < world.depth := by
      rw [← relates.1, length_frames]
      exact Nat.succ_pos _
    refine ⟨⟨world.pairs, world.depth + 1⟩, .refl _, Nat.lt_add_of_pos_left started,
      ⟨?_, relates.2.pushFrame function callSite⟩, ?_⟩
    · rw [frames_pushFrame, List.length_append, relates.1]
      rfl
    · intro last storage storage' kept inside
      have deep : storage.frames.length = world.depth + 1 := inside.1.trans kept.2.symm
      have called : storage.InCall := inCall_iff.mpr (by omega)
      refine ⟨⟨last.pairs, world.depth⟩, ⟨kept.1, rfl⟩, .refl _, ?_, inside.2.popFrame called⟩
      rw [frames_popFrame called, List.length_dropLast, deep]
      rfl
  declareGlobal := by
    intro world storage storage' value value' name kind outside relates linked slot slot' fits
    exact relates.declaredGlobal outside name kind linked fits
  sweep relates := ⟨_, Paired.le_refl _, relates.1, relates.2.sweep⟩
  capture relates := relates.2.captured

end ReferenceSemantics
