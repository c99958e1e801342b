import ReferenceSemantics.Proofs.NameMap
import ReferenceSemantics.Proofs.Run.Bindings
import ReferenceSemantics.Proofs.Run.Interruption

set_option autoImplicit false

/-!
What a capture reads.

A capture reads the slots that the root frame and the frame of the entry function bind. It has all
names that these frames bind, and it gives the same values whatever else is in storage.
-/

namespace ReferenceSemantics

namespace Storage

variable {storage changed : Storage}

theorem frame?_of_skeleton (same : changed.skeleton = storage.skeleton) (depth : Nat) :
    (changed.frame? depth).map Frame.bare = (storage.frame? depth).map Frame.bare := by
  rw [frame?_eq, frame?_eq, ← List.getElem?_map, ← List.getElem?_map]
  exact congrArg (·[depth]?) same

/-- The bound slots have the same values. -/
def SameBound (storage changed : Storage) : Prop :=
  ∀ frame ∈ storage.frames, ∀ binding ∈ frame.bindings,
    changed.load (.ofAddress binding.2) = storage.load (.ofAddress binding.2)

theorem frameValues_of_skeleton (same : changed.skeleton = storage.skeleton)
    (bound : storage.SameBound changed) (depth : Nat) :
    changed.frameValues depth = storage.frameValues depth := by
  have frames := frame?_of_skeleton same depth
  unfold frameValues
  cases found : storage.frame? depth with
  | none =>
      rw [found, Option.map_none, Option.map_eq_none_iff] at frames
      rw [frames]
  | some frame =>
      rw [found, Option.map_some, Option.map_eq_some_iff] at frames
      obtain ⟨later, there, alike⟩ := frames
      have bindings : later.bindings = frame.bindings := congrArg (·.bindings) alike
      have member : frame ∈ storage.frames := by
        rw [frame?_eq] at found
        exact List.mem_of_getElem? found
      rw [there]
      dsimp only
      rw [bindings]
      refine List.filterMap_congr fun binding inFrame => ?_
      rw [bound frame member binding inFrame]

/-! ### All that is bound -/

/-- The frame of the entry function stands on the root frame and was not called from anywhere. -/
def entryFrame? (storage : Storage) : Option Frame :=
  (storage.frame? 1).filter (·.callSite.isNone)

/-- What a name means in the frame of the entry function, or else in the root frame. -/
def entryLookup (storage : Storage) (name : String) : Option Address :=
  (storage.entryFrame?.bind (·.lookup name)).or (storage.root.lookup name)

/-- The whole content of the slot at an address. -/
def content? (storage : Storage) (address : Address) : Option Value :=
  (storage.load (.ofAddress address)).toOption

/-- The values that a frame binds, as far as they can be read. -/
def boundValues (storage : Storage) (frame : Frame) : List (String × Value) :=
  frame.bindings.filterMap fun binding => (storage.content? binding.2).map (binding.1, ·)

theorem content?_eq_some {address : Address} {value : Value} :
    storage.content? address = some value ↔
      ∃ slot, storage.slot address = .ok slot ∧ slot.value = value := by
  unfold content?
  constructor
  · intro found
    cases read : storage.load (.ofAddress address) with
    | error error =>
        rw [read] at found
        cases found
    | ok whole =>
        rw [read] at found
        cases found
        obtain ⟨slot, present, here⟩ := load_eq_ok.mp read
        exact ⟨slot, present, Option.some.inj here⟩
  · rintro ⟨slot, present, rfl⟩
    rw [load_ofAddress present]
    rfl

theorem captured_eq (storage : Storage) :
    Run.captured storage = .ofList (storage.boundValues storage.root ++
      (storage.entryFrame?.map storage.boundValues).getD []) := by
  have root : storage.frameValues 0 = storage.boundValues storage.root := rfl
  have entry : Run.entryBindings storage =
      (storage.entryFrame?.map storage.boundValues).getD [] := by
    unfold Run.entryBindings entryFrame? frameValues
    cases storage.frame? 1 with
    | none => rfl
    | some frame =>
        obtain ⟨function, callSite, slots, bindings⟩ := frame
        cases callSite <;> rfl
  rw [Run.captured, root, entry]

theorem mem_of_entryFrame? {frame : Frame} (found : storage.entryFrame? = some frame) :
    frame ∈ storage.frames := by
  obtain ⟨there, -⟩ := Option.filter_eq_some_iff.mp found
  rw [frame?_eq] at there
  exact List.mem_of_getElem? there

/-- No readable binding is lost. -/
theorem names_boundValues {frame : Frame}
    (reads : ∀ binding ∈ frame.bindings, (storage.content? binding.2).isSome) :
    (storage.boundValues frame).map (·.1) = frame.bindings.map (·.1) := by
  unfold boundValues
  generalize frame.bindings = bindings at reads ⊢
  induction bindings with
  | nil => rfl
  | cons binding bindings inductionHypothesis =>
      obtain ⟨here, later⟩ := List.forall_mem_cons.mp reads
      obtain ⟨value, read⟩ := Option.isSome_iff_exists.mp here
      rw [List.filterMap_cons, read, Option.map_some, List.map_cons, List.map_cons,
        inductionHypothesis later]

/-- A readable binding is read. -/
theorem lookup_boundValues {frame : Frame}
    (reads : ∀ binding ∈ frame.bindings, (storage.content? binding.2).isSome) (name : String) :
    (storage.boundValues frame).lookup name = (frame.lookup name).bind storage.content? := by
  unfold boundValues Frame.lookup
  generalize frame.bindings = bindings at reads ⊢
  induction bindings with
  | nil => rfl
  | cons binding bindings inductionHypothesis =>
      obtain ⟨first, address⟩ := binding
      obtain ⟨here, later⟩ := List.forall_mem_cons.mp reads
      obtain ⟨value, read⟩ := Option.isSome_iff_exists.mp here
      rw [List.filterMap_cons, read, Option.map_some, NameMap.lookup_entry,
        NameMap.lookup_entry, inductionHypothesis later]
      split
      · exact read.symm
      · rfl

theorem WellBound.readable (wellBound : storage.WellBound) {frame : Frame}
    (member : frame ∈ storage.frames) :
    ∀ binding ∈ frame.bindings, (storage.content? binding.2).isSome := by
  intro binding bound
  obtain ⟨slot, read⟩ := wellBound.reads member bound
  exact Option.isSome_iff_exists.mpr ⟨slot.value, content?_eq_some.mpr ⟨slot, read, rfl⟩⟩

/-- A capture has for each name the content of the slot that the name means. -/
theorem WellBound.get?_captured (wellBound : storage.WellBound) (name : String) :
    (Run.captured storage).get? name = (storage.entryLookup name).bind storage.content? := by
  have distinct (frame : Frame) (member : frame ∈ storage.frames) :
      ((storage.boundValues frame).map (·.1)).Nodup := by
    rw [names_boundValues (wellBound.readable member)]
    exact (wellBound frame member).once
  have root : storage.root ∈ storage.frames := List.mem_cons_self ..
  have globals : (NameMap.ofList (storage.boundValues storage.root)).get? name =
      (storage.root.lookup name).bind storage.content? := by
    rw [NameMap.ofList, NameMap.get?_insertAll (distinct _ root),
      lookup_boundValues (wellBound.readable root)]
    exact Option.or_none
  rw [captured_eq, NameMap.ofList, NameMap.insertAll, List.foldl_append, entryLookup]
  cases found : storage.entryFrame? with
  | none => exact globals
  | some frame =>
      have member := mem_of_entryFrame? found
      have reads := wellBound.readable member
      refine (NameMap.get?_insertAll (distinct _ member) _).trans ?_
      rw [lookup_boundValues reads]
      refine (congrArg (Option.or _) globals).trans ?_
      cases bound : frame.lookup name with
      | none => simp only [Option.bind_some, bound, Option.bind_none, Option.none_or]
      | some address =>
          obtain ⟨value, read⟩ :=
            Option.isSome_iff_exists.mp (reads _ (Frame.mem_of_lookup bound))
          simp only [Option.bind_some, bound, read, Option.some_or]

theorem WellBound.content?_entryLookup (wellBound : storage.WellBound) {name : String}
    {address : Address} (found : storage.entryLookup name = some address) :
    (storage.content? address).isSome := by
  rcases Option.or_eq_some_iff.mp found with own | ⟨-, outer⟩
  · obtain ⟨frame, entered, bound⟩ := Option.bind_eq_some_iff.mp own
    exact wellBound.readable (mem_of_entryFrame? entered) _ (Frame.mem_of_lookup bound)
  · exact wellBound.readable (List.mem_cons_self ..) _ (Frame.mem_of_lookup outer)

/-- A capture has exactly the names that mean something. -/
theorem WellBound.mem_keys_captured (wellBound : storage.WellBound) {name : String} :
    name ∈ (Run.captured storage).keys ↔ (storage.entryLookup name).isSome := by
  rw [NameMap.mem_keys, wellBound.get?_captured]
  cases found : storage.entryLookup name with
  | none => rfl
  | some address =>
      exact iff_of_true (wellBound.content?_entryLookup found) rfl

end Storage

namespace Run

/-- What is captured depends on the frames apart from their slots and on the bound values. -/
theorem captured_of_skeleton {storage changed : Storage}
    (same : changed.skeleton = storage.skeleton) (bound : storage.SameBound changed) :
    captured changed = captured storage := by
  have entry : entryBindings changed = entryBindings storage := by
    have frames := Storage.frame?_of_skeleton same 1
    have values := Storage.frameValues_of_skeleton same bound 1
    unfold entryBindings
    cases found : storage.frame? 1 with
    | none =>
        rw [found, Option.map_none, Option.map_eq_none_iff] at frames
        rw [frames]
    | some frame =>
        rw [found, Option.map_some, Option.map_eq_some_iff] at frames
        obtain ⟨⟨function, callSite, slots, bindings⟩, there, alike⟩ := frames
        obtain ⟨function', callSite', slots', bindings'⟩ := frame
        obtain rfl : callSite = callSite' := congrArg (·.callSite) alike
        rw [there]
        cases callSite with
        | none => exact values
        | some _ => rfl
  rw [captured, captured, Storage.frameValues_of_skeleton same bound, entry]

/-- Nothing else is captured when storage was only added to. -/
theorem captured_adds {storage changed : Storage} (wellBound : storage.WellBound)
    (adds : storage.Adds changed) (fits : changed.Fits) : captured changed = captured storage := by
  refine captured_of_skeleton adds.skeleton fun frame member binding inFrame => ?_
  obtain ⟨slot, read⟩ := wellBound.reads member inFrame
  rw [Storage.load_ofAddress read, Storage.load_ofAddress (adds.slot fits read)]

end Run

theorem Simulator.wellBound_ending (program : Program) (config : Config) (signal : AbortSignal) :
    (signalled program config signal).ending.2.storage.WellBound := by
  have ran : Run.exec (Model.new program config).evaluator.run
      (signalled program config signal).machine = (signalled program config signal).ending := rfl
  exact Run.Stepwise.wellBound ran .empty

/-- The verdict on a fault has the values at the fault. -/
theorem Simulator.verdict_of_fault {simulator : Simulator} (fresh : simulator.finished = false)
    {cause : Fault} {location : Location}
    (faults : simulator.ending.1 = .error (.error (.fault cause location))) :
    ∃ verdict, simulator.run.1 = .ok verdict ∧
      verdict.finalValues = Run.captured simulator.ending.2.storage ∧
      verdict.panics = simulator.panics ++ [⟨cause.kind, location⟩] := by
  rw [run_eq_conclude fresh]
  generalize simulator.ending = last at faults ⊢
  obtain ⟨result, storage, trace, signal, finals⟩ := last
  obtain rfl : result = .error (.error (.fault cause location)) := faults
  refine ⟨_, rfl, ?_, rfl⟩
  exact congrArg Machine.finalValues (panicked_eq cause location storage trace signal finals)

end ReferenceSemantics
