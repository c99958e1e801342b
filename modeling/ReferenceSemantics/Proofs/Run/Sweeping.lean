import ReferenceSemantics.Proofs.Run.FinalValues
import ReferenceSemantics.Proofs.Run.Lasting
import ReferenceSemantics.Proofs.Storage.Reachability

set_option autoImplicit false

/-!
The heap at the end of a run.

A run sweeps once, when its final values are taken: at the end of the body of the entry function, or
where a fault ends the run. Nothing has been marked before, and nothing is marked or changed after.
So an object is live in the end when a live frame led to it at that moment.
-/

namespace ReferenceSemantics

open Run

/-- No object has been marked. -/
def Heap.Unmarked (heap : Heap) : Prop := ∀ address, heap.state? address ≠ some .unreachable

/-- Only sweeps mark. -/
theorem Model.preserves_unmarked (model : Model) : model.Preserves .idle Heap.Unmarked := by
  apply Model.Preserves.of_set
  · exact fun _ _ _ => id
  · exact fun _ => .pure ()
  · intro heap object unmarked address
    rw [Heap.state?, Heap.entry?_push]
    split
    · simp
    · exact unmarked address
  · intro heap address old new _ _ unmarked other
    rw [Heap.state?_set]
    exact unmarked other

/-- An unmarked object is live. -/
theorem Heap.Unmarked.state?_eq {heap : Heap} (unmarked : heap.Unmarked) {address : Address}
    (present : heap.contains address) : heap.state? address = some .live := by
  obtain ⟨entry, found⟩ := Option.isSome_iff_exists.mp present
  have state : heap.state? address = some entry.state := congrArg _ found
  rw [state]
  cases marked : entry.state with
  | live => rfl
  | unreachable => exact absurd (marked ▸ state) (unmarked address)

theorem Run.heap_sweep (machine : Machine) :
    (exec sweep machine).2.storage.heap = machine.storage.sweep.2.heap := by
  unfold sweep
  simp only [exec_bind, exec_allocate]
  split <;> rfl

/-- Leaving the entry function after the sweep leaves the heap. -/
theorem FunctionDef.heap_finish (entry : FunctionDef) (returned : Option Value)
    (machine : Machine) :
    (exec (entry.finish returned) machine).2.storage.heap = machine.storage.sweep.2.heap := by
  have marked := heap_sweep { machine with finalValues := captured machine.storage }
  have leaves : Keeps (· = machine.storage.sweep.2.heap) (entry.leave returned) :=
    (entry.leave_lasts returned).keeps
  unfold finish capture
  rw [exec_bind, exec_modify]
  dsimp only
  rw [exec_bind]
  generalize exec sweep _ = reached at marked
  obtain ⟨result, swept⟩ := reached
  cases result with
  | error halt => exact marked
  | ok _ => exact Keeps.bind leaves (fun _ => .pure ()) swept marked

namespace HeapReport

/-- The report has the objects of the heap at their addresses. -/
theorem map_address_objects (heap : Heap) :
    (ofHeap heap).objects.map (·.address) = heap.addresses := by
  have sizes : heap.addresses.length ≤ heap.entries.toList.length := by
    simp [Heap.addresses, Heap.size]
  have same : (·.address) ∘ (fun pair : Address × HeapEntry => ObjectReport.ofEntry pair.1 pair.2) =
      Prod.fst := by
    funext pair
    simp only [Function.comp_apply, ObjectReport.ofEntry]
    split <;> rfl
  rw [ofHeap, List.map_map]
  exact (congrArg (List.map · _) same).trans (List.map_fst_zip sizes)

theorem state_of_objects {heap : Heap} {object : ObjectReport}
    (member : object ∈ (ofHeap heap).objects) :
    heap.state? object.address = some object.state := by
  obtain ⟨⟨address, entry⟩, listed, rfl⟩ := List.mem_map.mp member
  have state : heap.state? address = some entry.state :=
    congrArg (Option.map HeapEntry.state) (Heap.entry?_of_toList listed)
  dsimp only [ObjectReport.ofEntry]
  split <;> exact state

end HeapReport

namespace Simulator

variable {program : Program} {config : Config} {signal : AbortSignal}

/-- Nothing has been marked when the final values are taken. -/
theorem Captures.unmarked {panic : Option Panic} {storage : Storage} {globals : List VarDecl}
    {entered : Option Entered}
    (captures : (signalled program config signal).Captures panic storage globals entered) :
    storage.heap.Unmarked := by
  let model := Model.new program config
  have preserves := model.preserves_unmarked
  have called := preserves.invoke_of_idle model.maxCallDepth
  have empty : (signalled program config signal).machine.storage.heap.Unmarked := by
    intro address
    show Heap.empty.state? address ≠ some .unreachable
    simp [Heap.empty, Heap.state?, Heap.entry?]
  have starts : Keeps Heap.Unmarked model.evaluator.start := by
    unfold Evaluator.start
    refine (Evaluator.declareGlobals_lasts preserves.lasting called 0 _).keeps.bind fun _ => ?_
    refine Keeps.bind ?_ fun entry =>
      (model.enter_lasts preserves.lasting entry [] none).keeps.bind fun _ => .pure _
    unfold Model.function
    split
    · exact .pure _
    · exact .throw _
  have executes (entry : FunctionDef) (index : Nat) (stmts : List Stmt) :
      Keeps Heap.Unmarked (model.evaluator.executeFrom entry index stmts) :=
    (preserves.executeFrom_of_idle entry index stmts).keeps
  cases captures with
  | @finished entry started last returned entered executed =>
      exact (executes entry 0 entry.body).of_exec (starts.of_exec empty entered) executed
  | @inEntry entry started reached last before rest stmt cause location entered split goOn executed
      faults =>
      have here : Keeps Heap.Unmarked (model.evaluator.executeAt entry before.length stmt) :=
        (Keeps.checkpoint _).bind fun _ => (preserves.executeStmt_of_idle entry _ stmt).keeps
      exact here.of_exec ((executes entry 0 before).of_exec (starts.of_exec empty entered) executed)
        faults
  | @inGlobals reached last _ rest decl cause location split initialised faults =>
      have declares : Keeps Heap.Unmarked (model.evaluator.declareGlobals 0 globals) :=
        (Evaluator.declareGlobals_lasts preserves.lasting called 0 globals).keeps
      have here : Keeps Heap.Unmarked (model.evaluator.initialiseAt globals.length decl) :=
        (Keeps.checkpoint _).bind fun _ =>
          (Evaluator.declareGlobal_lasts preserves.lasting called decl).keeps
      exact here.of_exec (declares.of_exec empty initialised) faults

/-- A run that ends in a verdict leaves the heap as it was when its final values were taken, but
swept. -/
theorem exists_swept (accepted : program.Accepted config.entry) {verdict : Verdict}
    (ran : (signalled program config signal).run.1 = .ok verdict) :
    ∃ panic storage globals entered,
      (signalled program config signal).Captures panic storage globals entered ∧
        verdict.panics = panic.toList ∧
        (signalled program config signal).run.2.storage.heap = storage.sweep.2.heap := by
  rw [run_eq_conclude rfl] at ran ⊢
  generalize ended : (signalled program config signal).ending = last at ran
  obtain ⟨result, last⟩ := last
  cases result with
  | ok _ =>
      cases ran
      have course := (congrArg (exec · _) (Evaluator.run_eq_start _)).symm.trans ended
      obtain ⟨entry, started, entered, course⟩ := ok_of_bind course
      obtain ⟨returned, reached, executed, finishes⟩ := ok_of_bind course
      refine ⟨none, _, _, _, .finished entered executed, rfl, ?_⟩
      have heap := entry.heap_finish returned reached
      rwa [finishes] at heap
  | error halt =>
      cases halt with
      | aborted | callDepthExceeded => cases ran
      | error error =>
          cases error with
          | fault cause location =>
              cases ran
              obtain ⟨globals, entered, captures⟩ := captures_of_fault accepted ended
              refine ⟨_, _, globals, entered, captures, rfl, ?_⟩
              exact congrArg Storage.heap (exec_panicked cause location last)
          | _ => cases ran

/-- After a run, an object is live if it was reachable at the sweep. -/
theorem state_of_report {storage : Storage} (unmarked : storage.heap.Unmarked) {heap : Heap}
    (swept : heap = storage.sweep.2.heap) {object : ObjectReport}
    (member : object ∈ (HeapReport.ofHeap heap).objects) :
    object.state = .live ↔ storage.LeadsTo object.address := by
  subst swept
  have state := HeapReport.state_of_objects member
  have present : storage.heap.contains object.address := by
    have inHeap : object.address ∈ storage.sweep.2.heap.addresses :=
      HeapReport.map_address_objects _ ▸ List.mem_map_of_mem member
    have addresses : storage.sweep.2.heap.addresses = storage.heap.addresses :=
      storage.heap.addresses_markUnreachable _
    exact Storage.mem_addresses.mp (addresses ▸ inHeap)
  calc object.state = .live
      ↔ storage.sweep.2.heap.state? object.address = some .live := by rw [state, Option.some_inj]
    _ ↔ storage.heap.state? object.address = some .live ∧ storage.LeadsTo object.address :=
        Storage.state?_sweep_eq_live_iff
    _ ↔ storage.LeadsTo object.address := and_iff_right (unmarked.state?_eq present)

/-- Reachability is exact. However a search through any heap goes on from any roots, it ends, and it
has found the heap addresses that chains of references connect to the roots. So a sweep changes the
state of the live objects that are not reachable from the live frames, returns their number, changes
nothing else, and leaves nothing to a second one. After a run that ends in a verdict, an object is
live in the report if it was reachable when the final values were taken. -/
theorem reachability_exact :
    (∀ (heap : Heap) (roots : List Address),
      Search.Terminates heap.referencesAt (heap.contains ·) ⟨[], roots⟩ ∧
        (∃ found, Search.Finds heap.referencesAt (heap.contains ·) roots found) ∧
        (∀ found, Search.Finds heap.referencesAt (heap.contains ·) roots found →
          found.Nodup ∧ ∀ address, address ∈ found ↔ address ∈ heap.reachableFrom roots) ∧
        ∀ address, address ∈ heap.reachableFrom roots ↔ heap.contains address ∧
          ∃ root ∈ roots, Relation.ReflTransGen heap.Refers root address) ∧
      (∀ storage : Storage,
        (∀ address, storage.sweep.2.heap.state? address ≠ storage.heap.state? address ↔
          storage.heap.state? address = some .live ∧ ¬ storage.LeadsTo address) ∧
        storage.sweep.1 = (storage.heap.addresses.filter fun address =>
          storage.sweep.2.heap.state? address ≠ storage.heap.state? address).length ∧
        storage.sweep.2 = { storage with heap := storage.sweep.2.heap } ∧
        (∀ address, storage.sweep.2.heap.get? address = storage.heap.get? address) ∧
        storage.sweep.2.sweep = (0, storage.sweep.2)) ∧
      ∀ (program : Program) (config : Config) (signal : AbortSignal) (verdict : Verdict),
        program.check config.entry = .ok () →
        (signalled program config signal).run.1 = .ok verdict →
        ∃ panic storage globals entered,
          (signalled program config signal).Captures panic storage globals entered ∧
            verdict.panics = panic.toList ∧
            let report := (signalled program config signal).run.2.heapReport
            report.objects.map (·.address) = storage.heap.addresses ∧
              (∀ object ∈ report.objects,
                (object.state = .live ↔ storage.LeadsTo object.address)) ∧
              report.live + report.unreachable = report.objects.length := by
  refine ⟨fun heap roots => ⟨heap.search_terminates roots, ?_, ?_, fun _ => Heap.mem_reachableFrom⟩,
    fun storage => ⟨fun _ => Storage.state?_sweep_ne_iff, storage.sweep_fst, rfl,
      fun _ => Heap.get?_markUnreachable _ _ _, storage.sweep_sweep⟩, ?_⟩
  · exact (heap.search_terminates roots).finds
  · intro found finds
    refine ⟨finds.exact.1, fun address => ?_⟩
    rw [finds.exact.2, Heap.connected_iff, Heap.mem_reachableFrom]
  · intro program config signal verdict checked ran
    obtain ⟨panic, storage, globals, entered, captures, panics, swept⟩ :=
      exists_swept (Program.accepted_of_check checked) ran
    have addresses :=
      HeapReport.map_address_objects (signalled program config signal).run.2.storage.heap
    refine ⟨panic, storage, globals, entered, captures, panics, ?_, ?_, ?_⟩
    · rw [heapReport, addresses, swept]
      exact storage.heap.addresses_markUnreachable _
    · exact fun object member => state_of_report captures.unmarked swept member
    · have sizes := congrArg List.length addresses
      rw [List.length_map] at sizes
      rw [heapReport, sizes, Heap.addresses, List.length_map, List.length_range]
      exact Heap.count_add_count _

/-- The block of the first slice is dropped for that of the second. -/
def droppingProgram : Program :=
  ⟨[], [.new "main" [] [
    .declare (.new "s" .referenceHeader (some (.sliceLit [.lit (.int 7)] none))),
    .assign "s" (.sliceLit [.lit (.int 8)] none)]]⟩

/-- The second block is live in the end, and only this one was reachable. -/
theorem reachability_exact_dropping :
    let simulator := signalled droppingProgram .default .idle
    droppingProgram.check "main" = .ok () ∧
      ∃ verdict, simulator.run.1 = .ok verdict ∧
        simulator.run.2.heapReport.live = 1 ∧ simulator.run.2.heapReport.unreachable = 1 ∧
        ∃ panic storage globals entered,
          simulator.Captures panic storage globals entered ∧
            ¬ storage.LeadsTo heapStart ∧ storage.LeadsTo (heapStart + slotSize) := by
  intro simulator
  have checked : droppingProgram.check Config.default.entry = .ok () := by cbv
  have ends : simulator.run.1.toOption.isSome := by cbv
  obtain ⟨verdict, ran⟩ := Option.isSome_iff_exists.mp ends
  have ran : simulator.run.1 = .ok verdict := by
    generalize simulator.run.1 = result at ran
    cases result with
    | error error => cases ran
    | ok found => exact congrArg Except.ok (Option.some.inj ran)
  obtain ⟨panic, storage, globals, entered, captures, -, -, states, -⟩ :=
    reachability_exact.2.2 droppingProgram .default .idle verdict checked ran
  have objects : simulator.run.2.heapReport.objects =
      [⟨heapStart, .block, none, .unreachable⟩, ⟨heapStart + slotSize, .block, none, .live⟩] := by
    cbv
  obtain ⟨first, second⟩ := List.forall_mem_cons.mp (objects ▸ states)
  refine ⟨checked, verdict, ran, by cbv, by cbv, panic, storage, globals, entered, captures, ?_, ?_⟩
  · intro reaches
    cases first.mpr reaches
  · exact (List.forall_mem_singleton.mp second).mp rfl

end Simulator

end ReferenceSemantics
