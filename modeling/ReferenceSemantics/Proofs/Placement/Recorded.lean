import Mathlib
import ReferenceSemantics.Proofs.Escape.LeastSolution
import ReferenceSemantics.Proofs.Program.Sites
import ReferenceSemantics.Proofs.Run.Ending
import ReferenceSemantics.Proofs.Run.LoggedRuns

set_option autoImplicit false

/-!
The placements of a verdict are the places that were used.

An accepted program has every site once, and each of them is placed, by the classification or by
force. The interpreter asks for no other sites, so it never falls back to the stack.
-/

namespace ReferenceSemantics

open Run

/-! ### Every site is placed -/

namespace Placements

variable {placements : Placements} {site : SiteId}

theorem get?_table : placements.table.get? site = placements.get? site := by
  rw [table, NameMap.get?_mapValues, get?]

theorem get?_forced {placement : Placement} :
    (placements.forced placement).get? site = (placements.get? site).map fun _ => placement := by
  rw [get?, forced, NameMap.get?_mapValues, get?, Option.map_map, Option.map_map]
  rfl

end Placements

namespace Program

variable {program : Program} {config : Config} {site : SiteId}

/-- A site of the program has the placement that a run asks for. -/
theorem placed_of_mem (config : Config) (member : site ∈ program.sites) :
    (Model.new program config).placements.get? site =
      some ((Model.new program config).placement site) := by
  obtain ⟨placement, classified⟩ := Option.isSome_iff_exists.mp
    ((program.get?_classify_isSome config.escapeMode site).mpr member)
  unfold Model.placement Model.new
  dsimp only
  cases config.placementPolicy.forced? with
  | none =>
      rw [Option.elim_none, Option.none_or, classified]
      rfl
  | some forced =>
      rw [Option.elim_some, Option.some_or, Placements.get?_forced, classified]
      rfl

theorem knows_of_mem (config : Config) (member : site ∈ program.sites) :
    (Model.new program config).Knows site :=
  Placements.get?_table.trans (placed_of_mem config member)

theorem placements_isSome :
    ((Model.new program config).placements.get? site).isSome ↔ site ∈ program.sites := by
  refine ⟨fun placed => ?_, fun member => ?_⟩
  · rw [← program.get?_classify_isSome config.escapeMode]
    unfold Model.new at placed
    dsimp only at placed
    cases forced : config.placementPolicy.forced? with
    | none =>
        rw [forced, Option.elim_none] at placed
        exact placed
    | some placement =>
        rw [forced, Option.elim_some, Placements.get?_forced, Option.isSome_map] at placed
        exact placed
  · rw [placed_of_mem config member]
    rfl

theorem keys_perm_sites (checked : program.check config.entry = .ok ()) :
    (Model.new program config).placements.sites.keys.Perm program.sites := by
  refine (List.perm_ext_iff_of_nodup (NameMap.keys_nodup _) (nodup_sites checked)).mpr fun site => ?_
  rw [NameMap.mem_keys, ← placements_isSome, Placements.get?, Option.isSome_map]

/-- Without force, a site has a reason exactly if it is in the heap. -/
theorem reason_iff_heap (classified : config.placementPolicy.forced? = none) :
    ((Model.new program config).placements.reason? site).isSome ↔
      (Model.new program config).placements.get? site = some .heap := by
  unfold Model.new
  rw [classified]
  exact program.reason?_classify config.escapeMode site

theorem knowsGlobals (program : Program) (config : Config) :
    (Model.new program config).KnowsGlobals := by
  intro decl member part inside site creates
  apply knows_of_mem
  apply List.mem_append_left
  exact List.mem_flatMap.mpr ⟨decl, member, List.mem_filterMap.mpr ⟨part, inside, creates⟩⟩

theorem knowsFunctions (program : Program) (config : Config) :
    (Model.new program config).KnowsFunctions := by
  intro function member site inFunction
  apply knows_of_mem
  exact List.mem_append_right _ (List.mem_flatMap.mpr ⟨function, member, inFunction⟩)

end Program

namespace Simulator

variable {program : Program} {config : Config}

/-! ### What a run has logged -/

/-- Only the program allocates, not what is made of its end. -/
theorem alloc_of_panicked {cause : Fault} {location : Location} {machine : Machine}
    {site : Option SiteId} {address : Address} {placement : Placement}
    (logged : .alloc site address placement ∈
      (exec (panicked cause location) machine).2.trace.events) :
    .alloc site address placement ∈ machine.trace.events := by
  have faulted (logged : .alloc site address placement ∈
      (machine.trace.record (.fault cause.kind location)).events) :
      .alloc site address placement ∈ machine.trace.events :=
    (Trace.mem_record logged).resolve_right fun same => TraceEvent.noConfusion same
  unfold panicked Run.sweep at logged
  simp only [exec_bind, exec_record, capture, exec_modify, exec_allocate] at logged
  split at logged
  · exact faulted ((Trace.mem_record logged).resolve_right fun same => TraceEvent.noConfusion same)
  · exact faulted logged

theorem alloc_of_run {simulator : Simulator} (fresh : simulator.finished = false)
    {site : Option SiteId} {address : Address} {placement : Placement}
    (logged : .alloc site address placement ∈ simulator.run.2.machine.trace.events) :
    .alloc site address placement ∈ simulator.ending.2.trace.events := by
  rcases machine_run fresh with same | ⟨cause, location, same⟩ | same <;> rw [same] at logged
  · exact logged
  · exact alloc_of_panicked logged
  · exact logged

theorem placements_of_run {simulator : Simulator} (fresh : simulator.finished = false)
    {verdict : Verdict} (ended : simulator.run.1 = .ok verdict) :
    verdict.placements = simulator.model.placements.table := by
  rw [run_eq_conclude fresh] at ended
  generalize simulator.ending = last at ended
  obtain ⟨result, machine⟩ := last
  cases result with
  | ok _ =>
      cases ended
      rfl
  | error halt =>
      cases halt with
      | aborted location => cases ended
      | callDepthExceeded => cases ended
      | error error =>
          cases error with
          | fault cause location =>
              cases ended
              rfl
          | _ => cases ended

theorem ending_confirmed (checked : program.check config.entry = .ok ()) (signal : AbortSignal) :
    let simulator := signalled program config signal
    simulator.ending.2.storage.Fits → simulator.ending.2.Confirmed simulator.model := by
  intro simulator fits
  obtain ⟨rank, ranking⟩ := Program.exists_ranking checked config
  have truthful := Model.execute_truthful ranking (program.knowsGlobals config)
    (program.knowsFunctions config)
  refine truthful simulator.machine rfl fits fun event started => ?_
  cases started with
  | mk none => cases none

/-- The placements of an accepted program are the places its first run uses. All the sites of the
program are placed, each once, and what is in the heap without force has a reason. Allocations are
logged with the placement that the verdict shows, at an address of that region; only globals, blocks
and tables have no site. -/
theorem placements_used (checked : program.check config.entry = .ok ()) :
    let placements := (Model.new program config).placements
    (placements.sites.keys.Perm program.sites ∧ program.sites.Nodup ∧
      ∀ site, site ∈ program.sites ↔ program.HasSite site) ∧
    (config.placementPolicy.forced? = none →
      ∀ site, (placements.reason? site).isSome ↔ placements.get? site = some .heap) ∧
    ∀ signal,
      let simulator := signalled program config signal
      let storage := simulator.ending.2.storage
      let events := simulator.run.2.machine.trace.events
      (∀ verdict, simulator.run.1 = .ok verdict → verdict.placements = placements.table) ∧
      (storage.Fits →
        (∀ site address placement, .alloc (some site) address placement ∈ events →
          placements.get? site = some placement ∧ (heapStart ≤ address ↔ placement = .heap)) ∧
        ∀ address placement, .alloc none address placement ∈ events →
          (placement = .stack ∧ storage.HasGlobal program.globals address) ∨
            (placement = .heap ∧ storage.HasBehind address)) := by
  intro placements
  refine ⟨⟨Program.keys_perm_sites checked, Program.nodup_sites checked, fun _ =>
    Program.mem_sites⟩, fun classified _ => Program.reason_iff_heap classified, fun signal => ?_⟩
  intro simulator storage events
  refine ⟨fun verdict ended => placements_of_run rfl ended, fun fits => ?_⟩
  have confirmed := ending_confirmed checked signal fits
  refine ⟨fun site address placement logged => ?_, fun address placement logged => ?_⟩
  · obtain ⟨placed, region⟩ := confirmed _ (alloc_of_run rfl logged)
    exact ⟨Placements.get?_table.symm.trans placed, region⟩
  · exact confirmed _ (alloc_of_run rfl logged)

/-- A global gets the address of a new object, and a local the header of a block. -/
def placingProgram : Program :=
  ⟨[.new "kept" .pointer (some .nil)],
    [.new "main" [] [.assign "kept" (.new (.lit (.int 5)) "five"),
      .declare (.new "list" .referenceHeader (some (.sliceLit [.lit (.int 1)] none)))]]⟩

def placing : Simulator := signalled placingProgram .default .idle

theorem placingProgram_checked : placingProgram.check "main" = .ok () := by
  cbv

theorem placing_fits : placing.ending.2.storage.Fits := by
  have slots : placing.ending.2.storage.nextStackAddress = stackStart + 2 * slotSize := by cbv
  unfold Storage.Fits
  rw [slots]
  decide

/-- The global, the object, the block and the local. -/
def placingAllocations : List TraceEvent :=
  [.alloc none stackStart .stack, .alloc (some "five") heapStart .heap,
    .alloc none (heapStart + slotSize) .heap,
    .alloc (some "main.list") (stackStart + slotSize) .stack]

theorem placing_logged : ∀ event ∈ placingAllocations,
    event ∈ placing.run.2.machine.trace.events := by
  have shown : placingAllocations.all (Array.contains placing.run.2.machine.trace.events) = true := by
    cbv
  exact fun event member => Array.contains_iff_mem.mp (List.all_eq_true.mp shown event member)

theorem placements_used_placing :
    placingProgram.check Config.default.entry = .ok () ∧ placing.ending.2.storage.Fits ∧
      (∀ event ∈ placingAllocations, event ∈ placing.run.2.machine.trace.events) ∧
      (Model.new placingProgram .default).placements.get? "five" = some .heap ∧
      (Model.new placingProgram .default).placements.get? "main.list" = some .stack ∧
      placing.ending.2.storage.HasGlobal placingProgram.globals stackStart ∧
      placing.ending.2.storage.HasBehind (heapStart + slotSize) := by
  have checked : placingProgram.check Config.default.entry = .ok () := placingProgram_checked
  obtain ⟨-, -, used⟩ := placements_used checked
  obtain ⟨sites, others⟩ := (used .idle).2 placing_fits
  have logged := placing_logged
  simp only [placingAllocations, List.forall_mem_cons] at logged
  obtain ⟨global, object, block, list, -⟩ := logged
  refine ⟨checked, placing_fits, placing_logged, (sites _ _ _ object).1, (sites _ _ _ list).1, ?_, ?_⟩
  · exact ((others _ _ global).resolve_right fun heap => Placement.noConfusion heap.1).2
  · exact ((others _ _ block).resolve_left fun stack => Placement.noConfusion stack.1).2

end Simulator

end ReferenceSemantics
