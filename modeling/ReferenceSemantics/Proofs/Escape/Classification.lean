import ReferenceSemantics.Proofs.Escape.Fixpoint
import ReferenceSemantics.Proofs.Escape.Programs
import ReferenceSemantics.Proofs.Escape.Visits
import ReferenceSemantics.Proofs.NameMap
import ReferenceSemantics.Proofs.Program.Acceptance

set_option autoImplicit false

/-!
The audit of an accepted program under the policy that asks the classification.

The facts of the last round are those that the rules of the program find nothing new in, and the
sites that escape by them are those in the heap.
-/

namespace ReferenceSemantics

open EscapeRule

namespace EscapeFacts

variable {facts : EscapeFacts} {loc : Loc}

/-- The last rule of a round closes what escapes. -/
theorem closed_of_settled (settled : Settled facts Program.escapeHeld ()) : facts.Closed := by
  unfold Program.escapeHeld at settled
  simp only [settled_bind, settled_get, exists_eq_left'] at settled
  intro loc held escapes inside
  obtain ⟨reason, member⟩ := escapes
  have seed : loc ∈ facts.closure (facts.escaped.map (·.1)) :=
    mem_closure_of_mem (List.mem_map.mpr ⟨_, member, rfl⟩)
  exact settled_escape settled (mem_closure_of_heldBy seed inside)

theorem escapes_iff_reason? : facts.Escapes loc ↔ (facts.reason? loc).isSome := by
  unfold Escapes reason?
  rw [List.lookup_isSome_iff]
  constructor
  · rintro ⟨reason, member⟩
    exact ⟨_, member, beq_self_eq_true loc⟩
  · rintro ⟨⟨other, reason⟩, member, same⟩
    obtain rfl := eq_of_beq same
    exact ⟨reason, member⟩

/-- How a site is placed by the facts, and why. -/
def entry (facts : EscapeFacts) (site : SiteId) : Placement × Option EscapeReason :=
  (facts.reason? (.site site)).elim (.stack, none) fun reason => (.heap, some reason)

end EscapeFacts

namespace Program

variable {program : Program} {config : Config}

/-- Only sites of the program escape. -/
theorem mem_sites_of_escapes {mode : EscapeMode} {site : SiteId}
    (escapes : (program.escapeFacts mode).Escapes (.site site)) : site ∈ program.sites := by
  have known := (program.escapeFacts_inside mode).escapes escapes
  rcases List.mem_append.mp known with inSites | inTokens
  · obtain ⟨other, found, same⟩ := List.mem_map.mp inSites
    cases same
    exact found
  · obtain ⟨function, -, inRange⟩ := List.mem_flatMap.mp inTokens
    obtain ⟨_, -, same⟩ := List.mem_map.mp inRange
    cases same

/-- The sites of the program are placed by whether there is a reason for the heap. -/
theorem sites_classify (program : Program) (mode : EscapeMode) (site : SiteId) :
    (program.classify mode).sites.get? site =
      if site ∈ program.sites then some ((program.escapeFacts mode).entry site) else none := by
  have classified : program.classify mode =
      ⟨.ofList ((program.classifier mode).sites.map fun site =>
        (site, (program.escapeFacts mode).entry site))⟩ := by
    unfold classify EscapeFacts.entry escapeFacts
    dsimp only
    congr 2
    apply List.map_congr_left
    intro site _
    cases (program.classifier mode).facts.reason? (.site site) <;> rfl
  rw [classified, NameMap.get?_ofList_map]
  simp only [program.mem_classifier_sites mode]

theorem get?_classify (program : Program) (mode : EscapeMode) (site : SiteId) :
    (program.classify mode).get? site =
      if site ∈ program.sites then
        some (if ((program.escapeFacts mode).reason? (.site site)).isSome then .heap else .stack)
      else none := by
  rw [Placements.get?, sites_classify]
  unfold EscapeFacts.entry
  cases (program.escapeFacts mode).reason? (.site site) <;> split <;> rfl

/-- A site has a reason exactly if it is in the heap. -/
theorem reason?_classify (program : Program) (mode : EscapeMode) (site : SiteId) :
    ((program.classify mode).reason? site).isSome ↔
      (program.classify mode).get? site = some .heap := by
  rw [Placements.reason?, Placements.get?, sites_classify]
  unfold EscapeFacts.entry
  cases (program.escapeFacts mode).reason? (.site site) <;> split <;> simp

/-- Under the classifying policy exactly the sites that escape are in the heap. -/
theorem placement_eq_heap_iff (classified : config.placementPolicy = .classified) (site : SiteId) :
    (Model.new program config).placement site = .heap ↔
      (program.escapeFacts config.escapeMode).Escapes (.site site) := by
  have placements : (Model.new program config).placements = program.classify config.escapeMode := by
    rw [Model.new, classified]
    rfl
  have policy : (Model.new program config).config.placementPolicy.forced? = none := by
    rw [Model.new, classified]
    rfl
  rw [Model.placement, policy, Option.none_or, placements, get?_classify]
  by_cases escapes : (program.escapeFacts config.escapeMode).Escapes (.site site)
  · rw [if_pos (mem_sites_of_escapes escapes), if_pos (EscapeFacts.escapes_iff_reason?.mp escapes)]
    exact iff_of_true rfl escapes
  · rw [if_neg (mt EscapeFacts.escapes_iff_reason?.mpr escapes)]
    refine iff_of_false ?_ escapes
    split <;> nofun

/-- The audit of an accepted program that is placed by its classification. -/
def audit (accepted : program.Accepted config.entry)
    (classified : config.placementPolicy = .classified) (isOpen : Halt → Prop) : Audit where
  model := .new program config
  mode := config.escapeMode
  facts := program.escapeFacts config.escapeMode
  Open := isOpen
  closed := by
    obtain ⟨_, -, rest⟩ := settled_bind.mp (program.escapeRules_settled config.escapeMode)
    obtain ⟨_, -, held⟩ := settled_bind.mp rest
    exact EscapeFacts.closed_of_settled held
  placed := placement_eq_heap_iff classified
  settled := by
    intro name function found
    obtain ⟨_, -, rest⟩ := settled_bind.mp (program.escapeRules_settled config.escapeMode)
    obtain ⟨_, functions, -⟩ := settled_bind.mp rest
    exact settled_forM functions (of_function? found).1
  settledGlobals := by
    intro decl member
    obtain ⟨_, globals, -⟩ := settled_bind.mp (program.escapeRules_settled config.escapeMode)
    exact settled_forM globals member
  single := by
    intro name function found result named stmt member decl declared
    obtain ⟨globals, gives⟩ := accepted.functions function (of_function? found).1
    exact function.gives_check gives named member declared
  entry := accepted.entry_params

end Program

end ReferenceSemantics
