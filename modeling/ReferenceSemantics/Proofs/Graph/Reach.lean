import ReferenceSemantics.Graph.Reach

set_option autoImplicit false

/-!
What `reach` finds: the pending nodes of the domain, with a node all its successors in the domain,
and nothing else.
-/

namespace ReferenceSemantics

variable {α : Type} [DecidableEq α] {next : α → List α} {domain pending : List α} {node : α}

theorem mem_reach_of_mem_pending (inside : node ∈ domain) (waiting : node ∈ pending) :
    node ∈ reach next domain pending := by
  fun_induction reach next domain pending with
  | case1 => cases waiting
  | case2 domain head rest headInside inductionHypothesis =>
      by_cases same : node = head
      · simp [same]
      · apply List.mem_cons_of_mem
        apply inductionHypothesis
        · exact (List.mem_erase_of_ne same).mpr inside
        · apply List.mem_append_right
          simpa [same] using waiting
  | case3 domain head rest outside inductionHypothesis =>
      apply inductionHypothesis inside
      rcases List.mem_cons.mp waiting with here | later
      · exact absurd (here ▸ inside) outside
      · exact later

theorem mem_reach_of_mem_next {successor : α} (found : node ∈ reach next domain pending)
    (edge : successor ∈ next node) (inside : successor ∈ domain) :
    successor ∈ reach next domain pending := by
  fun_induction reach next domain pending with
  | case1 => cases found
  | case2 domain head rest headInside inductionHypothesis =>
      by_cases same : successor = head
      · simp [same]
      · have left := (List.mem_erase_of_ne same).mpr inside
        apply List.mem_cons_of_mem
        rcases List.mem_cons.mp found with here | later
        · apply mem_reach_of_mem_pending left
          exact List.mem_append_left _ (here ▸ edge)
        · exact inductionHypothesis later left
  | case3 domain head rest outside inductionHypothesis => exact inductionHypothesis found inside

/-- What holds of the pending nodes and carries over to successors holds of all that is found. -/
theorem forall_mem_reach (holds : α → Prop) (start : ∀ node ∈ pending, node ∈ domain → holds node)
    (step : ∀ node, holds node → ∀ successor ∈ next node, successor ∈ domain → holds successor)
    (found : node ∈ reach next domain pending) : holds node := by
  fun_induction reach next domain pending with
  | case1 => cases found
  | case2 domain head rest headInside inductionHypothesis =>
      have here := start head (List.mem_cons_self ..) headInside
      rcases List.mem_cons.mp found with same | later
      · exact same ▸ here
      · refine inductionHypothesis ?_ ?_ later
        · intro other waiting left
          have inside := List.mem_of_mem_erase left
          rcases List.mem_append.mp waiting with successor | old
          · exact step head here other successor inside
          · exact start other (List.mem_cons_of_mem _ old) inside
        · exact fun other known successor edge left =>
            step other known successor edge (List.mem_of_mem_erase left)
  | case3 domain head rest outside inductionHypothesis =>
      exact inductionHypothesis
        (fun other waiting => start other (List.mem_cons_of_mem _ waiting)) step found

end ReferenceSemantics
