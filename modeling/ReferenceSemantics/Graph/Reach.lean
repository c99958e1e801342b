set_option autoImplicit false

/-!
What can be reached in a finite graph.

`reach` follows the edges from the pending nodes inside a domain. Every node found leaves the
domain, so cycles and repeated edges end by themselves; nodes outside the domain are passed over.
-/

namespace ReferenceSemantics

variable {α : Type} [DecidableEq α]

/-- The nodes of a domain that are pending or follow from pending ones, in the order found. -/
def reach (next : α → List α) (domain pending : List α) : List α :=
  match pending with
  | [] => []
  | node :: rest =>
      if _inside : node ∈ domain then node :: reach next (domain.erase node) (next node ++ rest)
      else reach next domain rest
termination_by (domain.length, pending.length)
decreasing_by
  · have := List.length_erase_of_mem _inside
    have := List.length_pos_of_mem _inside
    exact .left _ _ (by omega)
  · exact .right _ (by simp)

end ReferenceSemantics
