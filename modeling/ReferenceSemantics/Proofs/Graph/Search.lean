import Mathlib.Logic.Relation
import ReferenceSemantics.Proofs.Graph.Reach

set_option autoImplicit false

/-!
Searches through a graph with a list of pending nodes.

A search takes the first pending node. A node that was seen before, or that is outside, is passed
over; another is seen now, and its successors become pending, in any order and without those seen
already if so wished. No domain is given beforehand: a search ends because what it can see is
finite, however many nodes wait, and it has seen the nodes connected to those it started from.
-/

namespace ReferenceSemantics

variable {α : Type} {next : α → List α} {inside : α → Prop}

/-- An edge from a node inside. -/
def Edge (next : α → List α) (inside : α → Prop) (node successor : α) : Prop :=
  inside node ∧ successor ∈ next node

/-- The nodes inside that a chain of edges connects to one of the roots. -/
def Connected (next : α → List α) (inside : α → Prop) (roots : List α) (node : α) : Prop :=
  inside node ∧ ∃ root ∈ roots, Relation.ReflTransGen (Edge next inside) root node

theorem Connected.step {roots : List α} {node successor : α}
    (connected : Connected next inside roots node) (edge : successor ∈ next node)
    (within : inside successor) : Connected next inside roots successor := by
  obtain ⟨here, root, member, chain⟩ := connected
  exact ⟨within, root, member, chain.tail ⟨here, edge⟩⟩

/-- The nodes seen, and those that wait. -/
structure Search (α : Type) where
  seen : List α
  pending : List α

namespace Search

inductive Step (next : α → List α) (inside : α → Prop) : Search α → Search α → Prop
  | skip {seen rest : List α} {node : α} (known : node ∈ seen ∨ ¬ inside node) :
      Step next inside ⟨seen, node :: rest⟩ ⟨seen, rest⟩
  | visit {seen rest pushed : List α} {node : α} (unseen : node ∉ seen) (within : inside node)
      (edges : pushed ⊆ next node)
      (covers : ∀ successor ∈ next node, successor ∈ node :: seen ∨ successor ∈ pushed) :
      Step next inside ⟨seen, node :: rest⟩ ⟨node :: seen, pushed ++ rest⟩

/-- A search from some roots may end with these nodes seen. -/
def Finds (next : α → List α) (inside : α → Prop) (roots found : List α) : Prop :=
  Relation.ReflTransGen (Step next inside) ⟨[], roots⟩ ⟨found, []⟩

/-! ### Searches end -/

/-- No search goes on forever from here. -/
def Terminates (next : α → List α) (inside : α → Prop) (search : Search α) : Prop :=
  Acc (fun later earlier => Step next inside earlier later) search

section

variable [DecidableEq α] {domain : List α}

/-- The part of a domain not seen yet. -/
def unseen (domain : List α) (search : Search α) : List α :=
  domain.filter (· ∉ search.seen)

/-- With every node seen, less of the domain is left. -/
theorem length_unseen_visit {seen rest pending : List α} {node : α} (new : node ∉ seen)
    (listed : node ∈ domain) :
    (unseen domain ⟨node :: seen, pending⟩).length < (unseen domain ⟨seen, rest⟩).length := by
  have fewer : unseen domain ⟨node :: seen, pending⟩ =
      (unseen domain ⟨seen, rest⟩).filter (· ≠ node) := by
    simp [unseen, List.filter_filter]
  have here : node ∈ unseen domain ⟨seen, rest⟩ := by simp [unseen, listed, new]
  rw [fewer]
  exact List.length_filter_lt_length_iff_exists.mpr ⟨node, here, by simp⟩

/-- Every search ends that only leads to nodes of a finite domain. -/
theorem terminates (edges : ∀ node, ∀ successor ∈ next node, inside successor → successor ∈ domain)
    (search : Search α) (start : ∀ node ∈ search.pending, inside node → node ∈ domain) :
    Terminates next inside search := by
  induction left : (unseen domain search).length using Nat.strongRecOn
    generalizing search with
  | _ left fewerLeft =>
      obtain ⟨seen, pending⟩ := search
      -- Passing nodes over shortens the list, seeing one shrinks the rest of the domain.
      induction pending with
      | nil => exact ⟨_, fun later step => nomatch step⟩
      | cons node rest fewerPending =>
          obtain ⟨first, others⟩ := List.forall_mem_cons.mp start
          refine ⟨_, fun later step => ?_⟩
          cases step with
          | skip => exact fewerPending others left
          | visit new within pushed =>
              subst left
              refine fewerLeft _ (length_unseen_visit new (first within)) _ ?_ rfl
              intro other waiting
              rcases List.mem_append.mp waiting with successor | old
              · exact edges node other (pushed successor)
              · exact others other old

end

/-- A search that cannot go on forever can be ended. -/
theorem Terminates.finds {search : Search α} (terminates : Terminates next inside search) :
    ∃ found, Relation.ReflTransGen (Step next inside) search ⟨found, []⟩ := by
  induction terminates with
  | intro search _ inductionHypothesis =>
      obtain ⟨seen, _ | ⟨node, rest⟩⟩ := search
      · exact ⟨seen, .refl⟩
      · have moves : ∃ later, Step next inside ⟨seen, node :: rest⟩ later := by
          by_cases known : node ∈ seen ∨ ¬ inside node
          · exact ⟨_, .skip known⟩
          · obtain ⟨new, within⟩ := not_or.mp known
            exact ⟨_, .visit new (Classical.not_not.mp within) (List.Subset.refl _) fun _ => .inr⟩
        obtain ⟨later, step⟩ := moves
        obtain ⟨found, ends⟩ := inductionHypothesis later step
        exact ⟨found, .head step ends⟩

/-! ### What a search has seen -/

/-- Everything known is connected to the roots, and what is connected and not seen yet comes from
what is pending. -/
structure Invariant (next : α → List α) (inside : α → Prop) (roots : List α)
    (search : Search α) : Prop where
  once : search.seen.Nodup
  seen : ∀ node ∈ search.seen, Connected next inside roots node
  pending : ∀ node ∈ search.pending, inside node → Connected next inside roots node
  roots : ∀ root ∈ roots, inside root → root ∈ search.seen ∨ root ∈ search.pending
  edges : ∀ node ∈ search.seen, ∀ successor ∈ next node, inside successor →
    successor ∈ search.seen ∨ successor ∈ search.pending

namespace Invariant

variable {roots : List α} {search later : Search α}

theorem start (roots : List α) : Invariant next inside roots ⟨[], roots⟩ where
  once := .nil
  seen := nofun
  pending := fun node member within => ⟨within, node, member, .refl⟩
  roots := fun _ member _ => .inr member
  edges := nofun

theorem step (invariant : Invariant next inside roots search)
    (step : Step next inside search later) :
    Invariant next inside roots later := by
  cases step with
  | @skip seen rest node known =>
      have settled {other : α} (within : inside other)
          (found : other ∈ seen ∨ other ∈ node :: rest) : other ∈ seen ∨ other ∈ rest := by
        rcases found with old | waiting
        · exact .inl old
        · rcases List.mem_cons.mp waiting with rfl | waiting
          · exact .inl (known.resolve_right (Classical.not_not.mpr within))
          · exact .inr waiting
      exact ⟨invariant.once, invariant.seen,
        fun other waiting => invariant.pending other (List.mem_cons_of_mem _ waiting),
        fun root member within => settled within (invariant.roots root member within),
        fun other old successor edge within =>
          settled within (invariant.edges other old successor edge within)⟩
  | @visit seen rest pushed node unseen within pushes covers =>
      have here := invariant.pending node (List.mem_cons_self ..) within
      have settled {other : α} (found : other ∈ seen ∨ other ∈ node :: rest) :
          other ∈ node :: seen ∨ other ∈ pushed ++ rest := by
        rcases found with old | waiting
        · exact .inl (List.mem_cons_of_mem _ old)
        · rcases List.mem_cons.mp waiting with rfl | waiting
          · exact .inl (List.mem_cons_self ..)
          · exact .inr (List.mem_append_right _ waiting)
      refine ⟨List.nodup_cons.mpr ⟨unseen, invariant.once⟩, ?_, ?_, ?_, ?_⟩
      · exact List.forall_mem_cons.mpr ⟨here, invariant.seen⟩
      · intro other waiting inOther
        rcases List.mem_append.mp waiting with successor | old
        · exact here.step (pushes successor) inOther
        · exact invariant.pending other (List.mem_cons_of_mem _ old) inOther
      · exact fun root member inRoot => settled (invariant.roots root member inRoot)
      · intro other known successor edge inSuccessor
        rcases List.mem_cons.mp known with rfl | old
        · exact (covers successor edge).imp_right (List.mem_append_left _)
        · exact settled (invariant.edges other old successor edge inSuccessor)

theorem steps (invariant : Invariant next inside roots search)
    (steps : Relation.ReflTransGen (Step next inside) search later) :
    Invariant next inside roots later := by
  induction steps with
  | refl => exact invariant
  | tail _ step inductionHypothesis => exact inductionHypothesis.step step

/-- With nothing pending, all that is connected has been seen. -/
theorem seen_of_connected {found : List α} (invariant : Invariant next inside roots ⟨found, []⟩)
    {node : α} (connected : Connected next inside roots node) : node ∈ found := by
  obtain ⟨within, root, member, chain⟩ := connected
  have done {other : α} (left : other ∈ found ∨ other ∈ ([] : List α)) : other ∈ found :=
    left.resolve_right nofun
  induction chain with
  | refl => exact done (invariant.roots root member within)
  | tail _ edge inductionHypothesis =>
      exact done (invariant.edges _ (inductionHypothesis edge.1) _ edge.2 within)

end Invariant

/-- Whichever way a search goes, it has seen the connected nodes in the end, each once. -/
theorem Finds.exact {roots found : List α} (finds : Finds next inside roots found) :
    found.Nodup ∧ ∀ node, node ∈ found ↔ Connected next inside roots node := by
  have invariant := (Invariant.start roots).steps finds
  exact ⟨invariant.once, fun node => ⟨invariant.seen node, invariant.seen_of_connected⟩⟩

end Search

/-- Inside its domain, `reach` finds what is connected to the pending nodes. -/
theorem mem_reach_iff [DecidableEq α] {domain pending : List α} {node : α} :
    node ∈ reach next domain pending ↔ Connected next (· ∈ domain) pending node := by
  constructor
  · intro found
    refine forall_mem_reach (Connected next (· ∈ domain) pending) ?_ ?_ found
    · exact fun root waiting within => ⟨within, root, waiting, .refl⟩
    · exact fun other connected successor edge within => connected.step edge within
  · rintro ⟨within, root, waiting, chain⟩
    induction chain with
    | refl => exact mem_reach_of_mem_pending within waiting
    | tail _ edge inductionHypothesis =>
        exact mem_reach_of_mem_next (inductionHypothesis edge.1) edge.2 within

end ReferenceSemantics
