import ReferenceSemantics.Escape.Basic
import ReferenceSemantics.Proofs.Graph.Reach

set_option autoImplicit false

/-!
The facts of the escape classification.

Facts are only ever put in front of others, so facts that were collected from others have these as
their end. Nothing is collected twice, which bounds the number of facts about finitely many
locations.
-/

namespace ReferenceSemantics.EscapeFacts

variable {facts later : EscapeFacts} {loc held : Loc} {locs : List Loc}

/-- The location escapes. -/
def Escapes (facts : EscapeFacts) (loc : Loc) : Prop := ∃ reason, (loc, reason) ∈ facts.escaped

theorem mem_heldBy : held ∈ facts.heldBy loc ↔ (loc, held) ∈ facts.holds := by
  simp only [heldBy, List.mem_map, List.mem_filter, beq_iff_eq]
  constructor
  · rintro ⟨⟨holder, target⟩, ⟨member, rfl⟩, rfl⟩
    exact member
  · intro member
    exact ⟨(loc, held), ⟨member, rfl⟩, rfl⟩

theorem mem_contents : held ∈ facts.contents locs ↔ ∃ loc ∈ locs, held ∈ facts.heldBy loc := by
  simp only [contents, mem_heldBy, List.mem_map, List.mem_filter, List.contains_iff_mem]
  constructor
  · rintro ⟨⟨holder, target⟩, ⟨member, known⟩, rfl⟩
    exact ⟨holder, known, member⟩
  · rintro ⟨loc, known, member⟩
    exact ⟨(loc, held), ⟨member, known⟩, rfl⟩

/-! ### Closure -/

theorem mem_closure_of_mem (member : loc ∈ locs) : loc ∈ facts.closure locs := by
  apply mem_reach_of_mem_pending
  · simp [member]
  · exact member

theorem mem_closure_of_heldBy (member : loc ∈ facts.closure locs)
    (holds : held ∈ facts.heldBy loc) : held ∈ facts.closure locs := by
  apply mem_reach_of_mem_next member holds
  have target : ∃ holder, (holder, held) ∈ facts.holds := ⟨loc, mem_heldBy.mp holds⟩
  simp [target]

/-! ### Growth -/

/-- The facts are the end of later ones. -/
structure Le (facts later : EscapeFacts) : Prop where
  holds : facts.holds <:+ later.holds
  escaped : facts.escaped <:+ later.escaped

theorem Le.refl (facts : EscapeFacts) : facts.Le facts :=
  ⟨List.suffix_refl _, List.suffix_refl _⟩

theorem Le.trans {first second third : EscapeFacts} (before : first.Le second)
    (after : second.Le third) : first.Le third :=
  ⟨before.holds.trans after.holds, before.escaped.trans after.escaped⟩

theorem Le.size_le (grown : facts.Le later) : facts.size ≤ later.size :=
  Nat.add_le_add grown.holds.length_le grown.escaped.length_le

/-- Facts of the same number are the same. -/
theorem Le.eq_of_size (grown : facts.Le later) (size : later.size ≤ facts.size) :
    facts = later := by
  have holds := grown.holds.length_le
  have escaped := grown.escaped.length_le
  unfold EscapeFacts.size at size
  have sameHolds := grown.holds.eq_of_length (by omega)
  have sameEscaped := grown.escaped.eq_of_length (by omega)
  cases facts
  cases later
  congr

theorem Le.antisymm (grown : facts.Le later) (back : later.Le facts) : facts = later :=
  grown.eq_of_size back.size_le

theorem suffix_insert (pair : Loc × Loc) (holds : List (Loc × Loc)) :
    holds <:+ holds.insert pair := by
  unfold List.insert
  split
  · exact List.suffix_refl _
  · exact List.suffix_cons pair holds

theorem nodup_insert {pair : Loc × Loc} {holds : List (Loc × Loc)} (once : holds.Nodup) :
    (holds.insert pair).Nodup := by
  unfold List.insert
  split
  next => exact once
  next fresh => exact List.nodup_cons.mpr ⟨by simpa using fresh, once⟩

theorem le_addHolds (facts : EscapeFacts) (holder : Loc) (held : List Loc) :
    facts.Le (facts.addHolds holder held) := by
  constructor
  · unfold addHolds
    induction held generalizing facts with
    | nil => exact List.suffix_refl _
    | cons loc held inductionHypothesis =>
        apply (suffix_insert (holder, loc) facts.holds).trans
        exact inductionHypothesis { facts with holds := facts.holds.insert (holder, loc) }
  · exact List.suffix_refl _

theorem le_escape (facts : EscapeFacts) (locs : List Loc) (reason : EscapeReason) :
    facts.Le (facts.escape locs reason) := by
  constructor
  · exact List.suffix_refl _
  · unfold escape
    induction locs generalizing facts with
    | nil => exact List.suffix_refl _
    | cons loc locs inductionHypothesis =>
        rw [List.foldl_cons]
        split
        · exact inductionHypothesis facts
        · apply (List.suffix_cons (loc, reason) facts.escaped).trans
          exact inductionHypothesis { facts with escaped := (loc, reason) :: facts.escaped }

/-! ### What is added -/

theorem mem_addHolds {holder : Loc} {held : List Loc} {pair : Loc × Loc} :
    pair ∈ (facts.addHolds holder held).holds ↔
      pair ∈ facts.holds ∨ ∃ loc ∈ held, pair = (holder, loc) := by
  unfold addHolds
  induction held generalizing facts with
  | nil => simp
  | cons loc held inductionHypothesis =>
      rw [List.foldl_cons]
      have rest := @inductionHypothesis { facts with holds := facts.holds.insert (holder, loc) }
      simp only at rest
      rw [rest, List.mem_insert_iff]
      simp only [List.mem_cons, exists_eq_or_imp]
      grind

theorem mem_escape {reason : EscapeReason} {entry : Loc × EscapeReason}
    (member : entry ∈ (facts.escape locs reason).escaped) :
    entry ∈ facts.escaped ∨ entry.1 ∈ locs := by
  unfold escape at member
  induction locs generalizing facts with
  | nil => exact .inl member
  | cons loc locs inductionHypothesis =>
      rw [List.foldl_cons] at member
      split at member
      · exact (inductionHypothesis member).imp_right (List.mem_cons_of_mem _)
      · have rest := @inductionHypothesis
          { facts with escaped := (loc, reason) :: facts.escaped } member
        rcases rest with old | new
        · rcases List.mem_cons.mp old with rfl | old
          · simp
          · exact .inl old
        · exact .inr (List.mem_cons_of_mem _ new)

theorem escapes_escape (member : loc ∈ locs) (reason : EscapeReason) :
    (facts.escape locs reason).Escapes loc := by
  induction locs generalizing facts with
  | nil => cases member
  | cons head locs inductionHypothesis =>
      have grown : ∀ start : EscapeFacts, start.Escapes loc →
          (start.escape locs reason).Escapes loc := by
        rintro start ⟨found, present⟩
        exact ⟨found, (le_escape start locs reason).escaped.subset present⟩
      have step : facts.escape (head :: locs) reason =
          (if facts.escaped.any (·.1 == head) then facts
            else { facts with escaped := (head, reason) :: facts.escaped }).escape locs reason := by
        unfold escape
        rw [List.foldl_cons]
        split <;> rfl
      rw [step]
      rcases List.mem_cons.mp member with rfl | later
      · apply grown
        split
        next known =>
          obtain ⟨⟨found, why⟩, present, same⟩ := List.any_eq_true.mp known
          obtain rfl : found = loc := by simpa using same
          exact ⟨why, present⟩
        next => exact ⟨reason, by simp⟩
      · exact inductionHypothesis later

/-! ### Nothing is collected twice -/

/-- No fact is there twice. -/
structure Once (facts : EscapeFacts) : Prop where
  holds : facts.holds.Nodup
  escaped : (facts.escaped.map (·.1)).Nodup

namespace Once

theorem empty : Once .empty := ⟨.nil, .nil⟩

theorem addHolds (once : facts.Once) (holder : Loc) (held : List Loc) :
    (facts.addHolds holder held).Once := by
  refine ⟨?_, once.escaped⟩
  unfold EscapeFacts.addHolds
  have nodup := once.holds
  generalize facts.holds = holds at nodup
  induction held generalizing holds with
  | nil => exact nodup
  | cons loc held inductionHypothesis => exact inductionHypothesis _ (nodup_insert nodup)

theorem escape (once : facts.Once) (locs : List Loc) (reason : EscapeReason) :
    (facts.escape locs reason).Once := by
  refine ⟨once.holds, ?_⟩
  unfold EscapeFacts.escape
  have nodup := once.escaped
  generalize facts.escaped = escaped at nodup
  induction locs generalizing escaped with
  | nil => exact nodup
  | cons loc locs inductionHypothesis =>
      rw [List.foldl_cons]
      split
      next => exact inductionHypothesis escaped nodup
      next fresh =>
        apply inductionHypothesis
        rw [List.map_cons, List.nodup_cons]
        refine ⟨?_, nodup⟩
        simpa [List.any_eq_true] using fresh

end Once

end ReferenceSemantics.EscapeFacts
