import ReferenceSemantics.Proofs.Escape.Facts
import ReferenceSemantics.Proofs.Storage.Ownership
import ReferenceSemantics.Proofs.Value.Pointees

set_option autoImplicit false

/-!
Storage as the facts of the escape classification describe it.

The facts name the slots that an address may stand for. An address under a site is one of a slot of
the frame itself; one under the content of a parameter belongs to a frame further down, as long as
that content does not escape; an address that escapes belongs to no call at all. Storage is secure
when the pointers in every slot are of what the facts say that its site holds.
-/

namespace ReferenceSemantics

/-- What a location that escapes holds escapes as well. -/
def EscapeFacts.Closed (facts : EscapeFacts) : Prop :=
  ∀ {loc held : Loc}, facts.Escapes loc → held ∈ facts.heldBy loc → facts.Escapes held

namespace Storage

/-- A slot whose address may be held under one of the locations, in a frame of the function. -/
inductive Covered (storage : Storage) (facts : EscapeFacts) (depth : Nat) (function : String)
    (locs : List Loc) (address : Address) : Prop where
  | outlives (outlives : storage.Outlives address)
  | owned (slot : Slot) (site : SiteId) (owned : storage.Owns depth function slot)
      (here : slot.address = address) (named : slot.site = some site) (member : .site site ∈ locs)
  | passed (lower : Nat) (owner : String) (slot : Slot) (param : Nat) (below : lower < depth)
      (owned : storage.Owns lower owner slot) (here : slot.address = address)
      (member : .content function param ∈ locs)
      (kept : ¬ facts.Escapes (.content function param))
      (again : .content function param ∈ facts.heldBy (.content function param))

/-- The slot at the holder may have a pointer to the target in it. -/
inductive MayHold (storage : Storage) (facts : EscapeFacts) (holder target : Address) : Prop where
  | outlives (outlives : storage.Outlives target)
  | held (depth : Nat) (function : String) (slot : Slot) (site : SiteId) (inCall : 0 < depth)
      (owned : storage.Owns depth function slot) (here : slot.address = holder)
      (named : slot.site = some site)
      (covered : storage.Covered facts depth function (facts.heldBy (.site site)) target)

/-- The values of an object are what its address may hold, and fit the kind of a slot. -/
structure Admissible (storage : Storage) (facts : EscapeFacts) (address : Address)
    (object : HeapObject) : Prop where
  pointees : ∀ value ∈ object.contents, ∀ target ∈ value.pointees,
    storage.MayHold facts address target
  kind : ∀ slot, object = .slot slot → slot.value.kind = slot.kind

/-- Every object is admissible, and calls own slots only of sites that do not escape. -/
structure Secure (storage : Storage) (facts : EscapeFacts) : Prop where
  coherent : storage.Coherent
  objects : ∀ {address object}, storage.objectAt? address = some object →
    storage.Admissible facts address object
  placed : ∀ {depth function slot}, 0 < depth → storage.Owns depth function slot →
    ∃ site, slot.site = some site ∧ ¬ facts.Escapes (.site site)

variable {storage changed : Storage} {facts : EscapeFacts} {depth : Nat} {function : String}
  {locs more : List Loc} {address target : Address} {slot : Slot}

/-! ### What the facts allow -/

theorem Covered.mono (covered : storage.Covered facts depth function locs address)
    (within : locs ⊆ more) : storage.Covered facts depth function more address := by
  cases covered with
  | outlives outlives => exact .outlives outlives
  | owned slot site owned here named member => exact .owned slot site owned here named (within member)
  | passed lower owner slot param below owned here member kept again =>
      exact .passed lower owner slot param below owned here (within member) kept again

theorem Covered.embeds (embeds : storage.Embeds changed)
    (covered : storage.Covered facts depth function locs address) :
    changed.Covered facts depth function locs address := by
  cases covered with
  | outlives outlives => exact .outlives (embeds.outlives outlives)
  | owned slot site owned here named member =>
      exact .owned slot site (embeds.owns owned) here named member
  | passed lower owner slot param below owned here member kept again =>
      exact .passed lower owner slot param below (embeds.owns owned) here member kept again

theorem MayHold.embeds {holder : Address} (embeds : storage.Embeds changed)
    (held : storage.MayHold facts holder target) : changed.MayHold facts holder target := by
  cases held with
  | outlives outlives => exact .outlives (embeds.outlives outlives)
  | held depth function slot site inCall owned here named covered =>
      exact .held depth function slot site inCall (embeds.owns owned) here named
        (covered.embeds embeds)

theorem Admissible.embeds {object : HeapObject} (embeds : storage.Embeds changed)
    (admissible : storage.Admissible facts address object) :
    changed.Admissible facts address object :=
  ⟨fun value member target inside => (admissible.pointees value member target inside).embeds embeds,
    admissible.kind⟩

/-- In the root frame there is nothing that goes away. -/
theorem Covered.outlives_of_root (covered : storage.Covered facts 0 function locs address) :
    storage.Outlives address := by
  cases covered with
  | outlives outlives => exact outlives
  | owned slot site owned here named member => exact here ▸ owned.outlives
  | passed lower owner slot param below => exact absurd below (Nat.not_lt_zero lower)

namespace Secure

/-- An address that is held under escaping locations only outlives every call. -/
theorem outlives_of_escapes (secure : storage.Secure facts)
    (covered : storage.Covered facts depth function locs address)
    (escapes : ∀ loc ∈ locs, facts.Escapes loc) : storage.Outlives address := by
  cases covered with
  | outlives outlives => exact outlives
  | owned slot site owned here named member =>
      rcases Nat.eq_zero_or_pos depth with rfl | inCall
      · exact here ▸ owned.outlives
      · obtain ⟨placed, same, stays⟩ := secure.placed inCall owned
        obtain rfl : placed = site := Option.some.inj (same.symm.trans named)
        exact absurd (escapes _ member) stays
  | passed lower owner slot param below owned here member kept again =>
      exact absurd (escapes _ member) kept

/-- A slot that outlives calls is not owned by one. -/
theorem not_owns_of_outlives (secure : storage.Secure facts)
    (owned : storage.Owns depth function slot) (inCall : 0 < depth) :
    ¬ storage.Outlives slot.address := by
  intro outlives
  rcases outlives.cases with ⟨other, content, found, -⟩ | ⟨other, inRoot, same⟩
  · have region := (Heap.lt_nextAddress_of_get? found).1
    exact absurd (secure.coherent.lt_heapStart_of_owns owned) (Nat.not_lt.mpr region)
  · obtain ⟨atRoot, -⟩ := secure.coherent.owns_unique owned inRoot same.symm
    omega

theorem outlives_of_mayHold (secure : storage.Secure facts) (outlives : storage.Outlives address)
    (held : storage.MayHold facts address target) : storage.Outlives target := by
  cases held with
  | outlives outlives => exact outlives
  | held depth function slot site inCall owned here named covered =>
      exact absurd (here ▸ outlives) (secure.not_owns_of_outlives owned inCall)

/-- The holder is a slot of a call: what it holds is covered there. -/
theorem covered_of_mayHold (secure : storage.Secure facts)
    (owned : storage.Owns depth function slot) {site : SiteId} (named : slot.site = some site)
    (held : storage.MayHold facts slot.address target) :
    storage.Covered facts depth function (facts.heldBy (.site site)) target := by
  cases held with
  | outlives outlives => exact .outlives outlives
  | held other owner found foundSite inCall foundOwned here foundNamed covered =>
      obtain ⟨rfl, rfl, rfl⟩ := secure.coherent.owns_unique owned foundOwned here.symm
      obtain rfl : site = foundSite := Option.some.inj (named.symm.trans foundNamed)
      exact covered

/-- What a covered slot holds is covered by what the locations hold. -/
theorem covered_of_held (secure : storage.Secure facts)
    (covered : storage.Covered facts depth function locs address)
    (held : storage.MayHold facts address target) :
    storage.Covered facts depth function (facts.contents locs) target := by
  cases covered with
  | outlives outlives => exact .outlives (secure.outlives_of_mayHold outlives held)
  | owned slot site owned here named member =>
      subst here
      apply (secure.covered_of_mayHold owned named held).mono
      intro loc inSite
      exact EscapeFacts.mem_contents.mpr ⟨_, member, inSite⟩
  | passed lower owner slot param below owned here member kept again =>
      subst here
      have content : .content function param ∈ facts.contents locs :=
        EscapeFacts.mem_contents.mpr ⟨_, member, again⟩
      cases held with
      | outlives outlives => exact .outlives outlives
      | held other holder found site inCall foundOwned here named inner =>
          obtain ⟨rfl, rfl, rfl⟩ := secure.coherent.owns_unique owned foundOwned here.symm
          cases inner with
          | outlives outlives => exact .outlives outlives
          | owned target site ownedThere same _ _ =>
              exact .passed lower owner target param below ownedThere same content kept again
          | passed lowest deepest target _ under ownedThere same _ _ _ =>
              exact .passed lowest deepest target param (Nat.lt_trans under below) ownedThere same content
                kept again

/-! ### What keeps storage secure -/

/-- Objects and frames may be added, as long as what is new is as the facts say. -/
theorem of_embeds (secure : storage.Secure facts) (embeds : storage.Embeds changed)
    (coherent : changed.Coherent)
    (objects : ∀ {address object}, changed.objectAt? address = some object →
      storage.objectAt? address = some object ∨ changed.Admissible facts address object)
    (owns : ∀ {depth function slot}, 0 < depth → changed.Owns depth function slot →
      storage.Owns depth function slot ∨
        ∃ site, slot.site = some site ∧ ¬ facts.Escapes (.site site)) :
    changed.Secure facts := by
  refine ⟨coherent, ?_, ?_⟩
  · intro address object found
    rcases objects found with before | new
    · exact (secure.objects before).embeds embeds
    · exact new
  · intro depth function slot inCall owned
    rcases owns inCall owned with before | new
    · exact secure.placed inCall before
    · exact new

theorem rewrites {old object : HeapObject} (secure : storage.Secure facts)
    (rewrites : storage.Rewrites changed address object)
    (found : storage.objectAt? address = some old) (sameForm : object.form = old.form)
    (admissible : storage.Admissible facts address object) :
    changed.Secure facts ∧ storage.Grown changed := by
  have grown := rewrites.grown secure.coherent found sameForm
  refine ⟨secure.of_embeds grown.toEmbeds (secure.coherent.rewrites rewrites found sameForm) ?_ ?_,
    grown⟩
  · intro other present foundThere
    rw [rewrites.objects] at foundThere
    split at foundThere
    next same =>
      cases foundThere
      exact .inr (same ▸ admissible.embeds grown.toEmbeds)
    next => exact .inl foundThere
  · intro depth function slot _ owned
    exact .inl ((owns_of_outline rewrites.outline).mp owned)

theorem extended {object : HeapObject} (secure : storage.Secure facts)
    (extended : storage.Extends changed object)
    (admissible : storage.Admissible facts storage.heap.nextAddress object) :
    changed.Secure facts ∧ storage.Grown changed := by
  have grown := extended.grown secure.coherent
  have outlines : changed.outline = storage.outline := by rw [outline, outline, extended.frames]
  refine ⟨secure.of_embeds grown.toEmbeds (secure.coherent.extends extended) ?_ ?_, grown⟩
  · intro other present found
    rw [extended.objects] at found
    split at found
    next same =>
      cases found
      exact .inr (same ▸ admissible.embeds grown.toEmbeds)
    next => exact .inl found
  · intro depth function slot _ owned
    exact .inl ((owns_of_outline outlines).mp owned)

theorem allocated {placement : Placement} (secure : storage.Secure facts)
    (allocated : storage.Allocates changed placement slot) (coherent : changed.Coherent)
    (admissible : changed.Admissible facts slot.address (.slot slot))
    (placed : placement = .stack → storage.InCall →
      ∃ site, slot.site = some site ∧ ¬ facts.Escapes (.site site)) :
    changed.Secure facts ∧ storage.Grown changed := by
  have grown := allocated.grown secure.coherent coherent
  refine ⟨secure.of_embeds grown.toEmbeds coherent ?_ ?_, grown⟩
  · intro other present found
    rw [allocated.objects] at found
    split at found
    next same =>
      cases found
      exact .inr (same ▸ admissible)
    next => exact .inl found
  · intro depth function other inCall owned
    rcases allocated.owns owned with before | ⟨onStack, top, rfl⟩
    · exact .inl before
    · exact .inr (placed onStack (inCall_iff_depth.mpr (top ▸ inCall)))

theorem binds {name : String} (secure : storage.Secure facts) (coherent : changed.Coherent)
    (bound : storage.Binds changed name address) :
    changed.Secure facts ∧ storage.Grown changed := by
  have grown := bound.grown secure.coherent coherent
  refine ⟨secure.of_embeds grown.toEmbeds coherent ?_ ?_, grown⟩
  · intro other present found
    rw [bound.objects] at found
    exact .inl found
  · intro depth function slot _ owned
    exact .inl (bound.owns owned)

theorem pushFrame (secure : storage.Secure facts) (callee : String)
    (callSite : Option Location) : (storage.pushFrame callee callSite).Secure facts := by
  apply secure.of_embeds (embeds_pushFrame storage callee callSite)
  · exact secure.coherent.pushFrame callee callSite
  · intro other present found
    rw [objectAt?_pushFrame] at found
    exact .inl found
  · intro depth function slot _ owned
    exact .inl (owns_pushFrame owned)

theorem sweep (secure : storage.Secure facts) :
    storage.sweep.2.Secure facts ∧ storage.Grown storage.sweep.2 := by
  have grown := grown_sweep secure.coherent
  refine ⟨secure.of_embeds grown.toEmbeds secure.coherent.sweep ?_ ?_, grown⟩
  · intro other present found
    rw [objectAt?_sweep] at found
    exact .inl found
  · intro depth function slot _ owned
    exact .inl ((owns_of_outline rfl).mp owned)

/-- No slot that stays points into the frame that goes. -/
theorem popFrame (secure : storage.Secure facts) (called : storage.InCall) :
    storage.popFrame.Secure facts := by
  refine ⟨secure.coherent.popFrame called, ?_, ?_⟩
  · intro address object found
    rw [secure.coherent.objectAt?_popFrame called] at found
    split at found
    · cases found
    next stays =>
      have admissible := secure.objects found
      refine ⟨?_, admissible.kind⟩
      intro value member target inside
      cases admissible.pointees value member target inside with
      | outlives outlives => exact .outlives (outlives_popFrame.mpr outlives)
      | held depth function slot site inCall owned here named covered =>
          have below : depth < storage.calls.depth := by
            apply Nat.lt_of_le_of_ne owned.depth_le
            rintro rfl
            obtain ⟨content, inTop, rfl⟩ := List.mem_map.mp (owns_current_iff.mp owned).2
            exact stays (List.mem_map.mpr ⟨content, inTop, here⟩)
          refine .held depth function slot site inCall
            ((owns_popFrame called).mpr ⟨owned, below⟩) here named ?_
          cases covered with
          | outlives outlives => exact .outlives (outlives_popFrame.mpr outlives)
          | owned other site ownedThere same namedThere member =>
              exact .owned other site ((owns_popFrame called).mpr ⟨ownedThere, below⟩) same
                namedThere member
          | passed lower owner other param under ownedThere same member kept again =>
              exact .passed lower owner other param under
                ((owns_popFrame called).mpr ⟨ownedThere, Nat.lt_trans under below⟩) same member kept
                again
  · intro depth function slot inCall owned
    exact secure.placed inCall ((owns_popFrame called).mp owned).1

end Secure

end Storage

end ReferenceSemantics
