import ReferenceSemantics.Proofs.Escape.Names
import ReferenceSemantics.Proofs.Run.Level

set_option autoImplicit false

/-!
Frames that bind the names as the classification has them.

The current frame binds the locals of a scope to the slots made for them, and within a call nothing
else; the root frame binds globals only. A declaration adds to the frame what it adds to the scope.
-/

namespace ReferenceSemantics

open Run

namespace Storage

variable {storage changed : Storage} {globals : List VarDecl} {scope : EscapeScope}
  {address : Address} {name : String} {site : SiteId} {kind : Kind}

/-! ### What grows -/

/-- What leaves the frames below the current one, and takes no slot away. -/
theorem Embeds.grown (embeds : storage.Embeds changed)
    (base : changed.skeleton.dropLast = storage.skeleton.dropLast)
    (named : changed.current.function = storage.current.function) : storage.Grown changed := by
  have functions (storage : Storage) :
      storage.outline.map (·.function) = storage.skeleton.map (·.function) := by
    rw [outline, skeleton, List.map_map, List.map_map]
    rfl
  have bindings (storage : Storage) : storage.outline.dropLast.map (·.bindings) =
      storage.skeleton.dropLast.map (·.bindings) := by
    rw [outline, skeleton, List.map_dropLast, List.map_dropLast, List.map_map, List.map_map]
    rfl
  refine ⟨embeds, ?_, ?_⟩
  · rw [functions, functions, skeleton_eq changed, skeleton_eq storage, base, List.map_append,
      List.map_append]
    exact congrArg (_ ++ [·]) named
  · rw [bindings, bindings, base]

theorem current_bare (same : changed.skeleton = storage.skeleton) :
    changed.current.bare = storage.current.bare := by
  have lasts := congrArg List.getLast? same
  rw [skeleton_eq changed, skeleton_eq storage, List.getLast?_concat, List.getLast?_concat] at lasts
  exact Option.some.inj lasts

theorem root_bare (same : changed.skeleton = storage.skeleton) :
    changed.root.bare = storage.root.bare :=
  Option.some.inj (congrArg List.head? same)

theorem Fills.grown (fills : storage.Fills changed) : storage.Grown changed := by
  have named : changed.current.bare.function = storage.current.bare.function :=
    congrArg Frame.function (current_bare fills.skeleton)
  exact fills.embeds.grown (congrArg List.dropLast fills.skeleton) named

theorem grown_declare (storage : Storage) (name : String) (kind : Kind) (site : Option SiteId)
    (placement : Placement) (value : Value) :
    storage.Grown (storage.declare name kind site placement value).2 := by
  refine (storage.embeds_declare name kind site placement value).grown
    (storage.base_declare name kind site placement value) ?_
  have named := (Fills.allocate storage name kind site placement value).grown.current_function
  rw [declare, current_modifyCurrent]
  exact named

/-- A call leaves what the root frame binds. -/
theorem Grown.root_bindings (grown : storage.Grown changed) (inCall : storage.InCall) :
    changed.root.bindings = storage.root.bindings := by
  have first (storage : Storage) (inCall : storage.InCall) :
      (storage.outline.dropLast.map (·.bindings)).head? = some storage.root.bindings := by
    rw [inCall_iff, ← List.length_map, ← outline] at inCall
    rw [List.head?_map, List.head?_dropLast, if_pos inCall]
    rfl
  have heads := congrArg List.head? grown.bindings
  rw [first changed (grown.inCall.mp inCall), first storage inCall] at heads
  exact Option.some.inj heads

theorem owns_root_iff {function : String} {slot : Slot} :
    storage.Owns 0 function slot ↔
      storage.root.function = function ∧ slot ∈ storage.root.slots.map Slot.outline := by
  unfold Owns
  constructor
  · rintro ⟨frame, found, named, member⟩
    obtain rfl : storage.root.outline = frame := Option.some.inj found
    exact ⟨named, member⟩
  · rintro ⟨named, member⟩
    exact ⟨storage.root.outline, rfl, named, member⟩

/-! ### Slots by what they were made for -/

theorem MadeFor.grown (grown : storage.Grown changed)
    (made : storage.MadeFor address name site kind) : changed.MadeFor address name site kind := by
  obtain ⟨slot, place, here, named, sited, kinded⟩ := made
  have kept : ∃ later : Slot, later.outline = slot.outline ∧
      (later ∈ changed.current.slots ∨ changed.heap.get? address = some (.slot later)) := by
    rcases place with inFrame | inHeap
    · have owned := grown.owns (owns_current_iff.mpr ⟨rfl, List.mem_map_of_mem inFrame⟩)
      rw [← grown.calls_depth] at owned
      obtain ⟨later, there, same⟩ := List.mem_map.mp (owns_current_iff.mp owned).2
      exact ⟨later, same, .inl there⟩
    · obtain ⟨later, there, same⟩ := grown.inHeap ⟨slot, inHeap, rfl⟩
      exact ⟨later, same, .inr there⟩
  obtain ⟨later, same, there⟩ := kept
  exact ⟨later, there, (congrArg Slot.address same).trans here,
    (congrArg Slot.name same).trans named, (congrArg Slot.site same).trans sited,
    (congrArg Slot.kind same).trans kinded⟩

theorem MadeForGlobal.embeds (embeds : storage.Embeds changed)
    (made : storage.MadeForGlobal globals address name) :
    changed.MadeForGlobal globals address name := by
  obtain ⟨decl, member, declared, slot, inRoot, here, named, sited, kinded⟩ := made
  have owned := embeds.owns (owns_root_iff.mpr ⟨rfl, List.mem_map_of_mem inRoot⟩)
  obtain ⟨later, there, same⟩ := List.mem_map.mp (owns_root_iff.mp owned).2
  exact ⟨decl, member, declared, later, there, (congrArg Slot.address same).trans here,
    (congrArg Slot.name same).trans named, (congrArg Slot.site same).trans sited,
    (congrArg Slot.kind same).trans kinded⟩

theorem mem_slots_declare (storage : Storage) (name : String) (kind : Kind) (site : Option SiteId)
    (value : Value) :
    let declared := storage.declare name kind site .stack value
    (⟨name, kind, value, site, declared.1.address⟩ : Slot) ∈ declared.2.current.slots := by
  intro declared
  let slot : Slot := ⟨name, kind, value, site, storage.nextStackAddress⟩
  have pushed : (storage.allocate name kind site .stack value).2.current =
      storage.current.push slot := storage.current_modifyCurrent (·.push slot)
  have bound : declared.2.current = (storage.current.push slot).bind name declared.1.address := by
    rw [← pushed]
    exact current_modifyCurrent _ _
  rw [bound]
  exact List.mem_append_right _ (List.mem_singleton.mpr rfl)

theorem get?_heap_declare (storage : Storage) (name : String) (kind : Kind) (site : Option SiteId)
    (value : Value) :
    let declared := storage.declare name kind site .heap value
    declared.2.heap.get? declared.1.address =
      some (.slot ⟨name, kind, value, site, declared.1.address⟩) := by
  intro declared
  have pushed : declared.2.heap = (storage.allocate name kind site .heap value).2.heap :=
    heap_modifyCurrent _ _
  rw [pushed]
  exact (Heap.get?_push ..).trans (if_pos rfl)

theorem madeFor_declare (storage : Storage) (name : String) (kind : Kind) (site : SiteId)
    (placement : Placement) (value : Value) :
    (storage.declare name kind (some site) placement value).2.MadeFor
      (storage.declare name kind (some site) placement value).1.address name site kind := by
  cases placement with
  | stack => exact ⟨_, .inl (storage.mem_slots_declare ..), rfl, rfl, rfl, rfl⟩
  | heap => exact ⟨_, .inr (storage.get?_heap_declare ..), rfl, rfl, rfl, rfl⟩

/-! ### Names as the classification has them -/

/-- The current frame binds the locals of the scope, and within a call no others. -/
structure Realizes (storage : Storage) (scope : EscapeScope) : Prop where
  bound : ∀ {name site kind}, scope.locals.lookup name = some (site, kind) →
    ∃ address, storage.current.lookup name = some address ∧ storage.MadeFor address name site kind
  free : ∀ {name}, storage.InCall → scope.locals.lookup name = none →
    storage.current.lookup name = none

/-- The root frame binds globals, each to the slot made for it. -/
def BindsGlobals (storage : Storage) (globals : List VarDecl) : Prop :=
  ∀ name address, storage.root.lookup name = some address →
    storage.MadeForGlobal globals address name

theorem Realizes.resolves (realizes : storage.Realizes scope)
    (binds : storage.BindsGlobals globals) (name : String) :
    storage.Resolves globals scope name := by
  unfold Resolves
  split
  next site kind declared =>
    obtain ⟨address, bound, made⟩ := realizes.bound declared
    refine ⟨address, ?_, bound, made⟩
    rw [lookup, bound]
    rfl
  next absent =>
    refine ⟨fun inCall => realizes.free inCall absent, fun ref found => ?_⟩
    obtain ⟨address, here, rfl⟩ := Option.map_eq_some_iff.mp found
    have inRoot : storage.root.lookup name = some address := by
      by_cases inCall : storage.InCall
      · rwa [realizes.free inCall absent, Option.none_or] at here
      · rwa [current_eq_root inCall, Option.or_self] at here
    exact ⟨address, rfl, inRoot, binds name address inRoot⟩

theorem Realizes.fills (fills : storage.Fills changed) (realizes : storage.Realizes scope) :
    changed.Realizes scope := by
  have same := lookup_of_skeleton fills.skeleton
  refine ⟨fun declared => ?_, fun inCall absent => ?_⟩
  · obtain ⟨address, bound, made⟩ := realizes.bound declared
    exact ⟨address, (same _).trans bound, made.grown fills.grown⟩
  · exact (same _).trans (realizes.free (fills.grown.inCall.mpr inCall) absent)

/-- A declaration binds in the frame what it binds in the scope. -/
theorem Realizes.declare (realizes : storage.Realizes scope) (name : String) (kind : Kind)
    (site : SiteId) (placement : Placement) (value : Value) :
    (storage.declare name kind (some site) placement value).2.Realizes
      (scope.bind name site kind) := by
  have grown := storage.grown_declare name kind (some site) placement value
  have lookups := fun other => storage.lookup_declare name other kind (some site) placement value
  refine ⟨fun {other _ _} declared => ?_, fun {other} inCall absent => ?_⟩
  · rw [EscapeScope.bind, List.lookup_cons] at declared
    rw [lookups]
    split
    next same =>
      subst same
      rw [beq_self_eq_true] at declared
      cases declared
      exact ⟨_, rfl, storage.madeFor_declare other kind site placement value⟩
    next apart =>
      rw [beq_eq_false_iff_ne.mpr apart] at declared
      obtain ⟨address, bound, made⟩ := realizes.bound declared
      exact ⟨address, bound, made.grown grown⟩
  · rw [EscapeScope.bind, List.lookup_cons] at absent
    rw [lookups]
    split
    next same =>
      subst same
      rw [beq_self_eq_true] at absent
      cases absent
    next apart =>
      rw [beq_eq_false_iff_ne.mpr apart] at absent
      exact realizes.free (grown.inCall.mpr inCall) absent

theorem BindsGlobals.embeds (embeds : storage.Embeds changed)
    (same : changed.root.bindings = storage.root.bindings)
    (binds : storage.BindsGlobals globals) : changed.BindsGlobals globals := by
  intro name address found
  rw [Frame.lookup, same] at found
  exact (binds name address found).embeds embeds

theorem BindsGlobals.fills (fills : storage.Fills changed) (binds : storage.BindsGlobals globals) :
    changed.BindsGlobals globals := by
  have bindings : changed.root.bare.bindings = storage.root.bare.bindings :=
    congrArg Frame.bindings (root_bare fills.skeleton)
  exact binds.embeds fills.embeds bindings

/-- Outside of calls a global is declared in the root frame. -/
theorem BindsGlobals.declare (binds : storage.BindsGlobals globals) (outside : ¬ storage.InCall)
    {decl : VarDecl} (member : decl ∈ globals) (value : Value) :
    (storage.declare decl.name decl.kind none .stack value).2.BindsGlobals globals := by
  have grown := storage.grown_declare decl.name decl.kind none .stack value
  have still := current_eq_root (fun inCall => outside (grown.inCall.mpr inCall))
  intro name address found
  rw [← still, lookup_declare] at found
  split at found
  next same =>
    obtain rfl := Option.some.inj found
    have inRoot := storage.mem_slots_declare decl.name decl.kind none value
    dsimp only at inRoot
    rw [still] at inRoot
    exact ⟨decl, member, same.symm, _, inRoot, rfl, same.symm, rfl, rfl⟩
  next =>
    rw [current_eq_root outside] at found
    exact (binds name address found).embeds grown.toEmbeds

end Storage

end ReferenceSemantics
