import ReferenceSemantics.Proofs.Escape.Actions

set_option autoImplicit false

/-!
Expressions and places beside the rules of the classification.

The locations that a settled rule gives for an expression cover the value the expression has, and
those for a place track the slot it designates. The arguments of a call are passed so that the callee
can keep nothing of the frames below it, unless the classification says so.
-/

namespace ReferenceSemantics

open Run EscapeRule

namespace Storage

/-- What may be passed for a parameter to a frame at a depth: slots that outlive every call, and
while the content of the parameter does not escape, slots of the frames below. -/
def Passes (storage : Storage) (facts : EscapeFacts) (depth : Nat) (callee : String) (param : Nat)
    (arg : Value) : Prop :=
  ∀ target ∈ arg.pointees, storage.Outlives target ∨
    (¬ facts.Escapes (.content callee param) ∧
      ∃ lower owner slot, lower < depth ∧ storage.Owns lower owner slot ∧ slot.address = target)

/-- There is an argument for each of the parameters from an index on. -/
def PassesAll (storage : Storage) (facts : EscapeFacts) (depth : Nat) (callee : String) :
    (index : Nat) → List Param → List Value → Prop
  | _, [], [] => True
  | index, _ :: params, arg :: args =>
      storage.Passes facts depth callee index arg ∧
        storage.PassesAll facts depth callee (index + 1) params args
  | _, _, _ => False

variable {storage changed : Storage} {facts : EscapeFacts} {depth param : Nat} {callee : String}
  {locs more : List Loc} {value : Value}

theorem Passes.embeds (embeds : storage.Embeds changed)
    (passes : storage.Passes facts depth callee param value) :
    changed.Passes facts depth callee param value := by
  intro target inside
  rcases passes target inside with outlives | ⟨kept, lower, owner, slot, below, owned, here⟩
  · exact .inl (embeds.outlives outlives)
  · exact .inr ⟨kept, lower, owner, slot, below, embeds.owns owned, here⟩

theorem PassesAll.embeds (embeds : storage.Embeds changed) {params : List Param}
    {args : List Value} (passes : storage.PassesAll facts depth callee param params args) :
    changed.PassesAll facts depth callee param params args := by
  induction params generalizing param args with
  | nil => cases args <;> exact passes
  | cons first params inductionHypothesis =>
      cases args with
      | nil => exact passes
      | cons arg args => exact ⟨passes.1.embeds embeds, inductionHypothesis passes.2⟩

theorem Covers.passes (covers : storage.Covers facts locs value)
    (kept : ¬ facts.Escapes (.content callee param)) :
    storage.Passes facts (storage.calls.depth + 1) callee param value := by
  intro target inside
  cases covers target inside with
  | outlives outlives => exact .inl outlives
  | owned slot site owned here named member =>
      exact .inr ⟨kept, _, _, slot, Nat.lt_succ_self _, owned, here⟩
  | passed lower owner slot param below owned here member _ again =>
      exact .inr ⟨kept, lower, owner, slot, Nat.lt_succ_of_lt below, owned, here⟩

theorem covers_of_nil (empty : value.pointees = []) : storage.Covers facts locs value := by
  intro target inside
  rw [empty] at inside
  cases inside

theorem covers_primitive (primitive : Primitive) :
    storage.Covers facts locs (.primitive primitive) :=
  covers_of_nil (Value.pointees_primitive primitive)

theorem Covers.left (covers : storage.Covers facts locs value) :
    storage.Covers facts (locs ++ more) value :=
  covers.mono (List.subset_append_left _ _)

theorem Covers.right (covers : storage.Covers facts more value) :
    storage.Covers facts (locs ++ more) value :=
  covers.mono (List.subset_append_right _ _)

theorem Tracks.left {address : Address} (tracks : storage.Tracks facts locs address) :
    storage.Tracks facts (locs ++ more) address :=
  tracks.mono (List.subset_append_left _ _)

theorem Tracks.right {address : Address} (tracks : storage.Tracks facts more address) :
    storage.Tracks facts (locs ++ more) address :=
  tracks.mono (List.subset_append_right _ _)

end Storage

theorem Model.name_of_function? {model : Model} {name : String} {function : FunctionDef}
    (found : model.function? name = some function) : function.name = name := by
  simpa using List.find?_some found

namespace Audit

variable {audit : Audit} {scope : EscapeScope} {before : Storage} {location : Location}
  {locs : List Loc}

/-! ### Parts of evaluation -/

theorem Evaluates.flowInto {kind : Kind} {expr : Expr} {evaluated : Run Value}
    [Stepwise evaluated]
    (covers : audit.Evaluates scope before evaluated fun after value =>
      after.Covers audit.facts locs value) :
    audit.Evaluates scope before (flowInto location kind expr evaluated) fun after value =>
      after.Covers audit.facts locs value := by
  unfold ReferenceSemantics.flowInto
  split
  · split
    · exact .mismatch
    · exact .pure (Storage.covers_of_nil (Value.pointees_zero kind))
  · apply covers.bind
    intro after value _ covers
    apply Evaluates.pure
    split
    · intro target inside
      rw [Value.pointees_inBox] at inside
      exact covers target inside
    · exact covers

theorem Evaluates.followPointer {value : Value} (covers : before.Covers audit.facts locs value) :
    audit.Evaluates scope before (followPointer location value) fun after holder =>
      after.Covers audit.facts (locs ++ audit.facts.contents locs) holder := by
  unfold ReferenceSemantics.followPointer
  split
  · apply (Evaluates.dereference covers).bind
    intro after ref _ tracks
    exact (Evaluates.load tracks).weaken fun _ loaded => loaded.1.right
  · exact .pure covers.left

theorem Evaluates.selectField {name : String} {value : Value}
    (covers : before.Covers audit.facts locs value) :
    audit.Evaluates scope before (selectField location name value) fun after inner =>
      after.Covers audit.facts locs inner := by
  unfold ReferenceSemantics.selectField
  split
  next typeName fields =>
    split
    next inner found =>
      apply Evaluates.pure
      intro target inside
      apply covers
      rw [Value.pointees]
      exact Value.pointees_lookup found inside
    next => exact .fail trivial
  next => exact .mismatch

theorem Evaluates.fieldHolder {base : SlotRef} {found : Value}
    (tracks : before.Tracks audit.facts locs base.address)
    (covers : before.Covers audit.facts (audit.facts.contents locs) found) :
    audit.Evaluates scope before (fieldHolder location base found) fun after holder =>
      after.Tracks audit.facts (locs ++ audit.facts.contents locs) holder.address := by
  unfold ReferenceSemantics.fieldHolder
  split
  · exact (Evaluates.dereference covers).weaken fun _ tracks => tracks.right
  · exact .pure tracks.left
  · exact .mismatch

theorem Evaluates.fieldOf {holder : SlotRef} {name : String} {found : Value}
    (tracks : before.Tracks audit.facts locs holder.address) :
    audit.Evaluates scope before (fieldOf location holder name found) fun after ref =>
      after.Tracks audit.facts locs ref.address := by
  unfold ReferenceSemantics.fieldOf
  split
  · have field : before.Tracks audit.facts locs (holder.field name).address := tracks
    apply (Evaluates.load field).bind
    intro after value grown _
    exact .pure (tracks.grown grown)
  · exact .mismatch

theorem Evaluates.fieldRef {base : SlotRef} {name : String}
    (tracks : before.Tracks audit.facts locs base.address) :
    audit.Evaluates scope before (fieldRef location base name) fun after ref =>
      after.Tracks audit.facts (locs ++ audit.facts.contents locs) ref.address := by
  unfold ReferenceSemantics.fieldRef
  apply (Evaluates.load tracks).bind
  intro middle found grown loaded
  apply (Evaluates.fieldHolder (tracks.grown grown) loaded.1).bind
  intro later holder _ tracks
  apply (Evaluates.load tracks).bind
  intro last held grown _
  exact .fieldOf (tracks.grown grown)

theorem Evaluates.asInt {value : Value} :
    audit.Evaluates scope before (asInt location value) fun _ _ => True := by
  unfold ReferenceSemantics.asInt
  split
  · exact .pure trivial
  · exact .mismatch

theorem Evaluates.expectKind {kind : Kind} {value : Value} :
    audit.Evaluates scope before (Run.expectKind location kind value) fun _ _ =>
      value.kind = kind := by
  unfold Run.expectKind
  split
  next same => exact .pure same
  next => exact .mismatch

theorem Evaluates.checkArgumentCount {function : FunctionDef} {count : Nat} :
    audit.Evaluates scope before (checkArgumentCount location function count) fun _ _ =>
      function.params.length = count := by
  unfold ReferenceSemantics.checkArgumentCount
  split
  next same => exact .pure same
  next => exact .mismatch

theorem Evaluates.function {name : String} :
    audit.Evaluates scope before (audit.model.function name location) fun _ function =>
      audit.model.function? name = some function := by
  unfold Model.function
  split
  next function found => exact .pure found
  next => exact .fail trivial

/-- What is known of the storage may be used. -/
theorem Evaluates.secured {α : Type} {run : Run α} {post : Storage → α → Prop}
    (evaluates : before.Secure audit.facts → before.Agrees audit.facts scope →
      audit.Evaluates scope before run post) : audit.Evaluates scope before run post :=
  fun agrees machine here secure => evaluates secure agrees agrees machine here secure

/-- A value that is covered by locations that escape lasts. -/
theorem lasting_of_escape {reason : EscapeReason} {value : Value}
    (settled : Settled audit.facts (escape locs reason) ()) (secure : before.Secure audit.facts)
    (covers : before.Covers audit.facts locs value) : before.Lasting value :=
  secure.lasting_of_covers covers fun _ member => settled_escape settled member

/-- An argument that the call may keep escapes. -/
theorem passes_of_retain {callee : String} {param : Nat} {value : Value}
    (settled : Settled audit.facts (scope.retain callee param locs) ())
    (secure : before.Secure audit.facts) (agrees : before.Agrees audit.facts scope)
    (covers : before.Covers audit.facts locs value) :
    before.Passes audit.facts (before.calls.depth + 1) callee param value := by
  unfold EscapeScope.retain at settled
  split at settled
  next => exact fun target inside => .inl (lasting_of_escape settled secure covers target inside)
  next frees =>
    apply covers.passes
    rintro ⟨reason, member⟩
    apply frees
    unfold EscapeScope.retains
    split
    · rfl
    · rw [agrees.known, EscapeFacts.leaks, List.any_eq_true]
      exact ⟨_, member, by simp⟩

theorem Evaluates.read_any {α : Type} {look : Storage → Except StorageError α}
    (grounded : Grounded (look before)) :
    audit.Evaluates scope before (Run.read location look) fun _ _ => True :=
  .read (fun _ => grounded) fun _ _ _ => trivial

theorem Evaluates.allocateSlice {cells : List Value} {capacity : Option Nat}
    (lasting : ∀ cell ∈ cells, before.Lasting cell) :
    audit.Evaluates scope before (Evaluator.allocateSlice cells capacity) fun _ header =>
      header.pointees = [] := by
  unfold Evaluator.allocateSlice
  have zero : before.Lasting ((cells.head?.map Value.zeroLike).getD (.int 0)) := by
    cases cells with
    | nil => nofun
    | cons cell cells => exact Storage.Secure.lasting_zeroLike before cell
  apply Evaluates.bind
  · apply Evaluates.allocBlock ?_ zero
    intro cell member
    rcases Storage.mem_padCells member with old | rfl
    · exact lasting cell old
    · exact zero
  · intro after header _ empty
    apply (Evaluates.silent (silent_recordBehind header)).bind
    intro last _ _ _
    exact .pure empty

theorem Evaluates.allocateNew {evaluator : Evaluator} {site : SiteId} {value : Value}
    (model : evaluator.model = audit.model)
    (covers : before.Covers audit.facts (audit.facts.heldBy (.site site)) value) :
    audit.Evaluates scope before (evaluator.allocateNew site value) fun after pointer =>
      after.Covers audit.facts [.site site] pointer := by
  unfold Evaluator.allocateNew
  rw [model]
  have created : audit.Evaluates scope before
      (Run.allocate (·.allocate site value.kind (some site) (audit.model.placement site) value))
      fun after ref => after.IsLocal audit.facts ref.address site value.kind :=
    .allocate fun secure fits =>
      secure.allocate site audit.closed (audit.placed site) covers fits
  apply created.bind
  intro after ref _ isLocal
  apply (Evaluates.silent (silent_record _)).bind
  intro last _ grown _
  apply Evaluates.pure
  intro target inside
  rw [Value.pointees_pointerTo] at inside
  obtain rfl := List.mem_singleton.mp inside
  exact isLocal.tracks.grown grown

/-! ### Expressions and places -/

/-- Calls leave the frame of the caller as it was and hand back lasting values. -/
structure Calls (audit : Audit) (evaluator : Evaluator) : Prop where
  model : evaluator.model = audit.model
  invoke : ∀ {before : Storage} {name : String} {function : FunctionDef} {args : List Value}
    {callSite : Location}, audit.model.function? name = some function →
      before.PassesAll audit.facts (before.calls.depth + 1) name 0 function.params args →
        audit.Leads before (evaluator.invoke function args callSite) fun after result =>
          after.current.bindings = before.current.bindings ∧
            ∀ value, result = some value → after.Lasting value

variable {evaluator : Evaluator} (calls : audit.Calls evaluator)

include calls

theorem Evaluates.invoke {name : String} {function : FunctionDef} {args : List Value}
    {callSite : Location} (found : audit.model.function? name = some function)
    (passes : before.PassesAll audit.facts (before.calls.depth + 1) name 0 function.params args) :
    audit.Evaluates scope before (evaluator.invoke function args callSite) fun after result =>
      ∀ value, result = some value → after.Lasting value := by
  intro agrees
  apply (calls.invoke found passes).weaken
  rintro after result grown ⟨bindings, lasting⟩
  exact ⟨agrees.grown grown bindings, lasting⟩

theorem Evaluates.function' {name : String} :
    audit.Evaluates scope before (evaluator.model.function name location) fun _ function =>
      audit.model.function? name = some function := by
  rw [calls.model]
  exact .function

variable (location) [evaluator.Stepwise]

-- Some members of the block need the calls only through other members, which the linter misses.
set_option linter.unusedSectionVars false

mutual

theorem placeRef_tracks {before : Storage} :
    ∀ (place : Place) {locs : List Loc}, Settled audit.facts (scope.placeAddrs place) locs →
      audit.Evaluates scope before (evaluator.placeRef location place) fun after ref =>
        after.Tracks audit.facts locs ref.address
  | .var name, locs, settled => by
      rw [EscapeScope.placeAddrs, settled_pure] at settled
      rw [Evaluator.placeRef]
      apply (Evaluates.lookup name).weaken
      rintro after ref - ⟨-, names⟩
      exact settled ▸ names.tracks
  | .field base name, locs, settled => by
      simp only [EscapeScope.placeAddrs, settled_bind, settled_get, settled_pure,
        exists_eq_left'] at settled
      obtain ⟨inner, settled, rfl⟩ := settled
      rw [Evaluator.placeRef]
      apply (placeRef_tracks base settled).bind
      intro after ref _ tracks
      exact .fieldRef tracks
  | .deref pointer, locs, settled => by
      rw [EscapeScope.placeAddrs] at settled
      rw [Evaluator.placeRef]
      apply (evaluate_covers pointer settled).bind
      intro after value _ covers
      exact .dereference covers

theorem evaluate_covers {before : Storage} :
    ∀ (expr : Expr) {locs : List Loc}, Settled audit.facts (scope.addrs expr) locs →
      audit.Evaluates scope before (evaluator.evaluate location expr) fun after value =>
        after.Covers audit.facts locs value
  | .lit value, _, _ => by
      rw [Evaluator.evaluate]
      exact .pure (Storage.covers_primitive value)
  | .nil, _, _ => by
      rw [Evaluator.evaluate]
      exact .pure (Storage.covers_of_nil (by simp [Value.nilPointer, Value.pointees]))
  | .var name, locs, settled => by
      simp only [EscapeScope.addrs, settled_bind, settled_get, settled_pure,
        exists_eq_left'] at settled
      rw [Evaluator.evaluate]
      apply (Evaluates.lookup name).bind
      rintro after ref _ ⟨-, names⟩
      apply (Evaluates.load names.tracks).weaken
      rintro last value - ⟨covers, -⟩
      apply covers.mono
      intro loc inside
      obtain ⟨holder, named, held⟩ := EscapeFacts.mem_contents.mp inside
      rw [Option.mem_toList] at named
      rw [← settled, named]
      exact held
  | .field base name, locs, settled => by
      simp only [EscapeScope.addrs, settled_bind, settled_get, settled_pure,
        exists_eq_left'] at settled
      obtain ⟨inner, settled, rfl⟩ := settled
      rw [Evaluator.evaluate]
      apply (evaluate_covers base settled).bind
      intro after value _ covers
      apply (Evaluates.followPointer covers).bind
      intro last holder _ covers
      exact .selectField covers
  | .deref pointer, locs, settled => by
      simp only [EscapeScope.addrs, settled_bind, settled_get, settled_pure,
        exists_eq_left'] at settled
      obtain ⟨inner, settled, rfl⟩ := settled
      rw [Evaluator.evaluate]
      apply (evaluate_covers pointer settled).bind
      intro after value _ covers
      apply (Evaluates.dereference covers).bind
      intro last ref _ tracks
      exact (Evaluates.load tracks).weaken fun _ loaded => loaded.1
  | .addrOf place, locs, settled => by
      rw [EscapeScope.addrs] at settled
      rw [Evaluator.evaluate]
      apply (placeRef_tracks place settled).bind
      intro after ref _ tracks
      apply Evaluates.pure
      intro target inside
      rw [Value.pointees_pointerTo] at inside
      exact List.mem_singleton.mp inside ▸ tracks
  | .new init site, locs, settled => by
      rw [EscapeScope.addrs, settled_visit, settled_bind] at settled
      obtain ⟨inner, settled, rest⟩ := settled
      obtain ⟨_, holds, result⟩ := settled_bind.mp rest
      rw [settled_pure] at result
      rw [Evaluator.evaluate]
      apply (evaluate_covers init settled).bind
      intro after value _ covers
      subst result
      exact .allocateNew calls.model (covers.mono fun _ member => settled_hold holds member)
  | .composite typeName fields, locs, settled => by
      rw [EscapeScope.addrs] at settled
      rw [Evaluator.evaluate]
      apply (evaluateFields_covers fields settled).bind
      intro after values _ covers
      exact .pure (covers typeName)
  | .sliceLit elems capacity, locs, settled => by
      rw [EscapeScope.addrs, settled_bind] at settled
      obtain ⟨_, settled, _⟩ := settled
      rw [Evaluator.evaluate]
      apply (evaluateAll_lasting elems settled).bind
      intro after cells _ lasting
      exact (Evaluates.allocateSlice lasting).weaken fun _ => Storage.covers_of_nil
  | .makeSlice len cap zero, locs, settled => by
      rw [EscapeScope.addrs, settled_bind] at settled
      obtain ⟨inner, settled, rest⟩ := settled
      obtain ⟨_, escapes, _⟩ := settled_bind.mp rest
      rw [Evaluator.evaluate]
      split
      · exact .fail trivial
      · apply (evaluate_covers zero settled).bind
        intro after value _ covers
        apply Evaluates.secured
        intro secure _
        have lasting := lasting_of_escape escapes secure covers
        have cells : ∀ cell ∈ List.replicate cap value, after.Lasting cell := by
          intro cell member
          exact List.eq_of_mem_replicate member ▸ lasting
        apply (Evaluates.allocBlock cells lasting).bind
        intro last header _ empty
        apply (Evaluates.silent (silent_recordBehind header)).bind
        intro _ _ _ _
        exact .pure (Storage.covers_of_nil empty)
  | .mapLit entries, locs, settled => by
      rw [EscapeScope.addrs, settled_bind] at settled
      obtain ⟨_, settled, _⟩ := settled
      rw [Evaluator.evaluate]
      apply (evaluateEntries_lasting entries settled).bind
      intro after entries _ lasting
      apply (Evaluates.allocTable lasting).bind
      intro last header _ empty
      apply (Evaluates.silent (silent_recordBehind header)).bind
      intro _ _ _ _
      exact .pure (Storage.covers_of_nil empty)
  | .index base index, locs, settled => by
      rw [EscapeScope.addrs, settled_bind] at settled
      obtain ⟨_, ofBase, rest⟩ := settled
      obtain ⟨_, ofIndex, _⟩ := settled_bind.mp rest
      rw [Evaluator.evaluate]
      apply (evaluate_covers base ofBase).bind
      intro _ header _ _
      apply (evaluate_covers index ofIndex).bind
      intro _ value _ _
      apply Evaluates.asInt.bind
      intro _ place _ _
      exact Evaluates.element.weaken fun _ lasting => lasting.covers
  | .lookup base key default, locs, settled => by
      rw [EscapeScope.addrs, settled_bind] at settled
      obtain ⟨_, ofBase, rest⟩ := settled
      obtain ⟨_, ofKey, ofDefault⟩ := settled_bind.mp rest
      rw [Evaluator.evaluate]
      apply (evaluate_covers base ofBase).bind
      intro _ header _ _
      apply (evaluate_covers key ofKey).bind
      intro _ value _ _
      apply Evaluates.tableGet.bind
      intro _ found _ lasting
      cases found with
      | none => exact evaluate_covers default ofDefault
      | some value => exact .pure (lasting value rfl).covers
  | .len base, locs, settled => by
      rw [EscapeScope.addrs, settled_bind] at settled
      obtain ⟨_, settled, _⟩ := settled
      rw [Evaluator.evaluate]
      apply (evaluate_covers base settled).bind
      intro after value _ _
      apply (Evaluates.read_any (after.grounded_headerLen value)).bind
      intro _ length _ _
      exact .pure (Storage.covers_primitive _)
  | .cap base, locs, settled => by
      rw [EscapeScope.addrs, settled_bind] at settled
      obtain ⟨_, settled, _⟩ := settled
      rw [Evaluator.evaluate]
      apply (evaluate_covers base settled).bind
      intro after value _ _
      apply (Evaluates.read_any (Storage.grounded_headerCap value)).bind
      intro _ length _ _
      exact .pure (Storage.covers_primitive _)
  | .reslice base low high, locs, settled => by
      rw [EscapeScope.addrs, settled_bind] at settled
      obtain ⟨_, settled, _⟩ := settled
      rw [Evaluator.evaluate]
      apply (evaluate_covers base settled).bind
      intro after header _ _
      apply Evaluates.read
      · intro _
        exact Storage.grounded_reslice header low high
      · intro window _ _ found
        exact Storage.covers_of_nil (Storage.pointees_reslice found)
  | .boxed typeTag value, locs, settled => by
      rw [EscapeScope.addrs] at settled
      rw [Evaluator.evaluate]
      apply (evaluate_covers value settled).bind
      intro after value _ covers
      apply Evaluates.pure
      intro target inside
      rw [Value.pointees_tagged] at inside
      exact covers target inside
  | .isNil value, locs, settled => by
      rw [EscapeScope.addrs, settled_bind] at settled
      obtain ⟨_, settled, _⟩ := settled
      rw [Evaluator.evaluate]
      apply (evaluate_covers value settled).bind
      intro after value _ _
      exact .pure (Storage.covers_primitive _)
  | .call callee args, locs, settled => by
      rw [EscapeScope.addrs, settled_bind] at settled
      obtain ⟨_, settled, _⟩ := settled
      rw [Evaluator.evaluate]
      apply (Evaluates.function' calls).bind
      intro _ function _ found
      apply Evaluates.checkArgumentCount.bind
      intro _ _ _ count
      apply (evaluateArgs_passes callee function.params args count settled).bind
      intro _ values _ passes
      apply (Evaluates.invoke calls found passes).bind
      intro _ result _ lasting
      unfold expectResult
      split
      next value => exact .pure (lasting value rfl).covers
      next => exact .mismatch

theorem evaluateAll_lasting {before : Storage} :
    ∀ (exprs : List Expr), Settled audit.facts (scope.storeOutside exprs) () →
      audit.Evaluates scope before (evaluator.evaluateAll location exprs) fun after values =>
        ∀ value ∈ values, after.Lasting value
  | [], _ => by
      rw [Evaluator.evaluateAll]
      exact .pure nofun
  | expr :: exprs, settled => by
      rw [EscapeScope.storeOutside, settled_bind] at settled
      obtain ⟨inner, settled, rest⟩ := settled
      obtain ⟨_, escapes, others⟩ := settled_bind.mp rest
      rw [Evaluator.evaluateAll]
      apply (evaluate_covers expr settled).bind
      intro middle value _ covers
      apply Evaluates.secured
      intro secure _
      have here := lasting_of_escape escapes secure covers
      apply (evaluateAll_lasting exprs others).bind
      intro after values grown lasting
      exact .pure (List.forall_mem_cons.mpr ⟨here.embeds grown.toEmbeds, lasting⟩)

theorem evaluateFields_covers {before : Storage} :
    ∀ (fields : List (String × Expr)) {locs : List Loc},
      Settled audit.facts (scope.fieldsAddrs fields) locs →
        audit.Evaluates scope before (evaluator.evaluateFields location fields) fun after values =>
          ∀ typeName, after.Covers audit.facts locs (.composite typeName values)
  | [], _, _ => by
      rw [Evaluator.evaluateFields]
      exact .pure fun _ => Storage.covers_of_nil (by simp [Value.pointees, Value.pointeesOfFields])
  | (name, expr) :: fields, locs, settled => by
      simp only [EscapeScope.fieldsAddrs, settled_bind, settled_pure] at settled
      obtain ⟨first, ofFirst, others, ofOthers, rfl⟩ := settled
      rw [Evaluator.evaluateFields]
      apply (evaluate_covers expr ofFirst).bind
      intro middle value _ here
      apply (evaluateFields_covers fields ofOthers).bind
      intro after values grown rest
      apply Evaluates.pure
      intro typeName target inside
      rw [Value.pointees, Value.pointeesOfFields] at inside
      rcases List.mem_append.mp inside with inFirst | inOthers
      · exact ((here.grown grown) target inFirst).left
      · apply Storage.Tracks.right
        apply rest typeName
        rw [Value.pointees]
        exact inOthers

theorem evaluateEntries_lasting {before : Storage} :
    ∀ (entries : List (Expr × Expr)), Settled audit.facts (scope.storeEntries entries) () →
      audit.Evaluates scope before (evaluator.evaluateEntries location entries)
        fun after values => ∀ entry ∈ values, after.Lasting entry.1 ∧ after.Lasting entry.2
  | [], _ => by
      rw [Evaluator.evaluateEntries]
      exact .pure nofun
  | (key, value) :: entries, settled => by
      rw [EscapeScope.storeEntries, settled_bind] at settled
      obtain ⟨first, ofKey, rest⟩ := settled
      obtain ⟨second, ofValue, rest⟩ := settled_bind.mp rest
      obtain ⟨_, escapes, others⟩ := settled_bind.mp rest
      rw [Evaluator.evaluateEntries]
      apply (evaluate_covers key ofKey).bind
      intro _ key _ coversKey
      apply (evaluate_covers value ofValue).bind
      intro middle value grown covers
      apply Evaluates.secured
      intro secure _
      have lastingKey := lasting_of_escape escapes secure (coversKey.grown grown).left
      have lasting := lasting_of_escape escapes secure covers.right
      apply (evaluateEntries_lasting entries others).bind
      intro after values grown rest
      apply Evaluates.pure
      intro entry member
      rcases List.mem_cons.mp member with rfl | later
      · exact ⟨lastingKey.embeds grown.toEmbeds, lasting.embeds grown.toEmbeds⟩
      · exact rest entry later

theorem evaluateArgs_passes {before : Storage} (callee : String) {param : Nat} :
    ∀ (params : List Param) (args : List Expr) {locs : List Loc}, params.length = args.length →
      Settled audit.facts (scope.passArgs callee param args) locs →
        audit.Evaluates scope before (evaluator.evaluateArgs location params args)
          fun after values =>
            after.PassesAll audit.facts (after.calls.depth + 1) callee param params values
  | first :: params, arg :: args, locs, count, settled => by
      rw [EscapeScope.passArgs, settled_bind] at settled
      obtain ⟨inner, ofArg, rest⟩ := settled
      obtain ⟨_, retained, rest⟩ := settled_bind.mp rest
      obtain ⟨_, others, _⟩ := settled_bind.mp rest
      rw [Evaluator.evaluateArgs]
      apply (Evaluates.flowInto (evaluate_covers arg ofArg)).bind
      intro middle value _ covers
      apply Evaluates.secured
      intro secure agrees
      have here := passes_of_retain retained secure agrees covers
      apply (evaluateArgs_passes callee params args (Nat.succ.inj count) others).bind
      intro after values grown rest
      apply Evaluates.pure
      rw [grown.calls_depth] at rest ⊢
      exact ⟨here.embeds grown.toEmbeds, rest⟩
  | [], [], _, _, _ => by
      rw [Evaluator.evaluateArgs]
      · exact .pure trivial
      · nofun

end

end Audit

end ReferenceSemantics
