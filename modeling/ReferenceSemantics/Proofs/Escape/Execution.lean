import ReferenceSemantics.Proofs.Escape.Evaluation

set_option autoImplicit false

/-!
Statements and bodies beside the rules of the classification.

A statement writes a local only what its site holds, and anything else only what lasts. The scope
grows with the declarations, but the named result of the function stays what it is.
-/

namespace ReferenceSemantics

open Run EscapeRule

/-- The named result of the function is what its name designates. -/
def EscapeScope.HasResult (scope : EscapeScope) (function : FunctionDef) : Prop :=
  ∀ name kind, function.result = some ⟨some name, kind⟩ →
    scope.locals.lookup name = some (defaultSite function.name name, kind)

theorem EscapeScope.HasResult.afterStatement {scope : EscapeScope} {function : FunctionDef}
    {stmt : Stmt} (hasResult : scope.HasResult function)
    (single : ∀ result, function.namedResult = some result →
      ∀ decl, stmt.declared? = some decl → decl.name ≠ result) :
    (scope.afterStatement stmt).HasResult function := by
  intro name kind found
  have here := hasResult name kind found
  unfold EscapeScope.afterStatement
  split
  next decl declared =>
    have other := single name (by simp [FunctionDef.namedResult, found]) decl declared
    rw [EscapeScope.bind, List.lookup_cons, beq_eq_false_iff_ne.mpr other.symm]
    exact here
  next => exact here

namespace Storage

variable {storage : Storage} {facts : EscapeFacts} {address : Address} {slot other : Slot}

theorem Lives.unique (secure : storage.Secure facts) (lives : storage.Lives address slot)
    (livesToo : storage.Lives address other) : slot = other := by
  obtain ⟨content, found, rfl⟩ := secure.coherent.objectAt?_of_lives lives
  obtain ⟨content, foundToo, rfl⟩ := secure.coherent.objectAt?_of_lives livesToo
  rw [found] at foundToo
  cases foundToo
  rfl

end Storage

namespace Audit

variable {audit : Audit} {scope : EscapeScope} {before : Storage} {location : Location}
  {locs : List Loc}

/-- The field of a local composite is in the slot of the local. -/
theorem Evaluates.fieldRef_inline {base : SlotRef} {name : String} {site : SiteId}
    (whole : base.path = []) (isLocal : before.IsLocal audit.facts base.address site .value) :
    audit.Evaluates scope before (ReferenceSemantics.fieldRef location base name) fun _ ref =>
      ref.address = base.address := by
  unfold ReferenceSemantics.fieldRef
  apply (Evaluates.load isLocal.tracks).bind
  rintro middle found grown ⟨-, typed⟩
  apply Evaluates.secured
  intro secure _
  have composite : found.kind = .value := by
    obtain ⟨slot, lives, same⟩ := typed whole
    obtain ⟨known, livesToo, kind⟩ := (isLocal.grown grown).lives
    rw [← same, lives.unique secure livesToo, kind]
  have holders : audit.Evaluates scope middle (ReferenceSemantics.fieldHolder location base found)
      fun _ holder => holder = base := by
    unfold ReferenceSemantics.fieldHolder
    split
    · cases composite
    · exact .pure rfl
    · exact .mismatch
  apply holders.bind
  rintro later holder grown' rfl
  have tracks := (isLocal.grown (grown.trans grown')).tracks
  apply (Evaluates.load tracks).bind
  intro last held grown'' _
  unfold ReferenceSemantics.fieldOf
  split
  · have field : last.Tracks audit.facts [.site site] (holder.field name).address :=
      tracks.grown grown''
    apply (Evaluates.load field).bind
    intro _ _ _ _
    exact .pure rfl
  · exact .mismatch

/-- A statement boundary changes nothing in storage. -/
theorem Leads.checkpoint : audit.Leads before (Run.checkpoint location) fun after _ =>
    after = before := by
  rintro machine rfl secure
  unfold Run.checkpoint
  simp only [exec_bind, exec_modify, exec_get]
  split
  · exact .halted trivial secure
  · exact .done secure (.refl _) rfl

variable {evaluator : Evaluator} [evaluator.Stepwise] (calls : audit.Calls evaluator)

include calls

/-! ### Values for a place -/

theorem Evaluates.evaluateFor {kind : Kind} {expr : Expr}
    (settled : Settled audit.facts (scope.addrs expr) locs) :
    audit.Evaluates scope before (evaluator.evaluateFor location kind expr) fun after value =>
      after.Covers audit.facts locs value :=
  .flowInto (evaluate_covers location calls expr settled)

theorem Evaluates.evaluateDecl {decl : VarDecl}
    (settled : ∀ init, decl.init = some init →
      ∃ inner, Settled audit.facts (scope.addrs init) inner ∧ inner ⊆ locs) :
    audit.Evaluates scope before (evaluator.evaluateDecl location decl) fun after value =>
      after.Covers audit.facts locs value ∧ value.kind = decl.kind := by
  have checked : ∀ {middle : Storage} {value : Value}, middle.Covers audit.facts locs value →
      audit.Evaluates scope middle (do Run.expectKind location decl.kind value; return value)
        fun after value => after.Covers audit.facts locs value ∧ value.kind = decl.kind := by
    intro middle value covers
    apply Evaluates.expectKind.bind
    intro _ _ grown same
    exact .pure ⟨covers.grown grown, same⟩
  unfold Evaluator.evaluateDecl
  cases initialised : decl.init with
  | none => exact checked (Storage.covers_of_nil (Value.pointees_zero _))
  | some init =>
      obtain ⟨inner, settled, within⟩ := settled init initialised
      apply (Evaluates.evaluateFor calls settled).bind
      intro _ _ _ covers
      exact checked (covers.mono within)

theorem Evaluates.overwrite {ref : SlotRef} {kind : Kind} {value : Expr}
    (settled : Settled audit.facts (scope.addrs value) locs)
    (lives : ∃ slot, before.Lives ref.address slot) (typed : before.Typed ref kind)
    (held : ∀ {after : Storage} {value : Value}, before.Grown after → after.Secure audit.facts →
      after.Covers audit.facts locs value → ∀ target ∈ value.pointees,
        after.MayHold audit.facts ref.address target) :
    audit.Evaluates scope before (evaluator.overwrite location ref kind value)
      fun _ _ => True := by
  unfold Evaluator.overwrite
  apply (Evaluates.evaluateFor calls settled).bind
  intro middle value grown covers
  apply Evaluates.expectKind.bind
  rintro after _ grown' rfl
  have toStore := grown.trans grown'
  obtain ⟨slot, lives⟩ := lives
  apply Evaluates.store ⟨slot, lives.embeds toStore.toEmbeds⟩ (typed.embeds toStore.toEmbeds)
  intro secure
  exact held toStore secure (covers.grown grown')

/-- A value that escapes may overwrite anything. -/
theorem Evaluates.overwrite_lasting {ref : SlotRef} {kind : Kind} {value : Expr}
    {reason : EscapeReason} (settled : Settled audit.facts (scope.addrs value) locs)
    (escapes : Settled audit.facts (escape locs reason) ())
    (lives : ∃ slot, before.Lives ref.address slot) (typed : before.Typed ref kind) :
    audit.Evaluates scope before (evaluator.overwrite location ref kind value)
      fun _ _ => True := by
  apply Evaluates.overwrite calls settled lives typed
  intro after value _ secure covers target inside
  exact .outlives (lasting_of_escape escapes secure covers target inside)

/-- What the site of a local holds may overwrite the local. -/
theorem Evaluates.overwrite_local {ref : SlotRef} {kind declared : Kind} {value : Expr}
    {site : SiteId} (settled : Settled audit.facts (scope.addrs value) locs)
    (holds : Settled audit.facts (hold (.site site) locs) ())
    (isLocal : before.IsLocal audit.facts ref.address site declared)
    (typed : before.Typed ref kind) :
    audit.Evaluates scope before (evaluator.overwrite location ref kind value)
      fun _ _ => True := by
  apply Evaluates.overwrite calls settled isLocal.tracks.lives typed
  intro after value grown secure covers
  apply (isLocal.grown grown).mayHold secure audit.closed
  exact covers.mono fun _ member => settled_hold holds member

theorem Evaluates.evaluateElement {kind : Option Kind} {expr : Expr}
    (settled : Settled audit.facts (scope.addrs expr) locs) :
    audit.Evaluates scope before (evaluator.evaluateElement location kind expr)
      fun after value => after.Covers audit.facts locs value := by
  cases kind with
  | none => exact evaluate_covers location calls expr settled
  | some kind => exact Evaluates.evaluateFor calls settled

theorem Evaluates.evaluateElements {kind : Option Kind} {exprs : List Expr}
    (settled : Settled audit.facts (scope.storeOutside exprs) ()) :
    audit.Evaluates scope before (evaluator.evaluateElements location kind exprs)
      fun after values => ∀ value ∈ values, after.Lasting value := by
  induction exprs generalizing before with
  | nil =>
      rw [Evaluator.evaluateElements]
      exact .pure (List.forall_mem_nil _)
  | cons expr exprs inductionHypothesis =>
      rw [EscapeScope.storeOutside, settled_bind] at settled
      obtain ⟨inner, settled, rest⟩ := settled
      obtain ⟨_, escapes, others⟩ := settled_bind.mp rest
      rw [Evaluator.evaluateElements]
      apply (Evaluates.evaluateElement calls settled).bind
      intro middle value _ covers
      apply Evaluates.secured
      intro secure _
      have here := lasting_of_escape escapes secure covers
      apply (inductionHypothesis others).bind
      intro after values grown lasting
      exact .pure (List.forall_mem_cons.mpr ⟨here.embeds grown.toEmbeds, lasting⟩)

/-! ### Statements -/

theorem Evaluates.assign {target : String} {value : Expr}
    (settled : Settled audit.facts (scope.statement (.assign target value)) ())
    (function : FunctionDef) :
    audit.Evaluates scope before (evaluator.execute function location (.assign target value))
      fun _ flow => flow = .next := by
  obtain ⟨inner, ofValue, rest⟩ := EscapeScope.settled_assign settled
  rw [Evaluator.execute]
  apply (Evaluates.lookup target).bind
  rintro middle ref _ ⟨whole, names⟩
  have slots : audit.Evaluates scope middle (Run.read location (·.slot ref.address))
      fun after slot => after.Typed ref slot.kind := by
    apply Evaluates.read
    · intro secure
      obtain ⟨slot, lives⟩ := names.tracks.lives
      obtain ⟨content, read, -⟩ := secure.slot_of_lives lives
      rw [read]
      exact .ok _
    · intro slot secure _ found _
      exact ⟨slot.outline, secure.coherent.lives (Storage.slot_ok_iff.mp found), rfl⟩
  apply slots.bind
  intro after slot grown typed
  have written : audit.Evaluates scope after (evaluator.overwrite location ref slot.kind value)
      fun _ _ => True := by
    unfold Storage.Names at names
    unfold EscapeScope.site? at rest
    split at names
    next site kind declared =>
      rw [declared] at rest
      exact .overwrite_local calls ofValue rest (names.grown grown) typed
    next absent =>
      rw [absent] at rest
      obtain ⟨slot, lives⟩ := names.lives
      exact .overwrite_lasting calls ofValue rest ⟨slot, lives.embeds grown.toEmbeds⟩ typed
  apply written.bind
  intro _ _ _ _
  exact .pure rfl

theorem Evaluates.setField {target : Place} {name : String} {value : Expr}
    (settled : Settled audit.facts (scope.statement (.setField target name value)) ())
    (function : FunctionDef) :
    audit.Evaluates scope before
      (evaluator.execute function location (.setField target name value))
      fun _ flow => flow = .next := by
  obtain ⟨inner, ofValue, rest⟩ := EscapeScope.settled_setField settled
  rw [Evaluator.execute]
  have finish : ∀ {after : Storage} {ref : SlotRef} {kind : Kind},
      audit.Evaluates scope after (evaluator.overwrite location ref kind value) (fun _ _ => True) →
        audit.Evaluates scope after (do
          evaluator.overwrite location ref kind value
          return .next) fun _ flow => flow = Flow.next := by
    intro after ref kind written
    apply written.bind
    intro _ _ _ _
    exact .pure rfl
  cases inline : scope.inlineLocal? target with
  | none =>
      rw [inline] at rest
      obtain ⟨⟨places, ofTarget⟩, escapes⟩ := rest
      apply (placeRef_tracks location calls target ofTarget).bind
      intro _ base _ tracks
      apply (Evaluates.fieldRef tracks).bind
      intro _ ref _ tracks
      apply (Evaluates.load tracks).bind
      rintro after old grown ⟨-, typed⟩
      exact finish
        (.overwrite_lasting calls ofValue escapes (tracks.grown grown).lives typed)
  | some loc =>
      rw [inline] at rest
      unfold EscapeScope.inlineLocal? at inline
      split at inline
      next local' =>
        split at inline
        next isValue =>
          obtain ⟨⟨site, kind⟩, declared, rfl⟩ := Option.map_eq_some_iff.mp inline
          obtain rfl : kind = .value := by
            simpa [EscapeScope.kind?, declared] using isValue
          rw [Evaluator.placeRef]
          apply (Evaluates.lookup local').bind
          rintro _ base _ ⟨whole, names⟩
          unfold Storage.Names at names
          rw [declared] at names
          apply (Evaluates.fieldRef_inline whole names).bind
          intro middle ref grown same
          have isLocal : middle.IsLocal audit.facts ref.address site .value :=
            same ▸ names.grown grown
          apply (Evaluates.load isLocal.tracks).bind
          rintro after old grown ⟨-, typed⟩
          exact finish (.overwrite_local calls ofValue rest (isLocal.grown grown) typed)
        next => cases inline
      next => cases inline

theorem Evaluates.storeThrough {pointer value : Expr}
    (settled : Settled audit.facts (scope.statement (.store pointer value)) ())
    (function : FunctionDef) :
    audit.Evaluates scope before (evaluator.execute function location (.store pointer value))
      fun _ flow => flow = .next := by
  rw [EscapeScope.statement, settled_bind] at settled
  obtain ⟨_, ofPointer, rest⟩ := settled
  obtain ⟨inner, ofValue, escapes⟩ := settled_bind.mp rest
  rw [Evaluator.execute]
  apply (evaluate_covers location calls pointer ofPointer).bind
  intro _ pointer _ covers
  apply (Evaluates.dereference covers).bind
  intro _ ref _ tracks
  apply (Evaluates.load tracks).bind
  rintro after old grown ⟨-, typed⟩
  apply (Evaluates.overwrite_lasting calls ofValue escapes (tracks.grown grown).lives typed).bind
  intro _ _ _ _
  exact .pure rfl

theorem Evaluates.setIndex {target : Place} {index value : Expr}
    (settled : Settled audit.facts (scope.statement (.setIndex target index value)) ())
    (function : FunctionDef) :
    audit.Evaluates scope before
      (evaluator.execute function location (.setIndex target index value))
      fun _ flow => flow = .next := by
  rw [EscapeScope.statement, settled_bind] at settled
  obtain ⟨_, ofTarget, rest⟩ := settled
  obtain ⟨_, ofIndex, rest⟩ := settled_bind.mp rest
  obtain ⟨inner, ofValue, escapes⟩ := settled_bind.mp rest
  rw [Evaluator.execute]
  apply (placeRef_tracks location calls target ofTarget).bind
  intro _ ref _ tracks
  apply (Evaluates.load tracks).bind
  intro _ header _ _
  apply (evaluate_covers location calls index ofIndex).bind
  intro _ value _ _
  apply Evaluates.asInt.bind
  intro _ place _ _
  apply Evaluates.element.bind
  intro _ old _ _
  apply (Evaluates.evaluateFor calls ofValue).bind
  intro after new _ covers
  apply Evaluates.secured
  intro secure _
  apply (Evaluates.setElement (lasting_of_escape escapes secure covers)).bind
  intro _ _ _ _
  exact .pure rfl

theorem Evaluates.setKey {target : Place} {key value : Expr}
    (settled : Settled audit.facts (scope.statement (.setKey target key value)) ())
    (function : FunctionDef) :
    audit.Evaluates scope before (evaluator.execute function location (.setKey target key value))
      fun _ flow => flow = .next := by
  rw [EscapeScope.statement, settled_bind] at settled
  obtain ⟨_, ofTarget, rest⟩ := settled
  obtain ⟨first, ofKey, rest⟩ := settled_bind.mp rest
  obtain ⟨second, ofValue, escapes⟩ := settled_bind.mp rest
  rw [Evaluator.execute]
  apply (placeRef_tracks location calls target ofTarget).bind
  intro _ ref _ tracks
  apply (Evaluates.load tracks).bind
  intro _ header _ _
  apply (evaluate_covers location calls key ofKey).bind
  intro middle key _ coversKey
  apply (Evaluates.read_any (middle.grounded_tableValueKind header key)).bind
  intro _ kind grown _
  apply (Evaluates.evaluateElement calls ofValue).bind
  intro after new grown' covers
  apply Evaluates.secured
  intro secure _
  have lastingKey := lasting_of_escape escapes secure
    ((coversKey.grown grown).grown grown').left
  apply (Evaluates.tableInsert lastingKey (lasting_of_escape escapes secure covers.right)).bind
  intro _ _ _ _
  exact .pure rfl

theorem Evaluates.appendOperands {target : Place} {values : List Expr}
    (ofTarget : Settled audit.facts (scope.placeAddrs target) locs)
    (ofValues : Settled audit.facts (scope.storeOutside values) ()) :
    audit.Evaluates scope before (evaluator.appendOperands location target values)
      fun after operands => (∃ slot, after.Lives operands.ref.address slot) ∧
        after.Typed operands.ref operands.header.kind ∧
        ∀ value ∈ operands.values, after.Lasting value := by
  unfold Evaluator.appendOperands
  apply (placeRef_tracks location calls target ofTarget).bind
  intro _ ref _ tracks
  apply (Evaluates.load tracks).bind
  rintro middle header grown ⟨-, typed⟩
  apply (Evaluates.read_any (middle.grounded_elementKind header)).bind
  intro _ kind grown' _
  apply (Evaluates.evaluateElements calls ofValues).bind
  intro after new grown'' lasting
  have toEnd := grown'.trans grown''
  exact .pure ⟨(tracks.grown (grown.trans toEnd)).lives, typed.embeds toEnd.toEmbeds, lasting⟩

theorem Evaluates.appendTo {target : Place} {values : List Expr}
    (settled : Settled audit.facts (scope.statement (.append target values)) ())
    (function : FunctionDef) :
    audit.Evaluates scope before
      (evaluator.execute function location (.append target values))
      fun _ flow => flow = .next := by
  rw [EscapeScope.statement, settled_bind] at settled
  obtain ⟨_, ofTarget, ofValues⟩ := settled
  rw [Evaluator.execute]
  have appended : audit.Evaluates scope before (evaluator.append location target values)
      fun _ _ => True := by
    unfold Evaluator.append
    apply (Evaluates.appendOperands calls ofTarget ofValues).bind
    rintro middle ⟨ref, header, values⟩ _ ⟨⟨slot, lives⟩, typed, lasting⟩
    apply (Evaluates.append lasting).bind
    rintro _ grown grown' ⟨kind, empty⟩
    apply (Evaluates.silent (silent_recordMove header grown)).bind
    intro after _ grown'' _
    have toStore := (grown'.trans grown'').toEmbeds
    apply Evaluates.store_lasting ⟨slot, lives.embeds toStore⟩ (kind ▸ typed.embeds toStore)
    intro target inside
    rw [empty] at inside
    cases inside
  apply appended.bind
  intro _ _ _ _
  exact .pure rfl

theorem Evaluates.callStatement {callee : String} {args : List Expr}
    (settled : Settled audit.facts (scope.statement (.call callee args)) ())
    (function : FunctionDef) :
    audit.Evaluates scope before (evaluator.execute function location (.call callee args))
      fun _ flow => flow = .next := by
  rw [EscapeScope.statement, settled_bind] at settled
  obtain ⟨_, settled, _⟩ := settled
  rw [Evaluator.execute]
  have called : audit.Evaluates scope before (evaluator.call location callee args)
      fun _ _ => True := by
    unfold Evaluator.call
    apply (Evaluates.function' calls).bind
    intro _ function _ found
    apply Evaluates.checkArgumentCount.bind
    intro _ _ _ count
    apply (evaluateArgs_passes location calls callee function.params args count settled).bind
    intro _ values _ passes
    exact (Evaluates.invoke calls found passes).weaken fun _ _ => trivial
  apply called.bind
  intro _ _ _ _
  exact .pure rfl

end Audit

end ReferenceSemantics
