import ReferenceSemantics.Proofs.Escape.Secure
import ReferenceSemantics.Proofs.Escape.Settled
import ReferenceSemantics.Proofs.Run.Progress
import ReferenceSemantics.Proofs.Storage.Grounded

set_option autoImplicit false

/-!
Runs that are followed beside the rules of the classification.

An audit has a model and the facts by which its sites were placed. A computation leads from secure
storage to secure storage, and it never stops because a frame is gone. What it hands back is said by
a postcondition, and in a scope also that the bindings of the current frame are those of the scope.
-/

namespace ReferenceSemantics

open Run

/-- No frame that is gone is to blame for the end. -/
def Halt.Grounded : Halt → Prop
  | .error (.fault (.dangling _) _) => False
  | _ => True

theorem grounded_ofStorage (location : Location) {error : StorageError}
    (grounded : error.Grounded) : (Halt.error (.ofStorage location error)).Grounded := by
  cases error with
  | dangling _ => exact grounded
  | _ => exact trivial

namespace Storage

/-- The slot bound to a local of the scope, as the scope describes it. -/
def IsLocal (storage : Storage) (facts : EscapeFacts) (address : Address) (site : SiteId)
    (kind : Kind) : Prop :=
  ∃ slot : Slot, slot.kind = kind ∧
    ((storage.Owns storage.calls.depth storage.current.function slot ∧ slot.address = address ∧
        slot.site = some site) ∨
      (storage.InHeap address slot ∧ facts.Escapes (.site site)))

/-- The current frame binds the locals of the scope, and within a call no others. -/
structure Agrees (storage : Storage) (facts : EscapeFacts) (scope : EscapeScope) : Prop where
  function : storage.current.function = scope.function
  known : scope.known = facts
  bound : ∀ {name site kind}, scope.locals.lookup name = some (site, kind) →
    ∃ address, storage.current.lookup name = some address ∧
      storage.IsLocal facts address site kind
  free : ∀ {name}, storage.InCall → scope.locals.lookup name = none →
    storage.current.lookup name = none

/-- The address may be held under one of the locations in the current frame. -/
def Tracks (storage : Storage) (facts : EscapeFacts) (locs : List Loc) (address : Address) :
    Prop :=
  storage.Covered facts storage.calls.depth storage.current.function locs address

/-- The value may be held under one of the locations in the current frame. -/
def Covers (storage : Storage) (facts : EscapeFacts) (locs : List Loc) (value : Value) : Prop :=
  ∀ target ∈ value.pointees, storage.Tracks facts locs target

/-- The value points only to slots that outlive every call. -/
def Lasting (storage : Storage) (value : Value) : Prop :=
  ∀ target ∈ value.pointees, storage.Outlives target

/-- A slot of this outline lives at the address. -/
def Lives (storage : Storage) (address : Address) (slot : Slot) : Prop :=
  (slot.address = address ∧ ∃ depth function, storage.Owns depth function slot) ∨
    storage.InHeap address slot

/-- The slot is one for values of the kind, if the reference designates the whole of it. -/
def Typed (storage : Storage) (ref : SlotRef) (kind : Kind) : Prop :=
  ref.path = [] → ∃ slot, storage.Lives ref.address slot ∧ slot.kind = kind

variable {storage changed : Storage} {facts : EscapeFacts} {locs more : List Loc}
  {address : Address} {slot : Slot} {value : Value} {ref : SlotRef} {kind : Kind}
  {scope : EscapeScope} {site : SiteId}

/-! ### What later storage keeps -/

theorem Tracks.mono (tracks : storage.Tracks facts locs address) (within : locs ⊆ more) :
    storage.Tracks facts more address :=
  Covered.mono tracks within

theorem Covers.mono (covers : storage.Covers facts locs value) (within : locs ⊆ more) :
    storage.Covers facts more value :=
  fun target inside => (covers target inside).mono within

theorem Tracks.grown (grown : storage.Grown changed) (tracks : storage.Tracks facts locs address) :
    changed.Tracks facts locs address := by
  unfold Tracks
  rw [grown.calls_depth, grown.current_function]
  exact Covered.embeds grown.toEmbeds tracks

theorem Covers.grown (grown : storage.Grown changed) (covers : storage.Covers facts locs value) :
    changed.Covers facts locs value :=
  fun target inside => (covers target inside).grown grown

theorem Lasting.embeds (embeds : storage.Embeds changed) (lasting : storage.Lasting value) :
    changed.Lasting value :=
  fun target inside => embeds.outlives (lasting target inside)

theorem Lasting.covers (lasting : storage.Lasting value) : storage.Covers facts locs value :=
  fun target inside => .outlives (lasting target inside)

theorem Lives.embeds (embeds : storage.Embeds changed) (lives : storage.Lives address slot) :
    changed.Lives address slot := by
  rcases lives with ⟨here, depth, function, owned⟩ | inHeap
  · exact .inl ⟨here, depth, function, embeds.owns owned⟩
  · exact .inr (embeds.inHeap inHeap)

theorem Typed.embeds (embeds : storage.Embeds changed) (typed : storage.Typed ref kind) :
    changed.Typed ref kind := by
  intro whole
  obtain ⟨slot, lives, same⟩ := typed whole
  exact ⟨slot, lives.embeds embeds, same⟩

theorem IsLocal.grown (grown : storage.Grown changed)
    (isLocal : storage.IsLocal facts address site kind) :
    changed.IsLocal facts address site kind := by
  obtain ⟨slot, same, ⟨owned, here, named⟩ | ⟨inHeap, escapes⟩⟩ := isLocal
  · refine ⟨slot, same, .inl ⟨?_, here, named⟩⟩
    rw [grown.calls_depth, grown.current_function]
    exact grown.owns owned
  · exact ⟨slot, same, .inr ⟨grown.inHeap inHeap, escapes⟩⟩

theorem Agrees.grown (grown : storage.Grown changed)
    (bindings : changed.current.bindings = storage.current.bindings)
    (agrees : storage.Agrees facts scope) : changed.Agrees facts scope := by
  refine ⟨grown.current_function.trans agrees.function, agrees.known, ?_, ?_⟩
  · intro name site kind found
    obtain ⟨address, bound, isLocal⟩ := agrees.bound found
    exact ⟨address, by rw [Frame.lookup, bindings]; exact bound, isLocal.grown grown⟩
  · intro name inCall absent
    rw [Frame.lookup, bindings]
    exact agrees.free (grown.inCall.mpr inCall) absent

/-! ### Live slots -/

theorem Outlives.lives (outlives : storage.Outlives address) :
    ∃ slot, storage.Lives address slot := by
  rcases outlives.cases with ⟨slot, inHeap⟩ | ⟨slot, owned, here⟩
  · exact ⟨slot, .inr inHeap⟩
  · exact ⟨slot, .inl ⟨here, _, _, owned⟩⟩

theorem Tracks.lives (tracks : storage.Tracks facts locs address) :
    ∃ slot, storage.Lives address slot := by
  cases tracks with
  | outlives outlives => exact outlives.lives
  | owned slot site owned here named member => exact ⟨slot, .inl ⟨here, _, _, owned⟩⟩
  | passed lower owner slot param below owned here member kept again =>
      exact ⟨slot, .inl ⟨here, _, _, owned⟩⟩

theorem Coherent.objectAt?_of_lives (coherent : storage.Coherent)
    (lives : storage.Lives address slot) :
    ∃ content, storage.objectAt? address = some (.slot content) ∧ content.outline = slot := by
  rcases lives with ⟨rfl, depth, function, owned⟩ | inHeap
  · exact coherent.objectAt?_of_owns owned
  · exact coherent.objectAt?_of_inHeap inHeap

theorem Coherent.lives (coherent : storage.Coherent)
    (found : storage.objectAt? address = some (.slot slot)) :
    storage.Lives address slot.outline := by
  rcases coherent.owner found with owned | inHeap
  · exact .inl owned
  · exact .inr inHeap

theorem IsLocal.lives (isLocal : storage.IsLocal facts address site kind) :
    ∃ slot, storage.Lives address slot ∧ slot.kind = kind := by
  obtain ⟨slot, same, ⟨owned, here, -⟩ | ⟨inHeap, -⟩⟩ := isLocal
  · exact ⟨slot, .inl ⟨here, _, _, owned⟩, same⟩
  · exact ⟨slot, .inr inHeap, same⟩

theorem IsLocal.tracks (isLocal : storage.IsLocal facts address site kind) :
    storage.Tracks facts [.site site] address := by
  obtain ⟨slot, -, ⟨owned, here, named⟩ | ⟨inHeap, -⟩⟩ := isLocal
  · exact .owned slot site owned here named (List.mem_singleton.mpr rfl)
  · exact .outlives inHeap.outlives

/-- A local may be given what its site holds. -/
theorem IsLocal.mayHold (secure : storage.Secure facts) (closed : facts.Closed)
    (isLocal : storage.IsLocal facts address site kind)
    (covers : storage.Covers facts (facts.heldBy (.site site)) value) (target : Address)
    (inside : target ∈ value.pointees) : storage.MayHold facts address target := by
  have covered := covers target inside
  obtain ⟨slot, -, ⟨owned, here, named⟩ | ⟨-, escapes⟩⟩ := isLocal
  · rcases Nat.eq_zero_or_pos storage.calls.depth with atRoot | inCall
    · unfold Tracks at covered
      rw [atRoot] at covered
      exact .outlives covered.outlives_of_root
    · exact .held _ _ slot site inCall owned here named covered
  · apply MayHold.outlives
    apply secure.outlives_of_escapes covered
    intro loc held
    exact closed escapes held

end Storage

/-- A model whose sites are placed by facts in which the rules find nothing new. -/
structure Audit where
  model : Model
  mode : EscapeMode
  facts : EscapeFacts
  /-- The ends of a run after which nothing is said. -/
  Open : Halt → Prop
  closed : facts.Closed
  placed : ∀ site, model.placement site = .heap ↔ facts.Escapes (.site site)
  /-- The rules of every function are applied. -/
  settled : ∀ {name function}, model.function? name = some function →
    EscapeRule.Settled facts (function.escapeRules mode facts) ()
  settledGlobals : ∀ decl ∈ model.globals,
    EscapeRule.Settled facts (Program.escapeGlobal mode facts decl) ()
  /-- The name of a result is not declared again. -/
  single : ∀ {name function}, model.function? name = some function →
    ∀ result, function.namedResult = some result →
      ∀ stmt ∈ function.body, ∀ decl, stmt.declared? = some decl → decl.name ≠ result
  entry : ∀ {function}, model.function? model.config.entry = some function → function.params = []

namespace Audit

variable {audit : Audit} {α β : Type}

/-- How a computation ends that was started in secure storage. -/
inductive Ends (audit : Audit) (before : Storage) (post : Storage → α → Prop) :
    Except Halt α × Machine → Prop where
  | overflow {last} (full : ¬ last.2.storage.Fits) : Ends audit before post last
  | left_open {halt machine} (isOpen : audit.Open halt) : Ends audit before post (.error halt, machine)
  | halted {halt machine} (grounded : halt.Grounded) (secure : machine.storage.Secure audit.facts) :
      Ends audit before post (.error halt, machine)
  | done {value machine} (secure : machine.storage.Secure audit.facts)
      (grown : before.Grown machine.storage) (result : post machine.storage value) :
      Ends audit before post (.ok value, machine)

/-- The computation keeps storage secure, and what it hands back fits. -/
def Leads (audit : Audit) (before : Storage) (run : Run α) (post : Storage → α → Prop) : Prop :=
  ∀ machine : Machine, machine.storage = before → before.Secure audit.facts →
    audit.Ends before post (run.exec machine)

/-- The computation also leaves the bindings of the scope. -/
def Evaluates (audit : Audit) (scope : EscapeScope) (before : Storage) (run : Run α)
    (post : Storage → α → Prop) : Prop :=
  before.Agrees audit.facts scope →
    audit.Leads before run fun after value => after.Agrees audit.facts scope ∧ post after value

variable {before : Storage} {post post' : Storage → α → Prop} {posts : Storage → β → Prop}
  {scope : EscapeScope}

/-! ### Composition -/

theorem Leads.pure {value : α} (result : post before value) :
    audit.Leads before (pure value) post := by
  rintro machine rfl secure
  exact .done secure (.refl _) result

theorem Leads.throw {halt : Halt} (grounded : halt.Grounded) :
    audit.Leads before (throw halt : Run α) post := by
  rintro machine rfl secure
  exact .halted grounded secure

theorem Leads.bind {first : Run α} {next : α → Run β} [∀ value, Stepwise (next value)]
    (start : audit.Leads before first post)
    (rest : ∀ {after value}, before.Grown after → post after value →
      audit.Leads after (next value) posts) : audit.Leads before (first >>= next) posts := by
  intro machine here secure
  have ended := start machine here secure
  rw [exec_bind]
  generalize first.exec machine = last at ended
  cases ended with
  | overflow full =>
      refine .overflow fun fits => full ?_
      obtain ⟨result, after⟩ := last
      cases result with
      | error _ => exact fits
      | ok value => exact Stepwise.fits (next value) fits
  | left_open isOpen => exact .left_open isOpen
  | halted grounded secure => exact .halted grounded secure
  | @done value after secure grown result =>
      have ended := rest grown result after rfl secure
      dsimp only
      generalize (next value).exec after = last at ended
      cases ended with
      | overflow full => exact .overflow full
      | left_open isOpen => exact .left_open isOpen
      | halted grounded secure => exact .halted grounded secure
      | done secure grown' result => exact .done secure (grown.trans grown') result

theorem Leads.weaken {run : Run α} (leads : audit.Leads before run post)
    (weaker : ∀ {after value}, before.Grown after → post after value → post' after value) :
    audit.Leads before run post' := by
  intro machine here secure
  have ended := leads machine here secure
  generalize run.exec machine = last at ended
  cases ended with
  | overflow full => exact .overflow full
  | left_open isOpen => exact .left_open isOpen
  | halted grounded secure => exact .halted grounded secure
  | done secure grown result => exact .done secure grown (weaker grown result)

theorem Evaluates.pure {value : α} (result : post before value) :
    audit.Evaluates scope before (pure value) post :=
  fun agrees => .pure ⟨agrees, result⟩

theorem Evaluates.fail {error : RuntimeError} (grounded : (Halt.error error).Grounded) :
    audit.Evaluates scope before (fail error : Run α) post :=
  fun _ => .throw grounded

theorem Evaluates.mismatch {location : Location} {reason : Mismatch} :
    audit.Evaluates scope before (mismatch location reason : Run α) post :=
  .fail trivial

theorem Evaluates.bind {first : Run α} {next : α → Run β} [∀ value, Stepwise (next value)]
    (start : audit.Evaluates scope before first post)
    (rest : ∀ {after value}, before.Grown after → post after value →
      audit.Evaluates scope after (next value) posts) :
    audit.Evaluates scope before (first >>= next) posts := by
  intro agrees
  apply (start agrees).bind
  intro after value grown result
  exact rest grown result.2 result.1

theorem Evaluates.weaken {run : Run α} (evaluates : audit.Evaluates scope before run post)
    (weaker : ∀ {after value}, before.Grown after → post after value → post' after value) :
    audit.Evaluates scope before run post' :=
  fun agrees => (evaluates agrees).weaken fun grown result => ⟨result.1, weaker grown result.2⟩

end Audit

end ReferenceSemantics
