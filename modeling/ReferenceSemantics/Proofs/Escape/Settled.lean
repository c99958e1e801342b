import ReferenceSemantics.Escape.Rules
import ReferenceSemantics.Proofs.Escape.Facts

set_option autoImplicit false

/-!
Rules that find nothing new.

Every rule only adds to the facts. So where a sequence of rules leaves the facts as they are, each of
them does, and what it would add is there already.
-/

namespace ReferenceSemantics

namespace EscapeRule

variable {α β : Type}

/-- A rule that only adds to the facts, and nothing twice. -/
class Grows (rule : EscapeRule α) : Prop where
  le : ∀ facts : EscapeFacts, facts.Le (rule.run facts).2
  once : ∀ facts : EscapeFacts, facts.Once → (rule.run facts).2.Once

theorem le_run (rule : EscapeRule α) [Grows rule] (facts : EscapeFacts) :
    facts.Le (rule.run facts).2 :=
  Grows.le facts

theorem once_run (rule : EscapeRule α) [Grows rule] {facts : EscapeFacts} (once : facts.Once) :
    (rule.run facts).2.Once :=
  Grows.once facts once

instance (value : α) : Grows (pure value : EscapeRule α) := ⟨fun facts => .refl facts, fun _ => id⟩

instance : Grows (get : EscapeRule EscapeFacts) := ⟨fun facts => .refl facts, fun _ => id⟩

instance grows_bind (first : EscapeRule α) (next : α → EscapeRule β) [Grows first]
    [∀ value, Grows (next value)] : Grows (first >>= next) where
  le facts := (le_run first facts).trans (le_run (next _) _)
  once _ once := once_run (next _) (once_run first once)

instance (site : SiteId) : Grows (visit site) := ⟨fun facts => .refl facts, fun _ => id⟩

instance (holder : Loc) (held : List Loc) : Grows (hold holder held) :=
  ⟨fun facts => facts.le_addHolds holder held, fun _ once => once.addHolds holder held⟩

instance (locs : List Loc) (reason : EscapeReason) : Grows (escape locs reason) :=
  ⟨fun facts => facts.le_escape locs reason, fun _ once => once.escape locs reason⟩

instance (condition : Prop) [Decidable condition] (first second : EscapeRule α) [Grows first]
    [Grows second] : Grows (if condition then first else second) := by
  split <;> infer_instance

instance grows_forM (items : List α) (rule : α → EscapeRule Unit)
    [∀ item, Grows (rule item)] : Grows (items.forM rule) := by
  induction items with
  | nil => exact inferInstanceAs (Grows (pure ()))
  | cons item items inductionHypothesis =>
      exact inferInstanceAs (Grows (rule item >>= fun _ => items.forM rule))

/-- The rule leaves the facts as they are. -/
def Settled (facts : EscapeFacts) (rule : EscapeRule α) (result : α) : Prop :=
  rule.run facts = (result, facts)

variable {facts : EscapeFacts} {result : α}

theorem settled_pure {value : α} : Settled facts (pure value) result ↔ value = result := by
  unfold Settled
  constructor
  · intro settled
    exact congrArg Prod.fst settled
  · rintro rfl
    rfl

theorem settled_get {found : EscapeFacts} :
    Settled facts (get : EscapeRule EscapeFacts) found ↔ facts = found := by
  unfold Settled
  constructor
  · intro settled
    exact congrArg Prod.fst settled
  · rintro rfl
    rfl

theorem settled_bind {first : EscapeRule α} {next : α → EscapeRule β} {result : β} [Grows first]
    [∀ value, Grows (next value)] :
    Settled facts (first >>= next) result ↔
      ∃ value, Settled facts first value ∧ Settled facts (next value) result := by
  have unfolded : (first >>= next).run facts =
      (next (first.run facts).1).run (first.run facts).2 := rfl
  unfold Settled
  rw [unfolded]
  constructor
  · intro settled
    have before := le_run first facts
    have after := le_run (next (first.run facts).1) (first.run facts).2
    rw [settled] at after
    have same : (first.run facts).2 = facts := after.antisymm before
    rw [same] at settled
    exact ⟨(first.run facts).1, Prod.ext rfl same, settled⟩
  · rintro ⟨value, settled, rest⟩
    rw [settled]
    exact rest

/-- To note a site leaves the facts as they are. -/
theorem settled_visit {site : SiteId} {next : Unit → EscapeRule α} :
    Settled facts (visit site >>= next) result ↔ Settled facts (next ()) result :=
  Iff.rfl

theorem settled_hold {holder : Loc} {held : List Loc}
    (settled : Settled facts (hold holder held) ()) {loc : Loc} (member : loc ∈ held) :
    loc ∈ facts.heldBy holder := by
  have same : facts.addHolds holder held = facts := congrArg Prod.snd settled
  rw [EscapeFacts.mem_heldBy, ← same, EscapeFacts.mem_addHolds]
  exact .inr ⟨loc, member, rfl⟩

theorem settled_escape {locs : List Loc} {reason : EscapeReason}
    (settled : Settled facts (escape locs reason) ()) {loc : Loc} (member : loc ∈ locs) :
    facts.Escapes loc := by
  have same : facts.escape locs reason = facts := congrArg Prod.snd settled
  rw [← same]
  exact EscapeFacts.escapes_escape member reason

theorem settled_forM {items : List α} {rule : α → EscapeRule Unit}
    [∀ item, Grows (rule item)] (settled : Settled facts (items.forM rule) ()) {item : α}
    (member : item ∈ items) : Settled facts (rule item) () := by
  induction items with
  | nil => cases member
  | cons head items inductionHypothesis =>
      obtain ⟨_, here, rest⟩ := settled_bind.mp
        (show Settled facts (rule head >>= fun _ => items.forM rule) () from settled)
      rcases List.mem_cons.mp member with rfl | later
      · exact here
      · exact inductionHypothesis rest later

end EscapeRule

open EscapeRule

/-! ### Every rule grows the facts -/

namespace EscapeScope

variable (scope : EscapeScope)

instance (callee : String) (param : Nat) (locs : List Loc) :
    Grows (scope.retain callee param locs) := by
  unfold retain
  infer_instance

mutual

instance placeAddrs_grows : ∀ place : Place, Grows (scope.placeAddrs place)
  | .var name => by
      rw [placeAddrs]
      infer_instance
  | .field base name => by
      have := placeAddrs_grows base
      rw [placeAddrs]
      infer_instance
  | .deref pointer => by
      have := addrs_grows pointer
      rw [placeAddrs]
      infer_instance

instance addrs_grows : ∀ expr : Expr, Grows (scope.addrs expr)
  | .lit _ | .nil | .var _ => by
      rw [addrs]
      infer_instance
  | .field value _ | .deref value | .new value _ | .makeSlice _ _ value | .len value
  | .cap value | .reslice value _ _ | .boxed _ value | .isNil value => by
      have := addrs_grows value
      rw [addrs]
      infer_instance
  | .addrOf place => by
      have := placeAddrs_grows place
      rw [addrs]
      infer_instance
  | .composite _ fields => by
      have := fieldsAddrs_grows fields
      rw [addrs]
      infer_instance
  | .sliceLit elems _ => by
      have := storeOutside_grows elems
      rw [addrs]
      infer_instance
  | .mapLit entries => by
      have := storeEntries_grows entries
      rw [addrs]
      infer_instance
  | .index base index => by
      have := addrs_grows base
      have := addrs_grows index
      rw [addrs]
      infer_instance
  | .lookup base key default => by
      have := addrs_grows base
      have := addrs_grows key
      have := addrs_grows default
      rw [addrs]
      infer_instance
  | .call callee args => by
      have := passArgs_grows callee 0 args
      rw [addrs]
      infer_instance

instance fieldsAddrs_grows :
    ∀ fields : List (String × Expr), Grows (scope.fieldsAddrs fields)
  | [] => by
      rw [fieldsAddrs]
      infer_instance
  | (_, value) :: fields => by
      have := addrs_grows value
      have := fieldsAddrs_grows fields
      rw [fieldsAddrs]
      infer_instance

instance storeOutside_grows : ∀ values : List Expr, Grows (scope.storeOutside values)
  | [] => by
      rw [storeOutside]
      infer_instance
  | value :: values => by
      have := addrs_grows value
      have := storeOutside_grows values
      rw [storeOutside]
      infer_instance

instance storeEntries_grows :
    ∀ entries : List (Expr × Expr), Grows (scope.storeEntries entries)
  | [] => by
      rw [storeEntries]
      infer_instance
  | (key, value) :: entries => by
      have := addrs_grows key
      have := addrs_grows value
      have := storeEntries_grows entries
      rw [storeEntries]
      infer_instance

instance passArgs_grows (callee : String) :
    ∀ (param : Nat) (args : List Expr), Grows (scope.passArgs callee param args)
  | _, [] => by
      rw [passArgs]
      infer_instance
  | param, arg :: args => by
      have := addrs_grows arg
      have := passArgs_grows callee (param + 1) args
      rw [passArgs]
      infer_instance

end

instance statement_grows (stmt : Stmt) : Grows (scope.statement stmt) := by
  unfold statement
  cases stmt with
  | declare decl | ret value =>
      dsimp only
      split <;> infer_instance
  | assign target value | setField target name value =>
      dsimp only
      refine @grows_bind _ _ _ _ inferInstance ?_
      intro locs
      split <;> infer_instance
  | store pointer value | setIndex target index value | setKey target key value
  | append target values | call callee args => infer_instance

instance body_grows : ∀ (scope : EscapeScope) (stmts : List Stmt), Grows (scope.body stmts)
  | scope, [] => by
      rw [body]
      infer_instance
  | scope, stmt :: stmts => by
      have := body_grows (scope.afterStatement stmt) stmts
      rw [body]
      infer_instance

end EscapeScope

instance FunctionDef.holdParams_grows (function : FunctionDef) :
    ∀ (index : Nat) (params : List Param), Grows (function.holdParams index params)
  | _, [] => by
      rw [holdParams]
      infer_instance
  | index, param :: params => by
      have := holdParams_grows function (index + 1) params
      rw [holdParams]
      infer_instance

instance (function : FunctionDef) : Grows function.escapeResult := by
  unfold FunctionDef.escapeResult
  split <;> infer_instance

instance (function : FunctionDef) (mode : EscapeMode) (known : EscapeFacts) :
    Grows (function.escapeRules mode known) := by
  unfold FunctionDef.escapeRules
  infer_instance

instance (mode : EscapeMode) (known : EscapeFacts) (decl : VarDecl) :
    Grows (Program.escapeGlobal mode known decl) := by
  unfold Program.escapeGlobal
  split <;> infer_instance

instance : Grows Program.escapeHeld := by
  unfold Program.escapeHeld
  infer_instance

instance (program : Program) (mode : EscapeMode) (known : EscapeFacts) :
    Grows (program.escapeRules mode known) := by
  unfold Program.escapeRules
  infer_instance

/-! ### What settled rules say -/

namespace EscapeScope

variable {facts : EscapeFacts} {scope : EscapeScope} {value : Expr}

/-- A local holds what it is initialised with. -/
theorem settled_declare {decl : VarDecl}
    (settled : Settled facts (scope.statement (.declare decl)) ())
    (initial : decl.init = some value) :
    ∃ locs, Settled facts (scope.addrs value) locs ∧
      Settled facts (hold (.site (decl.siteId scope.function)) locs) () := by
  rw [statement, settled_visit] at settled
  simp only [initial] at settled
  exact settled_bind.mp settled

/-- A local holds what is assigned to it; anything else that is assigned escapes. -/
theorem settled_assign {target : String}
    (settled : Settled facts (scope.statement (.assign target value)) ()) :
    ∃ locs, Settled facts (scope.addrs value) locs ∧
      match scope.site? target with
      | some site => Settled facts (hold site locs) ()
      | none => Settled facts (escape locs .storedOutside) () := by
  rw [statement] at settled
  cases named : scope.site? target with
  | some site =>
      simp only [named] at settled
      exact settled_bind.mp settled
  | none =>
      simp only [named] at settled
      exact settled_bind.mp settled

/-- A local composite holds what its fields are given; what is given to another field escapes. -/
theorem settled_setField {target : Place} {name : String}
    (settled : Settled facts (scope.statement (.setField target name value)) ()) :
    ∃ locs, Settled facts (scope.addrs value) locs ∧
      match scope.inlineLocal? target with
      | some site => Settled facts (hold site locs) ()
      | none => (∃ places, Settled facts (scope.placeAddrs target) places) ∧
          Settled facts (escape locs .storedOutside) () := by
  rw [statement] at settled
  cases inline : scope.inlineLocal? target with
  | some site =>
      simp only [inline] at settled
      exact settled_bind.mp settled
  | none =>
      simp only [inline] at settled
      obtain ⟨locs, ofValue, rest⟩ := settled_bind.mp settled
      obtain ⟨places, ofTarget, escapes⟩ := settled_bind.mp rest
      exact ⟨locs, ofValue, ⟨places, ofTarget⟩, escapes⟩

end EscapeScope

namespace FunctionDef

variable {function : FunctionDef}

/-- A parameter holds its content, and so does the content. -/
theorem settled_holdParams {facts : EscapeFacts} {index : Nat} {param : Param}
    {params : List Param}
    (settled : Settled facts (function.holdParams index (param :: params)) ()) :
    .content function.name index ∈ facts.heldBy (.site (defaultSite function.name param.name)) ∧
      .content function.name index ∈ facts.heldBy (.content function.name index) ∧
      Settled facts (function.holdParams (index + 1) params) () := by
  rw [holdParams, settled_visit, settled_bind] at settled
  obtain ⟨_, slot, rest⟩ := settled
  obtain ⟨_, content, rest⟩ := settled_bind.mp rest
  have single := List.mem_singleton.mpr (rfl : Loc.content function.name index = _)
  exact ⟨settled_hold slot single, settled_hold content single, rest⟩

/-- What a named result holds escapes. -/
theorem settled_escapeResult {facts : EscapeFacts}
    (settled : Settled facts function.escapeResult ()) {name : String}
    (named : function.namedResult = some name) {held : Loc}
    (member : held ∈ facts.heldBy (.site (defaultSite function.name name))) :
    facts.Escapes held := by
  unfold escapeResult at settled
  rw [named] at settled
  rw [settled_visit] at settled
  simp only [settled_bind, settled_get, exists_eq_left'] at settled
  exact settled_escape settled member

end FunctionDef

theorem EscapeScope.function_afterStatement (scope : EscapeScope) (stmt : Stmt) :
    (scope.afterStatement stmt).function = scope.function := by
  unfold EscapeScope.afterStatement
  split <;> rfl

end ReferenceSemantics
