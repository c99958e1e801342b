import ReferenceSemantics.Proofs.Escape.Findings
import ReferenceSemantics.Proofs.Escape.Settled

set_option autoImplicit false

/-!
The facts of the classification are closed under the rules.

Where the rules find nothing new, what they give for an expression includes all that it may carry,
and every finding that they call for is there.
-/

namespace ReferenceSemantics

open EscapeRule Findings

namespace EscapeFacts

variable {facts : EscapeFacts} {locs : List Loc} {carried : Set Loc}

theorem heldBy_subset (within : carried ⊆ {loc | loc ∈ locs}) :
    facts.findings.heldBy carried ⊆ {loc | loc ∈ facts.contents locs} := by
  rintro held ⟨loc, member, holds⟩
  exact mem_contents.mpr ⟨loc, within member, mem_heldBy.mpr holds⟩

theorem closure_subset (within : carried ⊆ {loc | loc ∈ locs}) :
    facts.findings.closure carried ⊆ {loc | loc ∈ facts.closure locs} := by
  intro loc reached
  induction reached with
  | start member => exact mem_closure_of_mem (within member)
  | step _ holds inductionHypothesis =>
      exact mem_closure_of_heldBy inductionHypothesis (mem_heldBy.mpr holds)

end EscapeFacts

namespace EscapeScope

open EscapeFacts

variable {facts : EscapeFacts} {scope : EscapeScope}

theorem settled_retain {callee : String} {param : Nat} {locs : List Loc} (known : scope.known = facts)
    (settled : Settled facts (scope.retain callee param locs) ())
    (retained : facts.findings.Retains scope.mode callee param) :
    ∀ loc ∈ locs, facts.Escapes loc := by
  have retains : scope.retains callee param := by
    unfold retains
    cases mode : scope.mode with
    | conservative => rfl
    | interprocedural =>
        obtain ⟨reason, member⟩ := retained.resolve_left (by simp [mode])
        exact List.any_eq_true.mpr ⟨_, known ▸ member, beq_self_eq_true _⟩
  rw [retain, if_pos retains] at settled
  exact fun loc => settled_escape settled

/-- A settled rule for an expression gives all that it may carry, and misses no finding. -/
structure Complete (facts : EscapeFacts) (scope : EscapeScope) (carried : Set Loc)
    (locs : List Loc) (parts : List Expr) : Prop where
  carried : carried ⊆ {loc | loc ∈ locs}
  covers : facts.findings.Covers scope.site? scope.mode parts

variable {locs : List Loc}

mutual

theorem settled_placeAddrs (known : scope.known = facts) :
    ∀ (place : Place) {locs : List Loc}, Settled facts (scope.placeAddrs place) locs →
      Complete facts scope (designates facts.findings scope.site? place) locs place.parts
  | .var name, locs, settled => by
      rw [placeAddrs, settled_pure] at settled
      rw [designates, Place.parts]
      refine ⟨fun loc designated => ?_, .nil⟩
      exact settled ▸ Option.mem_toList.mpr designated
  | .field base _, locs, settled => by
      simp only [placeAddrs, settled_bind, settled_get, settled_pure, exists_eq_left'] at settled
      obtain ⟨inner, settled, rfl⟩ := settled
      have ofBase := settled_placeAddrs known base settled
      rw [designates, Place.parts]
      refine ⟨?_, ofBase.covers⟩
      rintro loc (here | held)
      · exact List.mem_append_left _ (ofBase.carried here)
      · exact List.mem_append_right _ (heldBy_subset ofBase.carried held)
  | .deref pointer, locs, settled => by
      rw [placeAddrs] at settled
      rw [designates, Place.parts]
      exact settled_addrs known pointer settled

theorem settled_addrs (known : scope.known = facts) :
    ∀ (expr : Expr) {locs : List Loc}, Settled facts (scope.addrs expr) locs →
      Complete facts scope (carries facts.findings scope.site? expr) locs expr.parts
  | .lit _, locs, settled | .nil, locs, settled => by
      rw [carries, Expr.parts]
      exact ⟨Set.empty_subset _, .cons nofun .nil⟩
  | .var name, locs, settled => by
      simp only [addrs, settled_bind, settled_get, settled_pure, exists_eq_left'] at settled
      rw [carries, Expr.parts]
      refine ⟨?_, .cons nofun .nil⟩
      rintro held ⟨holder, designated, holds⟩
      rw [designated] at settled
      exact settled ▸ mem_heldBy.mpr holds
  | .field base _, locs, settled => by
      simp only [addrs, settled_bind, settled_get, settled_pure, exists_eq_left'] at settled
      obtain ⟨inner, settled, rfl⟩ := settled
      have ofBase := settled_addrs known base settled
      rw [carries, Expr.parts]
      refine ⟨?_, .cons nofun ofBase.covers⟩
      rintro loc (here | held)
      · exact List.mem_append_left _ (ofBase.carried here)
      · exact List.mem_append_right _ (heldBy_subset ofBase.carried held)
  | .deref pointer, locs, settled => by
      simp only [addrs, settled_bind, settled_get, settled_pure, exists_eq_left'] at settled
      obtain ⟨inner, settled, rfl⟩ := settled
      have ofPointer := settled_addrs known pointer settled
      rw [carries, Expr.parts]
      exact ⟨heldBy_subset ofPointer.carried, .cons nofun ofPointer.covers⟩
  | .addrOf place, locs, settled => by
      rw [addrs] at settled
      have ofPlace := settled_placeAddrs known place settled
      rw [carries, Expr.parts]
      exact ⟨ofPlace.carried, .cons nofun ofPlace.covers⟩
  | .new init site, locs, settled => by
      rw [addrs, settled_visit, settled_bind] at settled
      obtain ⟨inner, settled, rest⟩ := settled
      obtain ⟨_, holds, result⟩ := settled_bind.mp rest
      have ofInit := settled_addrs known init settled
      rw [carries, Expr.parts]
      refine ⟨?_, .cons ?_ ofInit.covers⟩
      · rintro loc rfl
        exact settled_pure.mp result ▸ List.mem_singleton_self _
      · intro finding required
        cases required with
        | new carried => exact mem_heldBy.mp (settled_hold holds (ofInit.carried carried))
  | .composite _ fields, locs, settled => by
      rw [addrs] at settled
      have ofFields := settled_fieldsAddrs known fields settled
      rw [carries, Expr.parts]
      exact ⟨ofFields.carried, .cons nofun ofFields.covers⟩
  | .sliceLit elems _, locs, settled => by
      rw [addrs, settled_bind] at settled
      obtain ⟨_, settled, _⟩ := settled
      obtain ⟨escapes, covers⟩ := settled_storeOutside known elems settled
      rw [carries, Expr.parts]
      refine ⟨Set.empty_subset _, .cons ?_ covers⟩
      intro finding required
      cases required with
      | sliceLit member carried => exact escapes _ member _ carried
  | .makeSlice _ _ zero, locs, settled => by
      rw [addrs, settled_bind] at settled
      obtain ⟨inner, settled, rest⟩ := settled
      obtain ⟨_, escapes, _⟩ := settled_bind.mp rest
      have ofZero := settled_addrs known zero settled
      rw [carries, Expr.parts]
      refine ⟨Set.empty_subset _, .cons ?_ ofZero.covers⟩
      intro finding required
      cases required with
      | makeSlice carried => exact settled_escape escapes (ofZero.carried carried)
  | .mapLit entries, locs, settled => by
      rw [addrs, settled_bind] at settled
      obtain ⟨_, settled, _⟩ := settled
      obtain ⟨escapes, covers⟩ := settled_storeEntries known entries settled
      rw [carries, Expr.parts]
      refine ⟨Set.empty_subset _, .cons ?_ covers⟩
      intro finding required
      cases required with
      | mapLit member carried => exact escapes _ member _ carried
  | .index base index, locs, settled => by
      simp only [addrs, settled_bind] at settled
      obtain ⟨_, settled, _, settledIndex, _⟩ := settled
      have ofBase := settled_addrs known base settled
      have ofIndex := settled_addrs known index settledIndex
      rw [carries, Expr.parts]
      exact ⟨Set.empty_subset _, .cons nofun (ofBase.covers.append ofIndex.covers)⟩
  | .lookup base key default, locs, settled => by
      simp only [addrs, settled_bind] at settled
      obtain ⟨_, settled, _, settledKey, settledDefault⟩ := settled
      have ofBase := settled_addrs known base settled
      have ofKey := settled_addrs known key settledKey
      have ofDefault := settled_addrs known default settledDefault
      rw [carries, Expr.parts]
      exact ⟨ofDefault.carried,
        .cons nofun ((ofBase.covers.append ofKey.covers).append ofDefault.covers)⟩
  | .len value, locs, settled | .cap value, locs, settled | .reslice value _ _, locs, settled
  | .isNil value, locs, settled => by
      rw [addrs, settled_bind] at settled
      obtain ⟨_, settled, _⟩ := settled
      rw [carries, Expr.parts]
      exact ⟨Set.empty_subset _, .cons nofun (settled_addrs known value settled).covers⟩
  | .boxed _ value, locs, settled => by
      rw [addrs] at settled
      have ofValue := settled_addrs known value settled
      rw [carries, Expr.parts]
      exact ⟨ofValue.carried, .cons nofun ofValue.covers⟩
  | .call callee args, locs, settled => by
      simp only [addrs, settled_bind, settled_get, settled_pure, exists_eq_left'] at settled
      obtain ⟨passed, settled, rfl⟩ := settled
      obtain ⟨ofArgs, escapes⟩ := settled_passArgs known callee 0 args settled
      rw [carries, Expr.parts]
      refine ⟨closure_subset ofArgs.carried, .cons ?_ ofArgs.covers⟩
      intro finding required
      cases required with
      | call passed retained carried =>
          exact escapes _ _ passed (by simpa using retained) _ carried

theorem settled_fieldsAddrs (known : scope.known = facts) :
    ∀ (fields : List (String × Expr)) {locs : List Loc},
      Settled facts (scope.fieldsAddrs fields) locs →
        Complete facts scope (carriedByFields facts.findings scope.site? fields) locs
          (partsOfFields fields)
  | [], locs, settled => by
      rw [carriedByFields, partsOfFields]
      exact ⟨Set.empty_subset _, .nil⟩
  | (_, value) :: fields, locs, settled => by
      simp only [fieldsAddrs, settled_bind, settled_pure] at settled
      obtain ⟨inner, settled, others, settledFields, rfl⟩ := settled
      have ofValue := settled_addrs known value settled
      have ofFields := settled_fieldsAddrs known fields settledFields
      rw [carriedByFields, partsOfFields]
      refine ⟨?_, ofValue.covers.append ofFields.covers⟩
      rintro loc (here | later)
      · exact List.mem_append_left _ (ofValue.carried here)
      · exact List.mem_append_right _ (ofFields.carried later)

theorem settled_storeOutside (known : scope.known = facts) :
    ∀ (values : List Expr), Settled facts (scope.storeOutside values) () →
      (∀ value ∈ values, ∀ loc ∈ carries facts.findings scope.site? value, facts.Escapes loc) ∧
        facts.findings.Covers scope.site? scope.mode (partsOfExprs values)
  | [], settled => by
      rw [partsOfExprs]
      exact ⟨nofun, .nil⟩
  | value :: values, settled => by
      simp only [storeOutside, settled_bind] at settled
      obtain ⟨inner, settled, _, escapes, settledValues⟩ := settled
      have ofValue := settled_addrs known value settled
      obtain ⟨rest, covers⟩ := settled_storeOutside known values settledValues
      rw [partsOfExprs]
      refine ⟨List.forall_mem_cons.mpr ⟨fun loc carried => ?_, rest⟩, ofValue.covers.append covers⟩
      exact settled_escape escapes (ofValue.carried carried)

theorem settled_storeEntries (known : scope.known = facts) :
    ∀ (entries : List (Expr × Expr)), Settled facts (scope.storeEntries entries) () →
      (∀ entry ∈ entries, ∀ loc ∈ carries facts.findings scope.site? entry.1 ∪
          carries facts.findings scope.site? entry.2, facts.Escapes loc) ∧
        facts.findings.Covers scope.site? scope.mode (partsOfEntries entries)
  | [], settled => by
      rw [partsOfEntries]
      exact ⟨nofun, .nil⟩
  | (key, value) :: entries, settled => by
      simp only [storeEntries, settled_bind] at settled
      obtain ⟨inKey, settledKey, inValue, settledValue, _, escapes, settledEntries⟩ := settled
      have ofKey := settled_addrs known key settledKey
      have ofValue := settled_addrs known value settledValue
      obtain ⟨rest, covers⟩ := settled_storeEntries known entries settledEntries
      rw [partsOfEntries]
      refine ⟨List.forall_mem_cons.mpr ⟨?_, rest⟩,
        (ofKey.covers.append ofValue.covers).append covers⟩
      rintro loc (carried | carried)
      · exact settled_escape escapes (List.mem_append_left _ (ofKey.carried carried))
      · exact settled_escape escapes (List.mem_append_right _ (ofValue.carried carried))

theorem settled_passArgs (known : scope.known = facts) (callee : String) :
    ∀ (param : Nat) (args : List Expr) {locs : List Loc},
      Settled facts (scope.passArgs callee param args) locs →
        Complete facts scope (carriedByAny facts.findings scope.site? args) locs
            (partsOfExprs args) ∧
          ∀ (place : Nat) (arg : Expr), args[place]? = some arg →
            facts.findings.Retains scope.mode callee (param + place) →
              ∀ loc ∈ carries facts.findings scope.site? arg, facts.Escapes loc
  | param, [], locs, settled => by
      rw [carriedByAny, partsOfExprs]
      exact ⟨⟨Set.empty_subset _, .nil⟩, by simp⟩
  | param, arg :: args, locs, settled => by
      simp only [passArgs, settled_bind, settled_pure] at settled
      obtain ⟨inner, settled, _, retain, others, settledArgs, rfl⟩ := settled
      have ofArg := settled_addrs known arg settled
      obtain ⟨ofArgs, escapes⟩ := settled_passArgs known callee (param + 1) args settledArgs
      rw [carriedByAny, partsOfExprs]
      refine ⟨⟨?_, ofArg.covers.append ofArgs.covers⟩, ?_⟩
      · rintro loc (here | later)
        · exact List.mem_append_left _ (ofArg.carried here)
        · exact List.mem_append_right _ (ofArgs.carried later)
      · intro place other passed retained loc carried
        cases place with
        | zero =>
            obtain rfl : arg = other := by simpa using passed
            exact settled_retain known retain retained loc (ofArg.carried carried)
        | succ place =>
            rw [← Nat.succ_add_eq_add_succ] at retained
            exact escapes place other (by simpa using passed) retained loc carried

end

theorem settled_covers (known : scope.known = facts) {stmt : Stmt}
    (settled : Settled facts (scope.statement stmt) ()) :
    facts.findings.Covers scope.site? scope.mode stmt.parts := by
  cases stmt with
  | declare decl =>
      rw [Stmt.parts, VarDecl.parts]
      cases initial : decl.init with
      | none => exact .nil
      | some init =>
          obtain ⟨_, ofInit, _⟩ := settled_declare settled initial
          exact (settled_addrs known init ofInit).covers
  | assign target value =>
      obtain ⟨_, ofValue, _⟩ := settled_assign settled
      exact (settled_addrs known value ofValue).covers
  | setField target name value =>
      obtain ⟨_, ofValue, rest⟩ := settled_setField settled
      have inValue := (settled_addrs known value ofValue).covers
      rw [Stmt.parts]
      split at rest
      next inline =>
        cases target with
        | var _ => rwa [Place.parts]
        | field _ _ => cases inline
        | deref _ => cases inline
      next =>
        obtain ⟨⟨_, ofTarget⟩, _⟩ := rest
        exact (settled_placeAddrs known target ofTarget).covers.append inValue
  | store pointer value =>
      simp only [statement, settled_bind] at settled
      obtain ⟨_, ofPointer, _, ofValue, _⟩ := settled
      exact (settled_addrs known pointer ofPointer).covers.append
        (settled_addrs known value ofValue).covers
  | setIndex target index value =>
      simp only [statement, settled_bind] at settled
      obtain ⟨_, ofTarget, _, ofIndex, _, ofValue, _⟩ := settled
      exact ((settled_placeAddrs known target ofTarget).covers.append
        (settled_addrs known index ofIndex).covers).append (settled_addrs known value ofValue).covers
  | setKey target key value =>
      simp only [statement, settled_bind] at settled
      obtain ⟨_, ofTarget, _, ofKey, _, ofValue, _⟩ := settled
      exact ((settled_placeAddrs known target ofTarget).covers.append
        (settled_addrs known key ofKey).covers).append (settled_addrs known value ofValue).covers
  | append target values =>
      simp only [statement, settled_bind] at settled
      obtain ⟨_, ofTarget, ofValues⟩ := settled
      exact (settled_placeAddrs known target ofTarget).covers.append
        (settled_storeOutside known values ofValues).2
  | call callee args =>
      simp only [statement, settled_bind] at settled
      obtain ⟨_, ofArgs, _⟩ := settled
      exact (settled_passArgs known callee 0 args ofArgs).1.covers
  | ret value =>
      rw [Stmt.parts]
      cases value with
      | none => exact .nil
      | some value =>
          simp only [statement, settled_bind] at settled
          obtain ⟨_, ofValue, _⟩ := settled
          exact (settled_addrs known value ofValue).covers

/-- A settled statement misses no finding. -/
theorem settled_statement (known : scope.known = facts) {stmt : Stmt}
    (settled : Settled facts (scope.statement stmt) ()) {finding : Finding}
    (required : scope.Requires facts.findings stmt finding) : finding ∈ facts.findings := by
  cases required with
  | part inside required => exact settled_covers known settled _ inside _ required
  | @declare _ init _ initial carried =>
      obtain ⟨_, ofInit, holds⟩ := settled_declare settled initial
      exact mem_heldBy.mp (settled_hold holds ((settled_addrs known init ofInit).carried carried))
  | @assignLocal _ value _ _ designated carried =>
      obtain ⟨_, ofValue, rest⟩ := settled_assign settled
      rw [designated] at rest
      exact mem_heldBy.mp (settled_hold rest ((settled_addrs known value ofValue).carried carried))
  | @assignGlobal _ value _ absent carried =>
      obtain ⟨_, ofValue, rest⟩ := settled_assign settled
      rw [absent] at rest
      exact settled_escape rest ((settled_addrs known value ofValue).carried carried)
  | @setFieldInline _ _ value _ _ inline carried =>
      obtain ⟨_, ofValue, rest⟩ := settled_setField settled
      rw [inline] at rest
      exact mem_heldBy.mp (settled_hold rest ((settled_addrs known value ofValue).carried carried))
  | @setFieldOutside _ _ value _ outside carried =>
      obtain ⟨_, ofValue, rest⟩ := settled_setField settled
      rw [outside] at rest
      exact settled_escape rest.2 ((settled_addrs known value ofValue).carried carried)
  | @store _ value _ carried =>
      simp only [statement, settled_bind] at settled
      obtain ⟨_, _, _, ofValue, escapes⟩ := settled
      exact settled_escape escapes ((settled_addrs known value ofValue).carried carried)
  | @setIndex _ _ value _ carried =>
      simp only [statement, settled_bind] at settled
      obtain ⟨_, _, _, _, _, ofValue, escapes⟩ := settled
      exact settled_escape escapes ((settled_addrs known value ofValue).carried carried)
  | @setKey _ key value _ carried =>
      simp only [statement, settled_bind] at settled
      obtain ⟨_, _, _, ofKey, _, ofValue, escapes⟩ := settled
      rcases carried with carried | carried
      · exact settled_escape escapes
          (List.mem_append_left _ ((settled_addrs known key ofKey).carried carried))
      · exact settled_escape escapes
          (List.mem_append_right _ ((settled_addrs known value ofValue).carried carried))
  | @append _ values value _ member carried =>
      simp only [statement, settled_bind] at settled
      obtain ⟨_, _, ofValues⟩ := settled
      exact (settled_storeOutside known values ofValues).1 value member _ carried
  | @call callee args _ required =>
      simp only [statement, settled_bind] at settled
      obtain ⟨_, ofArgs, _⟩ := settled
      cases required with
      | call passed retained carried =>
          exact (settled_passArgs known callee 0 args ofArgs).2 _ _ passed (by simpa using retained)
            _ carried
  | @ret value _ carried =>
      simp only [statement, settled_bind] at settled
      obtain ⟨_, ofValue, escapes⟩ := settled
      exact settled_escape escapes ((settled_addrs known value ofValue).carried carried)

/-- Every statement of a settled body misses no finding in its scope. -/
theorem settled_body {before after : List Stmt} {stmt : Stmt}
    (settled : Settled facts (scope.body (before ++ stmt :: after)) ()) :
    Settled facts ((before.foldl afterStatement scope).statement stmt) () := by
  induction before generalizing scope with
  | nil =>
      rw [List.nil_append, body, settled_bind] at settled
      obtain ⟨_, here, _⟩ := settled
      exact here
  | cons first before inductionHypothesis =>
      rw [List.cons_append, body, settled_bind] at settled
      obtain ⟨_, _, rest⟩ := settled
      exact inductionHypothesis rest

end EscapeScope

namespace FunctionDef

open EscapeFacts

theorem holds_of_holdParams {function : FunctionDef} {facts : EscapeFacts} :
    ∀ {params : List Param} {start : Nat}, Settled facts (function.holdParams start params) () →
      ∀ {index : Nat} {param : Param}, params[index]? = some param →
        (.site (defaultSite function.name param.name), .content function.name (start + index)) ∈
            facts.holds ∧
          (.content function.name (start + index), .content function.name (start + index)) ∈
            facts.holds
  | [], _, _, _, _, found => by simp at found
  | first :: params, start, settled, index, param, found => by
      obtain ⟨slot, content, rest⟩ := settled_holdParams settled
      cases index with
      | zero =>
          obtain rfl : first = param := by simpa using found
          exact ⟨mem_heldBy.mp slot, mem_heldBy.mp content⟩
      | succ index =>
          rw [← Nat.succ_add_eq_add_succ]
          exact holds_of_holdParams rest (by simpa using found)

end FunctionDef

namespace Program

open EscapeFacts

/-- Where the rules of a program find nothing new, nothing that they call for is missing. -/
theorem closed_of_settled {program : Program} {mode : EscapeMode} {facts : EscapeFacts}
    (settled : Settled facts (program.escapeRules mode facts) ()) :
    program.Closed mode facts.findings := by
  obtain ⟨_, globals, rest⟩ := settled_bind.mp settled
  obtain ⟨_, functions, held⟩ := settled_bind.mp rest
  have global {decl : VarDecl} {init : Expr} (member : decl ∈ program.globals)
      (initial : decl.init = some init) :
      ∃ locs, EscapeScope.Complete facts ⟨mode, facts, globalsFrame, []⟩
          (carries facts.findings (fun _ => none) init) locs init.parts ∧
        Settled facts (escape locs .storedOutside) () := by
    have rules := settled_forM globals member
    rw [escapeGlobal, initial] at rules
    obtain ⟨locs, ofInit, escapes⟩ := settled_bind.mp rules
    exact ⟨locs, EscapeScope.settled_addrs rfl init ofInit, escapes⟩
  intro finding entailed
  cases entailed with
  | globalInit member initial carried =>
      obtain ⟨locs, ofInit, escapes⟩ := global member initial
      exact settled_escape escapes (ofInit.carried carried)
  | @globalPart decl part _ member inside required =>
      cases initial : decl.init with
      | none => simp [VarDecl.parts, initial] at inside
      | some init =>
          obtain ⟨locs, ofInit, -⟩ := global member initial
          exact ofInit.covers part (by simpa [VarDecl.parts, initial] using inside) _ required
  | param member found =>
      obtain ⟨_, ofParams, _⟩ := settled_bind.mp (settled_forM functions member)
      have holds := FunctionDef.holds_of_holdParams ofParams found
      rw [Nat.zero_add] at holds
      exact holds.1
  | @content function index member bound =>
      obtain ⟨_, ofParams, _⟩ := settled_bind.mp (settled_forM functions member)
      have found : function.params[index]? = some function.params[index] :=
        List.getElem?_eq_getElem bound
      have holds := FunctionDef.holds_of_holdParams ofParams found
      rw [Nat.zero_add] at holds
      exact holds.2
  | result member named holds =>
      obtain ⟨_, _, rest⟩ := settled_bind.mp (settled_forM functions member)
      obtain ⟨_, ofResult, _⟩ := settled_bind.mp rest
      exact FunctionDef.settled_escapeResult ofResult named (mem_heldBy.mpr holds)
  | @statement function before after stmt _ member split required =>
      obtain ⟨_, _, rest⟩ := settled_bind.mp (settled_forM functions member)
      obtain ⟨_, _, ofBody⟩ := settled_bind.mp rest
      rw [split] at ofBody
      have here := EscapeScope.settled_body ofBody
      rw [function.foldl_escapeScope] at here
      exact EscapeScope.settled_statement rfl here (required.knowing facts)
  | held reached =>
      rw [escapeHeld] at held
      simp only [settled_bind, settled_get, exists_eq_left'] at held
      refine settled_escape held (closure_subset ?_ reached)
      rintro loc ⟨reason, member⟩
      exact List.mem_map.mpr ⟨_, member, rfl⟩
  | leak escapes => exact escapes

end Program

end ReferenceSemantics
