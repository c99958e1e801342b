import ReferenceSemantics.Escape.Classify
import ReferenceSemantics.Proofs.Escape.Findings

set_option autoImplicit false

/-!
The classification finds nothing that a closed set does not have.

Applied to facts inside of a closed set, every rule stays inside, and gives for an expression only
what it may carry by that set.
-/

namespace ReferenceSemantics

open EscapeRule Findings

/-- What was collected is among the findings. -/
structure EscapeFacts.Inside (facts : EscapeFacts) (known : Findings) : Prop where
  holds : ∀ {holder held : Loc}, (holder, held) ∈ facts.holds → .holds holder held ∈ known
  escapes : ∀ {loc : Loc}, facts.Escapes loc → .escapes loc ∈ known

namespace EscapeFacts.Inside

theorem empty (known : Findings) : Inside .empty known :=
  ⟨fun member => absurd member List.not_mem_nil, fun ⟨_, member⟩ => absurd member List.not_mem_nil⟩

variable {facts : EscapeFacts} {known : Findings} {locs : List Loc} {carried : Set Loc}

theorem contents (inside : facts.Inside known) (within : ∀ loc ∈ locs, loc ∈ carried) :
    ∀ held ∈ facts.contents locs, held ∈ known.heldBy carried := by
  intro held member
  obtain ⟨loc, inLocs, holds⟩ := mem_contents.mp member
  exact ⟨loc, within loc inLocs, inside.holds (mem_heldBy.mp holds)⟩

theorem closure (inside : facts.Inside known) (within : ∀ loc ∈ locs, loc ∈ carried) :
    ∀ loc ∈ facts.closure locs, loc ∈ known.closure carried := by
  intro loc reached
  refine forall_mem_reach (· ∈ known.closure carried) (fun seed waiting _ => ?_) ?_ reached
  · exact .start (within seed waiting)
  · exact fun holder reached held holds _ =>
      Reaches.step reached (inside.holds (mem_heldBy.mp holds))

end EscapeFacts.Inside

namespace EscapeRule

variable {α β : Type} {known : Findings} {post : α → Prop} {posts : β → Prop}

/-- A rule that stays inside of the findings, and what its result is. -/
def Within (known : Findings) (rule : EscapeRule α) (post : α → Prop) : Prop :=
  ∀ facts : EscapeFacts, facts.Inside known →
    (rule.run facts).2.Inside known ∧ post (rule.run facts).1

namespace Within

theorem pure {value : α} (result : post value) : Within known (pure value) post :=
  fun _ inside => ⟨inside, result⟩

theorem get : Within known get (EscapeFacts.Inside · known) :=
  fun _ inside => ⟨inside, inside⟩

theorem bind {first : EscapeRule α} {next : α → EscapeRule β} (start : Within known first post)
    (rest : ∀ value, post value → Within known (next value) posts) :
    Within known (first >>= next) posts := by
  intro facts inside
  obtain ⟨inside, result⟩ := start facts inside
  exact rest _ result _ inside

theorem visit {site : SiteId} {next : Unit → EscapeRule β} (rest : Within known (next ()) posts) :
    Within known (visit site >>= next) posts :=
  rest

theorem hold {holder : Loc} {held : List Loc}
    (all : ∀ loc ∈ held, Finding.holds holder loc ∈ known) :
    Within known (hold holder held) fun _ => True := by
  refine fun facts inside => ⟨⟨fun {_ _} member => ?_, inside.escapes⟩, trivial⟩
  rcases EscapeFacts.mem_addHolds.mp member with old | ⟨loc, new, same⟩
  · exact inside.holds old
  · cases same
    exact all _ new

theorem escape {locs : List Loc} (all : ∀ loc ∈ locs, Finding.escapes loc ∈ known)
    (reason : EscapeReason) : Within known (escape locs reason) fun _ => True := by
  refine fun facts inside => ⟨⟨inside.holds, ?_⟩, trivial⟩
  rintro loc ⟨why, member⟩
  rcases EscapeFacts.mem_escape member with old | new
  · exact inside.escapes ⟨why, old⟩
  · exact all loc new

theorem forM {items : List α} {rule : α → EscapeRule Unit}
    (each : ∀ item ∈ items, Within known (rule item) fun _ => True) :
    Within known (items.forM rule) fun _ => True := by
  induction items with
  | nil => exact .pure trivial
  | cons item items inductionHypothesis =>
      apply Within.bind (each item (List.mem_cons_self ..))
      intro _ _
      apply inductionHypothesis
      intro other member
      exact each other (List.mem_cons_of_mem _ member)

end Within

end EscapeRule

namespace EscapeScope

variable {known : Findings} {scope : EscapeScope}

/-- The parameters that leaked in the rounds before are known to. -/
def LeaksWithin (scope : EscapeScope) (known : Findings) : Prop :=
  ∀ callee param, scope.known.leaks callee param → .leaks callee param ∈ known

theorem retain_within (leaks : scope.LeaksWithin known) {callee : String} {param : Nat}
    {locs : List Loc} (all : known.Retains scope.mode callee param →
      ∀ loc ∈ locs, .escapes loc ∈ known) :
    Within known (scope.retain callee param locs) fun _ => True := by
  unfold retain
  split
  next kept =>
    refine .escape (all ?_) _
    unfold retains at kept
    cases mode : scope.mode with
    | conservative => exact .inl rfl
    | interprocedural => exact .inr (leaks callee param (by simpa [mode] using kept))
  next => exact .pure trivial

mutual

theorem placeAddrs_within (leaks : scope.LeaksWithin known) :
    ∀ place : Place, known.Covers scope.site? scope.mode place.parts →
      Within known (scope.placeAddrs place) fun locs =>
        ∀ loc ∈ locs, loc ∈ designates known scope.site? place
  | .var name, _ => by
      rw [placeAddrs, designates]
      exact .pure fun loc member => Option.mem_toList.mp member
  | .field base _, covers => by
      rw [Place.parts] at covers
      rw [placeAddrs, designates]
      apply Within.bind (placeAddrs_within leaks base covers)
      intro locs within
      apply Within.bind .get
      intro facts inside
      apply Within.pure
      intro loc member
      exact (List.mem_append.mp member).imp (within loc) (inside.contents within loc)
  | .deref pointer, covers => by
      rw [Place.parts] at covers
      rw [placeAddrs, designates]
      exact addrs_within leaks pointer covers

theorem addrs_within (leaks : scope.LeaksWithin known) :
    ∀ expr : Expr, known.Covers scope.site? scope.mode expr.parts →
      Within known (scope.addrs expr) fun locs =>
        ∀ loc ∈ locs, loc ∈ carries known scope.site? expr
  | .lit _, _ | .nil, _ => by
      rw [addrs]
      exact .pure (List.forall_mem_nil _)
  | .var name, _ => by
      rw [addrs, carries]
      apply Within.bind .get
      intro facts inside
      apply Within.pure
      intro held member
      cases designated : scope.site? name with
      | none => simp [designated] at member
      | some holder =>
          rw [designated] at member
          exact ⟨holder, rfl, inside.holds (EscapeFacts.mem_heldBy.mp member)⟩
  | .field base _, covers => by
      rw [Expr.parts] at covers
      rw [addrs, carries]
      apply Within.bind (addrs_within leaks base covers.tail)
      intro locs within
      apply Within.bind .get
      intro facts inside
      apply Within.pure
      intro loc member
      exact (List.mem_append.mp member).imp (within loc) (inside.contents within loc)
  | .deref pointer, covers => by
      rw [Expr.parts] at covers
      rw [addrs, carries]
      apply Within.bind (addrs_within leaks pointer covers.tail)
      intro locs within
      apply Within.bind .get
      intro facts inside
      exact .pure (inside.contents within)
  | .addrOf place, covers => by
      rw [Expr.parts] at covers
      rw [addrs, carries]
      exact placeAddrs_within leaks place covers.tail
  | .new init site, covers => by
      rw [Expr.parts] at covers
      rw [addrs, carries]
      apply Within.visit
      apply Within.bind (addrs_within leaks init covers.tail)
      intro locs within
      apply Within.bind (.hold fun loc member => covers.head _ (.new (within loc member)))
      intro _ _
      exact .pure fun loc member => List.mem_singleton.mp member
  | .composite _ fields, covers => by
      rw [Expr.parts] at covers
      rw [addrs, carries]
      exact fieldsAddrs_within leaks fields covers.tail
  | .sliceLit elems _, covers => by
      rw [Expr.parts] at covers
      rw [addrs]
      apply Within.bind (storeOutside_within leaks elems covers.tail fun elem member loc carried =>
        covers.head _ (.sliceLit member carried))
      exact fun _ _ => .pure (List.forall_mem_nil _)
  | .makeSlice _ _ zero, covers => by
      rw [Expr.parts] at covers
      rw [addrs]
      apply Within.bind (addrs_within leaks zero covers.tail)
      intro locs within
      apply Within.bind (.escape (fun loc member => covers.head _ (.makeSlice (within loc member))) _)
      exact fun _ _ => .pure (List.forall_mem_nil _)
  | .mapLit entries, covers => by
      rw [Expr.parts] at covers
      rw [addrs]
      apply Within.bind (storeEntries_within leaks entries covers.tail
        fun entry member loc carried => covers.head _ (.mapLit member carried))
      exact fun _ _ => .pure (List.forall_mem_nil _)
  | .index base index, covers => by
      rw [Expr.parts] at covers
      rw [addrs]
      apply Within.bind (addrs_within leaks base covers.tail.left)
      intro _ _
      apply Within.bind (addrs_within leaks index covers.tail.right)
      exact fun _ _ => .pure (List.forall_mem_nil _)
  | .lookup base key default, covers => by
      rw [Expr.parts] at covers
      rw [addrs, carries]
      apply Within.bind (addrs_within leaks base covers.tail.left.left)
      intro _ _
      apply Within.bind (addrs_within leaks key covers.tail.left.right)
      exact fun _ _ => addrs_within leaks default covers.tail.right
  | .len value, covers | .cap value, covers | .reslice value _ _, covers | .isNil value, covers => by
      rw [Expr.parts] at covers
      rw [addrs]
      apply Within.bind (addrs_within leaks value covers.tail)
      exact fun _ _ => .pure (List.forall_mem_nil _)
  | .boxed _ value, covers => by
      rw [Expr.parts] at covers
      rw [addrs, carries]
      exact addrs_within leaks value covers.tail
  | .call callee args, covers => by
      rw [Expr.parts] at covers
      rw [addrs, carries]
      apply Within.bind (passArgs_within leaks callee 0 args covers.tail ?_)
      · intro locs within
        apply Within.bind .get
        intro facts inside
        exact .pure (inside.closure within)
      · intro place arg passed retained loc carried
        exact covers.head _ (.call passed (by simpa using retained) carried)

theorem fieldsAddrs_within (leaks : scope.LeaksWithin known) :
    ∀ fields : List (String × Expr), known.Covers scope.site? scope.mode (partsOfFields fields) →
      Within known (scope.fieldsAddrs fields) fun locs =>
        ∀ loc ∈ locs, loc ∈ carriedByFields known scope.site? fields
  | [], _ => by
      rw [fieldsAddrs]
      exact .pure (List.forall_mem_nil _)
  | (_, value) :: fields, covers => by
      rw [partsOfFields] at covers
      rw [fieldsAddrs, carriedByFields]
      apply Within.bind (addrs_within leaks value covers.left)
      intro locs within
      apply Within.bind (fieldsAddrs_within leaks fields covers.right)
      intro rest withinRest
      exact .pure fun loc member =>
        (List.mem_append.mp member).imp (within loc) (withinRest loc)

theorem storeOutside_within (leaks : scope.LeaksWithin known) :
    ∀ values : List Expr, known.Covers scope.site? scope.mode (partsOfExprs values) →
      (∀ value ∈ values, ∀ loc ∈ carries known scope.site? value, .escapes loc ∈ known) →
        Within known (scope.storeOutside values) fun _ => True
  | [], _, _ => by
      rw [storeOutside]
      exact .pure trivial
  | value :: values, covers, escapes => by
      rw [partsOfExprs] at covers
      rw [storeOutside]
      obtain ⟨here, rest⟩ := List.forall_mem_cons.mp escapes
      apply Within.bind (addrs_within leaks value covers.left)
      intro locs within
      apply Within.bind (.escape (fun loc member => here loc (within loc member)) _)
      exact fun _ _ => storeOutside_within leaks values covers.right rest

theorem storeEntries_within (leaks : scope.LeaksWithin known) :
    ∀ entries : List (Expr × Expr), known.Covers scope.site? scope.mode (partsOfEntries entries) →
      (∀ entry ∈ entries, ∀ loc ∈ carries known scope.site? entry.1 ∪
          carries known scope.site? entry.2, .escapes loc ∈ known) →
        Within known (scope.storeEntries entries) fun _ => True
  | [], _, _ => by
      rw [storeEntries]
      exact .pure trivial
  | (key, value) :: entries, covers, escapes => by
      rw [partsOfEntries] at covers
      rw [storeEntries]
      obtain ⟨here, rest⟩ := List.forall_mem_cons.mp escapes
      apply Within.bind (addrs_within leaks key covers.left.left)
      intro ofKey withinKey
      apply Within.bind (addrs_within leaks value covers.left.right)
      intro ofValue withinValue
      refine Within.bind (.escape (fun loc member => here loc ?_) _) fun _ _ => ?_
      · exact (List.mem_append.mp member).imp (withinKey loc) (withinValue loc)
      · exact storeEntries_within leaks entries covers.right rest

theorem passArgs_within (leaks : scope.LeaksWithin known) (callee : String) :
    ∀ (param : Nat) (args : List Expr), known.Covers scope.site? scope.mode (partsOfExprs args) →
      (∀ (place : Nat) (arg : Expr), args[place]? = some arg →
          known.Retains scope.mode callee (param + place) →
            ∀ loc ∈ carries known scope.site? arg, .escapes loc ∈ known) →
        Within known (scope.passArgs callee param args) fun locs =>
          ∀ loc ∈ locs, loc ∈ carriedByAny known scope.site? args
  | _, [], _, _ => by
      rw [passArgs]
      exact .pure (List.forall_mem_nil _)
  | param, arg :: args, covers, escapes => by
      rw [partsOfExprs] at covers
      rw [passArgs, carriedByAny]
      apply Within.bind (addrs_within leaks arg covers.left)
      intro locs within
      apply Within.bind (retain_within leaks fun retained loc member =>
        escapes 0 arg rfl retained loc (within loc member))
      intro _ _
      apply Within.bind (passArgs_within leaks callee (param + 1) args covers.right ?_)
      · intro rest withinRest
        exact .pure fun loc member =>
          (List.mem_append.mp member).imp (within loc) (withinRest loc)
      · intro place other passed retained
        rw [Nat.succ_add_eq_add_succ] at retained
        exact escapes (place + 1) other (by simpa using passed) retained

end

theorem statement_within (leaks : scope.LeaksWithin known) (stmt : Stmt)
    (complete : ∀ finding, scope.Requires known stmt finding → finding ∈ known) :
    Within known (scope.statement stmt) fun _ => True := by
  have covers : known.Covers scope.site? scope.mode stmt.parts :=
    fun part member finding required => complete finding (.part member required)
  unfold statement
  unfold Stmt.parts at covers
  cases stmt with
  | declare decl =>
      dsimp only [VarDecl.parts] at covers ⊢
      apply Within.visit
      split
      next => exact .pure trivial
      next init initial =>
        rw [initial] at covers
        apply Within.bind (addrs_within leaks init covers)
        exact fun locs within => .hold fun loc member =>
          complete _ (.declare initial (within loc member))
  | assign target value =>
      apply Within.bind (addrs_within leaks value covers)
      intro locs within
      split
      next designated =>
        exact .hold fun loc member => complete _ (.assignLocal designated (within loc member))
      next absent =>
        exact .escape (fun loc member => complete _ (.assignGlobal absent (within loc member))) _
  | setField target name value =>
      apply Within.bind (addrs_within leaks value covers.right)
      intro locs within
      split
      next inline =>
        exact .hold fun loc member => complete _ (.setFieldInline inline (within loc member))
      next outside =>
        apply Within.bind (placeAddrs_within leaks target covers.left)
        exact fun _ _ => .escape
          (fun loc member => complete _ (.setFieldOutside outside (within loc member))) _
  | store pointer value =>
      apply Within.bind (addrs_within leaks pointer covers.left)
      intro _ _
      apply Within.bind (addrs_within leaks value covers.right)
      exact fun locs within =>
        .escape (fun loc member => complete _ (.store (within loc member))) _
  | setIndex target index value =>
      apply Within.bind (placeAddrs_within leaks target covers.left.left)
      intro _ _
      apply Within.bind (addrs_within leaks index covers.left.right)
      intro _ _
      apply Within.bind (addrs_within leaks value covers.right)
      exact fun locs within =>
        .escape (fun loc member => complete _ (.setIndex (within loc member))) _
  | setKey target key value =>
      apply Within.bind (placeAddrs_within leaks target covers.left.left)
      intro _ _
      apply Within.bind (addrs_within leaks key covers.left.right)
      intro ofKey withinKey
      apply Within.bind (addrs_within leaks value covers.right)
      intro ofValue withinValue
      refine .escape (fun loc member => complete _ (.setKey ?_)) _
      exact (List.mem_append.mp member).imp (withinKey loc) (withinValue loc)
  | append target values =>
      apply Within.bind (placeAddrs_within leaks target covers.left)
      exact fun _ _ => storeOutside_within leaks values covers.right
        fun value member loc carried => complete _ (.append member carried)
  | call callee args =>
      refine Within.bind (passArgs_within leaks callee 0 args covers ?_) fun _ _ => .pure trivial
      intro place arg passed retained loc carried
      exact complete _ (.call (.call passed (by simpa using retained) carried))
  | ret value =>
      cases value with
      | none => exact .pure trivial
      | some value =>
          apply Within.bind (addrs_within leaks value covers)
          exact fun locs within =>
            .escape (fun loc member => complete _ (.ret (within loc member))) _

theorem body_within (stmts : List Stmt) :
    ∀ {scope : EscapeScope}, scope.LeaksWithin known →
      (∀ before stmt after, stmts = before ++ stmt :: after →
        ∀ finding, (before.foldl afterStatement scope).Requires known stmt finding →
          finding ∈ known) →
        Within known (scope.body stmts) fun _ => True := by
  induction stmts with
  | nil =>
      intro scope _ _
      rw [body]
      exact .pure trivial
  | cons stmt stmts inductionHypothesis =>
      intro scope leaks complete
      rw [body]
      apply Within.bind (statement_within leaks stmt (complete [] stmt stmts rfl))
      intro _ _
      apply inductionHypothesis
      · unfold afterStatement
        split <;> exact leaks
      · intro before other after split
        exact complete (stmt :: before) other after (by rw [split, List.cons_append])

end EscapeScope

namespace FunctionDef

variable {known : Findings} {function : FunctionDef}

theorem holdParams_within (complete : ∀ (index : Nat) (param : Param),
      function.params[index]? = some param →
        .holds (.site (defaultSite function.name param.name)) (.content function.name index) ∈ known ∧
          .holds (.content function.name index) (.content function.name index) ∈ known) :
    ∀ (before params : List Param), function.params = before ++ params →
      Within known (function.holdParams before.length params) fun _ => True
  | _, [], _ => by
      rw [holdParams]
      exact .pure trivial
  | before, param :: params, split => by
      obtain ⟨slot, content⟩ := complete before.length param (by simp [split])
      rw [holdParams]
      apply Within.visit
      apply Within.bind (.hold fun loc member => List.mem_singleton.mp member ▸ slot)
      intro _ _
      apply Within.bind (.hold fun loc member => List.mem_singleton.mp member ▸ content)
      intro _ _
      have rest := holdParams_within complete (before ++ [param]) params (by simp [split])
      rwa [List.length_append] at rest

end FunctionDef

namespace Program

variable {program : Program} {mode : EscapeMode} {known : Findings} {facts : EscapeFacts}

theorem leaks_within (closed : program.Closed mode known) (inside : facts.Inside known)
    {callee : String} {param : Nat} (leaked : facts.leaks callee param) :
    .leaks callee param ∈ known := by
  obtain ⟨⟨loc, reason⟩, collected, same⟩ := List.any_eq_true.mp leaked
  obtain rfl := eq_of_beq same
  exact closed _ (.leak (inside.escapes ⟨reason, collected⟩))

theorem function_within (closed : program.Closed mode known) (inside : facts.Inside known)
    {function : FunctionDef} (member : function ∈ program.functions) :
    Within known (function.escapeRules mode facts) fun _ => True := by
  have leaks : (function.escapeScope mode facts).LeaksWithin known := by
    rw [function.escapeScope_eq]
    exact fun _ _ => leaks_within closed inside
  unfold FunctionDef.escapeRules
  have params : Within known (function.holdParams 0 function.params) fun _ => True := by
    refine FunctionDef.holdParams_within (fun index param found => ⟨?_, ?_⟩) [] function.params rfl
    · exact closed _ (.param member found)
    · exact closed _ (.content member (List.getElem?_eq_some_iff.mp found).1)
  apply Within.bind params
  intro _ _
  have result : Within known function.escapeResult fun _ => True := by
    unfold FunctionDef.escapeResult
    split
    next name named =>
      apply Within.visit
      apply Within.bind .get
      intro found inside
      refine .escape (fun loc held => closed _ (.result member named ?_)) _
      exact inside.holds (EscapeFacts.mem_heldBy.mp held)
    next => exact .pure trivial
  apply Within.bind result
  intro _ _
  apply EscapeScope.body_within function.body leaks
  intro before stmt after split finding required
  apply closed finding
  refine .statement member split ?_
  rw [function.foldl_escapeScope] at required
  exact required.knowing (function.scopeAt mode before).known

theorem global_within (closed : program.Closed mode known) (inside : facts.Inside known)
    {decl : VarDecl} (member : decl ∈ program.globals) :
    Within known (escapeGlobal mode facts decl) fun _ => True := by
  unfold escapeGlobal
  split
  next init initial =>
    have leaks : EscapeScope.LeaksWithin ⟨mode, facts, globalsFrame, []⟩ known :=
      fun _ _ => leaks_within closed inside
    have covers : known.Covers (fun _ => none) mode init.parts := by
      intro part inInit finding required
      apply closed finding
      exact .globalPart member (by simpa [VarDecl.parts, initial] using inInit) required
    apply Within.bind (EscapeScope.addrs_within leaks init covers)
    exact fun locs within =>
      .escape (fun loc carried => closed _ (.globalInit member initial (within loc carried))) _
  next => exact .pure trivial

/-- A round that starts inside of a closed set stays there. -/
theorem escapeRules_within (closed : program.Closed mode known) (inside : facts.Inside known) :
    Within known (program.escapeRules mode facts) fun _ => True := by
  unfold escapeRules
  apply Within.bind (.forM fun decl member => global_within closed inside member)
  intro _ _
  apply Within.bind (.forM fun function member => function_within closed inside member)
  intro _ _
  unfold escapeHeld
  apply Within.bind .get
  intro found within
  refine .escape (fun loc reached => closed _ (.held (within.closure ?_ loc reached))) _
  intro seed escaped
  obtain ⟨⟨other, reason⟩, collected, rfl⟩ := List.mem_map.mp escaped
  exact within.escapes ⟨reason, collected⟩

theorem classifierFrom_inside (closed : program.Closed mode known) {classifier : Classifier}
    (inside : classifier.facts.Inside known) :
    (program.classifierFrom mode classifier).facts.Inside known := by
  fun_induction classifierFrom program mode classifier with
  | case1 classifier next grows inductionHypothesis =>
      exact inductionHypothesis (escapeRules_within closed inside _ inside).1
  | case2 classifier next settled => exact (escapeRules_within closed inside _ inside).1

/-- Every closed set has all that the classification finds. -/
theorem findings_subset_closed (closed : program.Closed mode known) :
    (program.escapeFacts mode).findings ⊆ known := by
  have inside : (program.escapeFacts mode).Inside known :=
    classifierFrom_inside closed (.empty known)
  intro finding found
  cases finding with
  | holds holder held => exact inside.holds found
  | escapes loc => exact inside.escapes found
  | leaks function param => exact closed _ (.leak (inside.escapes found))

end Program

end ReferenceSemantics
