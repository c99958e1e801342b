import ReferenceSemantics.Proofs.Escape.Minimality
import ReferenceSemantics.Proofs.Program.Sites

set_option autoImplicit false

/-!
Where the addresses come from that the classification follows.

Only two forms of expressions make an address: a new expression that of what it allocates, and the
taking of an address that of the local at the root of the place. Any other address was held before,
or came in with a parameter. So nothing is held, and nothing escapes, but what an expression of the
program makes the address of and the contents of parameters.
-/

namespace ReferenceSemantics

namespace Findings

/-- The findings by which nothing but these locations is held or escapes. -/
def confined (known : Set Loc) : Findings :=
  {finding | match finding with
    | .holds _ held => held ∈ known
    | .escapes loc => loc ∈ known
    | .leaks _ _ => True}

/-- One of the expressions makes the address of the location: it allocates it, or it takes the
address of a place that starts from the local there. -/
inductive Introduces (names : String → Option Loc) (parts : List Expr) : Loc → Prop
  | new {init : Expr} {site : SiteId} (inside : .new init site ∈ parts) :
      Introduces names parts (.site site)
  | addrOf {place : Place} {name : String} {loc : Loc} (inside : .addrOf place ∈ parts)
      (root : place.rootVar = some name) (designated : names name = some loc) :
      Introduces names parts loc

/-- The locations whose addresses the expressions make. -/
def introduced (names : String → Option Loc) (parts : List Expr) : Set Loc :=
  {loc | Introduces names parts loc}

variable {known locs : Set Loc} {names : String → Option Loc} {first second : List Expr}
  {part whole : Expr}

theorem introduced_mono (inside : first ⊆ second) :
    introduced names first ⊆ introduced names second := by
  rintro loc (@⟨_, _, member⟩ | @⟨_, _, _, member, root, designated⟩)
  · exact .new (inside member)
  · exact .addrOf (inside member) root designated

theorem introduced_tail : introduced names first ⊆ introduced names (part :: first) :=
  introduced_mono (List.subset_cons_self _ _)

theorem introduced_left : introduced names first ⊆ introduced names (first ++ second) :=
  introduced_mono (List.subset_append_left _ _)

theorem introduced_right : introduced names second ⊆ introduced names (first ++ second) :=
  introduced_mono (List.subset_append_right _ _)

theorem introduced_operand (direct : part ∈ whole.operands) :
    introduced names part.parts ⊆ introduced names whole.parts := by
  rw [whole.parts_eq]
  exact introduced_mono fun _ inside =>
    List.mem_cons_of_mem _ (List.mem_flatMap.mpr ⟨part, direct, inside⟩)

theorem heldBy_confined : (confined known).heldBy locs ⊆ known := fun _ ⟨_, _, holds⟩ => holds

theorem closure_confined (inside : locs ⊆ known) : (confined known).closure locs ⊆ known := by
  intro loc reached
  cases reached with
  | start member => exact inside member
  | step _ holds => exact holds

mutual

theorem designates_confined : ∀ place : Place,
    (∀ {name loc}, place.rootVar = some name → names name = some loc → loc ∈ known) →
      introduced names place.parts ⊆ known → designates (confined known) names place ⊆ known
  | .var _, rooted, _ => by
      rw [designates]
      exact fun _ found => rooted rfl found
  | .field base _, rooted, made => by
      rw [Place.parts] at made
      rw [designates]
      exact Set.union_subset (designates_confined base rooted made) heldBy_confined
  | .deref pointer, _, made => by
      rw [Place.parts] at made
      rw [designates]
      exact carries_confined pointer made

/-- Where only some locations are held, an expression that makes the addresses of no others carries
no others. -/
theorem carries_confined : ∀ expr : Expr, introduced names expr.parts ⊆ known →
    carries (confined known) names expr ⊆ known
  | .var _, _ | .deref _, _ => by
      rw [carries]
      exact heldBy_confined
  | .field base _, made => by
      rw [Expr.parts] at made
      rw [carries]
      exact Set.union_subset (carries_confined base (introduced_tail.trans made)) heldBy_confined
  | .addrOf place, made => by
      rw [Expr.parts] at made
      rw [carries]
      refine designates_confined place (fun root designated => ?_) (introduced_tail.trans made)
      exact made (.addrOf (List.mem_cons_self ..) root designated)
  | .new init site, made => by
      rw [Expr.parts] at made
      rw [carries]
      rintro loc rfl
      exact made (.new (List.mem_cons_self ..))
  | .composite _ fields, made => by
      rw [Expr.parts] at made
      rw [carries]
      exact carriedByFields_confined fields (introduced_tail.trans made)
  | .lookup _ _ value, made => by
      rw [Expr.parts] at made
      rw [carries]
      exact carries_confined value (introduced_right.trans (introduced_tail.trans made))
  | .boxed _ value, made => by
      rw [Expr.parts] at made
      rw [carries]
      exact carries_confined value (introduced_tail.trans made)
  | .call _ args, made => by
      rw [Expr.parts] at made
      rw [carries]
      exact closure_confined (carriedByAny_confined args (introduced_tail.trans made))
  | .lit _, _ | .nil, _ | .sliceLit _ _, _ | .makeSlice _ _ _, _ | .mapLit _, _ | .index _ _, _
  | .len _, _ | .cap _, _ | .reslice _ _ _, _ | .isNil _, _ => by
      rw [carries]
      exact Set.empty_subset _

theorem carriedByFields_confined : ∀ fields : List (String × Expr),
    introduced names (partsOfFields fields) ⊆ known →
      carriedByFields (confined known) names fields ⊆ known
  | [], _ => by
      rw [carriedByFields]
      exact Set.empty_subset _
  | (_, value) :: fields, made => by
      rw [partsOfFields] at made
      rw [carriedByFields]
      exact Set.union_subset (carries_confined value (introduced_left.trans made))
        (carriedByFields_confined fields (introduced_right.trans made))

theorem carriedByAny_confined : ∀ values : List Expr,
    introduced names (partsOfExprs values) ⊆ known →
      carriedByAny (confined known) names values ⊆ known
  | [], _ => by
      rw [carriedByAny]
      exact Set.empty_subset _
  | value :: values, made => by
      rw [partsOfExprs] at made
      rw [carriedByAny]
      exact Set.union_subset (carries_confined value (introduced_left.trans made))
        (carriedByAny_confined values (introduced_right.trans made))

end

/-- What an expression calls for is about nothing but what it makes the address of, if so is what
is known. -/
theorem Requires.mem_confined {mode : EscapeMode} {expr : Expr} {finding : Finding}
    (made : introduced names expr.parts ⊆ known)
    (required : Requires (confined known) names mode expr finding) : finding ∈ confined known := by
  have carried {inner : Expr} {loc : Loc} (direct : inner ∈ expr.operands)
      (carried : loc ∈ carries (confined known) names inner) : loc ∈ known :=
    carries_confined inner ((introduced_operand direct).trans made) carried
  cases required with
  | new ofInit => exact carried (List.mem_singleton_self _) ofInit
  | sliceLit member ofElem => exact carried member ofElem
  | makeSlice ofZero => exact carried (List.mem_singleton_self _) ofZero
  | mapLit member ofEntry =>
      rcases ofEntry with ofKey | ofValue
      · exact carried (List.mem_flatMap.mpr ⟨_, member, by simp⟩) ofKey
      · exact carried (List.mem_flatMap.mpr ⟨_, member, by simp⟩) ofValue
  | call passed _ ofArg => exact carried (List.mem_of_getElem? passed) ofArg

end Findings

open Findings

theorem EscapeScope.Requires.mem_confined {scope : EscapeScope} {known : Set Loc} {stmt : Stmt}
    {finding : Finding} (made : introduced scope.site? stmt.parts ⊆ known)
    (required : scope.Requires (confined known) stmt finding) : finding ∈ confined known := by
  have carried {value : Expr} {loc : Loc} (direct : value ∈ stmt.operands)
      (carried : loc ∈ carries (confined known) scope.site? value) : loc ∈ known := by
    refine carries_confined value (Set.Subset.trans ?_ made) carried
    rw [stmt.parts_eq]
    exact introduced_mono fun _ inside => List.mem_flatMap.mpr ⟨value, direct, inside⟩
  cases required with
  | part inside required =>
      exact required.mem_confined ((introduced_mono (Stmt.parts_subset inside)).trans made)
  | declare initial ofInit => exact carried (Option.mem_toList.mpr initial) ofInit
  | assignLocal _ ofValue | assignGlobal _ ofValue | ret ofValue =>
      exact carried (List.mem_singleton_self _) ofValue
  | setFieldInline _ ofValue | setFieldOutside _ ofValue | store ofValue | setIndex ofValue =>
      exact carried (by simp [Stmt.operands]) ofValue
  | setKey ofEither =>
      rcases ofEither with ofKey | ofValue
      · exact carried (by simp [Stmt.operands]) ofKey
      · exact carried (by simp [Stmt.operands]) ofValue
  | append member ofValue => exact carried (List.mem_append_right _ member) ofValue
  | call required =>
      cases required with
      | call passed _ ofArg => exact carried (List.mem_of_getElem? passed) ofArg

namespace Program

/-- The address of the location is made in the program, or came in with a parameter. -/
inductive Introduces (program : Program) (mode : EscapeMode) : Loc → Prop
  | content (function : String) (param : Nat) : Introduces program mode (.content function param)
  | globalInit {decl : VarDecl} {loc : Loc} (member : decl ∈ program.globals)
      (made : Findings.Introduces (fun _ => none) decl.parts loc) : Introduces program mode loc
  | statement {function : FunctionDef} {before after : List Stmt} {stmt : Stmt} {loc : Loc}
      (member : function ∈ program.functions) (split : function.body = before ++ stmt :: after)
      (made : Findings.Introduces (function.scopeAt mode before).site? stmt.parts loc) :
      Introduces program mode loc

variable {program : Program} {mode : EscapeMode} {loc : Loc}

theorem confined_closed (program : Program) (mode : EscapeMode) :
    program.Closed mode (confined {loc | program.Introduces mode loc}) := by
  have ofGlobal {decl : VarDecl} (member : decl ∈ program.globals) :
      introduced (fun _ => none) decl.parts ⊆ {loc | program.Introduces mode loc} :=
    fun _ made => .globalInit member made
  intro finding entailed
  cases entailed with
  | globalInit member initial carried =>
      have made := ofGlobal member
      rw [VarDecl.parts, initial] at made
      exact carries_confined _ made carried
  | @globalPart decl part _ member inside required =>
      have whole : part ∈ (Stmt.declare decl).parts := inside
      exact required.mem_confined
        ((introduced_mono (Stmt.parts_subset whole)).trans (ofGlobal member))
  | param | content => exact .content _ _
  | result _ _ held => exact held
  | statement member split required =>
      exact required.mem_confined fun _ made => .statement member split made
  | held reached => exact closure_confined (fun _ escapes => escapes) reached
  | leak => trivial

/-- Nothing escapes that no address is made of. -/
theorem introduces_of_escapes (escapes : .escapes loc ∈ (program.escapeFacts mode).findings) :
    program.Introduces mode loc :=
  findings_subset_closed (program.confined_closed mode) escapes

end Program

end ReferenceSemantics
