import Mathlib.Data.Set.Basic
import ReferenceSemantics.Escape.Rules
import ReferenceSemantics.Proofs.Escape.Facts

set_option autoImplicit false

/-!
The rules of the escape classification as consequences of a set of findings.

What an expression may carry and what a statement calls for is said for any set of findings, with
no order of evaluation. A set is closed when it has all that the rules call for; firing rules adds
some of what they call for, in any order and any portions.
-/

namespace ReferenceSemantics

/-- What the classification can find out. -/
inductive Finding where
  /-- The address of the second location may be stored in the first. -/
  | holds (holder held : Loc)
  | escapes (loc : Loc)
  /-- A call may retain the argument for the parameter. -/
  | leaks (function : String) (param : Nat)

abbrev Findings := Set Finding

/-- The findings that the collected facts stand for. -/
def EscapeFacts.findings (facts : EscapeFacts) : Findings :=
  {finding | match finding with
    | .holds holder held => (holder, held) ∈ facts.holds
    | .escapes loc => facts.Escapes loc
    | .leaks function param => facts.Escapes (.content function param)}

namespace Findings

/-- What any of the locations holds. -/
def heldBy (known : Findings) (locs : Set Loc) : Set Loc :=
  {held | ∃ loc ∈ locs, Finding.holds loc held ∈ known}

/-- The location is one of these, or is held, directly or not. -/
inductive Reaches (known : Findings) (locs : Set Loc) : Loc → Prop
  | start {loc : Loc} (member : loc ∈ locs) : Reaches known locs loc
  | step {loc held : Loc} (reached : Reaches known locs loc)
      (holds : Finding.holds loc held ∈ known) : Reaches known locs held

def closure (known : Findings) (locs : Set Loc) : Set Loc := {loc | Reaches known locs loc}

/-- A call may keep the argument for the parameter. -/
def Retains (known : Findings) (mode : EscapeMode) (callee : String) (param : Nat) : Prop :=
  mode = .conservative ∨ Finding.leaks callee param ∈ known

variable (known : Findings) (names : String → Option Loc)

mutual

/-- The locations a place may designate, with names that designate locals. -/
def designates : Place → Set Loc
  | .var name => {loc | names name = some loc}
  | .field base _ => designates base ∪ known.heldBy (designates base)
  | .deref pointer => carries pointer

/-- The locations whose address the value of an expression may carry. -/
def carries : Expr → Set Loc
  | .var name => known.heldBy {loc | names name = some loc}
  | .field base _ => carries base ∪ known.heldBy (carries base)
  | .deref pointer => known.heldBy (carries pointer)
  | .addrOf place => designates place
  | .new _ site => {loc | loc = .site site}
  | .composite _ fields => carriedByFields fields
  | .lookup _ _ default => carries default
  | .boxed _ value => carries value
  | .call _ args => known.closure (carriedByAny args)
  | .lit _ | .nil | .sliceLit _ _ | .makeSlice _ _ _ | .mapLit _ | .index _ _ | .len _ | .cap _
  | .reslice _ _ _ | .isNil _ => ∅

def carriedByFields : List (String × Expr) → Set Loc
  | [] => ∅
  | (_, value) :: fields => carries value ∪ carriedByFields fields

def carriedByAny : List Expr → Set Loc
  | [] => ∅
  | value :: values => carries value ∪ carriedByAny values

end

/-- What an expression itself calls for, apart from the expressions in it. -/
inductive Requires (mode : EscapeMode) : Expr → Finding → Prop
  | new {init : Expr} {site : SiteId} {loc : Loc} (carried : loc ∈ carries known names init) :
      Requires mode (.new init site) (.holds (.site site) loc)
  | sliceLit {elems : List Expr} {capacity : Option Nat} {elem : Expr} {loc : Loc}
      (member : elem ∈ elems) (carried : loc ∈ carries known names elem) :
      Requires mode (.sliceLit elems capacity) (.escapes loc)
  | makeSlice {len cap : Nat} {zero : Expr} {loc : Loc} (carried : loc ∈ carries known names zero) :
      Requires mode (.makeSlice len cap zero) (.escapes loc)
  | mapLit {entries : List (Expr × Expr)} {key value : Expr} {loc : Loc}
      (member : (key, value) ∈ entries)
      (carried : loc ∈ carries known names key ∪ carries known names value) :
      Requires mode (.mapLit entries) (.escapes loc)
  | call {callee : String} {args : List Expr} {param : Nat} {arg : Expr} {loc : Loc}
      (passed : args[param]? = some arg) (retained : known.Retains mode callee param)
      (carried : loc ∈ carries known names arg) : Requires mode (.call callee args) (.escapes loc)

end Findings

open Findings

/-- What a statement calls for, with the expressions in it. -/
inductive EscapeScope.Requires (scope : EscapeScope) (known : Findings) : Stmt → Finding → Prop
  | part {stmt : Stmt} {part : Expr} {finding : Finding} (inside : part ∈ stmt.parts)
      (required : Findings.Requires known scope.site? scope.mode part finding) :
      Requires scope known stmt finding
  | declare {decl : VarDecl} {init : Expr} {loc : Loc} (initial : decl.init = some init)
      (carried : loc ∈ carries known scope.site? init) :
      Requires scope known (.declare decl) (.holds (.site (decl.siteId scope.function)) loc)
  | assignLocal {target : String} {value : Expr} {holder loc : Loc}
      (designated : scope.site? target = some holder)
      (carried : loc ∈ carries known scope.site? value) :
      Requires scope known (.assign target value) (.holds holder loc)
  | assignGlobal {target : String} {value : Expr} {loc : Loc} (absent : scope.site? target = none)
      (carried : loc ∈ carries known scope.site? value) :
      Requires scope known (.assign target value) (.escapes loc)
  | setFieldInline {target : Place} {name : String} {value : Expr} {holder loc : Loc}
      (inline : scope.inlineLocal? target = some holder)
      (carried : loc ∈ carries known scope.site? value) :
      Requires scope known (.setField target name value) (.holds holder loc)
  | setFieldOutside {target : Place} {name : String} {value : Expr} {loc : Loc}
      (outside : scope.inlineLocal? target = none)
      (carried : loc ∈ carries known scope.site? value) :
      Requires scope known (.setField target name value) (.escapes loc)
  | store {pointer value : Expr} {loc : Loc} (carried : loc ∈ carries known scope.site? value) :
      Requires scope known (.store pointer value) (.escapes loc)
  | setIndex {target : Place} {index value : Expr} {loc : Loc}
      (carried : loc ∈ carries known scope.site? value) :
      Requires scope known (.setIndex target index value) (.escapes loc)
  | setKey {target : Place} {key value : Expr} {loc : Loc}
      (carried : loc ∈ carries known scope.site? key ∪ carries known scope.site? value) :
      Requires scope known (.setKey target key value) (.escapes loc)
  | append {target : Place} {values : List Expr} {value : Expr} {loc : Loc}
      (member : value ∈ values) (carried : loc ∈ carries known scope.site? value) :
      Requires scope known (.append target values) (.escapes loc)
  | call {callee : String} {args : List Expr} {finding : Finding}
      (required : Findings.Requires known scope.site? scope.mode (.call callee args) finding) :
      Requires scope known (.call callee args) finding
  | ret {value : Expr} {loc : Loc} (carried : loc ∈ carries known scope.site? value) :
      Requires scope known (.ret (some value)) (.escapes loc)

/-- The scope of a statement of the body, after the statements before it. -/
def FunctionDef.scopeAt (function : FunctionDef) (mode : EscapeMode) (before : List Stmt) :
    EscapeScope :=
  before.foldl EscapeScope.afterStatement (function.escapeScope mode .empty)

namespace Program

/-- What the rules call for, given what is known. -/
inductive Entails (program : Program) (mode : EscapeMode) (known : Findings) : Finding → Prop
  | globalInit {decl : VarDecl} {init : Expr} {loc : Loc} (member : decl ∈ program.globals)
      (initial : decl.init = some init) (carried : loc ∈ carries known (fun _ => none) init) :
      Entails program mode known (.escapes loc)
  | globalPart {decl : VarDecl} {part : Expr} {finding : Finding} (member : decl ∈ program.globals)
      (inside : part ∈ decl.parts)
      (required : Findings.Requires known (fun _ => none) mode part finding) :
      Entails program mode known finding
  | param {function : FunctionDef} {index : Nat} {param : Param}
      (member : function ∈ program.functions) (found : function.params[index]? = some param) :
      Entails program mode known
        (.holds (.site (defaultSite function.name param.name)) (.content function.name index))
  | content {function : FunctionDef} {index : Nat} (member : function ∈ program.functions)
      (bound : index < function.params.length) :
      Entails program mode known
        (.holds (.content function.name index) (.content function.name index))
  | result {function : FunctionDef} {name : String} {loc : Loc}
      (member : function ∈ program.functions) (named : function.namedResult = some name)
      (held : .holds (.site (defaultSite function.name name)) loc ∈ known) :
      Entails program mode known (.escapes loc)
  | statement {function : FunctionDef} {before after : List Stmt} {stmt : Stmt} {finding : Finding}
      (member : function ∈ program.functions) (split : function.body = before ++ stmt :: after)
      (required : (function.scopeAt mode before).Requires known stmt finding) :
      Entails program mode known finding
  | held {loc : Loc} (reached : known.Reaches {loc | .escapes loc ∈ known} loc) :
      Entails program mode known (.escapes loc)
  | leak {function : String} {param : Nat} (escapes : .escapes (.content function param) ∈ known) :
      Entails program mode known (.leaks function param)

/-- Nothing that the rules call for is missing. -/
def Closed (program : Program) (mode : EscapeMode) (known : Findings) : Prop :=
  ∀ finding, program.Entails mode known finding → finding ∈ known

/-- Some rules have fired, one after the other or many at once. -/
inductive Fired (program : Program) (mode : EscapeMode) : Findings → Prop
  | start : Fired program mode ∅
  | fire {known more : Findings} (fired : Fired program mode known)
      (entailed : ∀ finding ∈ more, program.Entails mode known finding) :
      Fired program mode (known ∪ more)

end Program

/-! ### More is called for when more is known -/

namespace Findings

variable {known later : Findings} {locs more : Set Loc} {names : String → Option Loc}

theorem heldBy_mono (grown : known ⊆ later) (wider : locs ⊆ more) :
    known.heldBy locs ⊆ later.heldBy more :=
  fun _ ⟨loc, member, holds⟩ => ⟨loc, wider member, grown holds⟩

theorem closure_mono (grown : known ⊆ later) (wider : locs ⊆ more) :
    known.closure locs ⊆ later.closure more := by
  intro loc reached
  induction reached with
  | start member => exact .start (wider member)
  | step _ holds inductionHypothesis => exact Reaches.step inductionHypothesis (grown holds)

theorem Retains.mono (grown : known ⊆ later) {mode : EscapeMode} {callee : String} {param : Nat}
    (retained : known.Retains mode callee param) : later.Retains mode callee param :=
  retained.imp_right fun leaks => grown leaks

mutual

theorem designates_mono (grown : known ⊆ later) :
    ∀ place : Place, designates known names place ⊆ designates later names place
  | .var _ => by
      rw [designates, designates]
  | .field base _ => by
      have inner := designates_mono grown base
      rw [designates, designates]
      exact Set.union_subset_union inner (heldBy_mono grown inner)
  | .deref pointer => by
      rw [designates, designates]
      exact carries_mono grown pointer

theorem carries_mono (grown : known ⊆ later) :
    ∀ expr : Expr, carries known names expr ⊆ carries later names expr
  | .var _ => by
      rw [carries, carries]
      exact heldBy_mono grown subset_rfl
  | .field base _ => by
      have inner := carries_mono grown base
      rw [carries, carries]
      exact Set.union_subset_union inner (heldBy_mono grown inner)
  | .deref pointer => by
      rw [carries, carries]
      exact heldBy_mono grown (carries_mono grown pointer)
  | .addrOf place => by
      rw [carries, carries]
      exact designates_mono grown place
  | .new _ _ | .lit _ | .nil | .sliceLit _ _ | .makeSlice _ _ _ | .mapLit _ | .index _ _ | .len _
  | .cap _ | .reslice _ _ _ | .isNil _ => by
      rw [carries, carries]
  | .composite _ fields => by
      rw [carries, carries]
      exact carriedByFields_mono grown fields
  | .lookup _ _ value | .boxed _ value => by
      rw [carries, carries]
      exact carries_mono grown value
  | .call _ args => by
      rw [carries, carries]
      exact closure_mono grown (carriedByAny_mono grown args)

theorem carriedByFields_mono (grown : known ⊆ later) :
    ∀ fields : List (String × Expr),
      carriedByFields known names fields ⊆ carriedByFields later names fields
  | [] => by
      rw [carriedByFields, carriedByFields]
  | (_, value) :: fields => by
      rw [carriedByFields, carriedByFields]
      exact Set.union_subset_union (carries_mono grown value) (carriedByFields_mono grown fields)

theorem carriedByAny_mono (grown : known ⊆ later) :
    ∀ values : List Expr, carriedByAny known names values ⊆ carriedByAny later names values
  | [] => by
      rw [carriedByAny, carriedByAny]
  | value :: values => by
      rw [carriedByAny, carriedByAny]
      exact Set.union_subset_union (carries_mono grown value) (carriedByAny_mono grown values)

end

theorem Requires.mono (grown : known ⊆ later) {mode : EscapeMode} {expr : Expr}
    {finding : Finding} (required : Requires known names mode expr finding) :
    Requires later names mode expr finding := by
  cases required with
  | new carried => exact .new (carries_mono grown _ carried)
  | sliceLit member carried => exact .sliceLit member (carries_mono grown _ carried)
  | makeSlice carried => exact .makeSlice (carries_mono grown _ carried)
  | mapLit member carried =>
      exact .mapLit member
        (Set.union_subset_union (carries_mono grown _) (carries_mono grown _) carried)
  | call passed retained carried =>
      exact .call passed (retained.mono grown) (carries_mono grown _ carried)

theorem Requires.inMode {mode other : EscapeMode} {expr : Expr} {finding : Finding}
    (retains : ∀ {callee param}, known.Retains mode callee param → known.Retains other callee param)
    (required : Requires known names mode expr finding) :
    Requires known names other expr finding := by
  cases required with
  | new carried => exact .new carried
  | sliceLit member carried => exact .sliceLit member carried
  | makeSlice carried => exact .makeSlice carried
  | mapLit member carried => exact .mapLit member carried
  | call passed retained carried => exact .call passed (retains retained) carried

end Findings

theorem EscapeScope.Requires.mono {scope : EscapeScope} {known later : Findings} {stmt : Stmt}
    {finding : Finding} (grown : known ⊆ later) (required : scope.Requires known stmt finding) :
    scope.Requires later stmt finding := by
  cases required with
  | part inside required => exact .part inside (required.mono grown)
  | declare initial carried => exact .declare initial (carries_mono grown _ carried)
  | assignLocal designated carried => exact .assignLocal designated (carries_mono grown _ carried)
  | assignGlobal absent carried => exact .assignGlobal absent (carries_mono grown _ carried)
  | setFieldInline inline carried => exact .setFieldInline inline (carries_mono grown _ carried)
  | setFieldOutside outside carried => exact .setFieldOutside outside (carries_mono grown _ carried)
  | store carried => exact .store (carries_mono grown _ carried)
  | setIndex carried => exact .setIndex (carries_mono grown _ carried)
  | setKey carried =>
      exact .setKey (Set.union_subset_union (carries_mono grown _) (carries_mono grown _) carried)
  | append member carried => exact .append member (carries_mono grown _ carried)
  | call required => exact .call (required.mono grown)
  | ret carried => exact .ret (carries_mono grown _ carried)

namespace Program

variable {program : Program} {mode : EscapeMode} {known later : Findings}

theorem Entails.mono (grown : known ⊆ later) {finding : Finding}
    (entailed : program.Entails mode known finding) : program.Entails mode later finding := by
  cases entailed with
  | globalInit member initial carried =>
      exact .globalInit member initial (carries_mono grown _ carried)
  | globalPart member inside required => exact .globalPart member inside (required.mono grown)
  | param member found => exact .param member found
  | content member bound => exact .content member bound
  | result member named held => exact .result member named (grown held)
  | statement member split required => exact .statement member split (required.mono grown)
  | held reached => exact .held (closure_mono grown (fun _ escapes => grown escapes) reached)
  | leak escapes => exact .leak (grown escapes)

/-- No order of firing leaves a closed set. -/
theorem Fired.subset (fired : program.Fired mode known) (closed : program.Closed mode later) :
    known ⊆ later := by
  induction fired with
  | start => exact Set.empty_subset _
  | fire _ entailed inductionHypothesis =>
      exact Set.union_subset inductionHypothesis fun finding member =>
        closed finding ((entailed finding member).mono inductionHypothesis)

end Program

/-! ### What some expressions call for -/

namespace Findings

/-- What some expressions call for is known. -/
def Covers (known : Findings) (names : String → Option Loc) (mode : EscapeMode)
    (parts : List Expr) : Prop :=
  ∀ part ∈ parts, ∀ finding, Requires known names mode part finding → finding ∈ known

namespace Covers

variable {known : Findings} {names : String → Option Loc} {mode : EscapeMode}
  {first second : List Expr} {expr : Expr}

theorem nil : known.Covers names mode [] := nofun

theorem cons (here : ∀ finding, Requires known names mode expr finding → finding ∈ known)
    (rest : known.Covers names mode first) : known.Covers names mode (expr :: first) := by
  intro part member
  rcases List.mem_cons.mp member with rfl | later
  · exact here
  · exact rest part later

theorem append (left : known.Covers names mode first) (right : known.Covers names mode second) :
    known.Covers names mode (first ++ second) := by
  intro part member
  rcases List.mem_append.mp member with inFirst | inSecond
  · exact left part inFirst
  · exact right part inSecond

theorem head (covers : known.Covers names mode (expr :: first)) :
    ∀ finding, Requires known names mode expr finding → finding ∈ known :=
  covers _ (List.mem_cons_self ..)

theorem tail (covers : known.Covers names mode (expr :: first)) : known.Covers names mode first :=
  fun part member => covers part (List.mem_cons_of_mem _ member)

theorem left (covers : known.Covers names mode (first ++ second)) : known.Covers names mode first :=
  fun part member => covers part (List.mem_append_left _ member)

theorem right (covers : known.Covers names mode (first ++ second)) :
    known.Covers names mode second :=
  fun part member => covers part (List.mem_append_right _ member)

end Covers

end Findings

/-! ### The facts of the rounds before have no part in a scope -/

namespace EscapeScope

variable {scope : EscapeScope}

/-- The same names, with other facts of the rounds before. -/
def knowing (scope : EscapeScope) (known : EscapeFacts) : EscapeScope := { scope with known }

/-- Statements bring what they declare into scope, the last of them first. -/
theorem foldl_afterStatement (scope : EscapeScope) (before : List Stmt) :
    before.foldl afterStatement scope =
      { scope with locals := (before.filterMap fun stmt => stmt.declared?.map fun decl =>
          (decl.name, decl.siteId scope.function, decl.kind)).reverse ++ scope.locals } := by
  induction before generalizing scope with
  | nil => rfl
  | cons stmt before inductionHypothesis =>
      rw [List.foldl_cons, inductionHypothesis, afterStatement]
      cases declared : stmt.declared? <;> simp [declared, EscapeScope.bind]

theorem foldl_knowing (scope : EscapeScope) (known : EscapeFacts) (before : List Stmt) :
    before.foldl afterStatement (scope.knowing known) =
      (before.foldl afterStatement scope).knowing known := by
  rw [foldl_afterStatement, foldl_afterStatement]
  rfl

/-- What is called for in a scope is called for with the same names in a mode in which calls retain
as much. -/
theorem Requires.inMode {known : Findings} {stmt : Stmt} {finding : Finding} {mode : EscapeMode}
    (retains : ∀ {callee param},
      known.Retains scope.mode callee param → known.Retains mode callee param)
    (required : scope.Requires known stmt finding) (facts : EscapeFacts) :
    EscapeScope.Requires ⟨mode, facts, scope.function, scope.locals⟩ known stmt finding := by
  cases required with
  | part inside required => exact .part inside (required.inMode retains)
  | declare initial carried => exact .declare initial carried
  | assignLocal designated carried => exact .assignLocal designated carried
  | assignGlobal absent carried => exact .assignGlobal absent carried
  | setFieldInline inline carried => exact .setFieldInline inline carried
  | setFieldOutside outside carried => exact .setFieldOutside outside carried
  | store carried => exact .store carried
  | setIndex carried => exact .setIndex carried
  | setKey carried => exact .setKey carried
  | append member carried => exact .append member carried
  | call required => exact .call (required.inMode retains)
  | ret carried => exact .ret carried

theorem Requires.knowing {known : Findings} {stmt : Stmt} {finding : Finding}
    (required : scope.Requires known stmt finding) (facts : EscapeFacts) :
    (scope.knowing facts).Requires known stmt finding :=
  required.inMode id facts

end EscapeScope

namespace FunctionDef

/-- The slot that was bound last comes first. -/
theorem escapeScope_eq (function : FunctionDef) (mode : EscapeMode) (facts : EscapeFacts) :
    function.escapeScope mode facts =
      ⟨mode, facts, function.name, (function.slots.map fun slot =>
        (slot.1, defaultSite function.name slot.1, slot.2)).reverse⟩ := by
  have folded : ∀ (slots : List (String × Kind)) (scope : EscapeScope),
      slots.foldl (fun (scope : EscapeScope) slot =>
          scope.bind slot.1 (defaultSite function.name slot.1) slot.2) scope =
        { scope with locals := (slots.map fun slot =>
            (slot.1, defaultSite function.name slot.1, slot.2)).reverse ++ scope.locals } := by
    intro slots
    induction slots with
    | nil => exact fun _ => rfl
    | cons slot slots inductionHypothesis =>
        intro scope
        rw [List.foldl_cons, inductionHypothesis]
        simp [EscapeScope.bind]
  rw [escapeScope, folded]
  simp

theorem function_escapeScope (function : FunctionDef) (mode : EscapeMode) (known : EscapeFacts) :
    (function.escapeScope mode known).function = function.name := by
  rw [escapeScope_eq]

/-- The slots that a call makes before it comes to a statement, the last one first: those of the
parameters, that of the named result and those of the locals. -/
def localsBefore (function : FunctionDef) (before : List Stmt) : List (String × SiteId × Kind) :=
  (function.slots.map (fun slot => (slot.1, defaultSite function.name slot.1, slot.2)) ++
    before.filterMap fun stmt => stmt.declared?.map fun decl =>
      (decl.name, decl.siteId function.name, decl.kind)).reverse

theorem scopeAt_eq (function : FunctionDef) (mode : EscapeMode) (before : List Stmt) :
    function.scopeAt mode before =
      ⟨mode, .empty, function.name, function.localsBefore before⟩ := by
  rw [scopeAt, EscapeScope.foldl_afterStatement, escapeScope_eq, localsBefore, List.reverse_append]

theorem escapeScope_knowing (function : FunctionDef) (mode : EscapeMode) (known : EscapeFacts) :
    function.escapeScope mode known = (function.escapeScope mode .empty).knowing known := by
  rw [escapeScope_eq, escapeScope_eq]
  rfl

theorem foldl_escapeScope (function : FunctionDef) (mode : EscapeMode) (known : EscapeFacts)
    (before : List Stmt) :
    before.foldl EscapeScope.afterStatement (function.escapeScope mode known) =
      (function.scopeAt mode before).knowing known := by
  rw [escapeScope_knowing, EscapeScope.foldl_knowing]
  rfl

end FunctionDef

end ReferenceSemantics
