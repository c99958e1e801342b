import ReferenceSemantics.Escape.Classify
import ReferenceSemantics.Proofs.Escape.Findings
import ReferenceSemantics.Proofs.Escape.Settled

set_option autoImplicit false

/-!
The sites that the classification comes upon.

The rules of a round pass every parameter, named result and declaration and every `new` expression,
however deep, whatever is known and in either mode. Each round therefore notes every site of the
program, as often as it is written there, and no other.
-/

namespace ReferenceSemantics

namespace EscapeRule

variable {α β : Type}

/-- The rule comes upon these sites, whatever the facts are. -/
def Visits (rule : EscapeRule α) (sites : List SiteId) : Prop :=
  ∀ facts : EscapeFacts, (rule.visited facts).Perm sites

namespace Visits

variable {first : EscapeRule α} {next : α → EscapeRule β} {sites more : List SiteId}

theorem pure (value : α) : Visits (pure value) [] := fun _ => .refl _

theorem get : Visits get [] := fun _ => .refl _

theorem hold (holder : Loc) (held : List Loc) : Visits (hold holder held) [] := fun _ => .refl _

theorem escape (locs : List Loc) (reason : EscapeReason) : Visits (escape locs reason) [] :=
  fun _ => .refl _

theorem visit (site : SiteId) : Visits (visit site) [site] := fun _ => .refl _

theorem bind (start : Visits first sites) (rest : ∀ value, Visits (next value) more) :
    Visits (first >>= next) (sites ++ more) :=
  fun facts => (start facts).append (rest _ _)

theorem followed (start : Visits first sites) (rest : ∀ value, Visits (next value) []) :
    Visits (first >>= next) sites :=
  List.append_nil sites ▸ start.bind rest

theorem perm (visits : Visits first sites) (same : sites.Perm more) : Visits first more :=
  fun facts => (visits facts).trans same

theorem forM {items : List α} {rule : α → EscapeRule Unit} {sitesOf : α → List SiteId}
    (each : ∀ item, Visits (rule item) (sitesOf item)) :
    Visits (items.forM rule) (items.flatMap sitesOf) := by
  induction items with
  | nil => exact Visits.pure ()
  | cons item items inductionHypothesis =>
      rw [List.flatMap_cons]
      exact Visits.bind (each item) fun _ => inductionHypothesis

end Visits

end EscapeRule

open EscapeRule

namespace EscapeScope

variable (scope : EscapeScope)

theorem retain_visits (callee : String) (param : Nat) (locs : List Loc) :
    Visits (scope.retain callee param locs) [] := by
  unfold retain
  split
  · exact .escape _ _
  · exact .pure ()

mutual

theorem placeAddrs_visits : ∀ place : Place,
    Visits (scope.placeAddrs place) (place.parts.filterMap Expr.newSite?)
  | .var _ => by
      rw [placeAddrs, Place.parts]
      exact .pure _
  | .field base _ => by
      rw [placeAddrs, Place.parts]
      exact (placeAddrs_visits base).followed fun _ => Visits.get.followed fun _ => .pure _
  | .deref pointer => by
      rw [placeAddrs, Place.parts]
      exact addrs_visits pointer

theorem addrs_visits : ∀ expr : Expr,
    Visits (scope.addrs expr) (expr.parts.filterMap Expr.newSite?)
  | .lit _ | .nil => by
      rw [addrs, Expr.parts]
      exact .pure _
  | .var _ => by
      rw [addrs, Expr.parts]
      exact Visits.get.followed fun _ => .pure _
  | .field base _ | .deref base => by
      rw [addrs, Expr.parts]
      exact (addrs_visits base).followed fun _ => Visits.get.followed fun _ => .pure _
  | .addrOf place => by
      rw [addrs, Expr.parts]
      exact placeAddrs_visits place
  | .new init site => by
      rw [addrs, Expr.parts]
      refine (Visits.visit site).bind fun _ => ?_
      exact (addrs_visits init).followed fun _ => (Visits.hold _ _).followed fun _ => .pure _
  | .composite _ fields => by
      rw [addrs, Expr.parts]
      exact fieldsAddrs_visits fields
  | .sliceLit elems _ => by
      rw [addrs, Expr.parts]
      exact (storeOutside_visits elems).followed fun _ => .pure _
  | .makeSlice _ _ zero => by
      rw [addrs, Expr.parts]
      exact (addrs_visits zero).followed fun _ => (Visits.escape _ _).followed fun _ => .pure _
  | .mapLit entries => by
      rw [addrs, Expr.parts]
      exact (storeEntries_visits entries).followed fun _ => .pure _
  | .index base index => by
      rw [addrs, Expr.parts, List.filterMap_cons_none rfl, List.filterMap_append]
      exact (addrs_visits base).bind fun _ => (addrs_visits index).followed fun _ => .pure _
  | .lookup base key default => by
      rw [addrs, Expr.parts, List.filterMap_cons_none rfl, List.filterMap_append,
        List.filterMap_append, List.append_assoc]
      refine (addrs_visits base).bind fun _ => ?_
      exact (addrs_visits key).bind fun _ => addrs_visits default
  | .len base | .cap base | .reslice base _ _ | .isNil base => by
      rw [addrs, Expr.parts]
      exact (addrs_visits base).followed fun _ => .pure _
  | .boxed _ value => by
      rw [addrs, Expr.parts]
      exact addrs_visits value
  | .call callee args => by
      rw [addrs, Expr.parts]
      exact (passArgs_visits callee 0 args).followed fun _ => Visits.get.followed fun _ => .pure _

theorem fieldsAddrs_visits : ∀ fields : List (String × Expr),
    Visits (scope.fieldsAddrs fields) ((partsOfFields fields).filterMap Expr.newSite?)
  | [] => by
      rw [fieldsAddrs, partsOfFields]
      exact .pure _
  | (_, value) :: fields => by
      rw [fieldsAddrs, partsOfFields, List.filterMap_append]
      exact (addrs_visits value).bind fun _ => (fieldsAddrs_visits fields).followed fun _ => .pure _

theorem storeOutside_visits : ∀ values : List Expr,
    Visits (scope.storeOutside values) ((partsOfExprs values).filterMap Expr.newSite?)
  | [] => by
      rw [storeOutside, partsOfExprs]
      exact .pure _
  | value :: values => by
      rw [storeOutside, partsOfExprs, List.filterMap_append]
      refine (addrs_visits value).bind fun _ => ?_
      exact (Visits.escape _ _).bind fun _ => storeOutside_visits values

theorem storeEntries_visits : ∀ entries : List (Expr × Expr),
    Visits (scope.storeEntries entries) ((partsOfEntries entries).filterMap Expr.newSite?)
  | [] => by
      rw [storeEntries, partsOfEntries]
      exact .pure _
  | (key, value) :: entries => by
      rw [storeEntries, partsOfEntries, List.filterMap_append, List.filterMap_append,
        List.append_assoc]
      refine (addrs_visits key).bind fun _ => (addrs_visits value).bind fun _ => ?_
      exact (Visits.escape _ _).bind fun _ => storeEntries_visits entries

theorem passArgs_visits (callee : String) : ∀ (param : Nat) (args : List Expr),
    Visits (scope.passArgs callee param args) ((partsOfExprs args).filterMap Expr.newSite?)
  | _, [] => by
      rw [passArgs, partsOfExprs]
      exact .pure _
  | param, arg :: args => by
      rw [passArgs, partsOfExprs, List.filterMap_append]
      refine (addrs_visits arg).bind fun _ => (scope.retain_visits callee param _).bind fun _ => ?_
      exact (passArgs_visits callee (param + 1) args).followed fun _ => .pure _

end

variable {scope}

/-- A local composite has no parts to pass. -/
theorem parts_of_inlineLocal? {target : Place} {site : Loc}
    (inline : scope.inlineLocal? target = some site) : target.parts = [] := by
  cases target with
  | var _ => rw [Place.parts]
  | field _ _ => cases inline
  | deref _ => cases inline

theorem statement_visits (stmt : Stmt) :
    Visits (scope.statement stmt) (stmt.sites scope.function) := by
  unfold statement Stmt.sites Stmt.parts Stmt.declared?
  cases stmt with
  | declare decl =>
      dsimp only
      refine (Visits.visit (decl.siteId scope.function)).bind fun _ => ?_
      unfold VarDecl.parts
      cases decl.init with
      | none => exact .pure ()
      | some init => exact (scope.addrs_visits init).followed fun _ => .hold _ _
  | assign target value =>
      refine (scope.addrs_visits value).followed fun _ => ?_
      split
      · exact .hold _ _
      · exact .escape _ _
  | setField target name value =>
      change Visits _ ((target.parts ++ value.parts).filterMap Expr.newSite?)
      rw [List.filterMap_append]
      refine Visits.perm ?_ List.perm_append_comm
      refine (scope.addrs_visits value).bind fun _ => ?_
      split
      next inline =>
        rw [parts_of_inlineLocal? inline]
        exact .hold _ _
      next => exact (scope.placeAddrs_visits target).followed fun _ => .escape _ _
  | store pointer value =>
      dsimp only
      rw [List.filterMap_append]
      refine (scope.addrs_visits pointer).bind fun _ => ?_
      exact (scope.addrs_visits value).followed fun _ => .escape _ _
  | setIndex target index value =>
      dsimp only
      rw [List.filterMap_append, List.filterMap_append, List.append_assoc]
      refine (scope.placeAddrs_visits target).bind fun _ => ?_
      refine (scope.addrs_visits index).bind fun _ => ?_
      exact (scope.addrs_visits value).followed fun _ => .escape _ _
  | setKey target key value =>
      dsimp only
      rw [List.filterMap_append, List.filterMap_append, List.append_assoc]
      refine (scope.placeAddrs_visits target).bind fun _ => ?_
      refine (scope.addrs_visits key).bind fun _ => ?_
      exact (scope.addrs_visits value).followed fun _ => .escape _ _
  | append target values =>
      dsimp only
      rw [List.filterMap_append]
      exact (scope.placeAddrs_visits target).bind fun _ => scope.storeOutside_visits values
  | call callee args => exact (scope.passArgs_visits callee 0 args).followed fun _ => .pure ()
  | ret value =>
      cases value with
      | none => exact .pure ()
      | some value => exact (scope.addrs_visits value).followed fun _ => .escape _ _

theorem body_visits (stmts : List Stmt) : ∀ scope : EscapeScope,
    Visits (scope.body stmts) (stmts.flatMap (Stmt.sites scope.function)) := by
  induction stmts with
  | nil =>
      intro scope
      rw [body]
      exact .pure ()
  | cons stmt stmts inductionHypothesis =>
      intro scope
      have rest := inductionHypothesis (scope.afterStatement stmt)
      rw [scope.function_afterStatement stmt] at rest
      rw [body, List.flatMap_cons]
      exact (statement_visits stmt).bind fun _ => rest

end EscapeScope

namespace FunctionDef

variable (function : FunctionDef)

theorem holdParams_visits (params : List Param) : ∀ index : Nat,
    Visits (function.holdParams index params)
      (params.map fun param => defaultSite function.name param.name) := by
  induction params with
  | nil =>
      intro index
      rw [holdParams]
      exact .pure ()
  | cons param params inductionHypothesis =>
      intro index
      rw [holdParams, List.map_cons]
      refine (Visits.visit (defaultSite function.name param.name)).bind fun _ => ?_
      refine (Visits.hold _ _).bind fun _ => ?_
      exact (Visits.hold _ _).bind fun _ => inductionHypothesis (index + 1)

theorem escapeResult_visits :
    Visits function.escapeResult
      (function.namedResult.toList.map (defaultSite function.name)) := by
  unfold escapeResult
  cases function.namedResult with
  | none => exact .pure ()
  | some name =>
      exact (Visits.visit _).bind fun _ => Visits.get.followed fun _ => .escape _ _

theorem escapeRules_visits (mode : EscapeMode) (known : EscapeFacts) :
    Visits (function.escapeRules mode known) function.sites := by
  unfold escapeRules sites slotNames
  rw [List.map_append, List.map_map, List.append_assoc]
  refine (function.holdParams_visits function.params 0).bind fun _ => ?_
  refine function.escapeResult_visits.bind fun _ => ?_
  have body := EscapeScope.body_visits function.body (function.escapeScope mode known)
  rwa [function.function_escapeScope] at body

end FunctionDef

namespace Program

variable {program : Program} {mode : EscapeMode} {site : SiteId}

theorem escapeGlobal_visits (mode : EscapeMode) (known : EscapeFacts) (decl : VarDecl) :
    Visits (escapeGlobal mode known decl) (decl.parts.filterMap Expr.newSite?) := by
  unfold escapeGlobal VarDecl.parts
  cases decl.init with
  | none => exact .pure ()
  | some init => exact (EscapeScope.addrs_visits _ init).followed fun _ => .escape _ _

theorem escapeHeld_visits : Visits escapeHeld [] :=
  Visits.get.followed fun _ => .escape _ _

/-- A round comes upon the sites of the program, each as often as it is written there. -/
theorem visitedSites_perm (program : Program) (mode : EscapeMode) (facts : EscapeFacts) :
    (program.visitedSites mode facts).Perm program.sites := by
  have visits : Visits (program.escapeRules mode facts) program.sites := by
    unfold escapeRules sites
    refine (Visits.forM fun decl => escapeGlobal_visits mode facts decl).bind fun _ => ?_
    refine (Visits.forM fun function => ?_).followed fun _ => escapeHeld_visits
    exact function.escapeRules_visits mode facts
  exact visits facts

theorem mem_foldl_insert {found : List SiteId} : ∀ {sites : List SiteId},
    site ∈ found.foldl (·.insert ·) sites ↔ site ∈ sites ∨ site ∈ found := by
  induction found with
  | nil => simp
  | cons other found inductionHypothesis =>
      intro sites
      rw [List.foldl_cons, inductionHypothesis, List.mem_insert_iff, List.mem_cons]
      exact or_assoc.trans or_left_comm

theorem mem_classifierRound {classifier : Classifier} :
    site ∈ (program.classifierRound mode classifier).sites ↔
      site ∈ classifier.sites ∨ site ∈ program.sites :=
  mem_foldl_insert.trans (or_congr_right (program.visitedSites_perm mode _).mem_iff)

theorem mem_classifierFrom {classifier : Classifier} :
    site ∈ (program.classifierFrom mode classifier).sites ↔
      site ∈ classifier.sites ∨ site ∈ program.sites := by
  fun_induction classifierFrom program mode classifier with
  | case1 classifier next grows inductionHypothesis =>
      rw [inductionHypothesis, mem_classifierRound, or_assoc, or_self]
  | case2 classifier next settled => exact mem_classifierRound

/-- The rounds come upon the sites of the program and no others. -/
theorem mem_classifier_sites (program : Program) (mode : EscapeMode) (site : SiteId) :
    site ∈ (program.classifier mode).sites ↔ site ∈ program.sites :=
  mem_classifierFrom.trans (or_iff_right List.not_mem_nil)

end Program

end ReferenceSemantics
