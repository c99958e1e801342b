import Mathlib
import ReferenceSemantics.Program.CallGraph
import ReferenceSemantics.Proofs.Program.Mentions

set_option autoImplicit false

/-!
The search for cycles among calls is exact.

A search is followed by rules that do not bound it: every search has a derivation, so it ends. One
that ends well puts a function on its list after the functions it calls, so nothing on the list
leads back to itself. One that reports a call has come to its caller along calls, from the function
that is called.
-/

namespace ReferenceSemantics

namespace CallGraph

variable {graph : CallGraph}

/-- The first name has a definition with a call to the second. -/
def Calls (graph : CallGraph) (caller callee : String) : Prop :=
  ∃ callees, graph.callees? caller = some callees ∧ callee ∈ callees

/-! ### Searching -/

/-- What is searched: a function, or the callees of one that are left. -/
inductive Goal where
  | function (name : String)
  | callees (via : String) (names : List String)

/-- The search comes to an end, with more functions that reach no cycle or with a call that closes
one. -/
inductive Searches (graph : CallGraph) :
    (path done : List String) → Goal → Except WellFormednessError (List String) → Prop
  | known {path done : List String} {name : String} (known : name ∈ done) :
      Searches graph path done (.function name) (.ok done)
  | underWay {path done : List String} {name : String} (fresh : name ∉ done)
      (onPath : name ∈ path) :
      Searches graph path done (.function name) (.error (.recursiveCall name name))
  | undefined {path done : List String} {name : String} (fresh : name ∉ done)
      (offPath : name ∉ path) (undefined : graph.callees? name = none) :
      Searches graph path done (.function name) (.ok (name :: done))
  | enter {path done callees : List String} {name : String}
      {outcome : Except WellFormednessError (List String)} (fresh : name ∉ done)
      (offPath : name ∉ path) (defined : graph.callees? name = some callees)
      (inner : Searches graph (name :: path) done (.callees name callees) outcome) :
      Searches graph path done (.function name) ((name :: ·) <$> outcome)
  | finish {path done : List String} {via : String} :
      Searches graph path done (.callees via []) (.ok done)
  | close {path done names : List String} {via callee : String} (onPath : callee ∈ path) :
      Searches graph path done (.callees via (callee :: names))
        (.error (.recursiveCall callee via))
  | fail {path done names : List String} {via callee : String} {error : WellFormednessError}
      (offPath : callee ∉ path)
      (first : Searches graph path done (.function callee) (.error error)) :
      Searches graph path done (.callees via (callee :: names)) (.error error)
  | next {path done middle names : List String} {via callee : String}
      {outcome : Except WellFormednessError (List String)} (offPath : callee ∉ path)
      (first : Searches graph path done (.function callee) (.ok middle))
      (rest : Searches graph path middle (.callees via names) outcome) :
      Searches graph path done (.callees via (callee :: names)) outcome

mutual

/-- Every search from a function ends, as the search that is run does. -/
theorem searches_visit (path done : List String) (name : String) :
    graph.Searches path done (.function name) (graph.visit path done name) := by
  rw [visit]
  split
  next known => exact .known (by simpa using known)
  next fresh =>
    have fresh : name ∉ done := by simpa using fresh
    split
    next onPath => exact .underWay fresh onPath
    next offPath =>
      split
      next undefined => exact .undefined fresh offPath undefined
      next callees defined =>
        have fewer := unvisited_cons_lt defined offPath
        have inner := searches_visitAll (name :: path) done name callees
        have entered := Searches.enter fresh offPath defined inner
        cases ended : graph.visitAll (name :: path) done name callees with
        | error error | ok reached =>
            rw [ended] at entered
            exact entered
termination_by (graph.unvisited path, 0)
decreasing_by exact .left _ _ ‹graph.unvisited (name :: path) < graph.unvisited path›

theorem searches_visitAll (path done : List String) (via : String) (names : List String) :
    graph.Searches path done (.callees via names) (graph.visitAll path done via names) := by
  match names with
  | [] =>
      rw [visitAll]
      exact .finish
  | callee :: names =>
      rw [visitAll]
      split
      next onPath => exact .close (by simpa using onPath)
      next offPath =>
        have offPath : callee ∉ path := by simpa using offPath
        have first := searches_visit path done callee
        cases ended : graph.visit path done callee with
        | error error =>
            rw [ended] at first
            exact .fail offPath first
        | ok middle =>
            rw [ended] at first
            exact .next offPath first (searches_visitAll path middle via names)
termination_by (graph.unvisited path, names.length + 1)

end

/-! ### Searches that end well -/

/-- What follows the last occurrence of a name. -/
def below (name : String) : List String → List String
  | [] => []
  | _ :: rest => if name ∈ rest then below name rest else rest

theorem not_mem_below (name : String) (done : List String) : name ∉ below name done := by
  induction done with
  | nil => exact List.not_mem_nil
  | cons other rest inductionHypothesis =>
      unfold below
      split
      next => exact inductionHypothesis
      next absent => exact absent

theorem below_subset (name : String) (done : List String) : below name done ⊆ done := by
  induction done with
  | nil => exact List.Subset.refl _
  | cons other rest inductionHypothesis =>
      unfold below
      split
      · exact List.subset_cons_of_subset _ inductionHypothesis
      · exact List.subset_cons_self _ _

theorem below_mono {name other : String} {done : List String} (member : other ∈ below name done) :
    below other done ⊆ below name done := by
  induction done with
  | nil => cases member
  | cons first rest inductionHypothesis =>
      unfold below at member ⊢
      split at member
      next later =>
        rw [if_pos later, if_pos (below_subset name rest member)]
        exact inductionHypothesis member
      next absent =>
        rw [if_neg absent, if_pos member]
        exact below_subset other rest

/-- A function comes after the functions it calls. -/
def Ordered (graph : CallGraph) (done : List String) : Prop :=
  ∀ name ∈ done, ∀ callees, graph.callees? name = some callees → callees ⊆ below name done

theorem Ordered.cons {done : List String} {name : String} (ordered : graph.Ordered done)
    (known : ∀ callees, graph.callees? name = some callees → callees ⊆ done) :
    graph.Ordered (name :: done) := by
  intro other member callees called
  unfold below
  split
  next later => exact ordered other later callees called
  next absent =>
    rcases List.mem_cons.mp member with rfl | later
    · exact known callees called
    · exact absurd later absent

/-- A search that finds no cycle adds to an ordered list. -/
def Extends (graph : CallGraph) (done reached : List String) : Prop :=
  done ⊆ reached ∧ (graph.Ordered done → graph.Ordered reached)

theorem Extends.refl (done : List String) : graph.Extends done done := ⟨List.Subset.refl _, id⟩

theorem Extends.trans {done middle reached : List String} (first : graph.Extends done middle)
    (rest : graph.Extends middle reached) : graph.Extends done reached :=
  ⟨List.Subset.trans first.1 rest.1, fun ordered => rest.2 (first.2 ordered)⟩

theorem Extends.cons {done reached : List String} {name : String}
    (first : graph.Extends done reached)
    (known : ∀ callees, graph.callees? name = some callees → callees ⊆ reached) :
    graph.Extends done (name :: reached) :=
  ⟨List.subset_cons_of_subset _ first.1, fun ordered => (first.2 ordered).cons known⟩

/-- The functions that are searched from. -/
def Goal.names : Goal → List String
  | function name => [name]
  | callees _ names => names

/-- A search that ends well has put all it was to search on the list. -/
theorem Searches.extends {path done reached : List String} {goal : Goal}
    {outcome : Except WellFormednessError (List String)}
    (searches : graph.Searches path done goal outcome) (ended : outcome = .ok reached) :
    graph.Extends done reached ∧ ∀ name ∈ goal.names, name ∈ reached := by
  induction searches generalizing reached with
  | known known =>
      cases ended
      exact ⟨.refl _, List.forall_mem_singleton.mpr known⟩
  | @undefined _ done name _ _ undefined =>
      cases ended
      refine ⟨(Extends.refl done).cons ?_, List.forall_mem_singleton.mpr (List.mem_cons_self ..)⟩
      intro callees called
      cases undefined.symm.trans called
  | @enter _ _ callees _ outcome _ _ defined _ inductionHypothesis =>
      cases outcome with
      | error error => cases ended
      | ok inner =>
          cases ended
          obtain ⟨grown, all⟩ := inductionHypothesis rfl
          refine ⟨grown.cons ?_, List.forall_mem_singleton.mpr (List.mem_cons_self ..)⟩
          intro others called
          cases defined.symm.trans called
          exact all
  | finish =>
      cases ended
      exact ⟨.refl _, List.forall_mem_nil _⟩
  | next _ _ _ ofFirst ofRest =>
      obtain ⟨grown, here⟩ := ofFirst rfl
      obtain ⟨further, others⟩ := ofRest ended
      exact ⟨grown.trans further,
        List.forall_mem_cons.mpr ⟨further.1 (List.forall_mem_singleton.mp here), others⟩⟩
  | underWay | close | fail => cases ended

/-! ### Searches that report a call -/

/-- Every function of the path is called by the one after it, so it leads to the innermost. -/
inductive Leads (graph : CallGraph) : List String → Prop
  | nil : Leads graph []
  | single (name : String) : Leads graph [name]
  | cons {name caller : String} {path : List String} (called : graph.Calls caller name)
      (leads : Leads graph (caller :: path)) : Leads graph (name :: caller :: path)

theorem Leads.reaches {name other : String} {path : List String}
    (leads : graph.Leads (name :: path)) (member : other ∈ name :: path) :
    Relation.ReflTransGen graph.Calls other name := by
  induction path generalizing name with
  | nil =>
      cases List.mem_singleton.mp member
      exact .refl
  | cons caller path inductionHypothesis =>
      rcases List.mem_cons.mp member with rfl | later
      · exact .refl
      · cases leads with
        | cons called leads => exact (inductionHypothesis leads later).tail called

/-- The call closes a cycle: it is there, and the callee leads to its caller. -/
def ClosesCycle (graph : CallGraph) (function via : String) : Prop :=
  graph.Calls via function ∧ Relation.ReflTransGen graph.Calls function via

/-- The path has come to what is searched: a function may be entered from it, or it ends in the
caller of what is left. -/
def Goal.After (graph : CallGraph) (path : List String) : Goal → Prop
  | function name => name ∉ path ∧ graph.Leads (name :: path)
  | callees via names =>
      (∀ name ∈ names, graph.Calls via name) ∧ path.head? = some via ∧ graph.Leads path

/-- A search reports nothing but a call that closes a cycle. -/
theorem Searches.reports {path done : List String} {goal : Goal} {error : WellFormednessError}
    {outcome : Except WellFormednessError (List String)}
    (searches : graph.Searches path done goal outcome) (after : goal.After graph path)
    (ended : outcome = .error error) :
    ∃ function via, error = .recursiveCall function via ∧ graph.ClosesCycle function via := by
  induction searches with
  | underWay _ onPath => exact absurd onPath after.1
  | @enter _ _ callees name outcome _ _ defined _ inductionHypothesis =>
      cases outcome with
      | ok _ => cases ended
      | error early =>
          cases ended
          exact inductionHypothesis ⟨fun _ member => ⟨callees, defined, member⟩, rfl, after.2⟩ rfl
  | @close path _ names via callee onPath =>
      cases ended
      obtain ⟨called, last, leads⟩ := after
      refine ⟨callee, via, rfl, called callee (List.mem_cons_self ..), ?_⟩
      cases path with
      | nil => cases last
      | cons _ path =>
          cases last
          exact leads.reaches onPath
  | @fail path _ names via callee _ offPath _ inductionHypothesis =>
      obtain ⟨called, last, leads⟩ := after
      refine inductionHypothesis ⟨offPath, ?_⟩ ended
      cases path with
      | nil => cases last
      | cons _ path =>
          cases last
          exact .cons (called callee (List.mem_cons_self ..)) leads
  | next _ _ _ _ ofRest =>
      obtain ⟨called, last, leads⟩ := after
      exact ofRest ⟨fun name member => called name (List.mem_cons_of_mem _ member), last, leads⟩
        ended
  | known | undefined | finish => cases ended

/-! ### The whole graph -/

/-- Searching from some functions, one after the other. -/
theorem foldlM_visit {nodes : CallGraph} :
    ∀ (done : List String),
      match nodes.foldlM (fun done node => graph.visit [] done node.1) done with
      | .ok reached => graph.Extends done reached ∧ nodes.map (·.1) ⊆ reached
      | .error error =>
          ∃ function via, error = .recursiveCall function via ∧
            graph.ClosesCycle function via := by
  induction nodes with
  | nil => exact fun done => ⟨.refl done, List.nil_subset _⟩
  | cons node nodes inductionHypothesis =>
      intro done
      have searches := graph.searches_visit [] done node.1
      rw [List.foldlM_cons]
      cases first : graph.visit [] done node.1 with
      | error error => exact searches.reports ⟨List.not_mem_nil, .single _⟩ first
      | ok middle =>
          obtain ⟨grown, here⟩ := searches.extends first
          have rest := inductionHypothesis middle
          rw [show (Except.ok middle >>= fun done => nodes.foldlM _ done) =
            nodes.foldlM (fun done node => graph.visit [] done node.1) middle from rfl]
          cases folded : nodes.foldlM (fun done node => graph.visit [] done node.1) middle with
          | error error =>
              rw [folded] at rest
              exact rest
          | ok reached =>
              rw [folded] at rest
              obtain ⟨further, others⟩ := rest
              have here := further.1 (List.forall_mem_singleton.mp here)
              exact ⟨grown.trans further, List.cons_subset.mpr ⟨here, others⟩⟩

/-- A graph without cycles has an ordered list of all its functions. -/
theorem exists_ordered (checked : graph.check = .ok ()) :
    ∃ done, graph.Ordered done ∧ graph.map (·.1) ⊆ done := by
  have folded := @foldlM_visit graph graph []
  unfold check at checked
  cases ran : graph.foldlM (fun done node => graph.visit [] done node.1) [] with
  | error error =>
      rw [ran] at checked
      cases checked
  | ok done =>
      rw [ran] at folded
      exact ⟨done, folded.1.2 (List.forall_mem_nil _), folded.2⟩

/-- Nothing but a call that closes a cycle is reported. -/
theorem check_reports {error : WellFormednessError} (refused : graph.check = .error error) :
    ∃ function via, error = .recursiveCall function via ∧ graph.ClosesCycle function via := by
  have folded := @foldlM_visit graph graph []
  unfold check at refused
  cases ran : graph.foldlM (fun done node => graph.visit [] done node.1) [] with
  | error early =>
      rw [ran] at refused folded
      cases refused
      exact folded
  | ok done =>
      rw [ran] at refused
      cases refused

/-- The error that reports a cycle. -/
def ReportsCycle (error : WellFormednessError) : Prop := ∃ name via, error = .recursiveCall name via

theorem check_refuses {error : WellFormednessError} (refused : graph.check = .error error) :
    ReportsCycle error := by
  obtain ⟨function, via, same, -⟩ := check_reports refused
  exact ⟨function, via, same⟩

theorem mem_names_of_calls {caller callee : String} (calls : graph.Calls caller callee) :
    caller ∈ graph.map (·.1) := by
  obtain ⟨callees, defined, -⟩ := calls
  obtain ⟨node, found, -⟩ := Option.map_eq_some_iff.mp defined
  refine List.mem_map.mpr ⟨node, List.mem_reverse.mp (List.mem_of_find?_eq_some found), ?_⟩
  simpa using List.find?_some found

/-- In an ordered list of all functions a function stands before those it leads to. -/
theorem Ordered.mem_below {done : List String} (ordered : graph.Ordered done)
    (all : graph.map (·.1) ⊆ done) {name other : String}
    (leads : Relation.TransGen graph.Calls name other) : other ∈ below name done := by
  have after {caller callee : String} (calls : graph.Calls caller callee) :
      callee ∈ below caller done := by
    obtain ⟨callees, defined, called⟩ := id calls
    exact ordered caller (all (mem_names_of_calls calls)) callees defined called
  induction leads with
  | single calls => exact after calls
  | tail _ calls inductionHypothesis => exact below_mono inductionHypothesis (after calls)

/-- A graph passes exactly if no function leads to itself. -/
theorem check_eq_ok_iff :
    graph.check = .ok () ↔ ∀ name, ¬ Relation.TransGen graph.Calls name name := by
  constructor
  · intro checked name cycle
    obtain ⟨done, ordered, all⟩ := exists_ordered checked
    exact not_mem_below name done (ordered.mem_below all cycle)
  · intro acyclic
    cases decided : graph.check with
    | ok _ => rfl
    | error error =>
        obtain ⟨function, via, -, called, leads⟩ := check_reports decided
        exact absurd (Relation.TransGen.tail' leads called) (acyclic function)

end CallGraph

/-! ### Calls as they are written -/

/-- A call to the function is written in the body, as a statement or in an expression at any
depth. -/
inductive FunctionDef.WritesCall (function : FunctionDef) (callee : String) : Prop
  | statement {args : List Expr} (member : .call callee args ∈ function.body)
  | expression {stmt : Stmt} {whole : Expr} {args : List Expr} (member : stmt ∈ function.body)
      (direct : whole ∈ stmt.operands) (inside : Expr.Inside (.call callee args) whole)

theorem Stmt.mem_callees {stmt : Stmt} {callee : String} :
    callee ∈ stmt.callees ↔
      (∃ args, stmt = .call callee args) ∨
        ∃ whole ∈ stmt.operands, ∃ args, Expr.Inside (.call callee args) whole := by
  have inParts : callee ∈ stmt.parts.filterMap Expr.callee? ↔
      ∃ whole ∈ stmt.operands, ∃ args, Expr.Inside (.call callee args) whole := by
    rw [List.mem_filterMap, stmt.parts_eq]
    constructor
    · rintro ⟨part, member, called⟩
      obtain ⟨whole, direct, inside⟩ := List.mem_flatMap.mp member
      cases part with
      | call other args =>
          cases called
          exact ⟨whole, direct, args, Expr.mem_parts.mp inside⟩
      | _ => cases called
    · rintro ⟨whole, direct, args, inside⟩
      exact ⟨.call callee args, List.mem_flatMap.mpr ⟨whole, direct, Expr.mem_parts.mpr inside⟩,
        rfl⟩
  cases stmt with
  | call other args =>
      rw [callees, List.mem_cons, ← inParts, Stmt.parts]
      refine or_congr_left ⟨fun same => ⟨args, same ▸ rfl⟩, ?_⟩
      rintro ⟨_, same⟩
      cases same
      rfl
  | _ =>
      refine inParts.trans (or_iff_right ?_).symm
      rintro ⟨_, same⟩
      cases same

theorem FunctionDef.writesCall_iff {function : FunctionDef} {callee : String} :
    function.WritesCall callee ↔ callee ∈ function.callees := by
  rw [mem_callees_iff]
  constructor
  · rintro (@⟨args, member⟩ | @⟨stmt, whole, args, member, direct, inside⟩)
    · exact ⟨_, member, Stmt.mem_callees.mpr (.inl ⟨args, rfl⟩)⟩
    · exact ⟨stmt, member, Stmt.mem_callees.mpr (.inr ⟨whole, direct, args, inside⟩)⟩
  · rintro ⟨stmt, member, called⟩
    rcases Stmt.mem_callees.mp called with ⟨args, rfl⟩ | ⟨whole, direct, args, inside⟩
    · exact .statement member
    · exact .expression member direct inside

namespace Program

/-- In the body of the first function a call to the second is written. -/
def WritesCall (program : Program) (caller callee : String) : Prop :=
  ∃ function ∈ program.functions, function.name = caller ∧ function.WritesCall callee

variable {program : Program}

theorem callGraph_calls (distinct : (program.functions.map (·.name)).Nodup) :
    program.callGraph.Calls = program.WritesCall := by
  funext caller callee
  apply propext
  constructor
  · rintro ⟨callees, defined, called⟩
    obtain ⟨node, found, rfl⟩ := Option.map_eq_some_iff.mp defined
    have named : node.1 = caller := by simpa using List.find?_some found
    obtain ⟨function, member, rfl⟩ :=
      List.mem_map.mp (List.mem_reverse.mp (List.mem_of_find?_eq_some found))
    exact ⟨function, member, named, FunctionDef.writesCall_iff.mpr called⟩
  · rintro ⟨function, member, rfl, called⟩
    have listed : (function.name, function.callees) ∈ program.callGraph :=
      List.mem_map_of_mem (f := fun function => (function.name, function.callees)) member
    cases found : program.callGraph.reverse.find? (·.1 == function.name) with
    | none =>
        have absent := List.find?_eq_none.mp found _ (List.mem_reverse.mpr listed)
        exact absurd (beq_self_eq_true _) absent
    | some node =>
        have named : node.1 = function.name := by simpa using List.find?_some found
        obtain ⟨other, defined, rfl⟩ :=
          List.mem_map.mp (List.mem_reverse.mp (List.mem_of_find?_eq_some found))
        obtain rfl := List.inj_on_of_nodup_map distinct defined member named
        refine ⟨other.callees, ?_, FunctionDef.writesCall_iff.mp called⟩
        rw [CallGraph.callees?, found]
        rfl

/-- The search for cycles is exact where no name is defined twice: it accepts exactly if no function
leads to itself along the calls in the bodies, and a call that it reports is there and closes a
cycle. Nothing else is reported, and on any graph, with whatever names on the path and on the list,
the search comes to its end by finitely many steps. -/
theorem callGraph_check_exact (distinct : (program.functions.map (·.name)).Nodup) :
    (program.callGraph.check = .ok () ↔ ∀ name, ¬ Relation.TransGen program.WritesCall name name) ∧
      (∀ error, program.callGraph.check = .error error →
        ∃ function via, error = .recursiveCall function via ∧ program.WritesCall via function ∧
          Relation.ReflTransGen program.WritesCall function via) ∧
      ∀ (graph : CallGraph) (path done : List String) (name : String),
        graph.Searches path done (.function name) (graph.visit path done name) := by
  refine ⟨?_, fun error refused => ?_, fun graph path done name =>
    graph.searches_visit path done name⟩
  · rw [← callGraph_calls distinct]
    exact CallGraph.check_eq_ok_iff
  · obtain ⟨function, via, same, called, leads⟩ := CallGraph.check_reports refused
    rw [callGraph_calls distinct] at called leads
    exact ⟨function, via, same, called, leads⟩

/-- Two functions that call each other, one in a place and the other deep in an operand. -/
def mutualProgram : Program :=
  ⟨[], [.new "main" [] [.call "f" [.nil]],
    .new "f" [⟨"p", .pointer⟩] [.append (.field (.deref (.call "g" [])) "a") []],
    .new "g" [] [.ret (some (.index (.var "s") (.len (.boxed none (.call "f" [.nil])))))]]⟩

theorem mutualProgram_refused :
    mutualProgram.callGraph.check = .error (.recursiveCall "f" "g") := by
  cbv

theorem callGraph_check_exact_mutual :
    (mutualProgram.functions.map (·.name)).Nodup ∧
      mutualProgram.callGraph.check = .error (.recursiveCall "f" "g") ∧
      mutualProgram.WritesCall "g" "f" ∧
      Relation.ReflTransGen mutualProgram.WritesCall "f" "g" := by
  have distinct : (mutualProgram.functions.map (·.name)).Nodup := by decide
  obtain ⟨-, reports, -⟩ := callGraph_check_exact distinct
  obtain ⟨function, via, same, called, leads⟩ := reports _ mutualProgram_refused
  cases same
  exact ⟨distinct, mutualProgram_refused, called, leads⟩

end Program

end ReferenceSemantics
