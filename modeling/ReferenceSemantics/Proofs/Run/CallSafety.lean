import ReferenceSemantics.Proofs.Program.WellFormed
import ReferenceSemantics.Proofs.Run.Alike
import ReferenceSemantics.Proofs.Run.Safe

set_option autoImplicit false

/-!
Calls of well-formed programs.

In a well-formed program every call finds its function and passes as many arguments as it has
parameters. A body hands back what the declared result promises: nothing where none is declared, and
a value of the kind where the result has no name, since every `return` carries one and the last
statement is a `return`. So a run can only fail at a call that is used for its value and whose
function has no result.
-/

namespace ReferenceSemantics

open Run

/-! ### What a call finds and hands back -/

/-- What a call hands back, as far as the declared result says. -/
def FunctionDef.Returns (function : FunctionDef) (result : Option Value) : Prop :=
  match function.result with
  | none => result = none
  | some ⟨none, kind⟩ => ∃ value, result = some value ∧ value.kind = kind
  | some ⟨some _, _⟩ => result.isSome

theorem FunctionDef.Returns.isSome_iff {function : FunctionDef} {result : Option Value}
    (returns : function.Returns result) : result.isSome ↔ function.result.isSome := by
  unfold Returns at returns
  split at returns
  next nothing =>
    rw [returns, nothing]
    exact Iff.rfl
  next kind unnamed =>
    obtain ⟨value, rfl, -⟩ := returns
    rw [unnamed]
    exact Iff.rfl
  next name kind named =>
    rw [named]
    exact iff_of_true returns rfl

/-- What a body hands over to its call. A named result is taken from its slot. -/
def FunctionDef.HandsOver (function : FunctionDef) (returned : Option Value) : Prop :=
  (function.result = none → returned = none) ∧
    ∀ kind, function.result = some ⟨none, kind⟩ → ∃ value, returned = some value ∧ value.kind = kind

/-- Only a `return` ends a body, and it hands over what the function may. -/
def Flow.Fits (function : FunctionDef) (stmt : Stmt) : Flow → Prop
  | next => ∀ value, stmt ≠ .ret value
  | returned value => function.HandsOver value

/-- A model finds a function of a well-formed program by its name. -/
theorem Program.WellFormed.function?_eq {program : Program} {entry : String} {config : Config}
    (wellFormed : program.WellFormed entry) {function : FunctionDef}
    (member : function ∈ program.functions) :
    (Model.new program config).function? function.name = some function := by
  cases found : (Model.new program config).function? function.name with
  | none =>
      have absent := List.find?_eq_none.mp found function (List.mem_reverse.mpr member)
      simp at absent
  | some other =>
      obtain ⟨defined, named⟩ := Program.of_function? found
      rw [List.inj_on_of_nodup_map wellFormed.functions defined member named]

/-! ### Expressions -/

/-- An expression may stand at a location: it keeps the rules for its form, and if it is a call then
it is one that the program has there. -/
def Program.Hosts (program : Program) (location : Location) (part : Expr) : Prop :=
  part.Formed program.functions ∧
    ∀ callee args, part = .call callee args → program.Uses callee location

/-- The expressions may all stand at the location. -/
def Program.HostsAll (program : Program) (location : Location) (parts : List Expr) : Prop :=
  ∀ part ∈ parts, program.Hosts location part

theorem Program.HostsAll.cons {program : Program} {location : Location} {part : Expr}
    {parts : List Expr} (hosts : program.HostsAll location (part :: parts)) :
    program.Hosts location part ∧ program.HostsAll location parts :=
  List.forall_mem_cons.mp hosts

theorem Program.HostsAll.append {program : Program} {location : Location}
    {first second : List Expr} (hosts : program.HostsAll location (first ++ second)) :
    program.HostsAll location first ∧ program.HostsAll location second :=
  List.forall_mem_append.mp hosts

theorem eq_append_of_getElem? {α : Type} {items : List α} {index : Nat} {item : α}
    (found : items[index]? = some item) :
    items = items.take index ++ item :: items.drop (index + 1) := by
  obtain ⟨bound, rfl⟩ := List.getElem?_eq_some_iff.mp found
  rw [← List.drop_eq_getElem_cons bound, List.take_append_drop]

/-- What stands in a statement of a well-formed program may stand there. -/
theorem Program.WellFormed.hosts_stmt {program : Program} {entry : String}
    (wellFormed : program.WellFormed entry) {function : FunctionDef}
    (member : function ∈ program.functions) {index : Nat} {stmt : Stmt}
    (found : function.body[index]? = some stmt) :
    (∀ part ∈ stmt.expressions, part.Formed program.functions) ∧
      program.HostsAll ⟨function.name, index⟩ stmt.parts := by
  have formed := wellFormed.expressions _ (.statement member (eq_append_of_getElem? found))
  refine ⟨formed, fun part inside => ⟨formed part (Stmt.parts_subset_expressions inside), ?_⟩⟩
  rintro callee args rfl
  exact .statement member rfl found inside

/-- What stands in an initialiser of a well-formed program may stand there. -/
theorem Program.WellFormed.hosts_decl {program : Program} {entry : String}
    (wellFormed : program.WellFormed entry) {index : Nat} {decl : VarDecl}
    (found : program.globals[index]? = some decl) :
    program.HostsAll ⟨globalsFrame, index⟩ decl.parts := by
  have formed := wellFormed.expressions _ (.initialiser (eq_append_of_getElem? found))
  refine fun part inside => ⟨formed part inside, ?_⟩
  rintro callee args rfl
  exact .initialiser rfl found inside

/-- The evaluator runs the functions of the program safely. -/
structure Evaluator.Serves (evaluator : Evaluator) (program : Program) : Prop where
  function? : ∀ function ∈ program.functions,
    evaluator.model.function? function.name = some function
  invoke : ∀ function ∈ program.functions, ∀ args callSite,
    Safe program (evaluator.invoke function args callSite) function.Returns

namespace Evaluator

variable {program : Program} {evaluator : Evaluator} (serves : evaluator.Serves program)
  (location : Location)

include serves

/-- A call that fits a definition finds it. -/
theorem function_safe {callee : String} {args : List Expr}
    (formed : Expr.Formed program.functions (.call callee args)) :
    Safe program (evaluator.model.function callee location) fun function =>
      function ∈ program.functions ∧ function.name = callee ∧
        function.params.length = args.length := by
  obtain ⟨function, member, rfl, fits⟩ := formed
  unfold Model.function
  rw [serves.function? function member]
  exact .pure ⟨member, rfl, fits⟩

theorem call_safe {callee : String} {args : List Expr}
    (formed : Expr.Formed program.functions (.call callee args))
    (evaluated : ∀ params,
      Safe program (evaluator.evaluateArgs location params args) fun _ => True) :
    Safe program (evaluator.call location callee args) fun result =>
      ∃ function ∈ program.functions, function.name = callee ∧ function.Returns result := by
  unfold call
  refine (function_safe serves location formed).bind ?_
  rintro function ⟨member, named, fits⟩
  rw [checkArgumentCount, if_pos fits, pure_bind]
  refine (evaluated function.params).bind fun values _ => ?_
  exact (serves.invoke function member values location).weaken fun _ returns =>
    ⟨function, member, named, returns⟩

-- Some members of the block need the calls only through other members, which the linter misses.
set_option linter.unusedSectionVars false

mutual

theorem placeRef_safe : ∀ place : Place, program.HostsAll location place.parts →
    Safe program (evaluator.placeRef location place) fun _ => True
  | .var name, _ => by
      rw [placeRef]
      exact .ordinary _
  | .field base name, hosts => by
      rw [placeRef]
      exact (placeRef_safe base hosts).bind fun _ _ => .ordinary _
  | .deref pointer, hosts => by
      rw [placeRef]
      exact (evaluate_safe pointer hosts).bind fun _ _ => .ordinary _

theorem evaluate_safe : ∀ expr : Expr, program.HostsAll location expr.parts →
    Safe program (evaluator.evaluate location expr) fun _ => True
  | .lit _, _ | .nil, _ | .var _, _ => by
      rw [evaluate]
      exact .ordinary _
  | .field base _, hosts | .len base, hosts | .cap base, hosts | .reslice base _ _, hosts
  | .boxed _ base, hosts | .isNil base, hosts | .deref base, hosts => by
      rw [Expr.parts] at hosts
      rw [evaluate]
      exact (evaluate_safe base hosts.cons.2).bind fun _ _ => .ordinary _
  | .addrOf place, hosts => by
      rw [Expr.parts] at hosts
      rw [evaluate]
      exact (placeRef_safe place hosts.cons.2).bind fun _ _ => .ordinary _
  | .new init site, hosts => by
      rw [Expr.parts] at hosts
      rw [evaluate]
      exact (evaluate_safe init hosts.cons.2).bind fun value _ =>
        .ordinary (evaluator.allocateNew site value)
  | .composite _ fields, hosts => by
      rw [Expr.parts] at hosts
      rw [evaluate]
      exact (evaluateFields_safe fields hosts.cons.2).bind fun _ _ => .ordinary _
  | .sliceLit elems capacity, hosts => by
      rw [Expr.parts] at hosts
      rw [evaluate]
      exact (evaluateAll_safe elems hosts.cons.2).bind fun cells _ =>
        .ordinary (allocateSlice cells capacity)
  | .makeSlice _ _ zero, hosts => by
      rw [Expr.parts] at hosts
      rw [evaluate]
      split
      · exact .ordinary _
      · exact (evaluate_safe zero hosts.cons.2).bind fun _ _ => .ordinary _
  | .mapLit entries, hosts => by
      rw [Expr.parts] at hosts
      rw [evaluate]
      exact (evaluateEntries_safe entries hosts.cons.2).bind fun _ _ => .ordinary _
  | .index base index, hosts => by
      rw [Expr.parts] at hosts
      obtain ⟨first, second⟩ := hosts.cons.2.append
      rw [evaluate]
      refine (evaluate_safe base first).bind fun _ _ => ?_
      exact (evaluate_safe index second).bind fun _ _ => .ordinary _
  | .lookup base key default, hosts => by
      rw [Expr.parts] at hosts
      obtain ⟨inside, third⟩ := hosts.cons.2.append
      obtain ⟨first, second⟩ := inside.append
      rw [evaluate]
      refine (evaluate_safe base first).bind fun _ _ => ?_
      refine (evaluate_safe key second).bind fun _ _ => .after fun found => ?_
      cases found with
      | none => exact evaluate_safe default third
      | some value => exact .pure trivial
  | .call callee args, hosts => by
      rw [Expr.parts] at hosts
      obtain ⟨⟨formed, used⟩, inside⟩ := hosts.cons
      rw [evaluate_call]
      refine (call_safe serves location formed fun params =>
        evaluateArgs_safe params args inside).bind ?_
      rintro result ⟨function, member, named, returns⟩
      cases result with
      | some value => exact .ordinary (Pure.pure value)
      | none =>
          refine fun _ => .inr ⟨callee, location, rfl, used callee args rfl, function, member,
            named, ?_⟩
          have nothing := returns.isSome_iff
          cases result : function.result with
          | none => rfl
          | some declared => simp [result] at nothing

theorem evaluateAll_safe : ∀ exprs : List Expr, program.HostsAll location (partsOfExprs exprs) →
    Safe program (evaluator.evaluateAll location exprs) fun _ => True
  | [], _ => by
      rw [evaluateAll]
      exact .ordinary _
  | expr :: exprs, hosts => by
      rw [partsOfExprs] at hosts
      rw [evaluateAll]
      refine (evaluate_safe expr hosts.append.1).bind fun _ _ => ?_
      exact (evaluateAll_safe exprs hosts.append.2).bind fun _ _ => .ordinary _

theorem evaluateFields_safe : ∀ fields : List (String × Expr),
    program.HostsAll location (partsOfFields fields) →
      Safe program (evaluator.evaluateFields location fields) fun _ => True
  | [], _ => by
      rw [evaluateFields]
      exact .ordinary _
  | (_, expr) :: fields, hosts => by
      rw [partsOfFields] at hosts
      rw [evaluateFields]
      refine (evaluate_safe expr hosts.append.1).bind fun _ _ => ?_
      exact (evaluateFields_safe fields hosts.append.2).bind fun _ _ => .ordinary _

theorem evaluateEntries_safe : ∀ entries : List (Expr × Expr),
    program.HostsAll location (partsOfEntries entries) →
      Safe program (evaluator.evaluateEntries location entries) fun _ => True
  | [], _ => by
      rw [evaluateEntries]
      exact .ordinary _
  | (key, value) :: entries, hosts => by
      rw [partsOfEntries] at hosts
      obtain ⟨first, rest⟩ := hosts.append
      rw [evaluateEntries]
      refine (evaluate_safe key first.append.1).bind fun _ _ => ?_
      refine (evaluate_safe value first.append.2).bind fun _ _ => ?_
      exact (evaluateEntries_safe entries rest).bind fun _ _ => .ordinary _

theorem evaluateArgs_safe : ∀ (params : List Param) (args : List Expr),
    program.HostsAll location (partsOfExprs args) →
      Safe program (evaluator.evaluateArgs location params args) fun _ => True
  | param :: params, arg :: args, hosts => by
      rw [partsOfExprs] at hosts
      rw [evaluateArgs]
      refine (Safe.flowInto (evaluate_safe arg hosts.append.1)).bind fun _ _ => ?_
      exact (evaluateArgs_safe params args hosts.append.2).bind fun _ _ => .ordinary _
  | [], _, _ | _ :: _, [], _ => by
      simp only [evaluateArgs]
      exact .ordinary _

end

/-! ### Statements -/

variable {location}

theorem evaluateFor_safe (kind : Kind) {expr : Expr}
    (hosts : program.HostsAll location expr.parts) :
    Safe program (evaluator.evaluateFor location kind expr) fun _ => True :=
  .flowInto (evaluate_safe serves location expr hosts)

theorem evaluateDecl_safe {decl : VarDecl} (hosts : program.HostsAll location decl.parts) :
    Safe program (evaluator.evaluateDecl location decl) fun _ => True := by
  unfold evaluateDecl
  cases initialised : decl.init with
  | none => exact .ordinary _
  | some init =>
      rw [VarDecl.parts, initialised] at hosts
      exact (evaluateFor_safe serves decl.kind hosts).bind fun _ _ => .ordinary _

theorem overwrite_safe (ref : SlotRef) (kind : Kind) {value : Expr}
    (hosts : program.HostsAll location value.parts) :
    Safe program (evaluator.overwrite location ref kind value) fun _ => True := by
  unfold overwrite
  exact (evaluateFor_safe serves kind hosts).bind fun _ _ => .ordinary _

theorem evaluateElement_safe (kind : Option Kind) {expr : Expr}
    (hosts : program.HostsAll location expr.parts) :
    Safe program (evaluator.evaluateElement location kind expr) fun _ => True := by
  cases kind with
  | none => exact evaluate_safe serves location expr hosts
  | some kind => exact evaluateFor_safe serves kind hosts

theorem evaluateElements_safe (kind : Option Kind) {exprs : List Expr}
    (hosts : program.HostsAll location (partsOfExprs exprs)) :
    Safe program (evaluator.evaluateElements location kind exprs) fun _ => True := by
  induction exprs with
  | nil =>
      rw [evaluateElements]
      exact .ordinary _
  | cons expr exprs inductionHypothesis =>
      rw [partsOfExprs] at hosts
      rw [evaluateElements]
      refine (evaluateElement_safe serves kind hosts.append.1).bind fun _ _ => ?_
      exact (inductionHypothesis hosts.append.2).bind fun _ _ => .ordinary _

theorem append_safe {target : Place} {values : List Expr}
    (hosts : program.HostsAll location (target.parts ++ partsOfExprs values)) :
    Safe program (evaluator.append location target values) fun _ => True := by
  have operands : Safe program (evaluator.appendOperands location target values)
      fun _ => True := by
    unfold appendOperands
    refine (placeRef_safe serves location target hosts.append.1).bind fun ref _ => ?_
    refine .after fun header => .after fun kind => ?_
    exact (evaluateElements_safe serves kind hosts.append.2).bind fun _ _ => .ordinary _
  unfold append
  exact operands.bind fun _ _ => .ordinary _

theorem returnValue_safe {function : FunctionDef} {value : Expr}
    (declared : function.result.isSome) (hosts : program.HostsAll location value.parts) :
    Safe program (evaluator.returnValue function location value) function.HandsOver := by
  unfold returnValue
  refine (evaluateFor_safe serves _ hosts).bind fun value _ => Safe.expectKind.bind ?_
  intro _ same
  unfold FunctionDef.deliver
  split
  next unnamed =>
    refine .pure ⟨fun nothing => by simp [nothing] at declared, fun kind result => ?_⟩
    rw [result] at same
    exact ⟨value, rfl, same⟩
  next name named =>
    obtain ⟨kind, result⟩ := FunctionDef.result_of_namedResult named
    refine .after fun ref => .after fun _ => .pure ⟨fun _ => rfl, fun kind unnamed => ?_⟩
    rw [result] at unnamed
    cases unnamed

/-- A statement goes on to the next one, or it returns what the function may hand over. -/
theorem execute_safe {function : FunctionDef} {stmt : Stmt}
    (formed : ∀ part ∈ stmt.expressions, part.Formed program.functions)
    (hosts : program.HostsAll location stmt.parts)
    (returns : ∀ value, stmt = .ret value → function.MayReturn value) :
    Safe program (evaluator.execute function location stmt) (Flow.Fits function stmt) := by
  cases stmt with
  | declare decl =>
      rw [execute]
      refine (evaluateDecl_safe serves hosts).bind fun _ _ => .after fun _ => ?_
      exact .pure fun _ => Stmt.noConfusion
  | assign target value =>
      rw [execute]
      refine .after fun ref => .after fun slot => ?_
      exact (overwrite_safe serves ref slot.kind hosts).bind fun _ _ =>
        .pure fun _ => Stmt.noConfusion
  | setField target name value =>
      rw [execute]
      obtain ⟨first, second⟩ := Program.HostsAll.append hosts
      refine (placeRef_safe serves location target first).bind fun _ _ => ?_
      refine .after fun ref => .after fun old => ?_
      exact (overwrite_safe serves ref old.kind second).bind fun _ _ =>
        .pure fun _ => Stmt.noConfusion
  | store pointer value =>
      rw [execute]
      obtain ⟨first, second⟩ := Program.HostsAll.append hosts
      refine (evaluate_safe serves location pointer first).bind fun _ _ => ?_
      refine .after fun ref => .after fun old => ?_
      exact (overwrite_safe serves ref old.kind second).bind fun _ _ =>
        .pure fun _ => Stmt.noConfusion
  | setIndex target index value =>
      rw [execute]
      obtain ⟨inside, third⟩ := Program.HostsAll.append hosts
      obtain ⟨first, second⟩ := inside.append
      refine (placeRef_safe serves location target first).bind fun _ _ => .after fun header => ?_
      refine (evaluate_safe serves location index second).bind fun _ _ => ?_
      refine .after fun index => .after fun old => ?_
      refine (evaluateFor_safe serves old.kind third).bind fun _ _ => .after fun _ => ?_
      exact .pure fun _ => Stmt.noConfusion
  | setKey target key value =>
      rw [execute]
      obtain ⟨inside, third⟩ := Program.HostsAll.append hosts
      obtain ⟨first, second⟩ := inside.append
      refine (placeRef_safe serves location target first).bind fun _ _ => .after fun header => ?_
      refine (evaluate_safe serves location key second).bind fun key _ => .after fun kind => ?_
      refine (evaluateElement_safe serves kind third).bind fun _ _ => .after fun _ => ?_
      exact .pure fun _ => Stmt.noConfusion
  | append target values =>
      rw [execute]
      exact (append_safe serves hosts).bind fun _ _ => .pure fun _ => Stmt.noConfusion
  | call callee args =>
      rw [execute]
      have fits := formed (.call callee args) (by
        rw [Stmt.expressions, Expr.parts]
        exact List.mem_cons_self ..)
      have called := call_safe serves location fits fun params =>
        evaluateArgs_safe serves location params args hosts
      exact called.bind fun _ _ => .pure fun _ => Stmt.noConfusion
  | ret value =>
      cases value with
      | none =>
          rw [execute]
          refine .pure ⟨fun _ => rfl, fun kind unnamed => ?_⟩
          exact absurd ((returns none rfl).2 ⟨kind, unnamed⟩) (by decide)
      | some value =>
          rw [execute]
          exact .map (returnValue_safe serves ((returns _ rfl).1 rfl) hosts)

/-! ### Bodies and calls -/

theorem executeFrom_safe {function : FunctionDef} {stmts : List Stmt} :
    ∀ index : Nat,
      (∀ position stmt, stmts[position]? = some stmt →
        (∀ part ∈ stmt.expressions, part.Formed program.functions) ∧
          program.HostsAll ⟨function.name, index + position⟩ stmt.parts) →
      (∀ value, .ret value ∈ stmts → function.MayReturn value) →
      (function.ResultUnnamed → ∃ value, stmts.getLast? = some (.ret (some value))) →
        Safe program (evaluator.executeFrom function index stmts) function.HandsOver := by
  induction stmts with
  | nil =>
      intro index _ _ ends
      rw [executeFrom]
      refine .pure ⟨fun _ => rfl, fun kind unnamed => ?_⟩
      obtain ⟨value, last⟩ := ends ⟨kind, unnamed⟩
      cases last
  | cons stmt stmts inductionHypothesis =>
      intro index standing returns ends
      obtain ⟨formed, hosts⟩ := standing 0 stmt rfl
      rw [executeFrom]
      refine .after fun _ => (execute_safe serves formed hosts fun value same =>
        returns value (same ▸ List.mem_cons_self ..)).bind ?_
      intro flow fits
      cases flow with
      | returned value => exact .pure fits
      | next =>
          refine inductionHypothesis (index + 1) (fun position other found => ?_)
            (fun value member => returns value (List.mem_cons_of_mem _ member)) fun unnamed => ?_
          · have here := standing (position + 1) other found
            rwa [← Nat.add_assoc, Nat.add_right_comm] at here
          · obtain ⟨value, last⟩ := ends unnamed
            cases stmts with
            | nil => exact absurd (Option.some.inj last) (fits (some value))
            | cons second stmts => exact ⟨value, List.getLast?_cons_cons ▸ last⟩

omit evaluator serves in
theorem copyOut_safe {function : FunctionDef} {returned : Option Value}
    (fits : function.HandsOver returned) :
    Safe program (function.copyOut returned) function.Returns := by
  unfold FunctionDef.copyOut
  split
  next unnamed =>
    refine .pure ?_
    unfold FunctionDef.Returns
    split
    next nothing => exact fits.1 nothing
    next kind result => exact fits.2 kind result
    next name kind result => simp [FunctionDef.namedResult, result] at unnamed
  next name named =>
    obtain ⟨kind, result⟩ := FunctionDef.result_of_namedResult named
    refine .after fun ref => ?_
    rw [map_eq_pure_bind]
    refine .after fun value => .pure ?_
    unfold FunctionDef.Returns
    rw [result]
    rfl

/-- A function is run safely in a frame of its own. -/
theorem inside_safe {entry : String} (wellFormed : program.WellFormed entry)
    {function : FunctionDef} (member : function ∈ program.functions) (args : List Value)
    {observe : Run Unit} [Ordinary observe] :
    Safe program (evaluator.inside function args location observe) function.Returns := by
  have body : Safe program (evaluator.executeBody function) function.HandsOver := by
    refine executeFrom_safe serves 0 (fun position stmt found => ?_)
      (wellFormed.returns function member) (wellFormed.ends function member)
    rw [Nat.zero_add]
    exact wellFormed.hosts_stmt member found
  unfold inside FunctionDef.close
  refine .after fun _ => body.bind fun returned fits => ?_
  exact .after fun _ => .after fun _ => copyOut_safe fits

theorem perform_safe {entry : String} (wellFormed : program.WellFormed entry)
    {function : FunctionDef} (member : function ∈ program.functions) (args : List Value)
    (callSite : Location) :
    Safe program (evaluator.perform function args callSite) function.Returns := by
  rw [perform_eq]
  exact (inside_safe serves wellFormed member args).exited

omit evaluator serves in
theorem invoke_serves {entry : String} (wellFormed : program.WellFormed entry) (config : Config)
    (depth : Nat) :
    Serves ⟨.new program config, (Model.new program config).invoke depth⟩ program := by
  induction depth with
  | zero =>
      refine ⟨fun _ => wellFormed.function?_eq, fun function _ args callSite _ => ?_⟩
      exact .inl trivial
  | succ depth inductionHypothesis =>
      exact ⟨fun _ => wellFormed.function?_eq, fun function member args callSite =>
        perform_safe inductionHypothesis wellFormed member args callSite⟩

theorem declareGlobals_safe {decls : List VarDecl} :
    ∀ index : Nat, (∀ position decl, decls[position]? = some decl →
        program.HostsAll ⟨globalsFrame, index + position⟩ decl.parts) →
      Safe program (evaluator.declareGlobals index decls) fun _ => True := by
  induction decls with
  | nil =>
      intro index _
      rw [declareGlobals]
      exact .ordinary _
  | cons decl decls inductionHypothesis =>
      intro index standing
      have declared : Safe program (evaluator.declareGlobal ⟨globalsFrame, index⟩ decl)
          fun _ => True := by
        unfold declareGlobal
        exact (evaluateDecl_safe serves (standing 0 decl rfl)).bind fun _ _ => .ordinary _
      rw [declareGlobals]
      refine .after fun _ => declared.bind fun _ _ => ?_
      refine inductionHypothesis (index + 1) fun position other found => ?_
      have here := standing (position + 1) other found
      rwa [← Nat.add_assoc, Nat.add_right_comm] at here

end Evaluator

namespace Program

variable {program : Program} {config : Config} {entry : String}

/-- A run of a well-formed program ends as it is permitted to. -/
theorem run_safe (wellFormed : program.WellFormed config.entry) :
    Safe program (Model.new program config).execute fun _ => True := by
  have serves := Evaluator.invoke_serves wellFormed config (Model.new program config).maxCallDepth
  obtain ⟨function, member, named, -⟩ := wellFormed.entry
  have found : (Model.new program config).function? config.entry = some function :=
    named ▸ wellFormed.function?_eq member
  have entered : (Model.new program config).function config.entry ⟨config.entry, 0⟩ =
      Pure.pure function := by
    rw [Model.function, found]
  have ran : Safe program ((Model.new program config).evaluator.runEntry function)
      function.Returns := by
    rw [Evaluator.runEntry_eq]
    exact (Evaluator.inside_safe serves wellFormed member []).exited
  unfold Model.execute Evaluator.run
  refine (Evaluator.declareGlobals_safe serves 0 fun position decl here => ?_).bind fun _ _ => ?_
  · rw [Nat.zero_add]
    exact wellFormed.hosts_decl here
  · change Safe program ((Model.new program config).function config.entry ⟨config.entry, 0⟩ >>= _) _
    rw [entered, pure_bind]
    exact ran.bind fun _ _ => .pure trivial

end Program

end ReferenceSemantics
