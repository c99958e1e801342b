import ReferenceSemantics.Proofs.Program.Mentions
import ReferenceSemantics.Proofs.Run.Frame
import ReferenceSemantics.Proofs.Run.Quiet

set_option autoImplicit false

/-!
What the interpreter is made of.

A computation of the interpreter is put together from lookups of names, calls, statement boundaries,
declarations and computations that leave the names alone. The same is done with two ways to run a
call at once, so that an induction on how a computation is put together can compare the two, or say
something of one of them. What a part of a program mentions bounds what it looks up and calls.
-/

namespace ReferenceSemantics

/-- A way to run a function on evaluated arguments. -/
abbrev Invocation := FunctionDef → List Value → Location → Run (Option Value)

/-- Two ways to run the calls of a model, and what may be done. -/
structure Pairing where
  model : Model
  invoke : Invocation
  invoke' : Invocation
  /-- The names that may be looked up at a location. -/
  names : String → Location → Prop
  calls : String → Prop
  /-- Statement boundaries may be passed and slots be declared. -/
  steps : Prop

open Run

namespace Pairing

/-- Two computations put together in the same way, with the two ways to run a call. -/
inductive Alike (pairing : Pairing) : {α : Type} → Run α → Run α → Prop where
  | quiet {α : Type} (run : Run α) [Quiet run] : Alike pairing run run
  | bind {α β : Type} {first first' : Run α} {next next' : α → Run β}
      (start : Alike pairing first first')
      (rest : ∀ value, Alike pairing (next value) (next' value)) :
      Alike pairing (first >>= next) (first' >>= next')
  | lookup {name : String} {location : Location} (permitted : pairing.names name location) :
      Alike pairing (lookup name location) (lookup name location)
  | call {callee : String} {function : FunctionDef} {location : Location}
      {args args' : Run (List Value)} (permitted : pairing.calls callee)
      (found : pairing.model.function? callee = some function)
      (evaluated : Alike pairing args args')
      (complete : ∀ machine values after, exec args machine = (.ok values, after) →
        values.length = function.params.length) :
      Alike pairing (args >>= fun values => pairing.invoke function values location)
        (args' >>= fun values => pairing.invoke' function values location)
  | declare (name : String) (kind : Kind) (site : Option SiteId) (placement : Placement)
      (value : Value) (permitted : pairing.steps) :
      Alike pairing (allocate (·.declare name kind site placement value))
        (allocate (·.declare name kind site placement value))
  | checkpoint (location : Location) (permitted : pairing.steps) :
      Alike pairing (checkpoint location) (checkpoint location)
  | transition (function : String) (state : CallState) (permitted : pairing.steps) :
      Alike pairing (transition function state) (transition function state)
  | capture (permitted : pairing.steps) : Alike pairing capture capture

variable {pairing : Pairing} {α β : Type} {location : Location}

/-- Two ways to run a call that do the same make no difference. -/
theorem Alike.eq {run run' : Run α} (alike : pairing.Alike run run')
    (same : ∀ {callee function}, pairing.calls callee →
      pairing.model.function? callee = some function →
        pairing.invoke function = pairing.invoke' function) : run = run' := by
  induction alike with
  | quiet | lookup | declare | checkpoint | transition | capture => rfl
  | bind start rest start_eq rest_eq => rw [start_eq, funext rest_eq]
  | call permitted found evaluated complete evaluated_eq =>
      rw [evaluated_eq, same permitted found]

/-- The evaluator of the first way to run a call. -/
abbrev left (pairing : Pairing) : Evaluator := ⟨pairing.model, pairing.invoke⟩

/-- The evaluator of the second way to run a call. -/
abbrev right (pairing : Pairing) : Evaluator := ⟨pairing.model, pairing.invoke'⟩

/-- What an expression mentions may be looked up and called. -/
def Admits (pairing : Pairing) (location : Location) (part : Expr) : Prop :=
  (∀ name, part.variable? = some name → pairing.names name location) ∧
    ∀ callee, part.callee? = some callee → pairing.calls callee

/-- What some expressions mention may be looked up and called. -/
def AdmitsAll (pairing : Pairing) (location : Location) (parts : List Expr) : Prop :=
  ∀ part ∈ parts, pairing.Admits location part

theorem AdmitsAll.cons {part : Expr} {parts : List Expr}
    (admits : pairing.AdmitsAll location (part :: parts)) :
    pairing.Admits location part ∧ pairing.AdmitsAll location parts :=
  List.forall_mem_cons.mp admits

theorem AdmitsAll.append {first second : List Expr}
    (admits : pairing.AdmitsAll location (first ++ second)) :
    pairing.AdmitsAll location first ∧ pairing.AdmitsAll location second :=
  List.forall_mem_append.mp admits

namespace Alike

theorem pure (value : α) : pairing.Alike (pure value) (Pure.pure value) := .quiet _

theorem map {run run' : Run α} (f : α → β) (alike : pairing.Alike run run') :
    pairing.Alike (f <$> run) (f <$> run') := by
  rw [map_eq_pure_bind, map_eq_pure_bind]
  exact alike.bind fun _ => .pure _

theorem flowInto {kind : Kind} {expr : Expr} {evaluated evaluated' : Run Value}
    (alike : pairing.Alike evaluated evaluated') :
    pairing.Alike (flowInto location kind expr evaluated)
      (ReferenceSemantics.flowInto location kind expr evaluated') := by
  unfold ReferenceSemantics.flowInto
  split
  · exact .quiet _
  · exact alike.bind fun _ => .pure _

/-- A function is looked up, and its arguments are evaluated once they are known to be complete. -/
theorem calling {callee : String} {args : List Expr} (permitted : pairing.calls callee)
    (evaluated : ∀ function : FunctionDef,
      pairing.Alike (pairing.left.evaluateArgs location function.params args)
        (pairing.right.evaluateArgs location function.params args))
    (complete : ∀ (function : FunctionDef) machine values after,
      function.params.length = args.length →
        exec (pairing.left.evaluateArgs location function.params args) machine =
          (.ok values, after) → values.length = function.params.length) :
    pairing.Alike (pairing.left.call location callee args)
      (pairing.right.call location callee args) := by
  unfold Evaluator.call
  have refused : pairing.model.function? callee = none →
      pairing.model.function callee location = fail (.undefinedFunction callee location) := by
    intro absent
    rw [Model.function, absent]
  cases found : pairing.model.function? callee with
  | none =>
      have unknown : Quiet (fail (.undefinedFunction callee location) : Run (Option Value)) :=
        quiet_fail fun _ _ same => RuntimeError.noConfusion same
      dsimp only
      rw [refused found]
      exact .quiet (fail (.undefinedFunction callee location))
  | some function =>
      have known : pairing.model.function callee location = Pure.pure function := by
        rw [Model.function, found]
      dsimp only
      rw [known, pure_bind, pure_bind, checkArgumentCount]
      split
      next same =>
        rw [pure_bind, pure_bind]
        exact .call permitted found (evaluated function) fun machine values after ran =>
          complete function machine values after same ran
      next => exact .quiet (mismatch _ _)

end Alike

end Pairing

namespace Evaluator

variable {evaluator : Evaluator} {location : Location}

/-- Arguments are evaluated one by one. -/
theorem length_evaluateArgs {params : List Param} :
    ∀ {args : List Expr} {machine after : Machine} {values : List Value},
      params.length = args.length →
        exec (evaluator.evaluateArgs location params args) machine = (.ok values, after) →
          values.length = params.length := by
  induction params with
  | nil =>
      intro args machine after values _ ran
      rw [evaluateArgs] at ran
      · cases ran
        rfl
      · rintro param params arg args ⟨⟩
  | cons param params inductionHypothesis =>
      intro args machine after values same ran
      cases args with
      | nil => cases same
      | cons arg args =>
          rw [evaluateArgs, exec_bind] at ran
          generalize exec (flowInto location param.kind arg _) machine = first at ran
          obtain ⟨result, middle⟩ := first
          cases result with
          | error _ => cases ran
          | ok value =>
              dsimp only at ran
              rw [exec_bind] at ran
              generalize rest : exec (evaluator.evaluateArgs location params args) middle =
                last at ran
              obtain ⟨result, last⟩ := last
              cases result with
              | error _ => cases ran
              | ok values =>
                  cases ran
                  exact congrArg (· + 1) (inductionHypothesis (Nat.succ.inj same) rest)

theorem evaluate_call (callee : String) (args : List Expr) :
    evaluator.evaluate location (.call callee args) = (do
      expectResult location callee (← evaluator.call location callee args)) := by
  rw [evaluate, call]
  simp only [bind_assoc]

end Evaluator

namespace Pairing

variable {pairing : Pairing} (location : Location)

/-! ### Expressions and places -/

mutual

theorem placeRef_alike : ∀ place : Place,
    (∀ name, place.rootVar = some name → pairing.names name location) →
      pairing.AdmitsAll location place.parts →
        pairing.Alike (pairing.left.placeRef location place)
          (pairing.right.placeRef location place)
  | .var name, root, _ => by
      rw [Evaluator.placeRef, Evaluator.placeRef]
      exact .lookup (root name rfl)
  | .field base name, root, admits => by
      rw [Evaluator.placeRef, Evaluator.placeRef]
      exact (placeRef_alike base root admits).bind fun _ => .quiet _
  | .deref pointer, _, admits => by
      rw [Evaluator.placeRef, Evaluator.placeRef]
      exact (evaluate_alike pointer admits).bind fun _ => .quiet _

theorem evaluate_alike : ∀ expr : Expr, pairing.AdmitsAll location expr.parts →
    pairing.Alike (pairing.left.evaluate location expr) (pairing.right.evaluate location expr)
  | .lit value, _ => by
      rw [Evaluator.evaluate, Evaluator.evaluate]
      exact .quiet _
  | .nil, _ => by
      rw [Evaluator.evaluate, Evaluator.evaluate]
      exact .quiet _
  | .var name, admits => by
      rw [Expr.parts] at admits
      rw [Evaluator.evaluate, Evaluator.evaluate]
      exact (Alike.lookup (admits.cons.1.1 name rfl)).bind fun _ => .quiet _
  | .field base _, admits => by
      rw [Expr.parts] at admits
      rw [Evaluator.evaluate, Evaluator.evaluate]
      exact (evaluate_alike base admits.cons.2).bind fun _ => .quiet _
  | .deref pointer, admits => by
      rw [Expr.parts] at admits
      rw [Evaluator.evaluate, Evaluator.evaluate]
      exact (evaluate_alike pointer admits.cons.2).bind fun _ => .quiet _
  | .addrOf place, admits => by
      rw [Expr.parts] at admits
      rw [Evaluator.evaluate, Evaluator.evaluate]
      exact (placeRef_alike place admits.cons.1.1 admits.cons.2).bind fun _ => .quiet _
  | .new init site, admits => by
      rw [Expr.parts] at admits
      rw [Evaluator.evaluate, Evaluator.evaluate]
      exact (evaluate_alike init admits.cons.2).bind fun value =>
        .quiet (pairing.left.allocateNew site value)
  | .composite _ fields, admits => by
      rw [Expr.parts] at admits
      rw [Evaluator.evaluate, Evaluator.evaluate]
      exact (evaluateFields_alike fields admits.cons.2).bind fun _ => .quiet _
  | .sliceLit elems capacity, admits => by
      rw [Expr.parts] at admits
      rw [Evaluator.evaluate, Evaluator.evaluate]
      exact (evaluateAll_alike elems admits.cons.2).bind fun _ => .quiet _
  | .makeSlice len cap zero, admits => by
      rw [Expr.parts] at admits
      rw [Evaluator.evaluate, Evaluator.evaluate]
      split
      · have refused : Quiet (fail (.fault (.makeLength len cap) location) : Run Value) :=
          quiet_fail fun _ _ same => RuntimeError.noConfusion same
        exact .quiet _
      · exact (evaluate_alike zero admits.cons.2).bind fun _ => .quiet _
  | .mapLit entries, admits => by
      rw [Expr.parts] at admits
      rw [Evaluator.evaluate, Evaluator.evaluate]
      exact (evaluateEntries_alike entries admits.cons.2).bind fun _ => .quiet _
  | .index base index, admits => by
      rw [Expr.parts] at admits
      obtain ⟨-, inside⟩ := admits.cons
      rw [Evaluator.evaluate, Evaluator.evaluate]
      refine (evaluate_alike base inside.append.1).bind fun header => ?_
      exact (evaluate_alike index inside.append.2).bind fun _ => .quiet _
  | .lookup base key default, admits => by
      rw [Expr.parts] at admits
      obtain ⟨-, inside⟩ := admits.cons
      obtain ⟨first, third⟩ := inside.append
      rw [Evaluator.evaluate, Evaluator.evaluate]
      refine (evaluate_alike base first.append.1).bind fun header => ?_
      refine (evaluate_alike key first.append.2).bind fun key => ?_
      refine (Alike.quiet (read location (·.tableGet header key))).bind fun found => ?_
      cases found with
      | none => exact evaluate_alike default third
      | some value => exact .pure value
  | .len base, admits => by
      rw [Expr.parts] at admits
      rw [Evaluator.evaluate, Evaluator.evaluate]
      exact (evaluate_alike base admits.cons.2).bind fun _ => .quiet _
  | .cap base, admits => by
      rw [Expr.parts] at admits
      rw [Evaluator.evaluate, Evaluator.evaluate]
      exact (evaluate_alike base admits.cons.2).bind fun _ => .quiet _
  | .reslice base _ _, admits => by
      rw [Expr.parts] at admits
      rw [Evaluator.evaluate, Evaluator.evaluate]
      exact (evaluate_alike base admits.cons.2).bind fun _ => .quiet _
  | .boxed _ value, admits => by
      rw [Expr.parts] at admits
      rw [Evaluator.evaluate, Evaluator.evaluate]
      exact (evaluate_alike value admits.cons.2).bind fun _ => .quiet _
  | .isNil value, admits => by
      rw [Expr.parts] at admits
      rw [Evaluator.evaluate, Evaluator.evaluate]
      exact (evaluate_alike value admits.cons.2).bind fun _ => .quiet _
  | .call callee args, admits => by
      rw [Expr.parts] at admits
      rw [Evaluator.evaluate_call, Evaluator.evaluate_call]
      refine (Alike.calling (admits.cons.1.2 callee rfl)
        (fun function => evaluateArgs_alike function.params args admits.cons.2)
        fun _ _ _ _ => Evaluator.length_evaluateArgs).bind fun _ => ?_
      exact .quiet _

theorem evaluateAll_alike : ∀ exprs : List Expr, pairing.AdmitsAll location (partsOfExprs exprs) →
    pairing.Alike (pairing.left.evaluateAll location exprs)
      (pairing.right.evaluateAll location exprs)
  | [], _ => by
      rw [Evaluator.evaluateAll, Evaluator.evaluateAll]
      exact .pure _
  | expr :: exprs, admits => by
      rw [partsOfExprs] at admits
      rw [Evaluator.evaluateAll, Evaluator.evaluateAll]
      refine (evaluate_alike expr admits.append.1).bind fun _ => ?_
      exact (evaluateAll_alike exprs admits.append.2).bind fun _ => .pure _

theorem evaluateFields_alike : ∀ fields : List (String × Expr),
    pairing.AdmitsAll location (partsOfFields fields) →
      pairing.Alike (pairing.left.evaluateFields location fields)
        (pairing.right.evaluateFields location fields)
  | [], _ => by
      rw [Evaluator.evaluateFields, Evaluator.evaluateFields]
      exact .pure _
  | (_, value) :: fields, admits => by
      rw [partsOfFields] at admits
      rw [Evaluator.evaluateFields, Evaluator.evaluateFields]
      refine (evaluate_alike value admits.append.1).bind fun _ => ?_
      exact (evaluateFields_alike fields admits.append.2).bind fun _ => .pure _

theorem evaluateEntries_alike : ∀ entries : List (Expr × Expr),
    pairing.AdmitsAll location (partsOfEntries entries) →
      pairing.Alike (pairing.left.evaluateEntries location entries)
        (pairing.right.evaluateEntries location entries)
  | [], _ => by
      rw [Evaluator.evaluateEntries, Evaluator.evaluateEntries]
      exact .pure _
  | (key, value) :: entries, admits => by
      rw [partsOfEntries] at admits
      obtain ⟨first, rest⟩ := admits.append
      rw [Evaluator.evaluateEntries, Evaluator.evaluateEntries]
      refine (evaluate_alike key first.append.1).bind fun _ => ?_
      refine (evaluate_alike value first.append.2).bind fun _ => ?_
      exact (evaluateEntries_alike entries rest).bind fun _ => .pure _

theorem evaluateArgs_alike : ∀ (params : List Param) (args : List Expr),
    pairing.AdmitsAll location (partsOfExprs args) →
      pairing.Alike (pairing.left.evaluateArgs location params args)
        (pairing.right.evaluateArgs location params args)
  | param :: params, arg :: args, admits => by
      rw [partsOfExprs] at admits
      rw [Evaluator.evaluateArgs, Evaluator.evaluateArgs]
      refine (Alike.flowInto (evaluate_alike arg admits.append.1)).bind fun _ => ?_
      exact (evaluateArgs_alike params args admits.append.2).bind fun _ => .pure _
  | [], _, _ | _ :: _, [], _ => by
      simp only [Evaluator.evaluateArgs]
      exact .pure _

end

/-! ### Statements -/

variable {location}

theorem evaluateFor_alike (kind : Kind) {expr : Expr}
    (admits : pairing.AdmitsAll location expr.parts) :
    pairing.Alike (pairing.left.evaluateFor location kind expr)
      (pairing.right.evaluateFor location kind expr) :=
  .flowInto (evaluate_alike location expr admits)

theorem evaluateDecl_alike {decl : VarDecl} (admits : pairing.AdmitsAll location decl.parts) :
    pairing.Alike (pairing.left.evaluateDecl location decl)
      (pairing.right.evaluateDecl location decl) := by
  unfold Evaluator.evaluateDecl
  cases initialised : decl.init with
  | none => exact .quiet _
  | some init =>
      rw [VarDecl.parts, initialised] at admits
      exact (evaluateFor_alike decl.kind admits).bind fun _ => .quiet _

theorem call_alike {callee : String} {args : List Expr} (permitted : pairing.calls callee)
    (admits : pairing.AdmitsAll location (partsOfExprs args)) :
    pairing.Alike (pairing.left.call location callee args)
      (pairing.right.call location callee args) :=
  .calling permitted (fun function => evaluateArgs_alike location function.params args admits)
    fun _ _ _ _ => Evaluator.length_evaluateArgs

theorem overwrite_alike (ref : SlotRef) (kind : Kind) {value : Expr}
    (admits : pairing.AdmitsAll location value.parts) :
    pairing.Alike (pairing.left.overwrite location ref kind value)
      (pairing.right.overwrite location ref kind value) := by
  unfold Evaluator.overwrite
  exact (evaluateFor_alike kind admits).bind fun _ => .quiet _

theorem evaluateElement_alike (kind : Option Kind) {expr : Expr}
    (admits : pairing.AdmitsAll location expr.parts) :
    pairing.Alike (pairing.left.evaluateElement location kind expr)
      (pairing.right.evaluateElement location kind expr) := by
  cases kind with
  | none => exact evaluate_alike location expr admits
  | some kind => exact evaluateFor_alike kind admits

theorem evaluateElements_alike (kind : Option Kind) {exprs : List Expr}
    (admits : pairing.AdmitsAll location (partsOfExprs exprs)) :
    pairing.Alike (pairing.left.evaluateElements location kind exprs)
      (pairing.right.evaluateElements location kind exprs) := by
  induction exprs with
  | nil =>
      rw [Evaluator.evaluateElements, Evaluator.evaluateElements]
      exact .pure _
  | cons expr exprs inductionHypothesis =>
      rw [partsOfExprs] at admits
      rw [Evaluator.evaluateElements, Evaluator.evaluateElements]
      refine (evaluateElement_alike kind admits.append.1).bind fun _ => ?_
      exact (inductionHypothesis admits.append.2).bind fun _ => .pure _

theorem append_alike {target : Place} {values : List Expr}
    (root : ∀ name, target.rootVar = some name → pairing.names name location)
    (admits : pairing.AdmitsAll location (target.parts ++ partsOfExprs values)) :
    pairing.Alike (pairing.left.append location target values)
      (pairing.right.append location target values) := by
  have operands : pairing.Alike (pairing.left.appendOperands location target values)
      (pairing.right.appendOperands location target values) := by
    unfold Evaluator.appendOperands
    refine (placeRef_alike location target root admits.append.1).bind fun ref => ?_
    refine (Alike.quiet (load location ref)).bind fun header => ?_
    refine (Alike.quiet (read location (·.elementKind header))).bind fun kind => ?_
    exact (evaluateElements_alike kind admits.append.2).bind fun _ => .pure _
  unfold Evaluator.append
  exact operands.bind fun _ => .quiet _

/-- A named result may be looked up. -/
def AdmitsResult (pairing : Pairing) (location : Location) (function : FunctionDef) : Prop :=
  ∀ name, function.namedResult = some name → pairing.names name location

theorem returnValue_alike {function : FunctionDef} {value : Expr}
    (result : pairing.AdmitsResult location function)
    (admits : pairing.AdmitsAll location value.parts) :
    pairing.Alike (pairing.left.returnValue function location value)
      (pairing.right.returnValue function location value) := by
  have deliver (value : Value) : pairing.Alike (function.deliver location value)
      (function.deliver location value) := by
    unfold FunctionDef.deliver
    split
    next => exact .pure _
    next name named => exact (Alike.lookup (result name named)).bind fun _ => .quiet _
  unfold Evaluator.returnValue
  refine (evaluateFor_alike _ admits).bind fun value => ?_
  exact (Alike.quiet (expectKind location _ value)).bind fun _ => deliver value

theorem bind_alike (steps : pairing.steps) (name : String) (kind : Kind) (site : SiteId)
    (value : Value) :
    pairing.Alike (pairing.model.bind name kind site value)
      (pairing.model.bind name kind site value) := by
  unfold Model.bind
  exact (Alike.declare _ _ _ _ _ steps).bind fun _ => .quiet _

/-- A statement may do what it mentions. -/
structure AdmitsStmt (pairing : Pairing) (location : Location) (stmt : Stmt) : Prop where
  names : ∀ name ∈ stmt.variables, pairing.names name location
  calls : ∀ callee ∈ stmt.callees, pairing.calls callee

theorem AdmitsStmt.target {stmt : Stmt} (admits : pairing.AdmitsStmt location stmt) {name : String}
    (found : stmt.target? = some name) : pairing.names name location :=
  admits.names name (List.mem_append_left _ (Option.mem_toList.mpr found))

theorem AdmitsStmt.parts {stmt : Stmt} (admits : pairing.AdmitsStmt location stmt) :
    pairing.AdmitsAll location stmt.parts := by
  intro part member
  constructor
  · intro name found
    apply admits.names
    exact List.mem_append_right _ (List.mem_filterMap.mpr ⟨part, member, found⟩)
  · intro callee found
    apply admits.calls
    have inside : callee ∈ stmt.parts.filterMap Expr.callee? :=
      List.mem_filterMap.mpr ⟨part, member, found⟩
    cases stmt <;> first | exact inside | exact List.mem_cons_of_mem _ inside

theorem execute_alike {function : FunctionDef} {stmt : Stmt}
    (steps : stmt.declared?.isSome → pairing.steps)
    (result : pairing.AdmitsResult location function)
    (admits : pairing.AdmitsStmt location stmt) :
    pairing.Alike (pairing.left.execute function location stmt)
      (pairing.right.execute function location stmt) := by
  have parts := admits.parts
  cases stmt with
  | declare decl =>
      rw [Evaluator.execute, Evaluator.execute]
      refine (evaluateDecl_alike parts).bind fun value => ?_
      exact (bind_alike (steps rfl) _ _ _ _).bind fun _ => .pure _
  | assign target value =>
      rw [Evaluator.execute, Evaluator.execute]
      refine (Alike.lookup (admits.target rfl)).bind fun ref => ?_
      refine (Alike.quiet (read location (·.slot ref.address))).bind fun slot => ?_
      exact (overwrite_alike ref slot.kind parts).bind fun _ => .pure _
  | setField target name value =>
      rw [Evaluator.execute, Evaluator.execute]
      obtain ⟨first, second⟩ := AdmitsAll.append parts
      refine (placeRef_alike location target (fun _ => admits.target) first).bind fun base => ?_
      refine (Alike.quiet (fieldRef location base name)).bind fun ref => ?_
      refine (Alike.quiet (load location ref)).bind fun old => ?_
      exact (overwrite_alike ref old.kind second).bind fun _ => .pure _
  | store pointer value =>
      rw [Evaluator.execute, Evaluator.execute]
      obtain ⟨first, second⟩ := AdmitsAll.append parts
      refine (evaluate_alike location pointer first).bind fun pointer => ?_
      refine (Alike.quiet (dereference location pointer)).bind fun ref => ?_
      refine (Alike.quiet (load location ref)).bind fun old => ?_
      exact (overwrite_alike ref old.kind second).bind fun _ => .pure _
  | setIndex target index value =>
      rw [Evaluator.execute, Evaluator.execute]
      obtain ⟨inside, third⟩ := AdmitsAll.append parts
      obtain ⟨first, second⟩ := inside.append
      refine (placeRef_alike location target (fun _ => admits.target) first).bind fun ref => ?_
      refine (Alike.quiet (load location ref)).bind fun header => ?_
      refine (evaluate_alike location index second).bind fun found => ?_
      refine (Alike.quiet (asInt location found)).bind fun index => ?_
      refine (Alike.quiet (read location (·.element header index))).bind fun old => ?_
      exact (evaluateFor_alike old.kind third).bind fun _ => .quiet _
  | setKey target key value =>
      rw [Evaluator.execute, Evaluator.execute]
      obtain ⟨inside, third⟩ := AdmitsAll.append parts
      obtain ⟨first, second⟩ := inside.append
      refine (placeRef_alike location target (fun _ => admits.target) first).bind fun ref => ?_
      refine (Alike.quiet (load location ref)).bind fun header => ?_
      refine (evaluate_alike location key second).bind fun key => ?_
      refine (Alike.quiet (read location (·.tableValueKind header key))).bind fun kind => ?_
      exact (evaluateElement_alike kind third).bind fun _ => .quiet _
  | append target values =>
      rw [Evaluator.execute, Evaluator.execute]
      exact (append_alike (fun _ => admits.target) parts).bind fun _ => .pure _
  | call callee args =>
      rw [Evaluator.execute, Evaluator.execute]
      have permitted := admits.calls callee (List.mem_cons_self ..)
      exact (call_alike permitted parts).bind fun _ => .pure _
  | ret value =>
      cases value with
      | none =>
          rw [Evaluator.execute, Evaluator.execute]
          exact .pure _
      | some value =>
          rw [Evaluator.execute, Evaluator.execute]
          exact .map _ (returnValue_alike result parts)

/-! ### Bodies and calls -/

theorem executeFrom_alike {function : FunctionDef} (steps : pairing.steps)
    (result : ∀ location, pairing.AdmitsResult location function) {stmts : List Stmt}
    (index : Nat) (admits : ∀ stmt ∈ stmts, ∀ location, pairing.AdmitsStmt location stmt) :
    pairing.Alike (pairing.left.executeFrom function index stmts)
      (pairing.right.executeFrom function index stmts) := by
  induction stmts generalizing index with
  | nil =>
      rw [Evaluator.executeFrom, Evaluator.executeFrom]
      exact .pure _
  | cons stmt stmts inductionHypothesis =>
      obtain ⟨here, rest⟩ := List.forall_mem_cons.mp admits
      rw [Evaluator.executeFrom, Evaluator.executeFrom]
      refine (Alike.checkpoint _ steps).bind fun _ => ?_
      refine (execute_alike (fun _ => steps) (result _) (here _)).bind fun flow => ?_
      cases flow with
      | next => exact inductionHypothesis (index + 1) rest
      | returned value => exact .pure value

theorem bindSlots_alike (steps : pairing.steps) (function : FunctionDef) (args : List Value)
    (location : Location) :
    pairing.Alike (pairing.model.bindSlots function args location)
      (pairing.model.bindSlots function args location) := by
  have params : ∀ (params : List Param) (args : List Value),
      pairing.Alike (pairing.model.bindParams function.name location params args)
        (pairing.model.bindParams function.name location params args) := by
    intro params
    induction params with
    | nil =>
        intro args
        simp only [Model.bindParams]
        exact .pure _
    | cons param params inductionHypothesis =>
        intro args
        cases args with
        | nil =>
            simp only [Model.bindParams]
            exact .pure _
        | cons arg args =>
            rw [Model.bindParams]
            refine (Alike.quiet (expectKind location param.kind arg)).bind fun _ => ?_
            exact (bind_alike steps _ _ _ _).bind fun _ => inductionHypothesis args
  unfold Model.bindSlots Model.bindResult
  refine (params function.params args).bind fun _ => ?_
  split
  · exact bind_alike steps _ _ _ _
  · exact .pure _

/-- A call may do what its body mentions. -/
structure AdmitsCall (pairing : Pairing) (function : FunctionDef) : Prop where
  steps : pairing.steps
  names : ∀ name location, pairing.names name location
  calls : ∀ callee ∈ function.callees, pairing.calls callee

theorem inside_alike (pairing : Pairing) {function : FunctionDef}
    (admits : pairing.AdmitsCall function)
    (args : List Value) (location : Location) {observe : Run Unit}
    (observed : pairing.Alike observe observe) :
    pairing.Alike (pairing.left.inside function args location observe)
      (pairing.right.inside function args location observe) := by
  have steps := admits.steps
  unfold Evaluator.inside Model.open FunctionDef.close FunctionDef.copyOut
  refine Alike.bind ?_ fun _ => ?_
  · refine (Alike.transition _ _ steps).bind fun _ => ?_
    exact (bindSlots_alike steps function args location).bind fun _ => .transition _ _ steps
  refine (executeFrom_alike steps (fun _ _ _ => admits.names _ _) 0 ?_).bind fun returned => ?_
  · exact fun stmt member _ => ⟨fun _ _ => admits.names _ _, fun callee called =>
      admits.calls callee (FunctionDef.mem_callees member called)⟩
  refine observed.bind fun _ => ?_
  refine (Alike.transition _ _ steps).bind fun _ => ?_
  split
  · exact .pure _
  · refine (Alike.lookup (admits.names _ _)).bind fun ref => ?_
    exact .map _ (.quiet _)

theorem declareGlobal_alike (steps : pairing.steps) {decl : VarDecl}
    (admits : pairing.AdmitsAll location decl.parts) :
    pairing.Alike (pairing.left.declareGlobal location decl)
      (pairing.right.declareGlobal location decl) := by
  unfold Evaluator.declareGlobal
  refine (evaluateDecl_alike admits).bind fun value => ?_
  exact (Alike.declare _ _ _ _ _ steps).bind fun _ => .quiet _

theorem declareGlobals_alike (pairing : Pairing) (steps : pairing.steps) {decls : List VarDecl}
    (index : Nat) (admits : ∀ decl ∈ decls, ∀ location, pairing.AdmitsAll location decl.parts) :
    pairing.Alike (pairing.left.declareGlobals index decls)
      (pairing.right.declareGlobals index decls) := by
  induction decls generalizing index with
  | nil =>
      rw [Evaluator.declareGlobals, Evaluator.declareGlobals]
      exact .pure _
  | cons decl decls inductionHypothesis =>
      obtain ⟨here, rest⟩ := List.forall_mem_cons.mp admits
      rw [Evaluator.declareGlobals, Evaluator.declareGlobals]
      refine (Alike.checkpoint _ steps).bind fun _ => ?_
      refine (declareGlobal_alike steps (here _)).bind fun _ => ?_
      exact inductionHypothesis (index + 1) rest

end Pairing

namespace Model

variable {model : Model}

/-- The calls of a model with two bounds on the nesting. -/
def leveled (model : Model) (calls : String → Prop) (first second : Nat) : Pairing :=
  ⟨model, model.invoke first, model.invoke second, fun _ _ => True, calls, True⟩

theorem leveled_admits {calls : String → Prop} {first second : Nat} (function : FunctionDef)
    (called : ∀ callee ∈ function.callees, calls callee) :
    (model.leveled calls first second).AdmitsCall function :=
  ⟨trivial, fun _ _ => trivial, called⟩

theorem leveled_globals {first second : Nat} (decl : VarDecl) (location : Location) :
    (model.leveled (fun _ => True) first second).AdmitsAll location decl.parts :=
  fun _ _ => ⟨fun _ _ => trivial, fun _ _ => trivial⟩

/-- One way to run the calls of a model, without statement boundaries. -/
abbrev between (model : Model) (invoke : Invocation) : Pairing :=
  ⟨model, invoke, invoke, fun _ _ => True, fun _ => True, False⟩

theorem between_evaluateDecl (model : Model) (invoke : Invocation) (location : Location)
    (decl : VarDecl) :
    (model.between invoke).Alike (Evaluator.evaluateDecl ⟨model, invoke⟩ location decl)
      (Evaluator.evaluateDecl ⟨model, invoke⟩ location decl) :=
  Pairing.evaluateDecl_alike fun _ _ => ⟨fun _ _ => trivial, fun _ _ => trivial⟩

theorem between_execute {model : Model} {invoke : Invocation} {function : FunctionDef}
    {location : Location} {stmt : Stmt} (undeclared : stmt.declared? = none) :
    (model.between invoke).Alike (Evaluator.execute ⟨model, invoke⟩ function location stmt)
      (Evaluator.execute ⟨model, invoke⟩ function location stmt) := by
  refine Pairing.execute_alike (fun declares => ?_) (fun _ _ => trivial)
    ⟨fun _ _ => trivial, fun _ _ => trivial⟩
  rw [undeclared] at declares
  cases declares

end Model

theorem Stmt.eq_declare {stmt : Stmt} {decl : VarDecl} (declared : stmt.declared? = some decl) :
    stmt = .declare decl := by
  cases stmt <;> cases declared
  rfl

/-! ### Whole runs -/

/-- A property of computations that the interpreter keeps however it puts them together. -/
structure Run.Closed (holds : ∀ {α : Type}, Run α → Prop) : Prop where
  quiet : ∀ {α : Type} (run : Run α) [Quiet run], holds run
  bind : ∀ {α β : Type} {first : Run α} {next : α → Run β}, holds first →
    (∀ value, holds (next value)) → holds (first >>= next)
  lookup : ∀ name location, holds (lookup name location)
  declare : ∀ name kind site placement value,
    holds (allocate (·.declare name kind site placement value))
  checkpoint : ∀ location, holds (checkpoint location)
  transition : ∀ function state, holds (transition function state)
  capture : holds capture
  framed : ∀ {α : Type} (function : String) (callSite : Option Location) {inside : Run α},
    holds inside → holds (framed function callSite inside)
  exceeded : holds (throw .callDepthExceeded : Run (Option Value))

namespace Run.Closed

variable {holds : ∀ {α : Type}, Run α → Prop} (closed : Closed @holds)

include closed

theorem alike {α : Type} {pairing : Pairing} {run run' : Run α} (alike : pairing.Alike run run')
    (calls : ∀ function args location, holds (pairing.invoke function args location)) :
    holds run := by
  induction alike with
  | quiet run => exact closed.quiet run
  | bind start rest startHolds restHolds => exact closed.bind startHolds restHolds
  | lookup permitted => exact closed.lookup _ _
  | call permitted found evaluated complete evaluatedHolds =>
      exact closed.bind evaluatedHolds fun _ => calls _ _ _
  | declare name kind site placement value permitted => exact closed.declare _ _ _ _ _
  | checkpoint location permitted => exact closed.checkpoint location
  | transition function state permitted => exact closed.transition function state
  | capture permitted => exact closed.capture

/-- What a computation in a frame and a record of its end have, a call has. -/
theorem exited {function : String} {callSite : Option Location} {inside : Run (Option Value)}
    (insideHolds : holds inside) :
    holds (do
      let result ← Run.framed function callSite inside
      Run.transition function .exited
      return result) :=
  closed.bind (closed.framed function callSite insideHolds) fun _ =>
    closed.bind (closed.transition function .exited) fun _ => closed.quiet _

theorem invoke (model : Model) (depth : Nat) (function : FunctionDef) (args : List Value)
    (callSite : Location) : holds (model.invoke depth function args callSite) := by
  induction depth generalizing function args callSite with
  | zero => exact closed.exceeded
  | succ depth inductionHypothesis =>
      have inside := (model.leveled (fun _ => True) depth depth).inside_alike
        (Model.leveled_admits function fun _ _ => trivial) args callSite (.quiet (pure ()))
      rw [Model.invoke, Evaluator.perform_eq]
      exact closed.exited (closed.alike inside inductionHypothesis)

/-- A whole run has what all of its parts have. -/
theorem execute (model : Model) : holds model.execute := by
  let pairing := model.leveled (fun _ => True) model.maxCallDepth model.maxCallDepth
  have calls := closed.invoke model model.maxCallDepth
  have globals := pairing.declareGlobals_alike trivial 0
    fun decl (_ : decl ∈ model.globals) location => Model.leveled_globals decl location
  have unknown : Quiet (fail (.undefinedFunction model.config.entry
      ⟨model.config.entry, 0⟩) : Run FunctionDef) :=
    quiet_fail fun _ _ same => RuntimeError.noConfusion same
  have entry : Quiet (model.function model.config.entry ⟨model.config.entry, 0⟩) := by
    unfold Model.function
    split <;> infer_instance
  unfold Model.execute Model.evaluator Evaluator.run
  refine closed.bind (closed.alike globals calls) fun _ => ?_
  refine closed.bind (closed.quiet _) fun entry => ?_
  refine closed.bind ?_ fun _ => closed.quiet _
  have inside := pairing.inside_alike (Model.leveled_admits entry fun _ _ => trivial) []
    ⟨entry.name, 0⟩ ((Pairing.Alike.capture trivial).bind fun _ => .quiet Run.sweep)
  rw [Evaluator.runEntry_eq]
  exact closed.exited (closed.alike inside calls)

end Run.Closed

end ReferenceSemantics
