import ReferenceSemantics.Proofs.Run.Alike

set_option autoImplicit false

/-!
The names that are looked up.

A statement resolves places and evaluates expressions, one after the other, and each of them what is
in it first. The initialiser of a global is evaluated. A name is looked up when what stands before
it is done, in the storage that this has left. Nothing else is looked up: a name that is not found
was looked up in this way, or by a function that is called from there.
-/

namespace ReferenceSemantics

open Run

/-- A place that is resolved, or an expression that is evaluated. -/
inductive Operand where
  | place (target : Place)
  | value (expr : Expr)

namespace Operand

/-- What is resolved and evaluated inside, in this order. -/
def inner : Operand → List Operand
  | place (.var _) | value (.var _) | value (.lit _) | value .nil => []
  | place (.field base _) | value (.addrOf base) => [place base]
  | place (.deref operand) | value (.deref operand) | value (.field operand _)
  | value (.new operand _) | value (.makeSlice _ _ operand) | value (.len operand)
  | value (.cap operand) | value (.reslice operand _ _) | value (.boxed _ operand)
  | value (.isNil operand) => [value operand]
  | value (.index base index) => [value base, value index]
  | value (.lookup base key default) => [value base, value key, value default]
  | value (.composite _ fields) => fields.map fun field => value field.2
  | value (.sliceLit elems _) => elems.map value
  | value (.mapLit entries) => entries.flatMap fun entry => [value entry.1, value entry.2]
  | value (.call _ args) => args.map value

/-- Resolve or evaluate, for what this does to the machine. -/
def run (evaluator : Evaluator) (location : Location) : Operand → Run Unit
  | place target => do let _ ← evaluator.placeRef location target
  | value expr => do let _ ← evaluator.evaluate location expr

/-- Take the operands one after the other. -/
def runAll (evaluator : Evaluator) (location : Location) : List Operand → Run Unit
  | [] => pure ()
  | operand :: rest => do
      operand.run evaluator location
      runAll evaluator location rest

end Operand

/-- What the initialiser of a declaration evaluates. -/
def VarDecl.inner (decl : VarDecl) : List Operand := decl.init.toList.map .value

/-- What a statement of a function resolves and evaluates, in this order. A returned value is put
into the slot of a named result. -/
def Stmt.inner (function : FunctionDef) : Stmt → List Operand
  | declare decl => decl.inner
  | assign target value => [.place (.var target), .value value]
  | setField target _ value => [.place target, .value value]
  | store pointer value => [.value pointer, .value value]
  | setIndex target index value => [.place target, .value index, .value value]
  | setKey target key value => [.place target, .value key, .value value]
  | append target values => .place target :: values.map .value
  | call _ args => args.map .value
  | ret none => []
  | ret (some value) =>
      .value value :: function.namedResult.toList.map fun result => .place (.var result)

/-- What stands at a location: a statement of a function, or the initialiser of a global. -/
inductive Task where
  | statement (function : FunctionDef) (stmt : Stmt)
  | initialiser (decl : VarDecl)

namespace Task

def inner : Task → List Operand
  | statement function stmt => stmt.inner function
  | initialiser decl => decl.inner

def run (evaluator : Evaluator) (location : Location) : Task → Run Unit
  | statement function stmt => do let _ ← evaluator.execute function location stmt
  | initialiser decl => evaluator.declareGlobal location decl

end Task

/-- From the one machine on the operands are taken one after the other, up to one in which the name
is looked up, on the other machine. The default of a lookup in a table is taken like any operand. -/
inductive LooksUp (evaluator : Evaluator) (location : Location) (name : String) :
    List Operand → Machine → Machine → Prop
  | place (rest : List Operand) (machine : Machine) :
      LooksUp evaluator location name (.place (.var name) :: rest) machine machine
  | value (rest : List Operand) (machine : Machine) :
      LooksUp evaluator location name (.value (.var name) :: rest) machine machine
  | inside {operand : Operand} {rest : List Operand} {machine last : Machine}
      (looks : LooksUp evaluator location name operand.inner machine last) :
      LooksUp evaluator location name (operand :: rest) machine last
  | later {operand : Operand} {rest : List Operand} {machine middle last : Machine}
      (ran : exec (operand.run evaluator location) machine = (.ok (), middle))
      (looks : LooksUp evaluator location name rest middle last) :
      LooksUp evaluator location name (operand :: rest) machine last

/-! ### No other lookups -/

theorem Operand.runAll_append {evaluator : Evaluator} {location : Location}
    {first : List Operand} (rest : List Operand) :
    runAll evaluator location (first ++ rest) = (do
      runAll evaluator location first
      runAll evaluator location rest) := by
  induction first with
  | nil => rfl
  | cons operand first inductionHypothesis =>
      rw [List.cons_append, runAll, runAll, inductionHypothesis, bind_assoc]

namespace LooksUp

variable {evaluator : Evaluator} {location : Location} {name : String}
  {first rest : List Operand} {machine middle last : Machine}

theorem append (looks : LooksUp evaluator location name first machine last) (rest : List Operand) :
    LooksUp evaluator location name (first ++ rest) machine last := by
  induction looks with
  | place others machine => exact .place (others ++ rest) machine
  | value others machine => exact .value (others ++ rest) machine
  | inside looks _ => exact .inside looks
  | later ran _ inductionHypothesis => exact .later ran inductionHypothesis

theorem after (looks : LooksUp evaluator location name rest middle last)
    (ran : exec (Operand.runAll evaluator location first) machine = (.ok (), middle)) :
    LooksUp evaluator location name (first ++ rest) machine last := by
  induction first generalizing machine with
  | nil =>
      cases ran
      exact looks
  | cons operand first inductionHypothesis =>
      obtain ⟨⟨⟩, reached, here, further⟩ := ok_of_bind ran
      exact .later here (inductionHypothesis further)

end LooksUp

variable (evaluator : Evaluator) (location : Location)

/-- A name is not found. From the one machine on it is looked up in the operands, where it is not
bound on the other machine, or a function of the program that is called from here does not find it. -/
inductive Missed (evaluator : Evaluator) (location : Location) (name : String)
    (operands : List Operand) (machine : Machine) : Location → Machine → Prop
  | here {last : Machine} (looks : LooksUp evaluator location name operands machine last)
      (absent : last.storage.lookup name = none) :
      Missed evaluator location name operands machine location last
  | called {callee : String} {function : FunctionDef} {args : List Value} {place : Location}
      {reached last : Machine} (found : evaluator.model.function? callee = some function)
      (failed : exec (evaluator.invoke function args location) reached =
        (.error (.error (.undefinedVariable name place)), last)) :
      Missed evaluator location name operands machine place last

/-- What is looked up in some operands is looked up in others. -/
theorem Missed.mono {evaluator : Evaluator} {location place : Location} {name : String}
    {operands others : List Operand} {machine started last : Machine}
    (missed : Missed evaluator location name operands machine place last)
    (more : LooksUp evaluator location name operands machine last →
      LooksUp evaluator location name others started last) :
    Missed evaluator location name others started place last := by
  cases missed with
  | here looks absent => exact .here (more looks) absent
  | called found failed => exact .called found failed

/-- Every name that the computation does not find is missed in the operands or in a call. -/
def Misses {α : Type} (operands : List Operand) (run : Run α) : Prop :=
  ∀ machine name place last,
    exec run machine = (.error (.error (.undefinedVariable name place)), last) →
      Missed evaluator location name operands machine place last

/-- The computation does to the machine what the operands do, and no other name is not found. -/
structure Takes {α : Type} (operands : List Operand) (run : Run α) : Prop where
  misses : Misses evaluator location operands run
  done : ∀ machine value after, exec run machine = (.ok value, after) →
    exec (Operand.runAll evaluator location operands) machine = (.ok (), after)

variable {evaluator location} {α β : Type} {first rest : List Operand}

namespace Misses

/-- A computation that fails for other reasons only. -/
theorem never {run : Run α} (named : ∀ machine name place last,
    exec run machine ≠ (.error (.error (.undefinedVariable name place)), last)) :
    Misses evaluator location first run :=
  fun machine name place last failed => absurd failed (named machine name place last)

theorem quiet {run : Run α} [Quiet run] : Misses evaluator location first run := by
  refine .never fun machine name place last failed => ?_
  obtain ⟨result, changed, events, reaction⟩ := Run.reacts run machine.storage
  rw [show exec run machine = _ from reaction.ran machine.trace machine.abort machine.finalValues]
    at failed
  obtain ⟨failed, -⟩ := Prod.mk.inj failed
  cases result with
  | ok value => cases failed
  | error error =>
      have named := Halt.error.inj (Except.error.inj failed)
      exact reaction.named name place (congrArg Except.error named)

theorem bind {run : Run α} {next : α → Run β} (takes : Takes evaluator location first run)
    (misses : ∀ value, Misses evaluator location rest (next value)) :
    Misses evaluator location (first ++ rest) (run >>= next) := by
  intro machine name place last failed
  rw [exec_bind] at failed
  generalize ran : exec run machine = reached at failed
  obtain ⟨result, middle⟩ := reached
  cases result with
  | error halt =>
      cases failed
      exact (takes.misses machine name place last ran).mono fun looks => looks.append rest
  | ok value =>
      have done := takes.done machine value middle ran
      exact (misses value middle name place last failed).mono fun looks => looks.after done

/-- What follows does not look up names. -/
theorem followed {run : Run α} {next : α → Run β} (misses : Misses evaluator location first run)
    (silent : ∀ value, Misses evaluator location [] (next value)) :
    Misses evaluator location first (run >>= next) := by
  intro machine name place last failed
  rw [exec_bind] at failed
  generalize ran : exec run machine = reached at failed
  obtain ⟨result, middle⟩ := reached
  cases result with
  | error halt =>
      cases failed
      exact misses machine name place last ran
  | ok value => exact (silent value middle name place last failed).mono nofun

/-- A function of the program is called. -/
theorem invoke {callee : String} {function : FunctionDef}
    (found : evaluator.model.function? callee = some function) (args : List Value) :
    Misses evaluator location [] (evaluator.invoke function args location) :=
  fun _ _ _ _ failed => .called found failed

theorem function {callee : String} {next : FunctionDef → Run α}
    (rest : ∀ function, evaluator.model.function? callee = some function →
      Misses evaluator location first (next function)) :
    Misses evaluator location first (evaluator.model.function callee location >>= next) := by
  unfold Model.function
  split
  next function found =>
    rw [pure_bind]
    exact rest function found
  next =>
    refine .never ?_
    rintro machine name place last ⟨⟩

end Misses

namespace Takes

theorem bind {run : Run α} {next : α → Run β} (takes : Takes evaluator location first run)
    (others : ∀ value, Takes evaluator location rest (next value)) :
    Takes evaluator location (first ++ rest) (run >>= next) := by
  refine ⟨.bind takes fun value => (others value).misses, fun machine result after ran => ?_⟩
  obtain ⟨value, middle, started, ran⟩ := ok_of_bind ran
  rw [Operand.runAll_append, exec_bind_ok () (takes.done machine value middle started)]
  exact (others value).done middle result after ran

theorem pure (value : α) : Takes evaluator location [] (pure value) := by
  refine ⟨.quiet, ?_⟩
  rintro machine value after ⟨⟩
  rfl

theorem map {run : Run α} (f : α → β) (takes : Takes evaluator location first run) :
    Takes evaluator location first (f <$> run) := by
  have mapped := takes.bind fun value => .pure (f value)
  rwa [List.append_nil, ← map_eq_pure_bind] at mapped

/-- A computation that leaves the machine as it is, and looks up no name. -/
theorem still {run : Run α} [Quiet run]
    (same : ∀ machine value after, exec run machine = (.ok value, after) → after = machine) :
    Takes evaluator location [] run :=
  ⟨.quiet, fun machine value after ran => by rw [same machine value after ran]; rfl⟩

theorem read (look : Storage → Except StorageError α) :
    Takes evaluator location [] (read location look) := by
  refine .still fun machine value after ran => ?_
  rw [exec_read] at ran
  split at ran <;> cases ran
  rfl

theorem mismatch (reason : Mismatch) :
    Takes evaluator location [] (mismatch location reason : Run α) := by
  refine .still fun machine value after ran => ?_
  cases ran

theorem asInt (value : Value) : Takes evaluator location [] (asInt location value) := by
  unfold ReferenceSemantics.asInt
  split
  next => exact .pure _
  next => exact .mismatch _

theorem expectKind (kind : Kind) (value : Value) :
    Takes evaluator location [] (expectKind location kind value) := by
  unfold Run.expectKind
  split
  next => exact .pure ()
  next => exact .mismatch _

theorem fieldRef (base : SlotRef) (name : String) :
    Takes evaluator location [] (fieldRef location base name) := by
  have holder (found : Value) : Takes evaluator location [] (fieldHolder location base found) := by
    unfold fieldHolder
    split
    next => exact .read _
    next => exact .pure _
    next => exact .mismatch _
  have field (holder : SlotRef) (found : Value) :
      Takes evaluator location [] (fieldOf location holder name found) := by
    unfold fieldOf
    split
    next => exact Takes.bind (.read _) fun _ => .pure _
    next => exact .mismatch _
  unfold ReferenceSemantics.fieldRef
  refine Takes.bind (.read _) fun found => (holder found).bind fun place => ?_
  exact Takes.bind (.read _) fun found => field place found

theorem checkArgumentCount (function : FunctionDef) (count : Nat) :
    Takes evaluator location [] (checkArgumentCount location function count) := by
  unfold ReferenceSemantics.checkArgumentCount
  split
  next => exact .pure _
  next => exact .mismatch _

theorem place {target : Place}
    (misses : Misses evaluator location [.place target] (evaluator.placeRef location target)) :
    Takes evaluator location [.place target] (evaluator.placeRef location target) := by
  refine ⟨misses, fun machine value after ran => ?_⟩
  simp only [Operand.runAll, Operand.run, bind_assoc, pure_bind]
  rw [exec_bind_ok value ran]
  rfl

theorem value {expr : Expr}
    (misses : Misses evaluator location [.value expr] (evaluator.evaluate location expr)) :
    Takes evaluator location [.value expr] (evaluator.evaluate location expr) := by
  refine ⟨misses, fun machine value after ran => ?_⟩
  simp only [Operand.runAll, Operand.run, bind_assoc, pure_bind]
  rw [exec_bind_ok value ran]
  rfl

/-- The literal `nil` is not evaluated where a kind is expected. -/
theorem flowInto {expr : Expr} (kind : Kind)
    (takes : Takes evaluator location [.value expr] (evaluator.evaluate location expr)) :
    Takes evaluator location [.value expr]
      (flowInto location kind expr (evaluator.evaluate location expr)) := by
  unfold ReferenceSemantics.flowInto
  split
  next =>
    refine ⟨.quiet, fun machine value after ran => ?_⟩
    have same : after = machine := by
      split at ran <;> cases ran
      rfl
    rw [same]
    simp only [Operand.runAll, Operand.run, Evaluator.evaluate, pure_bind]
    rfl
  next => exact takes.bind fun _ => .pure _

end Takes

theorem Misses.inside {operand : Operand} {run : Run α}
    (misses : Misses evaluator location operand.inner run) :
    Misses evaluator location [operand] run := by
  intro machine name place last failed
  exact (misses machine name place last failed).mono .inside

theorem Misses.lookup {name : String} {operands : List Operand}
    (here : ∀ machine, LooksUp evaluator location name operands machine machine) :
    Misses evaluator location operands (lookup name location) := by
  intro machine other place last failed
  rw [exec_lookup] at failed
  split at failed
  next => cases failed
  next absent =>
    cases failed
    exact .here (here machine) absent

mutual

theorem takes_place : ∀ target : Place,
    Takes evaluator location [.place target] (evaluator.placeRef location target)
  | .var name => by
      refine .place ?_
      rw [Evaluator.placeRef]
      exact .lookup fun machine => .place [] machine
  | .field base _ => by
      refine .place (.inside ?_)
      rw [Evaluator.placeRef]
      exact (takes_place base).misses.followed fun _ => .quiet
  | .deref pointer => by
      refine .place (.inside ?_)
      rw [Evaluator.placeRef]
      exact (takes_value pointer).misses.followed fun _ => .quiet

theorem takes_value : ∀ expr : Expr,
    Takes evaluator location [.value expr] (evaluator.evaluate location expr)
  | .lit _ | .nil => by
      refine .value ?_
      rw [Evaluator.evaluate]
      exact .quiet
  | .var name => by
      refine .value ?_
      rw [Evaluator.evaluate]
      exact (Misses.lookup fun machine => .value [] machine).followed fun _ => .quiet
  | .field base _ | .deref base | .len base | .cap base | .reslice base _ _ | .boxed _ base
  | .isNil base => by
      refine .value (.inside ?_)
      rw [Evaluator.evaluate]
      exact (takes_value base).misses.followed fun _ => .quiet
  | .addrOf target => by
      refine .value (.inside ?_)
      rw [Evaluator.evaluate]
      exact (takes_place target).misses.followed fun _ => .quiet
  | .new init site => by
      refine .value (.inside ?_)
      rw [Evaluator.evaluate]
      exact (takes_value init).misses.followed fun value => .quiet
  | .composite _ fields => by
      refine .value (.inside ?_)
      rw [Evaluator.evaluate]
      exact (takes_fields fields).misses.followed fun _ => .quiet
  | .sliceLit elems capacity => by
      refine .value (.inside ?_)
      rw [Evaluator.evaluate]
      exact (takes_all elems).misses.followed fun _ => .quiet
  | .makeSlice len cap zero => by
      refine .value (.inside ?_)
      rw [Evaluator.evaluate]
      split
      · refine .never fun machine name place last failed => ?_
        cases failed
      · exact (takes_value zero).misses.followed fun _ => .quiet
  | .mapLit entries => by
      refine .value (.inside ?_)
      rw [Evaluator.evaluate]
      exact (takes_entries entries).misses.followed fun _ => .quiet
  | .index base index => by
      refine .value (.inside ?_)
      rw [Evaluator.evaluate]
      refine .bind (takes_value base) fun header => ?_
      exact (takes_value index).misses.followed fun _ => .quiet
  | .lookup base key default => by
      refine .value (.inside ?_)
      rw [Evaluator.evaluate]
      refine .bind (takes_value base) fun header => ?_
      refine .bind (takes_value key) fun key => ?_
      refine Misses.bind (.read _) fun found => ?_
      cases found with
      | none => exact (takes_value default).misses
      | some value =>
          rw [Option.elim_some]
          exact .quiet
  | .call callee args => by
      refine .value (.inside ?_)
      rw [Evaluator.evaluate]
      refine .function fun function found => ?_
      refine Misses.bind (.checkArgumentCount function args.length) fun _ => ?_
      refine (misses_args function.params args).followed fun values => ?_
      exact (Misses.invoke found values).followed fun _ => .quiet

theorem takes_all : ∀ exprs : List Expr,
    Takes evaluator location (exprs.map .value) (evaluator.evaluateAll location exprs)
  | [] => by
      rw [Evaluator.evaluateAll]
      exact .pure _
  | expr :: exprs => by
      rw [Evaluator.evaluateAll]
      exact (takes_value expr).bind fun value => (takes_all exprs).map _

theorem takes_fields : ∀ fields : List (String × Expr),
    Takes evaluator location (fields.map fun field => .value field.2)
      (evaluator.evaluateFields location fields)
  | [] => by
      rw [Evaluator.evaluateFields]
      exact .pure _
  | (_, expr) :: fields => by
      rw [Evaluator.evaluateFields]
      exact (takes_value expr).bind fun value => (takes_fields fields).map _

theorem takes_entries : ∀ entries : List (Expr × Expr),
    Takes evaluator location (entries.flatMap fun entry => [.value entry.1, .value entry.2])
      (evaluator.evaluateEntries location entries)
  | [] => by
      rw [Evaluator.evaluateEntries]
      exact .pure _
  | (key, value) :: entries => by
      rw [Evaluator.evaluateEntries]
      exact (takes_value key).bind fun _ => (takes_value value).bind fun _ =>
        (takes_entries entries).map _

theorem misses_args : ∀ (params : List Param) (args : List Expr),
    Misses evaluator location (args.map .value) (evaluator.evaluateArgs location params args)
  | param :: params, arg :: args => by
      rw [Evaluator.evaluateArgs]
      refine .bind (.flowInto param.kind (takes_value arg)) fun _ => ?_
      exact (misses_args params args).followed fun _ => .quiet
  | [], _ | _ :: _, [] => by
      simp only [Evaluator.evaluateArgs]
      exact .quiet

end

/-! ### Statements and initialisers -/

theorem takes_evaluateFor (kind : Kind) (expr : Expr) :
    Takes evaluator location [.value expr] (evaluator.evaluateFor location kind expr) :=
  .flowInto kind (takes_value expr)

theorem misses_evaluateDecl (decl : VarDecl) :
    Misses evaluator location decl.inner (evaluator.evaluateDecl location decl) := by
  unfold Evaluator.evaluateDecl VarDecl.inner
  cases decl.init with
  | none => exact .quiet
  | some init =>
      exact (takes_evaluateFor decl.kind init).misses.followed fun _ => .quiet

theorem misses_overwrite (ref : SlotRef) (kind : Kind) (value : Expr) :
    Misses evaluator location [.value value] (evaluator.overwrite location ref kind value) := by
  unfold Evaluator.overwrite
  exact (takes_evaluateFor kind value).misses.followed fun _ => .quiet

theorem takes_evaluateElement (kind : Option Kind) (expr : Expr) :
    Takes evaluator location [.value expr] (evaluator.evaluateElement location kind expr) := by
  cases kind with
  | none => exact takes_value expr
  | some kind => exact takes_evaluateFor kind expr

theorem takes_evaluateElements (kind : Option Kind) (exprs : List Expr) :
    Takes evaluator location (exprs.map .value)
      (evaluator.evaluateElements location kind exprs) := by
  induction exprs with
  | nil =>
      rw [Evaluator.evaluateElements]
      exact .pure _
  | cons expr exprs inductionHypothesis =>
      rw [Evaluator.evaluateElements]
      exact (takes_evaluateElement kind expr).bind fun _ => inductionHypothesis.map _

theorem misses_append (target : Place) (values : List Expr) :
    Misses evaluator location (.place target :: values.map .value)
      (evaluator.append location target values) := by
  unfold Evaluator.append
  refine Misses.followed ?_ fun _ => .quiet
  unfold Evaluator.appendOperands
  refine .bind (takes_place target) fun ref => ?_
  refine Misses.bind (.read _) fun header => ?_
  refine Misses.bind (.read _) fun kind => ?_
  exact (takes_evaluateElements kind values).misses.followed fun _ => .quiet

theorem misses_call (callee : String) (args : List Expr) :
    Misses evaluator location (args.map .value) (evaluator.call location callee args) := by
  unfold Evaluator.call
  refine .function fun function found => ?_
  refine Misses.bind (.checkArgumentCount function args.length) fun _ => ?_
  exact (misses_args function.params args).followed fun values => .invoke found values

theorem misses_returnValue (function : FunctionDef) (value : Expr) :
    Misses evaluator location
      (.value value :: function.namedResult.toList.map fun result => .place (.var result))
      (evaluator.returnValue function location value) := by
  unfold Evaluator.returnValue FunctionDef.deliver
  refine .bind (takes_evaluateFor _ value) fun value => ?_
  refine Misses.bind (.expectKind _ value) fun _ => ?_
  cases function.namedResult with
  | none => exact .quiet
  | some name => exact (Misses.lookup fun machine => .place [] machine).followed fun _ => .quiet

theorem misses_execute (function : FunctionDef) (stmt : Stmt) :
    Misses evaluator location (stmt.inner function)
      (evaluator.execute function location stmt) := by
  cases stmt with
  | declare decl =>
      rw [Evaluator.execute]
      refine (misses_evaluateDecl decl).followed fun value => ?_
      refine .never ?_
      rintro machine name place last ⟨⟩
  | assign target value =>
      have takes := @takes_place evaluator location (.var target)
      rw [Evaluator.placeRef] at takes
      rw [Evaluator.execute]
      refine .bind takes fun ref => ?_
      refine Misses.bind (.read _) fun slot => ?_
      exact (misses_overwrite ref slot.kind value).followed fun _ => .quiet
  | setField target name value =>
      rw [Evaluator.execute]
      refine .bind (takes_place target) fun base => ?_
      refine Misses.bind (.fieldRef base name) fun ref => ?_
      refine Misses.bind (.read _) fun old => ?_
      exact (misses_overwrite ref old.kind value).followed fun _ => .quiet
  | store pointer value =>
      rw [Evaluator.execute]
      refine .bind (takes_value pointer) fun pointer => ?_
      refine Misses.bind (.read _) fun ref => ?_
      refine Misses.bind (.read _) fun old => ?_
      exact (misses_overwrite ref old.kind value).followed fun _ => .quiet
  | setIndex target index value =>
      rw [Evaluator.execute]
      refine .bind (takes_place target) fun ref => ?_
      refine Misses.bind (.read _) fun header => ?_
      refine .bind (takes_value index) fun found => ?_
      refine Misses.bind (.asInt found) fun index => ?_
      refine Misses.bind (.read _) fun old => ?_
      exact (takes_evaluateFor old.kind value).misses.followed fun _ => .quiet
  | setKey target key value =>
      rw [Evaluator.execute]
      refine .bind (takes_place target) fun ref => ?_
      refine Misses.bind (.read _) fun header => ?_
      refine .bind (takes_value key) fun key => ?_
      refine Misses.bind (.read _) fun kind => ?_
      exact (takes_evaluateElement kind value).misses.followed fun _ => .quiet
  | append target values =>
      rw [Evaluator.execute]
      exact (misses_append target values).followed fun _ => .quiet
  | call callee args =>
      rw [Evaluator.execute]
      exact (misses_call callee args).followed fun _ => .quiet
  | ret value =>
      cases value with
      | none =>
          rw [Evaluator.execute]
          exact .quiet
      | some value =>
          rw [Evaluator.execute, map_eq_pure_bind]
          exact (misses_returnValue function value).followed fun _ => .quiet

/-- A name that is not found is looked up in the operands, or a function called from here misses
it. -/
theorem misses_task (task : Task) :
    Misses evaluator location task.inner (task.run evaluator location) := by
  cases task with
  | statement function stmt =>
      exact (misses_execute function stmt).followed fun _ => .quiet
  | initialiser decl =>
      refine (misses_evaluateDecl decl).followed fun value => ?_
      refine .never ?_
      rintro machine name place last ⟨⟩

end ReferenceSemantics
