import ReferenceSemantics.Proofs.Run.Frame

set_option autoImplicit false

/-!
The ends that a run of a well-formed program may come to.

A call fails if its function is missing, if it passes a wrong number of arguments, or if it is used
for its value and there is none. A well-formed program is permitted the last of these only, where a
function without a result is used so. Most computations of the interpreter do not touch upon this.
-/

namespace ReferenceSemantics

open Run

/-- An end that has nothing to do with how calls fit their functions. -/
def Halt.Ordinary : Halt → Prop
  | .error (.undefinedFunction _ _) => False
  | .error (.kindMismatch (.argumentCount _ _) _) => False
  | .error (.kindMismatch (.noResult _) _) => False
  | _ => True

/-- A call of the function is used for its value at the location. -/
inductive Program.Uses (program : Program) (callee : String) (location : Location) : Prop
  | initialiser {decl : VarDecl} {args : List Expr} (here : location.function = globalsFrame)
      (standing : program.globals[location.statement]? = some decl)
      (used : .call callee args ∈ decl.parts) : Uses program callee location
  | statement {function : FunctionDef} {stmt : Stmt} {args : List Expr}
      (member : function ∈ program.functions) (here : location.function = function.name)
      (standing : function.body[location.statement]? = some stmt)
      (used : .call callee args ∈ stmt.parts) : Uses program callee location

/-- A function without a result is used for its value at the location. -/
def Program.UsesNothing (program : Program) (callee : String) (location : Location) : Prop :=
  program.Uses callee location ∧
    ∃ function ∈ program.functions, function.name = callee ∧ function.result = none

/-- The ends that a run of a well-formed program may come to. -/
def Program.Permits (program : Program) (halt : Halt) : Prop :=
  halt.Ordinary ∨ ∃ callee location,
    halt = .error (.kindMismatch (.noResult callee) location) ∧ program.UsesNothing callee location

namespace Run

variable {α β : Type} {program : Program}

/-- A computation that only ends ordinarily. -/
class Ordinary (run : Run α) : Prop where
  halts : ∀ machine halt after, exec run machine = (.error halt, after) → halt.Ordinary

/-- Every value fits the postcondition, and every other end is permitted. -/
def Safe (program : Program) (run : Run α) (post : α → Prop) : Prop :=
  ∀ machine : Machine,
    match exec run machine with
    | (.ok value, _) => post value
    | (.error halt, _) => program.Permits halt

/-! ### Ordinary computations -/

theorem ordinary_of_total {run : Run α} {result : Machine → α} {change : Machine → Machine}
    (total : ∀ machine, exec run machine = (.ok (result machine), change machine)) :
    Ordinary run where
  halts machine halt after ran := by
    rw [total] at ran
    cases ran

theorem ordinary_throw {halt : Halt} (ordinary : halt.Ordinary) :
    Ordinary (throw halt : Run α) where
  halts := by
    rintro machine _ after ⟨⟩
    exact ordinary

theorem ordinary_ofStorage (location : Location) (error : StorageError) :
    (Halt.error (.ofStorage location error)).Ordinary := by
  cases error <;> trivial

instance (value : α) : Ordinary (pure value : Run α) := ordinary_of_total fun _ => rfl

instance (cause : Fault) (location : Location) :
    Ordinary (fail (.fault cause location) : Run α) := ordinary_throw trivial

instance (path : List String) (location : Location) :
    Ordinary (fail (.missingField path location) : Run α) := ordinary_throw trivial

instance (kind : Kind) (got : Shape) (location : Location) :
    Ordinary (mismatch location (.kind kind got) : Run α) := ordinary_throw trivial

instance (location : Location) : Ordinary (mismatch location .nilAsValue : Run α) :=
  ordinary_throw trivial

instance (got : Shape) (location : Location) :
    Ordinary (mismatch location (.notComposite got) : Run α) := ordinary_throw trivial

instance (got : Shape) (location : Location) :
    Ordinary (mismatch location (.notInt got) : Run α) := ordinary_throw trivial

instance (first : Run α) (next : α → Run β) [Ordinary first] [∀ value, Ordinary (next value)] :
    Ordinary (first >>= next) where
  halts machine halt after ran := by
    rw [exec_bind] at ran
    cases started : exec first machine with
    | mk result middle =>
        rw [started] at ran
        cases result with
        | error early =>
            cases ran
            exact Ordinary.halts machine halt after started
        | ok value => exact Ordinary.halts middle halt after ran

instance (f : α → β) (run : Run α) [Ordinary run] : Ordinary (f <$> run) := by
  rw [map_eq_pure_bind]
  infer_instance

instance (condition : Prop) [Decidable condition] (first second : Run α) [Ordinary first]
    [Ordinary second] : Ordinary (if condition then first else second) := by
  split <;> infer_instance

instance (location : Location) (look : Storage → Except StorageError α) :
    Ordinary (read location look) where
  halts machine halt after ran := by
    rw [exec_read] at ran
    split at ran
    · cases ran
    · cases ran
      exact ordinary_ofStorage location _

instance (location : Location) (ref : SlotRef) : Ordinary (load location ref) :=
  inferInstanceAs (Ordinary (read _ _))

instance (location : Location) (pointer : Value) : Ordinary (dereference location pointer) :=
  inferInstanceAs (Ordinary (read _ _))

instance (location : Location) (change : Storage → Except StorageError Storage) :
    Ordinary (write location change) where
  halts machine halt after ran := by
    rw [exec_write] at ran
    split at ran
    · cases ran
    · cases ran
      exact ordinary_ofStorage location _

instance (location : Location) (ref : SlotRef) (value : Value) :
    Ordinary (store location ref value) :=
  inferInstanceAs (Ordinary (write _ _))

instance (location : Location) (change : Storage → Except StorageError (α × Storage)) :
    Ordinary (update location change) where
  halts machine halt after ran := by
    rw [exec_update] at ran
    split at ran
    · cases ran
    · cases ran
      exact ordinary_ofStorage location _

instance (name : String) (location : Location) : Ordinary (lookup name location) where
  halts machine halt after ran := by
    rw [exec_lookup] at ran
    split at ran
    · cases ran
    · cases ran
      trivial

instance (change : Storage → α × Storage) : Ordinary (allocate change) :=
  ordinary_of_total fun _ => rfl

instance (change : Machine → Machine) : Ordinary (modify change : Run Unit) :=
  ordinary_of_total fun _ => rfl

instance (event : TraceEvent) : Ordinary (record event) := ordinary_of_total fun _ => rfl

instance (function : String) (callSite : Option Location) :
    Ordinary (pushFrame function callSite) := ordinary_of_total fun _ => rfl

instance : Ordinary popFrame := ordinary_of_total fun _ => rfl

instance : Ordinary capture := ordinary_of_total fun _ => rfl

instance : Ordinary (get : Run Machine) := ordinary_of_total fun _ => rfl

instance (function : String) (state : CallState) : Ordinary (transition function state) := by
  unfold transition
  infer_instance

instance (location : Location) : Ordinary (checkpoint location) := by
  have aborted : Ordinary (throw (.aborted location) : Run Unit) := ordinary_throw trivial
  unfold checkpoint
  infer_instance

instance : Ordinary sweep := by
  unfold sweep
  infer_instance

instance (location : Location) (kind : Kind) (value : Value) :
    Ordinary (expectKind location kind value) := by
  unfold expectKind
  infer_instance

instance (header : Value) : Ordinary (recordBehind header) := by
  unfold recordBehind
  split <;> infer_instance

instance (header moved : Value) : Ordinary (recordMove header moved) := by
  unfold recordMove
  infer_instance

instance (location : Location) (value : Value) : Ordinary (followPointer location value) := by
  unfold followPointer
  infer_instance

instance (location : Location) (name : String) (value : Value) :
    Ordinary (selectField location name value) := by
  unfold selectField
  split
  · split <;> infer_instance
  · infer_instance

instance (location : Location) (base : SlotRef) (found : Value) :
    Ordinary (fieldHolder location base found) := by
  unfold fieldHolder
  split <;> infer_instance

instance (location : Location) (holder : SlotRef) (name : String) (found : Value) :
    Ordinary (fieldOf location holder name found) := by
  unfold fieldOf
  split <;> infer_instance

instance (location : Location) (base : SlotRef) (name : String) :
    Ordinary (fieldRef location base name) := by
  unfold fieldRef
  infer_instance

instance (location : Location) (value : Value) : Ordinary (asInt location value) := by
  unfold asInt
  split <;> infer_instance

instance (evaluator : Evaluator) (site : SiteId) (value : Value) :
    Ordinary (evaluator.allocateNew site value) := by
  unfold Evaluator.allocateNew
  infer_instance

instance (cells : List Value) (capacity : Option Nat) :
    Ordinary (Evaluator.allocateSlice cells capacity) := by
  unfold Evaluator.allocateSlice
  infer_instance

instance (model : Model) (name : String) (kind : Kind) (site : SiteId) (value : Value) :
    Ordinary (model.bind name kind site value) := by
  unfold Model.bind
  infer_instance

instance bindParams_ordinary (model : Model) (function : String) (location : Location) :
    ∀ (params : List Param) (args : List Value),
      Ordinary (model.bindParams function location params args)
  | param :: params, arg :: args => by
      have := bindParams_ordinary model function location params args
      rw [Model.bindParams]
      infer_instance
  | [], _ | _ :: _, [] => by
      simp only [Model.bindParams]
      infer_instance

instance (model : Model) (function : FunctionDef) : Ordinary (model.bindResult function) := by
  unfold Model.bindResult
  split <;> infer_instance

instance (model : Model) (function : FunctionDef) (args : List Value) (location : Location) :
    Ordinary (model.open function args location) := by
  unfold Model.open Model.bindSlots
  infer_instance

/-! ### Composition -/

namespace Safe

variable {post : α → Prop} {next : β → Prop}

theorem ordinary (run : Run α) [Ordinary run] : Safe program run fun _ => True := by
  intro machine
  split
  next => trivial
  next halt after ran => exact .inl (Ordinary.halts machine halt after ran)

theorem pure {value : α} (holds : post value) : Safe program (pure value) post := fun _ => holds

theorem bind {first : Run α} {rest : α → Run β} (start : Safe program first post)
    (later : ∀ value, post value → Safe program (rest value) next) :
    Safe program (first >>= rest) next := by
  intro machine
  have here := start machine
  rw [exec_bind]
  generalize exec first machine = reached at here ⊢
  obtain ⟨result, middle⟩ := reached
  cases result with
  | error halt => exact here
  | ok value => exact later value here middle

theorem map {f : α → β} {run : Run α} (safe : Safe program run fun value => next (f value)) :
    Safe program (f <$> run) next := by
  rw [map_eq_pure_bind]
  exact safe.bind fun _ holds => .pure holds

theorem weaken {wider : α → Prop} {run : Run α} (safe : Safe program run post)
    (weaker : ∀ value, post value → wider value) : Safe program run wider := by
  intro machine
  have here := safe machine
  generalize exec run machine = reached at here ⊢
  obtain ⟨result, middle⟩ := reached
  cases result with
  | error halt => exact here
  | ok value => exact weaker value here

/-- What comes first does not matter for the result. -/
theorem after {first : Run α} {rest : α → Run β} [Ordinary first]
    (later : ∀ value, Safe program (rest value) next) : Safe program (first >>= rest) next :=
  (ordinary first).bind fun value _ => later value

/-- A value of the kind goes on. -/
theorem expectKind {location : Location} {kind : Kind} {value : Value} :
    Safe program (expectKind location kind value) fun _ => value.kind = kind := by
  unfold Run.expectKind
  split
  next same => exact .pure same
  next => exact fun _ => .inl trivial

/-- A call is as safe as what it does in its frame. -/
theorem exited {function : String} {callSite : Option Location} {inside : Run (Option Value)}
    {post : Option Value → Prop} (safe : Safe program inside post) :
    Safe program (do
      let result ← framed function callSite inside
      transition function .exited
      return result) post := by
  unfold framed
  refine Safe.bind (.after fun _ => safe.bind fun _ holds => .after fun _ => .pure holds) ?_
  exact fun _ holds => .after fun _ => .pure holds

theorem flowInto {location : Location} {kind : Kind} {expr : Expr} {evaluated : Run Value}
    (safe : Safe program evaluated fun _ => True) :
    Safe program (flowInto location kind expr evaluated) fun _ => True := by
  unfold ReferenceSemantics.flowInto
  split
  · exact .ordinary _
  · exact safe.bind fun _ _ => .ordinary _

end Safe

end Run

end ReferenceSemantics
