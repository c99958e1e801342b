import ReferenceSemantics.Proofs.Program.WellFormed
import ReferenceSemantics.Proofs.Run.Foundation

set_option autoImplicit false

/-!
What has been declared.

Statements are executed one after the other up to a return, and initialisers up to the last. If one
of them halts, those before it have ended. What has ended has bound in the current frame the names
it declares, and these only.
-/

namespace ReferenceSemantics

open Run

/-! ### Up to what halts -/

/-- The statement ends its body. -/
def Stmt.returns : Stmt → Bool
  | ret _ => true
  | _ => false

/-- The statements that are executed when none of them halts. -/
def untilReturn (stmts : List Stmt) : List Stmt := stmts.takeWhile (!·.returns)

theorem untilReturn_eq_self {stmts : List Stmt} (goOn : ∀ stmt ∈ stmts, stmt.returns = false) :
    untilReturn stmts = stmts :=
  List.takeWhile_eq_self_iff.mpr fun stmt member => by rw [goOn stmt member]; rfl

def Flow.returns : Flow → Bool
  | next => false
  | returned _ => true

/-- Every value that a computation ends with has a property. -/
def Run.Yields {α : Type} (run : Run α) (holds : α → Prop) : Prop :=
  ∀ machine value after, exec run machine = (.ok value, after) → holds value

namespace Run.Yields

variable {α β : Type} {holds : β → Prop}

theorem pure {value : β} (here : holds value) : Yields (pure value) holds := by
  rintro machine _ _ ⟨⟩
  exact here

theorem bind {first : Run α} {next : α → Run β} (rest : ∀ value, Yields (next value) holds) :
    Yields (first >>= next) holds := by
  intro machine result after ran
  obtain ⟨value, middle, -, ran⟩ := ok_of_bind ran
  exact rest value middle result after ran

end Run.Yields

namespace Evaluator

variable {evaluator : Evaluator} {function : FunctionDef} {location : Location}

/-- Only a return statement returns. -/
theorem execute_returns (stmt : Stmt) :
    Yields (evaluator.execute function location stmt) (·.returns = stmt.returns) := by
  cases stmt with
  | append | call =>
      rw [execute]
      exact .bind fun _ => .pure rfl
  | declare =>
      rw [execute]
      exact .bind fun _ => .bind fun _ => .pure rfl
  | assign =>
      rw [execute]
      exact .bind fun _ => .bind fun _ => .bind fun _ => .pure rfl
  | setField | store =>
      rw [execute]
      exact .bind fun _ => .bind fun _ => .bind fun _ => .bind fun _ => .pure rfl
  | setKey =>
      rw [execute]
      exact .bind fun _ => .bind fun _ => .bind fun _ => .bind fun _ => .bind fun _ =>
        .bind fun _ => .pure rfl
  | setIndex =>
      rw [execute]
      exact .bind fun _ => .bind fun _ => .bind fun _ => .bind fun _ => .bind fun _ =>
        .bind fun _ => .bind fun _ => .pure rfl
  | ret value =>
      cases value with
      | none =>
          rw [execute]
          exact .pure rfl
      | some value =>
          rw [execute, map_eq_pure_bind]
          exact .bind fun _ => .pure rfl

/-- Pass a statement boundary and execute what stands there. -/
def executeAt (evaluator : Evaluator) (function : FunctionDef) (index : Nat) (stmt : Stmt) :
    Run Flow := do
  let location : Location := ⟨function.name, index⟩
  checkpoint location
  evaluator.execute function location stmt

/-- Pass a statement boundary and initialise the global that stands there. -/
def initialiseAt (evaluator : Evaluator) (index : Nat) (decl : VarDecl) : Run Unit := do
  let location : Location := ⟨globalsFrame, index⟩
  checkpoint location
  evaluator.declareGlobal location decl

theorem executeFrom_cons (index : Nat) (stmt : Stmt) (stmts : List Stmt) :
    evaluator.executeFrom function index (stmt :: stmts) =
      (evaluator.executeAt function index stmt >>= fun flow =>
        flow.resume (evaluator.executeFrom function (index + 1) stmts)) := by
  rw [executeFrom, executeAt, bind_assoc]

theorem declareGlobals_cons (index : Nat) (decl : VarDecl) (decls : List VarDecl) :
    evaluator.declareGlobals index (decl :: decls) =
      (evaluator.initialiseAt index decl >>= fun _ =>
        evaluator.declareGlobals (index + 1) decls) := by
  rw [declareGlobals, initialiseAt, bind_assoc]

theorem executeAt_returns (index : Nat) (stmt : Stmt) :
    Yields (evaluator.executeAt function index stmt) (·.returns = stmt.returns) :=
  .bind fun _ => execute_returns stmt

/-- Before the statement that halts, all statements are executed and none returns. -/
theorem executeFrom_halted {stmts : List Stmt} {index : Nat} {machine after : Machine} {halt : Halt}
    (halted : exec (evaluator.executeFrom function index stmts) machine = (.error halt, after)) :
    ∃ before stmt rest reached, stmts = before ++ stmt :: rest ∧
      (∀ earlier ∈ before, earlier.returns = false) ∧
      exec (evaluator.executeFrom function index before) machine = (.ok none, reached) ∧
      exec (evaluator.executeAt function (index + before.length) stmt) reached =
        (.error halt, after) := by
  induction stmts generalizing index machine with
  | nil => cases halted
  | cons stmt stmts inductionHypothesis =>
      rw [executeFrom_cons] at halted
      obtain here | ⟨flow, middle, ran, later⟩ := error_of_bind halted
      · exact ⟨[], stmt, stmts, machine, rfl, List.forall_mem_nil _, rfl, here⟩
      · cases flow with
        | returned value => cases later
        | next =>
            obtain ⟨before, last, rest, reached, rfl, goOn, executed, stopped⟩ :=
              inductionHypothesis later
            refine ⟨stmt :: before, last, rest, reached, rfl, ?_, ?_, ?_⟩
            · exact List.forall_mem_cons.mpr ⟨(executeAt_returns _ _ _ _ _ ran).symm, goOn⟩
            · rw [executeFrom_cons, exec_bind_ok Flow.next ran]
              exact executed
            · rw [List.length_cons, Nat.add_comm before.length, ← Nat.add_assoc]
              exact stopped

/-- Before the initialiser that halts, all globals are initialised. -/
theorem declareGlobals_halted {decls : List VarDecl} {index : Nat} {machine after : Machine}
    {halt : Halt}
    (halted : exec (evaluator.declareGlobals index decls) machine = (.error halt, after)) :
    ∃ before decl rest reached, decls = before ++ decl :: rest ∧
      exec (evaluator.declareGlobals index before) machine = (.ok (), reached) ∧
      exec (evaluator.initialiseAt (index + before.length) decl) reached =
        (.error halt, after) := by
  induction decls generalizing index machine with
  | nil => cases halted
  | cons decl decls inductionHypothesis =>
      rw [declareGlobals_cons] at halted
      obtain here | ⟨_, middle, ran, later⟩ := error_of_bind halted
      · exact ⟨[], decl, decls, machine, rfl, rfl, here⟩
      · obtain ⟨before, last, rest, reached, rfl, initialised, stopped⟩ :=
          inductionHypothesis later
        refine ⟨decl :: before, last, rest, reached, rfl, ?_, ?_⟩
        · rw [declareGlobals_cons, exec_bind_ok () ran]
          exact initialised
        · rw [List.length_cons, Nat.add_comm before.length, ← Nat.add_assoc]
          exact stopped

end Evaluator

/-! ### The names that are bound -/

/-- The frame binds the names and no others. -/
def Frame.Binds (frame : Frame) (names : List String) : Prop :=
  ∀ name, (frame.lookup name).isSome ↔ name ∈ names

namespace Frame.Binds

variable {frame other : Frame} {names : List String}

theorem of_bare (binds : frame.Binds names) (same : other.bare = frame.bare) :
    other.Binds names := by
  intro name
  have lookups : other.bare.lookup name = frame.bare.lookup name := by rw [same]
  exact (congrArg (·.isSome = true) lookups).to_iff.trans (binds name)

theorem not_mem (binds : frame.Binds names) {name : String} (unbound : frame.lookup name = none) :
    name ∉ names := by
  intro member
  have bound := (binds name).mpr member
  rw [unbound] at bound
  cases bound

end Frame.Binds

namespace Storage

/-- The current frame has bound some more names, and the frames are as before otherwise. -/
structure Declares (storage changed : Storage) (names : List String) : Prop where
  below : changed.skeleton.dropLast = storage.skeleton.dropLast
  function : changed.current.function = storage.current.function
  callSite : changed.current.callSite = storage.current.callSite
  bound : ∀ name, (changed.current.lookup name).isSome ↔
    (storage.current.lookup name).isSome ∨ name ∈ names

variable {storage middle changed : Storage}

theorem declares_nothing (same : changed.skeleton = storage.skeleton) :
    storage.Declares changed [] := by
  have current := bare_of_skeleton same
  refine ⟨congrArg List.dropLast same, congrArg (·.function) current,
    congrArg (·.callSite) current, fun name => ?_⟩
  rw [lookup_of_skeleton same]
  exact (or_iff_left List.not_mem_nil).symm

theorem Declares.trans {names later : List String} (before : storage.Declares middle names)
    (after : middle.Declares changed later) : storage.Declares changed (names ++ later) := by
  refine ⟨after.below.trans before.below, after.function.trans before.function,
    after.callSite.trans before.callSite, fun name => ?_⟩
  rw [after.bound, before.bound, List.mem_append, or_assoc]

/-- The current frame binds what it bound before and the declared names. -/
theorem Declares.binds {names later : List String} (declares : storage.Declares changed later)
    (bound : storage.current.Binds names) : changed.current.Binds (names ++ later) := by
  intro name
  rw [List.mem_append, ← bound name]
  exact declares.bound name

theorem declares_declare (storage : Storage) (name : String) (kind : Kind) (site : Option SiteId)
    (placement : Placement) (value : Value) :
    storage.Declares (storage.declare name kind site placement value).2 [name] := by
  have current := bare_declare storage name kind site placement value
  refine ⟨base_declare _ _ _ _ _ _, congrArg (·.function) current,
    congrArg (·.callSite) current, fun other => ?_⟩
  rw [lookup_declare, List.mem_singleton]
  by_cases same : other = name
  · rw [if_pos same]
    exact iff_of_true rfl (.inr same)
  · rw [if_neg same]
    exact (or_iff_left same).symm

end Storage

/-- A computation that succeeds has declared some names. -/
def Run.Declares {α : Type} (run : Run α) (names : List String) : Prop :=
  ∀ machine value after, exec run machine = (.ok value, after) →
    machine.storage.Declares after.storage names

namespace Run.Declares

variable {α β : Type} {names later : List String}

theorem level {run : Run α} (level : Level run) : Declares run [] :=
  fun machine value after ran => Storage.declares_nothing (level machine value after ran)

theorem bind {first : Run α} {next : α → Run β} (start : Declares first names)
    (rest : ∀ value, Declares (next value) later) : Declares (first >>= next) (names ++ later) := by
  intro machine result after ran
  obtain ⟨value, middle, started, ran⟩ := ok_of_bind ran
  exact (start machine value middle started).trans (rest value middle result after ran)

/-- What comes later leaves the frames. -/
theorem andThen {first : Run α} {next : α → Run β} (start : Declares first names)
    (rest : ∀ value, Level (next value)) : Declares (first >>= next) names := by
  have whole := start.bind fun value => level (rest value)
  rwa [List.append_nil] at whole

/-- What comes first leaves the frames. -/
theorem after {first : Run α} {next : α → Run β} (start : Level first)
    (rest : ∀ value, Declares (next value) names) : Declares (first >>= next) names :=
  (level start).bind rest

theorem declare (name : String) (kind : Kind) (site : Option SiteId) (placement : Placement)
    (value : Value) : Declares (allocate (·.declare name kind site placement value)) [name] := by
  rintro machine _ _ ⟨⟩
  exact machine.storage.declares_declare name kind site placement value

theorem bindSlot (model : Model) (name : String) (kind : Kind) (site : SiteId) (value : Value) :
    Declares (model.bind name kind site value) [name] :=
  (declare _ _ _ _ _).andThen fun _ => .quiet _

end Run.Declares

namespace Evaluator

variable {model : Model} {invoke : Invocation} (level : invoke.Level) {location : Location}

section

include level

theorem execute_declares (function : FunctionDef) (stmt : Stmt) :
    Run.Declares (Evaluator.execute ⟨model, invoke⟩ function location stmt)
      (declaredIn [stmt]) := by
  rw [declaredIn_singleton]
  cases declared : stmt.declared? with
  | none => exact .level (execute_level level declared)
  | some decl =>
      rw [Stmt.eq_declare declared, execute]
      refine .after (evaluateDecl_level level decl) fun value => ?_
      exact (Declares.bindSlot _ _ _ _ _).andThen fun _ => .quiet _

theorem executeFrom_declares (function : FunctionDef) (index : Nat) (stmts : List Stmt) :
    Run.Declares (Evaluator.executeFrom ⟨model, invoke⟩ function index stmts)
      (declaredIn (untilReturn stmts)) := by
  induction stmts generalizing index with
  | nil =>
      rw [executeFrom]
      exact .level (.quiet _)
  | cons stmt stmts inductionHypothesis =>
      intro machine result after ran
      rw [executeFrom_cons] at ran
      obtain ⟨flow, middle, stepped, ran⟩ := ok_of_bind ran
      have here : Run.Declares (Evaluator.executeAt ⟨model, invoke⟩ function index stmt)
          (declaredIn [stmt]) :=
        .after (.checkpoint _) fun _ => execute_declares level function stmt
      have declares := here machine flow middle stepped
      have returns := executeAt_returns _ _ _ _ _ stepped
      unfold untilReturn
      cases flow with
      | next =>
          obtain goesOn : stmt.returns = false := returns.symm
          rw [List.takeWhile_cons_of_pos (by rw [goesOn]; rfl), ← List.singleton_append,
            declaredIn_append]
          exact declares.trans (inductionHypothesis (index + 1) middle result after ran)
      | returned value =>
          obtain ends : stmt.returns = true := returns.symm
          rw [List.takeWhile_cons_of_neg (by rw [ends]; exact Bool.false_ne_true)]
          cases ran
          cases stmt with
          | ret _ => exact declares
          | _ => cases ends

theorem declareGlobals_declares (index : Nat) (decls : List VarDecl) :
    Run.Declares (Evaluator.declareGlobals ⟨model, invoke⟩ index decls) (decls.map (·.name)) := by
  induction decls generalizing index with
  | nil =>
      rw [declareGlobals]
      exact .level (.quiet _)
  | cons decl decls inductionHypothesis =>
      have here : Run.Declares (Evaluator.initialiseAt ⟨model, invoke⟩ index decl) [decl.name] := by
        refine .after (.checkpoint _) fun _ => ?_
        unfold declareGlobal
        refine .after (evaluateDecl_level level decl) fun value => ?_
        exact (Declares.declare _ _ _ _ _).andThen fun _ => .quiet _
      rw [declareGlobals_cons, List.map_cons, ← List.singleton_append]
      exact here.bind fun _ => inductionHypothesis (index + 1)

end

end Evaluator

namespace Model

variable (model : Model) {function : FunctionDef}

theorem bindParams_declares (owner : String) (location : Location) {params : List Param}
    {args : List Value} (complete : args.length = params.length) :
    Run.Declares (model.bindParams owner location params args) (params.map (·.name)) := by
  induction params generalizing args with
  | nil =>
      simp only [bindParams]
      exact .level (.quiet _)
  | cons param params inductionHypothesis =>
      cases args with
      | nil => cases complete
      | cons arg args =>
          rw [bindParams, List.map_cons, ← List.singleton_append]
          refine .after (.quiet _) fun _ => ?_
          exact (Declares.bindSlot _ _ _ _ _).bind fun _ =>
            inductionHypothesis (Nat.succ.inj complete)

theorem bindResult_declares (function : FunctionDef) :
    Run.Declares (model.bindResult function) function.namedResult.toList := by
  unfold bindResult FunctionDef.namedResult
  obtain none | ⟨none | name, kind⟩ := function.result
  · exact .level (.quiet _)
  · exact .level (.quiet _)
  · exact .bindSlot _ _ _ _ _

/-- A call that passes an argument for each parameter binds the slots of its function. -/
theorem open_declares {args : List Value} (complete : args.length = function.params.length)
    (location : Location) :
    Run.Declares (model.open function args location) function.slotNames := by
  unfold Model.open bindSlots FunctionDef.slotNames
  refine .after (.silent (silent_transition _ _)) fun _ => ?_
  refine Declares.andThen ?_ fun _ => .silent (silent_transition _ _)
  exact (model.bindParams_declares function.name location complete).bind fun _ =>
    model.bindResult_declares function

/-- A function without parameters is entered, and binds its named result in a new frame. -/
theorem enter_declares (bare : function.params = []) (machine : Machine) :
    ∃ entered, exec (model.enter function [] none) machine = (.ok (), entered) ∧
      (machine.storage.pushFrame function.name none).Declares entered.storage
        function.namedResult.toList := by
  have enters : ∃ entered, exec (model.enter function [] none) machine = (.ok (), entered) := by
    obtain ⟨name, params, result, body⟩ := function
    obtain rfl : params = [] := bare
    obtain none | ⟨none | name, kind⟩ := result <;> exact ⟨_, rfl⟩
  obtain ⟨entered, ran⟩ := enters
  have slots : function.slotNames = function.namedResult.toList := by
    rw [FunctionDef.slotNames, bare, List.map_nil, List.nil_append]
  have complete : ([] : List Value).length = function.params.length := by rw [bare]; rfl
  exact ⟨entered, ran, slots ▸ model.open_declares complete _ _ _ _ ran⟩

end Model

end ReferenceSemantics
