import ReferenceSemantics.Proofs.Run.Declared

set_option autoImplicit false

/-!
Every name is bound when it is looked up, unless a global is used too early.

The check lets a function use every global. The initialiser of a global may call it while that
global, or a later one, is not there yet. This is the only way in which an accepted program comes
upon a name that is not bound: the frame of a call binds what the check has counted as a local.
-/

namespace ReferenceSemantics

open Run

/-! ### Names in storage -/

namespace Storage

variable {storage changed : Storage}

/-- A call of a function is on top, and it has executed some statements of the body. -/
structure Executing (storage : Storage) (function : FunctionDef) (done : List Stmt) : Prop where
  inCall : storage.InCall
  current : storage.current.function = function.name
  /-- The frame binds the slots of the function and what the statements declare. -/
  binds : storage.current.Binds (function.slotNames ++ declaredIn done)

/-- The next statement of the call on top uses a variable that cannot be looked up. -/
inductive Lacks (storage : Storage) (function : FunctionDef) (name : String) : Location → Prop
  | intro {done rest : List Stmt} {stmt : Stmt} (standing : function.body = done ++ stmt :: rest)
      (executing : storage.Executing function done) (used : name ∈ stmt.variables)
      (unbound : storage.lookup name = none) :
      Lacks storage function name ⟨function.name, done.length⟩

theorem Lacks.unbound {function : FunctionDef} {name : String} {location : Location}
    (lacks : storage.Lacks function name location) : storage.lookup name = none := by
  cases lacks with
  | intro _ _ _ unbound => exact unbound

theorem root_of_base (same : changed.skeleton.dropLast = storage.skeleton.dropLast)
    (called : storage.InCall) : changed.root.bare = storage.root.bare := by
  have deep : 1 < storage.skeleton.length := by
    rw [skeleton, List.length_map]
    exact inCall_iff.mp called
  have deep' : 1 < changed.skeleton.length := by
    have sizes := congrArg List.length same
    rw [List.length_dropLast, List.length_dropLast] at sizes
    omega
  have heads := congrArg List.head? same
  rw [List.head?_dropLast, List.head?_dropLast, if_pos deep, if_pos deep'] at heads
  exact Option.some.inj heads

theorem root_of_skeleton (same : changed.skeleton = storage.skeleton) :
    changed.root.bare = storage.root.bare :=
  Option.some.inj (congrArg List.head? same)

theorem lookup_eq_none {name : String} : storage.lookup name = none ↔
    storage.current.lookup name = none ∧ storage.root.lookup name = none := by
  rw [lookup, Option.map_eq_none_iff, Option.or_eq_none_iff]

/-- A name that cannot be looked up is none of those that the frame binds. -/
theorem Executing.not_mem {function : FunctionDef} {done : List Stmt} {name : String}
    (executing : storage.Executing function done) (unbound : storage.lookup name = none) :
    name ∉ function.slotNames ++ declaredIn done :=
  executing.binds.not_mem (lookup_eq_none.mp unbound).1

theorem Executing.of_skeleton {function : FunctionDef} {done : List Stmt}
    (executing : storage.Executing function done) (same : changed.skeleton = storage.skeleton) :
    changed.Executing function done where
  inCall := (inCall_of_seated (congrArg (List.map Frame.function) same)).mpr executing.inCall
  current := (current_of_seated (congrArg (List.map Frame.function) same)).trans executing.current
  binds := executing.binds.of_bare (bare_of_skeleton same)

/-- The named result can be looked up. -/
theorem Executing.lookup_result {function : FunctionDef} {done : List Stmt} {name : String}
    (executing : storage.Executing function done) (named : function.namedResult = some name) :
    storage.lookup name ≠ none := by
  refine fun unbound => executing.not_mem unbound ?_
  exact List.mem_append_left _ (List.mem_append_right _ (Option.mem_toList.mpr named))

theorem Declares.inCall {names : List String} (declares : storage.Declares changed names) :
    changed.InCall ↔ storage.InCall := by
  have sizes := depth_of_base declares.below
  rw [inCall_iff, inCall_iff, length_frames, length_frames, sizes]

theorem Declares.functions {names : List String} (declares : storage.Declares changed names) :
    changed.functions = storage.functions := by
  rw [← functions_skeleton, ← functions_skeleton, changed.skeleton_eq, storage.skeleton_eq,
    declares.below, List.map_append, List.map_append]
  exact congrArg (_ ++ [·]) declares.function

theorem Executing.declares {function : FunctionDef} {done stmts : List Stmt}
    (executing : storage.Executing function done)
    (declares : storage.Declares changed (declaredIn stmts)) :
    changed.Executing function (done ++ stmts) where
  inCall := declares.inCall.mpr executing.inCall
  current := declares.function.trans executing.current
  binds := by
    rw [declaredIn_append, ← List.append_assoc]
    exact declares.binds executing.binds

/-- A call whose slots are bound has executed nothing yet. -/
theorem executing_of_declares {function : FunctionDef} {callSite : Option Location}
    (declares : (storage.pushFrame function.name callSite).Declares changed function.slotNames) :
    changed.Executing function [] where
  inCall := declares.inCall.mpr (List.cons_ne_nil _ _)
  current := declares.function
  binds := by
    have nothing : (storage.pushFrame function.name callSite).current.Binds [] :=
      fun _ => iff_of_false Bool.false_ne_true List.not_mem_nil
    exact (List.append_nil function.slotNames).symm ▸ declares.binds nothing

end Storage

/-! ### Computations and the names they look up -/

/-- Started with the frames of a storage, a computation comes upon a name that is not bound only
where that is excused. -/
def Names {α : Type} (excused : Storage → String → Location → Prop) (storage : Storage)
    (run : Run α) : Prop :=
  ∀ machine name location after, machine.storage.skeleton = storage.skeleton →
    exec run machine = (.error (.error (.undefinedVariable name location)), after) →
      excused after.storage name location

namespace Names

variable {α β : Type} {excused : Storage → String → Location → Prop} {storage changed : Storage}

theorem of_skeleton {run : Run α} (names : Names excused storage run)
    (same : changed.skeleton = storage.skeleton) : Names excused changed run :=
  fun machine name location after started =>
    names machine name location after (started.trans same)

/-- What comes later may use what is known of the value. -/
theorem bind_of_exec {first : Run α} {next : α → Run β} (start : Names excused storage first)
    (rest : ∀ machine value reached, machine.storage.skeleton = storage.skeleton →
      exec first machine = (.ok value, reached) → Names excused reached.storage (next value)) :
    Names excused storage (first >>= next) := by
  intro machine name location after started failed
  obtain here | ⟨value, reached, ran, later⟩ := error_of_bind failed
  · exact start machine name location after started here
  · exact rest machine value reached started ran reached name location after rfl later

theorem bind {first : Run α} {next : α → Run β} (start : Names excused storage first)
    (level : Level first) (rest : ∀ value, Names excused storage (next value)) :
    Names excused storage (first >>= next) :=
  start.bind_of_exec fun machine value reached started ran =>
    (rest value).of_skeleton ((level machine value reached ran).trans started)

theorem quiet (run : Run α) [Quiet run] : Names excused storage run := by
  intro machine name location after _ failed
  obtain ⟨result, changed, events, reaction⟩ := Run.reacts run machine.storage
  have ran : exec run machine = _ := reaction.ran machine.trace machine.abort machine.finalValues
  rw [ran] at failed
  cases result with
  | ok value => cases failed
  | error error =>
      have named := Halt.error.inj (Except.error.inj (Prod.mk.inj failed).1)
      exact absurd (congrArg Except.error named) (reaction.named name location)

theorem silent {run : Run Unit} (silent : Silent run) : Names excused storage run := by
  intro machine name location after _ failed
  obtain ⟨trace, ran⟩ := silent machine
  rw [ran] at failed
  cases failed

theorem checkpoint (location : Location) : Names excused storage (checkpoint location) := by
  intro machine name place after _ failed
  simp only [Run.checkpoint, exec_bind, exec_modify, exec_get] at failed
  split at failed <;> cases failed

theorem declare (name : String) (kind : Kind) (site : Option SiteId) (placement : Placement)
    (value : Value) :
    Names excused storage (allocate (·.declare name kind site placement value)) := by
  rintro machine other location after _ ⟨⟩

theorem capture : Names excused storage capture := by
  rintro machine name location after _ ⟨⟩

theorem function (model : Model) (name : String) (location : Location) :
    Names excused storage (model.function name location) := by
  intro machine other place after _ failed
  unfold Model.function at failed
  split at failed <;> cases failed

theorem lookup {name : String} {location : Location}
    (seen : ∀ changed : Storage, changed.skeleton = storage.skeleton →
      changed.lookup name = none → excused changed name location) :
    Names excused storage (lookup name location) := by
  intro machine other place after started failed
  rw [exec_lookup] at failed
  split at failed
  next => cases failed
  next unbound =>
    cases failed
    exact seen machine.storage started unbound

theorem framed {function : String} {callSite : Option Location} {inside : Run α}
    (names : Names excused (storage.pushFrame function callSite) inside) :
    Names excused storage (framed function callSite inside) := by
  intro machine name location after started failed
  have pushed : (machine.storage.pushFrame function callSite).skeleton =
      (storage.pushFrame function callSite).skeleton := by
    rw [Storage.skeleton_pushFrame, Storage.skeleton_pushFrame, started]
  simp only [Run.framed, pushFrame, popFrame, exec_bind, exec_modify, exec_pure] at failed
  generalize ran : exec inside _ = last at failed
  obtain ⟨result, reached⟩ := last
  cases result with
  | ok value => cases failed
  | error halt =>
      cases failed
      exact names _ name location after pushed ran

/-- The names come from the lookups and the calls that a computation makes. -/
theorem of_alike {pairing : Pairing} {run run' : Run α} (alike : pairing.Alike run run')
    (confined : ¬ pairing.steps) (level : pairing.invoke.Level)
    (seen : ∀ {name location}, pairing.names name location → ∀ changed : Storage,
      changed.skeleton = storage.skeleton → changed.lookup name = none →
        excused changed name location)
    (calls : ∀ {callee function args}, pairing.calls callee →
      pairing.model.function? callee = some function → args.length = function.params.length →
        ∀ location, Names excused storage (pairing.invoke function args location)) :
    Names excused storage run := by
  induction alike with
  | quiet run => exact .quiet run
  | bind start rest startNames restNames =>
      exact startNames.bind (.of_alike start confined level) restNames
  | lookup permitted => exact .lookup (seen permitted)
  | call permitted found evaluated complete evaluatedNames =>
      refine evaluatedNames.bind_of_exec fun machine args reached started ran => ?_
      have kept := Leaves.of_alike evaluated confined level machine args reached ran
      exact (calls permitted found (complete machine args reached ran) _).of_skeleton
        (kept.trans started)
  | declare _ _ _ _ _ permitted | checkpoint _ permitted | transition _ _ permitted
  | capture permitted => exact absurd permitted confined

/-- What looks up no name and makes no call does not fail for a name. -/
theorem of_alike_nameless {pairing : Pairing} {run run' : Run α}
    (alike : pairing.Alike run run') (nameless : ∀ name location, ¬ pairing.names name location)
    (callless : ∀ callee, ¬ pairing.calls callee) (storage : Storage) :
    Names excused storage run := by
  induction alike generalizing storage with
  | quiet run => exact .quiet run
  | bind start rest startNames restNames =>
      exact (startNames storage).bind_of_exec fun _ value reached _ _ =>
        restNames value reached.storage
  | lookup permitted => exact absurd permitted (nameless _ _)
  | call permitted => exact absurd permitted (callless _)
  | declare => exact .declare _ _ _ _ _
  | checkpoint => exact .checkpoint _
  | transition => exact .silent (silent_transition _ _)
  | capture => exact .capture

/-- The named result is one of the slots that the frame binds. -/
theorem close {function : FunctionDef} {done : List Stmt}
    (executing : storage.Executing function done) (returned : Option Value) :
    Names excused storage (function.close returned) := by
  unfold FunctionDef.close FunctionDef.copyOut
  refine (Names.silent (silent_transition _ _)).bind (.silent (silent_transition _ _)) fun _ => ?_
  split
  next => exact .quiet _
  next name named =>
    refine (Names.lookup fun changed same unbound => ?_).bind_of_exec fun _ _ _ _ _ => ?_
    · exact absurd unbound ((executing.of_skeleton same).lookup_result named)
    · rw [map_eq_pure_bind]
      exact .quiet _

/-- The slots of a call are bound without a lookup. -/
theorem opened (model : Model) (function : FunctionDef) (args : List Value)
    (location : Location) : Names excused storage (model.open function args location) := by
  let pairing : Pairing :=
    ⟨model, model.invoke 0, model.invoke 0, fun _ _ => False, fun _ => False, True⟩
  have bound : pairing.Alike (model.bindSlots function args location)
      (model.bindSlots function args location) :=
    Pairing.bindSlots_alike trivial function args location
  have alike : pairing.Alike (model.open function args location)
      (model.open function args location) :=
    (Pairing.Alike.transition _ _ trivial).bind fun _ =>
      bound.bind fun _ => .transition _ _ trivial
  exact .of_alike_nameless alike (fun _ _ => id) (fun _ => id) storage

theorem bindSlot (model : Model) (name : String) (kind : Kind) (site : SiteId) (value : Value) :
    Names excused storage (model.bind name kind site value) :=
  (Names.declare _ _ _ _ _).bind_of_exec fun _ _ _ _ _ => .quiet _

theorem excuse {other : Storage → String → Location → Prop} {run : Run α}
    (names : Names excused storage run)
    (pardons : ∀ changed name location, excused changed name location →
      other changed name location) : Names other storage run :=
  fun machine name location after started failed =>
    pardons _ _ _ (names machine name location after started failed)

end Names

/-! ### Parts of a run -/

/-- A part of a run: the globals that are there, and the calls that may be on the stack. -/
structure Phase (program : Program) where
  there : List String
  /-- The frames may be those of these functions, from the root up. -/
  reached : List String → Prop
  closed : ∀ {stack function callee}, reached stack → stack.getLast? = some function.name →
    function ∈ program.functions → callee ∈ function.callees → reached (stack ++ [callee])

namespace Phase

variable {program : Program} {phase : Phase program}

/-- A function that may run uses a global that is not there. -/
structure Excuses (phase : Phase program) (storage : Storage) (name : String)
    (location : Location) : Prop where
  rooted : storage.root.Binds phase.there
  reached : phase.reached storage.functions
  global : name ∈ program.globals.map (·.name)
  lacks : ∃ function ∈ program.functions, storage.Lacks function name location

/-- The calls that may be made find their names, or fail with an excuse. -/
def Calls (phase : Phase program) (invoke : Invocation) : Prop :=
  ∀ {storage : Storage} {function args}, storage.root.Binds phase.there →
    phase.reached (storage.functions ++ [function.name]) → function ∈ program.functions →
      args.length = function.params.length →
        ∀ location, Names phase.Excuses storage (invoke function args location)

variable {entry : String} {config : Config} {invoke : Invocation} {storage : Storage}
  {function : FunctionDef}

/-- The check has counted every variable of a statement as a local or as a global. The frame binds
the locals that it has counted. -/
theorem excuses_of_unbound (wellFormed : program.WellFormed entry)
    (member : function ∈ program.functions) (rooted : storage.root.Binds phase.there)
    (reached : phase.reached storage.functions) {done rest : List Stmt} {stmt : Stmt}
    (standing : function.body = done ++ stmt :: rest)
    (executing : storage.Executing function done) {name : String} (used : name ∈ stmt.variables)
    (unbound : storage.lookup name = none) :
    phase.Excuses storage name ⟨function.name, done.length⟩ := by
  have visible : name ∈ (stmt.passage program function done).visible := by
    refine wellFormed.mentions _ (.statement member standing) ?_
    rwa [Stmt.variables_passage]
  have isGlobal := (List.mem_append.mp visible).resolve_left (executing.not_mem unbound)
  exact ⟨rooted, reached, isGlobal, function, member, .intro standing executing used unbound⟩

section

variable (wellFormed : program.WellFormed entry) (calls : phase.Calls invoke)
  (level : invoke.Level) (member : function ∈ program.functions)

include wellFormed calls level member

/-- A statement uses what the frame binds, or globals. -/
theorem execute_names (rooted : storage.root.Binds phase.there)
    (reached : phase.reached storage.functions) {done rest : List Stmt} {stmt : Stmt}
    (standing : function.body = done ++ stmt :: rest)
    (executing : storage.Executing function done) :
    Names phase.Excuses storage (Evaluator.execute ⟨.new program config, invoke⟩ function
      ⟨function.name, done.length⟩ stmt) := by
  let pairing : Pairing := ⟨.new program config, invoke, invoke,
    fun name location => location = ⟨function.name, done.length⟩ ∧
      (name ∈ stmt.variables ∨ function.namedResult = some name), (· ∈ stmt.callees), False⟩
  have admits : pairing.AdmitsStmt ⟨function.name, done.length⟩ stmt :=
    ⟨fun _ mentioned => ⟨rfl, .inl mentioned⟩, fun _ => id⟩
  have seen : ∀ {name location}, pairing.names name location → ∀ changed : Storage,
      changed.skeleton = storage.skeleton → changed.lookup name = none →
        phase.Excuses changed name location := by
    rintro name _ ⟨rfl, used⟩ changed same unbound
    have here := executing.of_skeleton same
    rcases used with mentioned | named
    · have stack := Storage.functions_of_skeleton same
      exact excuses_of_unbound wellFormed member (rooted.of_bare (Storage.root_of_skeleton same))
        (stack ▸ reached) standing here mentioned unbound
    · exact absurd unbound (here.lookup_result named)
  have called : ∀ {callee function args}, pairing.calls callee →
      pairing.model.function? callee = some function → args.length = function.params.length →
        ∀ location, Names phase.Excuses storage (pairing.invoke function args location) := by
    intro callee other args used found complete location
    obtain ⟨defined, rfl⟩ := Program.of_function? found
    have top : storage.functions.getLast? = some function.name := by
      rw [Storage.functions_eq, List.getLast?_concat, executing.current]
    refine calls rooted (phase.closed reached top member ?_) defined complete location
    exact FunctionDef.mem_callees (standing ▸ List.mem_append_right _ (List.mem_cons_self ..)) used
  have kept : ∀ {α : Type} {run run' : Run α}, pairing.Alike run run' →
      Names phase.Excuses storage run := fun alike => .of_alike alike id level seen called
  cases declares : stmt.declared? with
  | none =>
      refine kept (Pairing.execute_alike (fun declared => ?_) (fun _ named => ⟨rfl, .inr named⟩)
        admits)
      rw [declares] at declared
      cases declared
  | some decl =>
      -- The name is bound only after the initialiser has been evaluated.
      obtain rfl := Stmt.eq_declare declares
      rw [Evaluator.execute]
      refine (kept (Pairing.evaluateDecl_alike admits.parts)).bind
        (Evaluator.evaluateDecl_level level decl) fun value => ?_
      exact (Names.bindSlot _ _ _ _ _).bind_of_exec fun _ _ _ _ _ => .quiet _

/-- A body fails at a statement before which others are executed. -/
theorem executeBody_names (rooted : storage.root.Binds phase.there)
    (reached : phase.reached storage.functions) (executing : storage.Executing function []) :
    Names phase.Excuses storage
      (Evaluator.executeBody ⟨.new program config, invoke⟩ function) := by
  intro machine name location after started failed
  -- The statements before the one that fails have ended, so the names they declare are bound.
  obtain ⟨done, stmt, rest, middle, standing, goOn, executed, stopped⟩ :=
    Evaluator.executeFrom_halted failed
  have declares := Evaluator.executeFrom_declares level function 0 done _ _ _ executed
  rw [untilReturn_eq_self goOn] at declares
  have here := executing.of_skeleton started
  have root : middle.storage.root.Binds phase.there :=
    (rooted.of_bare (Storage.root_of_skeleton started)).of_bare
      (Storage.root_of_base declares.below here.inCall)
  have stack : middle.storage.functions = storage.functions :=
    declares.functions.trans (Storage.functions_of_skeleton started)
  have statement : Names phase.Excuses middle.storage (Evaluator.execute
      ⟨.new program config, invoke⟩ function ⟨function.name, done.length⟩ stmt) :=
    execute_names wellFormed calls level member root (stack ▸ reached) standing
      (here.declares declares)
  rw [Nat.zero_add] at stopped
  exact (Names.checkpoint _).bind (.checkpoint _) (fun _ => statement) middle name location after
    rfl stopped

/-- A call finds the names of its body and of its result. -/
theorem inside_names (rooted : storage.root.Binds phase.there)
    (reached : phase.reached (storage.functions ++ [function.name])) {args : List Value}
    (complete : args.length = function.params.length)
    (callSite : Option Location) (location : Location) {observe : Run Unit}
    (observed : ∀ changed, Names phase.Excuses changed observe) (still : Level observe) :
    Names phase.Excuses (storage.pushFrame function.name callSite)
      (Evaluator.inside ⟨.new program config, invoke⟩ function args location observe) := by
  unfold Evaluator.inside
  refine (Names.opened _ _ _ _).bind_of_exec fun machine _ opened started ran => ?_
  have declares := (Storage.declares_nothing started).trans
    ((Model.new program config).open_declares complete location _ _ _ ran)
  have executing := Storage.executing_of_declares declares
  have sameRoot := Storage.root_of_base declares.below (List.cons_ne_nil _ _)
  have root : opened.storage.root.Binds phase.there := rooted.of_bare sameRoot
  have stack : opened.storage.functions = storage.functions ++ [function.name] :=
    declares.functions.trans (storage.functions_pushFrame function.name callSite)
  have body : Names phase.Excuses opened.storage
      (Evaluator.executeBody ⟨.new program config, invoke⟩ function) :=
    executeBody_names wellFormed calls level member root (stack ▸ reached) executing
  refine body.bind_of_exec fun machine returned ended started ran => ?_
  have done := Evaluator.executeFrom_declares level function 0 function.body _ _ _ ran
  exact (observed _).bind still fun _ =>
    .close ((executing.of_skeleton started).declares done) returned

end

theorem exited_names {name : String} {callSite : Option Location} {inside : Run (Option Value)}
    (names : Names phase.Excuses (storage.pushFrame name callSite) inside) :
    Names phase.Excuses storage (do
      let result ← Run.framed name callSite inside
      transition name .exited
      return result) := by
  refine names.framed.bind_of_exec fun _ _ _ _ _ => ?_
  exact (Names.silent (silent_transition _ _)).bind_of_exec fun _ _ _ _ _ => .quiet _

theorem invoke_calls (wellFormed : program.WellFormed entry) (phase : Phase program)
    (config : Config) (depth : Nat) : phase.Calls ((Model.new program config).invoke depth) := by
  induction depth with
  | zero =>
      rintro storage function args _ _ _ _ location machine name place after _ ⟨⟩
  | succ depth calls =>
      intro storage function args rooted reached member complete location
      have level := (Model.new program config).invoke_level depth
      rw [Model.invoke, Evaluator.perform_eq]
      exact exited_names (inside_names wellFormed calls level member rooted reached complete _ _
        (fun _ => .quiet _) (.quiet _))

/-- The entry function finds its names, and so does what is observed before it is left. -/
theorem runEntry_names (wellFormed : program.WellFormed entry) (depth : Nat)
    (rooted : storage.root.Binds phase.there)
    (reached : phase.reached (storage.functions ++ [function.name]))
    (member : function ∈ program.functions) (parameterless : function.params = []) :
    Names phase.Excuses storage (Evaluator.runEntry
      ⟨.new program config, (Model.new program config).invoke depth⟩ function) := by
  have calls : phase.Calls ((Model.new program config).invoke depth) :=
    invoke_calls wellFormed phase config depth
  have level := (Model.new program config).invoke_level depth
  have observed : ∀ changed, Names phase.Excuses changed (do capture; Run.sweep) :=
    fun _ => Names.capture.bind_of_exec fun _ _ _ _ _ => .quiet _
  have still : Level (do capture; Run.sweep) := by
    refine Leaves.bind ?_ fun _ => .quiet _
    rintro machine _ _ ⟨⟩
    rfl
  have complete : ([] : List Value).length = function.params.length := by rw [parameterless]; rfl
  rw [Evaluator.runEntry_eq]
  exact exited_names (inside_names wellFormed calls level member rooted reached complete _ _
    observed still)

end Phase

end ReferenceSemantics
