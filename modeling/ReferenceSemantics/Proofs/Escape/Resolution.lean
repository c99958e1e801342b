import Mathlib
import ReferenceSemantics.Proofs.Escape.Calls
import ReferenceSemantics.Proofs.Escape.Fixpoint
import ReferenceSemantics.Proofs.Escape.Realized
import ReferenceSemantics.Proofs.Program.Acceptance
import ReferenceSemantics.Proofs.Run.Ending
import ReferenceSemantics.Proofs.Run.Watching

set_option autoImplicit false

/-!
The classification and the run have the same names.

A call binds its parameters and its named result in the order of the scope that the classification
starts with, and each declaration binds its name in both. So before every statement the frame of the
call binds what the scope has, and what the statement evaluates leaves it so.
-/

namespace ReferenceSemantics

open Run

/-! ### Frames of calls -/

namespace Storage

variable {storage changed : Storage} {globals : List VarDecl} {scope : EscapeScope}

/-- In the frame of a call names are bound as the scope has them. -/
structure Serves (storage : Storage) (globals : List VarDecl) (scope : EscapeScope) : Prop where
  inCall : storage.InCall
  function : storage.current.function = scope.function
  realizes : storage.Realizes scope
  binds : storage.BindsGlobals globals

theorem Serves.fills (fills : storage.Fills changed) (serves : storage.Serves globals scope) :
    changed.Serves globals scope :=
  ⟨fills.grown.inCall.mp serves.inCall, fills.grown.current_function.trans serves.function,
    serves.realizes.fills fills, serves.binds.fills fills⟩

theorem Serves.declare (serves : storage.Serves globals scope) (name : String) (kind : Kind)
    (site : SiteId) (placement : Placement) (value : Value) :
    (storage.declare name kind (some site) placement value).2.Serves globals
      (scope.bind name site kind) := by
  have grown := storage.grown_declare name kind (some site) placement value
  refine ⟨grown.inCall.mp serves.inCall, grown.current_function.trans serves.function,
    serves.realizes.declare name kind site placement value, ?_⟩
  exact serves.binds.embeds grown.toEmbeds (grown.root_bindings serves.inCall)

/-- A new frame binds nothing. -/
theorem BindsGlobals.pushFrame (binds : storage.BindsGlobals globals) (mode : EscapeMode)
    (function : String) (callSite : Option Location) :
    (storage.pushFrame function callSite).Serves globals ⟨mode, .empty, function, []⟩ := by
  have inCall : (storage.pushFrame function callSite).InCall := List.cons_ne_nil _ _
  refine ⟨inCall, rfl, ⟨?_, fun _ _ => rfl⟩, binds⟩
  rintro name site kind ⟨⟩

/-- Outside of calls there are no locals. -/
theorem realizes_nil (outside : ¬ storage.InCall) (mode : EscapeMode) (function : String) :
    storage.Realizes ⟨mode, .empty, function, []⟩ := by
  refine ⟨?_, fun inCall _ => absurd inCall outside⟩
  rintro name site kind ⟨⟩

end Storage

/-! ### What is watched -/

namespace Program

/-- Something stands at the location, and names are bound as in its scope. -/
def Shows (program : Program) (mode : EscapeMode) (location : Location) (storage : Storage) :
    Prop :=
  ∃ scope task, program.Stands mode storage location scope task ∧
    storage.Realizes scope ∧ storage.BindsGlobals program.globals

/-- Calls are watched at every boundary in them. -/
def WatchesCalls (program : Program) (config : Config) (invoke : Invocation) : Prop :=
  ∀ callee function args location before,
    (Model.new program config).function? callee = some function →
      args.length = function.params.length → before.BindsGlobals program.globals →
        Watches (program.Shows config.escapeMode) before (invoke function args location)
          before.Fills

variable {program : Program} {config : Config} {invoke : Invocation} {before : Storage}
  {scope : EscapeScope} {function : FunctionDef} {location : Location}

theorem bindSlot_watches {seen : Location → Storage → Prop}
    (serves : before.Serves program.globals scope) (name : String) (kind : Kind) (site : SiteId)
    (value : Value) :
    Watches seen before ((Model.new program config).bind name kind site value) fun after =>
      before.Grown after ∧ after.Serves program.globals (scope.bind name site kind) := by
  unfold Model.bind
  have declared : Watches seen before
      (allocate (·.declare name kind (some site) ((Model.new program config).placement site) value))
      fun after => before.Grown after ∧
        after.Serves program.globals (scope.bind name site kind) :=
    .allocate ⟨before.grown_declare name kind (some site) _ value,
      serves.declare name kind site _ value⟩
  refine declared.bind fun ref later holds => ?_
  exact (Watches.silent (silent_record _)).weaken fun _ same => same ▸ holds

theorem bindParams_watches {seen : Location → Storage → Prop} {params : List Param}
    (callee : String) :
    ∀ {before : Storage} {scope : EscapeScope} {args : List Value},
      before.Serves program.globals scope → args.length = params.length →
        Watches seen before ((Model.new program config).bindParams callee location params args)
          fun after => before.Grown after ∧
            after.Serves program.globals (scope.bindParams callee params) := by
  induction params with
  | nil =>
      intro before scope args serves _
      rw [Model.bindParams]
      · exact .pure ⟨.refl before, serves⟩
      · rintro param params arg args ⟨⟩
  | cons param params inductionHypothesis =>
      intro before scope args serves complete
      cases args with
      | nil => cases complete
      | cons arg args =>
          rw [Model.bindParams]
          refine Watches.quiet.bind fun _ checked fills => ?_
          refine (bindSlot_watches (serves.fills fills) param.name param.kind _ arg).bind ?_
          rintro _ bound ⟨grown, serves⟩
          refine (inductionHypothesis serves (Nat.succ.inj complete)).weaken fun after holds => ?_
          exact ⟨(fills.grown.trans grown).trans holds.1, holds.2⟩

/-- The parameters and the named result are bound in the frame as in the scope. -/
theorem bindSlots_watches {seen : Location → Storage → Prop} {mode : EscapeMode} {args : List Value}
    (serves : before.Serves program.globals ⟨mode, .empty, function.name, []⟩)
    (complete : args.length = function.params.length) :
    Watches seen before ((Model.new program config).bindSlots function args location) fun after =>
      before.Grown after ∧
        after.Serves program.globals (function.escapeScope mode .empty) := by
  unfold Model.bindSlots
  refine (bindParams_watches function.name serves complete).bind ?_
  rintro _ middle ⟨grown, serves⟩
  unfold Model.bindResult
  rw [FunctionDef.escapeScope_eq_bind]
  cases function.result with
  | none => exact .pure ⟨grown, serves⟩
  | some result =>
      obtain ⟨name, kind⟩ := result
      cases name with
      | none => exact .pure ⟨grown, serves⟩
      | some name =>
          exact (bindSlot_watches serves name kind _ _).weaken fun _ holds =>
            ⟨grown.trans holds.1, holds.2⟩

theorem exited_watches {inside : Run (Option Value)} {callSite : Option Location} {callee : String}
    {seen : Location → Storage → Prop}
    (watches : Watches seen (before.pushFrame callee callSite) inside
      (before.pushFrame callee callSite).Grown) :
    Watches seen before (do
      let result ← Run.framed callee callSite inside
      Run.transition callee .exited
      return result) before.Grown := by
  refine (Watches.framed watches).bind fun _ later grown => ?_
  refine (Watches.silent (silent_transition _ _)).bind ?_
  rintro _ _ rfl
  exact .pure grown

section

variable (calls : program.WatchesCalls config invoke)

include calls

/-- What is put together without statement boundaries only fills the frames. -/
theorem alike_watches {α : Type} {run : Run α}
    (alike : ((Model.new program config).between invoke).Alike run run)
    (binds : before.BindsGlobals program.globals) :
    Watches (program.Shows config.escapeMode) before run before.Fills :=
  .of_alike alike id (fun fills binds => binds.fills fills)
    (fun found complete location _ => calls _ _ _ location _ found complete) binds

theorem evaluateDecl_watches (binds : before.BindsGlobals program.globals) (decl : VarDecl) :
    Watches (program.Shows config.escapeMode) before
      (Evaluator.evaluateDecl ⟨Model.new program config, invoke⟩ location decl) before.Fills :=
  alike_watches calls (Model.between_evaluateDecl _ _ _ _) binds

/-- After a statement the names are bound as in the scope after it. -/
theorem execute_watches (serves : before.Serves program.globals scope)
    (named : scope.function = function.name) (stmt : Stmt) :
    Watches (program.Shows config.escapeMode) before
      (Evaluator.execute ⟨Model.new program config, invoke⟩ function location stmt) fun after =>
        before.Grown after ∧ after.Serves program.globals (scope.afterStatement stmt) := by
  cases declared : stmt.declared? with
  | none =>
      rw [EscapeScope.afterStatement, declared]
      exact (alike_watches calls (Model.between_execute declared) serves.binds).weaken
        fun _ fills => ⟨fills.grown, serves.fills fills⟩
  | some decl =>
      rw [Stmt.eq_declare declared, Evaluator.execute, EscapeScope.afterStatement, Stmt.declared?,
        ← named]
      refine (evaluateDecl_watches calls serves.binds decl).bind fun value later fills => ?_
      refine (bindSlot_watches (serves.fills fills) decl.name decl.kind _ value).bind
        fun _ _ holds => ?_
      exact .pure ⟨fills.grown.trans holds.1, holds.2⟩

theorem executeFrom_watches (member : function ∈ program.functions) {stmts : List Stmt} :
    ∀ {done : List Stmt} {before : Storage}, function.body = done ++ stmts →
      before.Serves program.globals (function.scopeAt config.escapeMode done) →
        Watches (program.Shows config.escapeMode) before
          (Evaluator.executeFrom ⟨Model.new program config, invoke⟩ function done.length stmts)
          before.Grown := by
  induction stmts with
  | nil =>
      intro done before _ _
      rw [Evaluator.executeFrom]
      exact .pure (.refl before)
  | cons stmt stmts inductionHypothesis =>
      intro done before split serves
      have named := function.scopeAt_function config.escapeMode done
      rw [Evaluator.executeFrom]
      have shown : program.Shows config.escapeMode ⟨function.name, done.length⟩ before :=
        ⟨_, _, .statement member split serves.inCall (serves.function.trans named),
          serves.realizes, serves.binds⟩
      refine (Watches.checkpoint shown).bind ?_
      rintro _ _ rfl
      refine (execute_watches calls serves named stmt).bind ?_
      rintro flow later ⟨grown, serves⟩
      cases flow with
      | returned value => exact .pure grown
      | next =>
          have further : function.body = (done ++ [stmt]) ++ stmts := by
            rw [split, List.append_assoc, List.singleton_append]
          have extended : function.scopeAt config.escapeMode (done ++ [stmt]) =
              (function.scopeAt config.escapeMode done).afterStatement stmt :=
            List.foldl_concat ..
          have rest := inductionHypothesis further (extended ▸ serves)
          rw [List.length_append, List.length_singleton] at rest
          exact rest.weaken fun _ => grown.trans

/-- The frame of a call serves its body, and takes no other slot away. -/
theorem inside_watches (binds : before.BindsGlobals program.globals)
    (member : function ∈ program.functions) {args : List Value}
    (complete : args.length = function.params.length) (callSite : Option Location)
    {observe : Run Unit} (observed : ∀ after,
      Watches (program.Shows config.escapeMode) after observe after.Fills) :
    Watches (program.Shows config.escapeMode) (before.pushFrame function.name callSite)
      (Evaluator.inside ⟨Model.new program config, invoke⟩ function args location observe)
      (before.pushFrame function.name callSite).Grown := by
  have serves := binds.pushFrame config.escapeMode function.name callSite
  unfold Evaluator.inside Model.open FunctionDef.close FunctionDef.copyOut
  simp only [bind_assoc]
  refine (Watches.silent (silent_transition _ _)).bind ?_
  rintro _ _ rfl
  refine (bindSlots_watches serves complete).bind ?_
  rintro _ opened ⟨bound, serves⟩
  refine (Watches.silent (silent_transition _ _)).bind ?_
  rintro _ _ rfl
  have whole : function.body = [] ++ function.body := rfl
  refine (executeFrom_watches calls member whole serves).bind fun returned _ ran => ?_
  refine (observed _).bind fun _ _ fills => ?_
  refine (Watches.silent (silent_transition _ _)).bind ?_
  rintro _ _ rfl
  have grown := (bound.trans ran).trans fills.grown
  split
  next => exact .pure grown
  next name named =>
    refine (Watches.lookup name).bind ?_
    rintro ref _ rfl
    rw [map_eq_pure_bind]
    exact Watches.quiet.weaken fun _ loaded => grown.trans loaded.grown

end

theorem invoke_watches (program : Program) (config : Config) (depth : Nat) :
    program.WatchesCalls config ((Model.new program config).invoke depth) := by
  induction depth with
  | zero =>
      rintro callee function args location _ _ _ _ machine rfl
      refine ⟨?_, ?_⟩
      · rintro value after ⟨⟩
      · rintro location after ⟨⟩
  | succ depth calls =>
      intro callee function args location before found complete binds
      have level := (Model.new program config).invoke_level (depth + 1) function args location
      refine Watches.level ?_ level
      rw [Model.invoke, Evaluator.perform_eq]
      exact exited_watches (inside_watches calls binds (of_function? found).1 complete _
        fun _ => .pure (.refl _))

/-! ### Whole runs -/

theorem declareGlobal_watches (calls : program.WatchesCalls config invoke)
    (outside : ¬ before.InCall) (binds : before.BindsGlobals program.globals) {decl : VarDecl}
    (member : decl ∈ program.globals) :
    Watches (program.Shows config.escapeMode) before
      (Evaluator.declareGlobal ⟨Model.new program config, invoke⟩ location decl) fun after =>
        ¬ after.InCall ∧ after.BindsGlobals program.globals := by
  unfold Evaluator.declareGlobal
  refine (evaluateDecl_watches calls binds decl).bind fun value later fills => ?_
  have outside : ¬ later.InCall := fun inCall => outside (fills.grown.inCall.mpr inCall)
  have declared : Watches (program.Shows config.escapeMode) later
      (allocate (·.declare decl.name decl.kind none .stack value)) fun after =>
        ¬ after.InCall ∧ after.BindsGlobals program.globals := by
    refine .allocate ⟨fun inCall => outside ?_, (binds.fills fills).declare outside member value⟩
    exact (later.grown_declare decl.name decl.kind none .stack value).inCall.mpr inCall
  refine declared.bind fun ref _ holds => ?_
  exact (Watches.silent (silent_record _)).weaken fun _ same => same ▸ holds

theorem declareGlobals_watches (calls : program.WatchesCalls config invoke)
    {decls : List VarDecl} :
    ∀ {done : List VarDecl} {before : Storage}, program.globals = done ++ decls →
      ¬ before.InCall → before.BindsGlobals program.globals →
        Watches (program.Shows config.escapeMode) before
          (Evaluator.declareGlobals ⟨Model.new program config, invoke⟩ done.length decls)
          (·.BindsGlobals program.globals) := by
  induction decls with
  | nil =>
      intro done before _ _ binds
      rw [Evaluator.declareGlobals]
      exact .pure binds
  | cons decl decls inductionHypothesis =>
      intro done before split outside binds
      have member : decl ∈ program.globals := by
        rw [split]
        exact List.mem_append_right _ (List.mem_cons_self ..)
      have further : program.globals = (done ++ [decl]) ++ decls := by
        rw [split, List.append_assoc, List.singleton_append]
      have shown : program.Shows config.escapeMode ⟨globalsFrame, done.length⟩ before := by
        exact ⟨_, _, .initialiser split outside, Storage.realizes_nil outside _ _, binds⟩
      rw [Evaluator.declareGlobals]
      refine (Watches.checkpoint shown).bind ?_
      rintro _ _ rfl
      refine (declareGlobal_watches calls outside binds member).bind ?_
      rintro _ later ⟨outside, binds⟩
      have rest := inductionHypothesis further outside binds
      rwa [List.length_append, List.length_singleton] at rest

/-- At every boundary of a run names resolve as the classification has them. -/
theorem run_watches (checked : program.check config.entry = .ok ()) :
    Watches (program.Shows config.escapeMode) .empty (Model.new program config).execute
      fun _ => True := by
  have calls := program.invoke_watches config (Model.new program config).maxCallDepth
  have outside : ¬ Storage.empty.InCall := fun inCall => inCall rfl
  have start : Storage.empty.BindsGlobals program.globals := by
    rintro name address ⟨⟩
  have whole : program.globals = [] ++ program.globals := rfl
  unfold Model.execute Evaluator.run
  refine (declareGlobals_watches calls whole outside start).bind fun _ middle binds => ?_
  have defined : Watches (program.Shows config.escapeMode) middle
      ((Model.new program config).function config.entry ⟨config.entry, 0⟩) middle.Fills := by
    have unknown : Quiet (fail (.undefinedFunction config.entry ⟨config.entry, 0⟩) :
        Run FunctionDef) :=
      quiet_fail fun _ _ same => RuntimeError.noConfusion same
    unfold Model.function
    split
    next => exact .pure (.refl middle)
    next => exact .quiet
  refine defined.bind_of_exec fun machine entry reached ran fills => ?_
  have found := (Model.function?_of_exec ran).1
  have complete : ([] : List Value).length = entry.params.length := by
    rw [(accepted_of_check checked).entry_params found]
    rfl
  have entered : Watches (program.Shows config.escapeMode) reached.storage
      ((Model.new program config).evaluator.runEntry entry) reached.storage.Grown := by
    rw [Evaluator.runEntry_eq]
    refine exited_watches (inside_watches calls (binds.fills fills) (of_function? found).1 complete
      none fun after => Watches.capture.bind ?_)
    rintro _ _ rfl
    exact .quiet
  exact entered.bind fun _ _ _ => .pure trivial

/-- When what stands at the location is done, names are bound as in the scope of what comes next. -/
theorem task_watches (calls : program.WatchesCalls config invoke) {task : Task}
    (stands : program.Stands config.escapeMode before location scope task)
    (realizes : before.Realizes scope) (binds : before.BindsGlobals program.globals) :
    Watches (program.Shows config.escapeMode) before
      (task.run ⟨Model.new program config, invoke⟩ location) fun after =>
        after.Realizes (task.scopeAfter scope) ∧ after.BindsGlobals program.globals := by
  cases stands with
  | @statement function stmts _ stmt _ _ inCall current =>
      have named := function.scopeAt_function config.escapeMode stmts
      have serves : before.Serves program.globals _ :=
        ⟨inCall, current.trans named.symm, realizes, binds⟩
      refine (execute_watches calls serves named stmt).bind fun _ _ holds => ?_
      exact .pure ⟨holds.2.realizes, holds.2.binds⟩
  | @initialiser _ _ decl split outside =>
      have member : decl ∈ program.globals := by
        rw [split]
        exact List.mem_append_right _ (List.mem_cons_self ..)
      refine (declareGlobal_watches calls outside binds member).weaken fun _ holds => ?_
      exact ⟨Storage.realizes_nil holds.1 _ _, holds.2⟩

/-- What stands before a lookup leaves the names as they are. -/
theorem fills_of_looksUp (calls : program.WatchesCalls config invoke) {name : String}
    {inner : List Operand} {machine last : Machine}
    (looks : LooksUp ⟨Model.new program config, invoke⟩ location name inner machine last)
    (binds : machine.storage.BindsGlobals program.globals) :
    machine.storage.Fills last.storage := by
  have admits : ∀ parts, ((Model.new program config).between invoke).AdmitsAll location parts :=
    fun _ _ _ => ⟨fun _ _ => trivial, fun _ _ => trivial⟩
  induction looks with
  | place | value => exact .refl _
  | inside looks inductionHypothesis => exact inductionHypothesis binds
  | @later operand rest machine middle last ran looks inductionHypothesis =>
      have watches : Watches (program.Shows config.escapeMode) machine.storage
          (operand.run ⟨Model.new program config, invoke⟩ location) machine.storage.Fills := by
        cases operand with
        | place target =>
            have alike := Pairing.placeRef_alike location target (fun _ _ => trivial) (admits _)
            exact (alike_watches calls alike binds).bind fun _ _ fills => .pure fills
        | value expr =>
            have alike := Pairing.evaluate_alike location expr (admits _)
            exact (alike_watches calls alike binds).bind fun _ _ fills => .pure fills
      have fills := (watches machine rfl).1 () middle ran
      exact fills.trans (inductionHypothesis (binds.fills fills))

end Program

namespace Simulator

variable {program : Program} {config : Config} {signal : AbortSignal}

/-- A first run of an accepted program can be stopped before every statement that it comes to and
before the initialiser of every global. There one of them stands. The classification applies its
rules in the scope that it stands in, and every name that it looks up on the way from there resolves
as in this scope. When it is done names resolve as in the scope of what comes next; so does the
result that a call leaves with. No lookup is left out: a name that is not found is one of those that
are looked up, or it is missed by a function that is called, and a statement of such a function is
one that the run comes to itself. -/
theorem lookups_resolve (checked : program.check config.entry = .ok ()) {location : Location}
    {stopped : Machine}
    (reached : (signalled program config signal).ending = (.error (.aborted location), stopped)) :
    (∃ scope task, program.Stands config.escapeMode stopped.storage location scope task) ∧
      ∀ scope task, program.Stands config.escapeMode stopped.storage location scope task →
        task.AppliedIn config.escapeMode scope ∧
        ∀ depth machine name last, machine.storage = stopped.storage →
          let evaluator : Evaluator :=
            ⟨Model.new program config, (Model.new program config).invoke depth⟩
          (LooksUp evaluator location name task.inner machine last →
            last.storage.Resolves program.globals scope name) ∧
          (exec (task.run evaluator location) machine = (.ok (), last) →
            last.storage.Resolves program.globals (task.scopeAfter scope) name) ∧
          ∀ place, exec (task.run evaluator location) machine =
              (.error (.error (.undefinedVariable name place)), last) →
            Missed evaluator location name task.inner machine place last := by
  obtain ⟨scope, task, stands, realizes, binds⟩ :=
    (Program.run_watches checked _ rfl).2 location stopped reached
  refine ⟨⟨scope, task, stands⟩, fun _ _ stands' => ⟨stands'.applied, ?_⟩⟩
  intro depth machine name last same
  have single := (Program.accepted_of_check checked).single
  obtain ⟨rfl, rfl⟩ := stands.unique single stands'
  have calls := program.invoke_watches config depth
  refine ⟨fun looks => ?_, fun ran => ?_, fun place failed => ?_⟩
  · rw [← same] at realizes binds
    have fills := Program.fills_of_looksUp calls looks binds
    exact (realizes.fills fills).resolves (binds.fills fills) name
  · have after := (Program.task_watches calls stands realizes binds machine same).1 () last ran
    exact after.1.resolves after.2 name
  · exact misses_task task machine name place last failed

/-- The name of the global is that of a local from the second statement on. -/
def shadowingEntry : FunctionDef :=
  .new "main" []
    [.declare (.new "y" .value (some (.var "x"))), .declare (.new "x" .value (some (.var "x"))),
      .assign "y" (.var "x")]

def shadowingProgram : Program :=
  ⟨[.new "x" .value (some (.lit (.int 1)))], [shadowingEntry]⟩

/-- The run stops before the statement at the index. -/
def shadowing (index : Nat) : Simulator :=
  signalled shadowingProgram .default ⟨false, some (index + 1)⟩

/-- The scope of the statement at the index. -/
def shadowingScope (index : Nat) : EscapeScope :=
  shadowingEntry.scopeAt .conservative (shadowingEntry.body.take index)

theorem shadowingProgram_checked : shadowingProgram.check "main" = .ok () := by
  cbv

theorem shadowing_stops :
    (shadowing 1).ending.1 = .error (.aborted ⟨"main", 1⟩) ∧
      (shadowing 2).ending.1 = .error (.aborted ⟨"main", 2⟩) := by
  cbv

theorem shadowing_stands :
    (shadowingProgram.Stands .conservative (shadowing 1).ending.2.storage ⟨"main", 1⟩
      (shadowingScope 1) (.statement shadowingEntry shadowingEntry.body[1])) ∧
    shadowingProgram.Stands .conservative (shadowing 2).ending.2.storage ⟨"main", 2⟩
      (shadowingScope 2) (.statement shadowingEntry shadowingEntry.body[2]) := by
  have member : shadowingEntry ∈ shadowingProgram.functions := List.mem_singleton.mpr rfl
  have called (index : Nat) (frames : (shadowing index).ending.2.storage.calls.frames.length = 1) :
      (shadowing index).ending.2.storage.InCall :=
    List.ne_nil_of_length_pos (frames ▸ Nat.one_pos)
  have first : shadowingEntry.body = shadowingEntry.body.take 1 ++
      shadowingEntry.body[1] :: shadowingEntry.body.drop 2 := rfl
  have second : shadowingEntry.body = shadowingEntry.body.take 2 ++
      shadowingEntry.body[2] :: shadowingEntry.body.drop 3 := rfl
  exact ⟨.statement member first (called 1 (by cbv)) (by cbv),
    .statement member second (called 2 (by cbv)) (by cbv)⟩

/-- The second statement still reads the global, the third one the local. -/
theorem lookups_resolve_shadowing :
    shadowingProgram.check "main" = .ok () ∧
      (shadowing 1).ending.1 = .error (.aborted ⟨"main", 1⟩) ∧
      (shadowing 2).ending.1 = .error (.aborted ⟨"main", 2⟩) ∧
      (shadowingScope 1).locals.lookup "x" = none ∧
      (shadowing 1).ending.2.storage.Resolves shadowingProgram.globals (shadowingScope 1) "x" ∧
      (shadowingScope 2).locals.lookup "x" = some ("main.x", .value) ∧
      (shadowing 2).ending.2.storage.Resolves shadowingProgram.globals (shadowingScope 2) "x" := by
  have checked : shadowingProgram.check Config.default.entry = .ok () := shadowingProgram_checked
  obtain ⟨before, after⟩ := shadowing_stops
  obtain ⟨stands, stands'⟩ := shadowing_stands
  have reached (index : Nat) {halt : Halt} (stops : (shadowing index).ending.1 = .error halt) :
      (signalled shadowingProgram .default ⟨false, some (index + 1)⟩).ending =
        (.error halt, (shadowing index).ending.2) :=
    Prod.ext stops rfl
  refine ⟨checked, before, after, by cbv, ?_, by cbv, ?_⟩
  · exact (((lookups_resolve checked (reached 1 before)).2 _ _ stands).2 0 _ "x" _ rfl).1
      (.value [] _)
  · refine (((lookups_resolve checked (reached 2 after)).2 _ _ stands').2 0 _ "x" _ rfl).1
      (.later ?_ (.value [] _))
    cbv

end Simulator

end ReferenceSemantics
