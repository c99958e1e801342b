import Mathlib
import ReferenceSemantics.Proofs.Run.Ending
import ReferenceSemantics.Proofs.Run.Naming

set_option autoImplicit false

/-!
The names that a whole run looks up.

While a global is initialised, it and the later globals are missing from the root frame. The check
sees to it that the initialiser does not use them itself, but not that the functions it calls do
not. Once all globals are there, every name is bound.
-/

namespace ReferenceSemantics

open Run

namespace Program

/-- A function calls another. -/
def Calls (program : Program) (caller callee : String) : Prop :=
  ∃ function ∈ program.functions, function.name = caller ∧ callee ∈ function.callees

/-- Above the root frame there is a chain of calls, the first of them in the initialiser of a
global. -/
inductive Initialises (program : Program) (decl : VarDecl) : List String → Prop
  | intro {callee : String} {calls : List String}
      (called : callee ∈ decl.parts.filterMap Expr.callee?)
      (leads : (callee :: calls).IsChain program.Calls) :
      Initialises program decl (globalsFrame :: callee :: calls)

/-- While a global is initialised, the root frame binds the globals before it and no others. A
function that the initialiser calls, by itself or through others, uses the global or one after it.
This name cannot be looked up. -/
inductive UsesEarly (program : Program) (storage : Storage) (name : String) : Location → Prop
  | intro {earlier later : List VarDecl} {decl : VarDecl} {function : FunctionDef}
      {location : Location} (standing : program.globals = earlier ++ decl :: later)
      (there : storage.root.Binds (earlier.map (·.name)))
      (missing : name ∈ (decl :: later).map (·.name))
      (initialises : program.Initialises decl storage.functions)
      (member : function ∈ program.functions) (lacks : storage.Lacks function name location) :
      UsesEarly program storage name location

variable {program : Program} {entry : String} {config : Config}

theorem Initialises.call {decl : VarDecl} {stack : List String} {caller callee : String}
    (initialises : program.Initialises decl stack) (top : stack.getLast? = some caller)
    (calls : program.Calls caller callee) : program.Initialises decl (stack ++ [callee]) := by
  cases initialises with
  | @intro first rest called leads =>
      refine .intro called (List.isChain_append.mpr ⟨leads, .singleton _, ?_⟩)
      intro last isLast next isNext
      rw [List.getLast?_cons_cons] at top
      obtain rfl : caller = last := Option.some.inj (top.symm.trans isLast)
      obtain rfl : callee = next := Option.some.inj isNext
      exact calls

/-- The initialisation of a global. -/
def initialising (program : Program) (earlier : List VarDecl) (decl : VarDecl) :
    Phase program where
  there := earlier.map (·.name)
  reached := program.Initialises decl
  closed := fun initialises top member further => initialises.call top ⟨_, member, rfl, further⟩

/-- The run of the entry function. -/
def entering (program : Program) : Phase program where
  there := program.globals.map (·.name)
  reached _ := True
  closed _ _ _ _ := trivial

theorem usesEarly_of_excuses {earlier later : List VarDecl} {decl : VarDecl} {storage : Storage}
    {name : String} {location : Location} (standing : program.globals = earlier ++ decl :: later)
    (excuses : (program.initialising earlier decl).Excuses storage name location) :
    program.UsesEarly storage name location := by
  obtain ⟨rooted, initialises, isGlobal, function, member, lacks⟩ := excuses
  rw [standing, List.map_append] at isGlobal
  refine .intro standing rooted ?_ initialises member lacks
  exact (List.mem_append.mp isGlobal).resolve_left
    (rooted.not_mem (Storage.lookup_eq_none.mp lacks.unbound).2)

/-- Once all globals are there, nothing is excused. -/
theorem not_excuses_entering {storage : Storage} {name : String} {location : Location} :
    ¬ program.entering.Excuses storage name location := by
  rintro ⟨rooted, -, isGlobal, function, -, lacks⟩
  exact rooted.not_mem (Storage.lookup_eq_none.mp lacks.unbound).2 isGlobal

/-- The initialiser of a global finds the names it uses itself. -/
theorem initialiseAt_names (wellFormed : program.WellFormed entry) {earlier later : List VarDecl}
    {decl : VarDecl} {storage : Storage} (standing : program.globals = earlier ++ decl :: later)
    (outside : storage.functions = [globalsFrame])
    (rooted : storage.root.Binds (earlier.map (·.name))) :
    Names program.UsesEarly storage
      ((Model.new program config).evaluator.initialiseAt earlier.length decl) := by
  let phase := program.initialising earlier decl
  let model := Model.new program config
  let location : Location := ⟨globalsFrame, earlier.length⟩
  let pairing : Pairing := ⟨model, model.invoke model.maxCallDepth,
    model.invoke model.maxCallDepth, fun name _ => name ∈ earlier.map (·.name),
    (· ∈ decl.parts.filterMap Expr.callee?), False⟩
  have level := model.invoke_level model.maxCallDepth
  have admits : pairing.AdmitsAll location decl.parts := by
    refine fun part member => ⟨fun name found => ?_, fun callee found => ?_⟩
    · have mentioned : name ∈ (decl.passage earlier).variables :=
        List.mem_filterMap.mpr ⟨part, member, found⟩
      exact wellFormed.mentions _ (.initialiser standing) mentioned
    · exact List.mem_filterMap.mpr ⟨part, member, found⟩
  have evaluated : Names phase.Excuses storage (model.evaluator.evaluateDecl location decl) := by
    refine .of_alike (Pairing.evaluateDecl_alike admits) id level ?_ ?_
    · intro name place known changed same unbound
      have here := rooted.of_bare (Storage.root_of_skeleton same)
      exact absurd known (here.not_mem (Storage.lookup_eq_none.mp unbound).2)
    · intro callee function args called found complete place
      obtain ⟨member, rfl⟩ := of_function? found
      have start : phase.reached (storage.functions ++ [function.name]) := by
        rw [outside]
        exact .intro called (.singleton _)
      exact Phase.invoke_calls wellFormed phase config _ rooted start member complete place
  unfold Evaluator.initialiseAt Evaluator.declareGlobal
  refine (Names.checkpoint _).bind (.checkpoint _) fun _ => ?_
  refine (evaluated.excuse fun _ _ _ => usesEarly_of_excuses standing).bind_of_exec
    fun _ _ _ _ _ => ?_
  exact (Names.declare _ _ _ _ _).bind_of_exec fun _ _ _ _ _ => .quiet _

/-- Globals that are initialised are bound in the root frame, and no calls are left. -/
theorem declareGlobals_rooted {machine after : Machine} {earlier : List VarDecl}
    (started : machine.storage.skeleton = Storage.empty.skeleton)
    (ran : exec ((Model.new program config).evaluator.declareGlobals 0 earlier) machine =
      (.ok (), after)) :
    after.storage.functions = [globalsFrame] ∧
      after.storage.root.Binds (earlier.map (·.name)) := by
  have level := (Model.new program config).invoke_level (Model.new program config).maxCallDepth
  have declares := (Storage.declares_nothing started).trans
    (Evaluator.declareGlobals_declares level 0 earlier _ _ _ ran)
  have nothing : Storage.empty.current.Binds [] :=
    fun _ => iff_of_false Bool.false_ne_true List.not_mem_nil
  have outside : ¬ after.storage.InCall := declares.inCall.not.mpr fun called => called rfl
  exact ⟨declares.functions, Storage.current_eq_root outside ▸ declares.binds nothing⟩

/-- A run looks up a name that is not bound only where a global is used too early. -/
theorem run_names (checked : program.check config.entry = .ok ()) :
    Names program.UsesEarly .empty (Model.new program config).execute := by
  have accepted := accepted_of_check checked
  have wellFormed := (resolved_of_check checked).1.wellFormed
  let model := Model.new program config
  unfold Model.execute Evaluator.run
  refine Names.bind_of_exec ?_ fun machine _ reached started ran => ?_
  -- A global is being initialised, and those before it are there.
  · intro machine name location after started failed
    obtain ⟨earlier, decl, later, middle, standing, initialised, stopped⟩ :=
      Evaluator.declareGlobals_halted failed
    obtain ⟨outside, rooted⟩ := declareGlobals_rooted started initialised
    rw [Nat.zero_add] at stopped
    exact initialiseAt_names wellFormed standing outside rooted middle name location after rfl
      stopped
  -- All globals are there, and the entry function runs.
  · obtain ⟨-, rooted⟩ := declareGlobals_rooted started ran
    refine (Names.function _ _ _).bind_of_exec fun machine function looked same ran => ?_
    obtain ⟨defined, rfl⟩ := Model.function?_of_exec ran
    obtain ⟨member, -⟩ := of_function? defined
    have entered : Names program.entering.Excuses looked.storage
        (model.evaluator.runEntry function) :=
      Phase.runEntry_names wellFormed _ (rooted.of_bare (Storage.root_of_skeleton same)) trivial
        member (accepted.entry_params defined)
    refine (entered.excuse fun _ _ _ excuses => ?_).bind_of_exec fun _ _ _ _ _ => .quiet _
    exact absurd excuses not_excuses_entering

end Program

namespace Simulator

variable {program : Program} {config : Config} {signal : AbortSignal}

/-- A first run of an accepted program finds every name bound, in the current frame or in the root
frame, but for a global that is used before it is there: by a function to which the initialiser of
that global, or of an earlier one, leads. Where the run ends so, the root frame binds the globals
that are there, and the frame on top the parameters, the named result and the locals declared
before. -/
theorem undefinedVariable_early (checked : program.check config.entry = .ok ()) {name : String}
    {location : Location}
    (failed : (signalled program config signal).run.1 =
      .error (.runtime (.undefinedVariable name location))) :
    program.UsesEarly (signalled program config signal).run.2.storage name location := by
  obtain ⟨ended, kept⟩ := ending_of_run_error failed
  generalize last : (signalled program config signal).ending = reached at ended kept
  obtain ⟨result, after⟩ := reached
  obtain rfl : result = .error (.error (.undefinedVariable name location)) := ended
  have storage : (signalled program config signal).run.2.storage = after.storage :=
    congrArg Machine.storage kept
  rw [storage]
  exact Program.run_names checked _ name location after rfl last

/-- The first global is initialised by a function that returns the second. -/
def earlyProgram : Program :=
  ⟨[.new "a" .value (some (.call "f" [])), .new "b" .value (some (.lit (.int 1)))],
    [.new "main" [] [],
      (FunctionDef.new "f" [] [.ret (some (.var "b"))]).withResult none .value]⟩

theorem earlyProgram_checked : earlyProgram.check "main" = .ok () := by
  cbv

theorem earlyProgram_fails : (signalled earlyProgram .default .idle).run.1 =
    .error (.runtime (.undefinedVariable "b" ⟨"f", 0⟩)) := by
  cbv

theorem undefinedVariable_early_global :
    earlyProgram.check "main" = .ok () ∧
      (signalled earlyProgram .default .idle).run.1 =
        .error (.runtime (.undefinedVariable "b" ⟨"f", 0⟩)) ∧
      earlyProgram.UsesEarly (signalled earlyProgram .default .idle).run.2.storage "b"
        ⟨"f", 0⟩ := by
  have checked : earlyProgram.check Config.default.entry = .ok () := earlyProgram_checked
  exact ⟨checked, earlyProgram_fails, undefinedVariable_early checked earlyProgram_fails⟩

/-- Being accepted does not mean that every name is bound when it is looked up. -/
theorem not_undefinedVariable_never :
    ¬ ∀ (program : Program) (config : Config), program.check config.entry = .ok () →
      ∀ name location,
        (new program config).run.1 ≠ .error (.runtime (.undefinedVariable name location)) := by
  intro never
  have checked : earlyProgram.check Config.default.entry = .ok () := by
    cbv
  have failed : (new earlyProgram .default).run.1 =
      .error (.runtime (.undefinedVariable "b" ⟨"f", 0⟩)) := by
    cbv
  exact never earlyProgram .default checked "b" ⟨"f", 0⟩ failed

end Simulator

end ReferenceSemantics
