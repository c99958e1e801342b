import Mathlib
import ReferenceSemantics.Proofs.Escape.Safety
import ReferenceSemantics.Proofs.Placement.Relocation
import ReferenceSemantics.Proofs.Run.Interruption

set_option autoImplicit false

/-!
Where slots live cannot be observed.

A classified run does not come upon a slot whose frame is gone. So it does what the run with every
site in the heap does, and so do two classified runs; only the addresses are others.
-/

namespace ReferenceSemantics

/-- A renaming of some addresses: none gets two names, and no two get one. -/
structure Renaming where
  renames : Address → Address → Prop
  injective : ∀ {address address' other other'}, renames address address' → renames other other' →
    (address = other ↔ address' = other')

namespace Renaming

/-- Pointer targets, blocks and tables are renamed alike. -/
def links (names : Renaming) : Links :=
  ⟨names.renames, fun address address' _ => names.renames address address', names.renames⟩

/-- From one side to another through what both are renamed to. -/
def beside (first second : Renaming) : Renaming where
  renames address address' :=
    ∃ middle, first.renames address middle ∧ second.renames address' middle
  injective := fun ⟨_, left, right⟩ ⟨_, left', right'⟩ =>
    (first.injective left left').trans (second.injective right right').symm

variable {first second : Renaming}

mutual

theorem linked_beside {value value' middle : Value} :
    Value.Linked first.links value middle → Value.Linked second.links value' middle →
      Value.Linked (first.beside second).links value value'
  | .primitive value, other => by
      cases other
      exact .primitive value
  | .composite typeName fields, other => by
      cases other with
      | composite _ fields' => exact .composite typeName (fieldsLinked_beside fields fields')
  | .nilReference, other => by
      cases other
      exact .nilReference
  | .reference within block, other => by
      cases other with
      | reference _ block' => exact .reference within ⟨_, block, block'⟩
  | .nilKeyValue, other => by
      cases other
      exact .nilKeyValue
  | .keyValue table, other => by
      cases other with
      | keyValue table' => exact .keyValue ⟨_, table, table'⟩
  | .nilPointer, other => by
      cases other
      exact .nilPointer
  | .pointer path slot, other => by
      cases other with
      | pointer _ slot' => exact .pointer path ⟨_, slot, slot'⟩
  | .interfaceBox typeTag inner, other => by
      cases other with
      | interfaceBox _ inner' => exact .interfaceBox typeTag (linked_beside inner inner')

theorem fieldsLinked_beside {fields fields' middle : List (String × Value)} :
    Value.FieldsLinked first.links fields middle → Value.FieldsLinked second.links fields' middle →
      Value.FieldsLinked (first.beside second).links fields fields'
  | .nil, other => by
      cases other
      exact .nil
  | .cons name here rest, other => by
      cases other with
      | cons _ here' rest' =>
          exact .cons name (linked_beside here here') (fieldsLinked_beside rest rest')

end

theorem entries_beside {entries entries' middle : List (String × Value)}
    (left : first.links.Entries entries middle) (right : second.links.Entries entries' middle) :
    (first.beside second).links.Entries entries entries' := by
  induction left generalizing entries' with
  | nil =>
      cases right
      exact .nil
  | cons here _ inductionHypothesis =>
      cases right with
      | cons here' rest' =>
          exact .cons ⟨here.1.trans here'.1.symm, linked_beside here.2 here'.2⟩
            (inductionHypothesis rest')

end Renaming

/-- What is paired in two storages, whatever it designates. -/
def Pairs.toRenaming (pairs : Pairs) (unique : pairs.Unique) : Renaming where
  renames address address' := ∃ role, pairs.stands role address address'
  injective := fun ⟨_, stands⟩ ⟨_, stands'⟩ => unique stands stands'

theorem Pairs.links_toRenaming (pairs : Pairs) (unique : pairs.Unique) :
    pairs.links.Le (pairs.toRenaming unique).links :=
  ⟨fun stands => ⟨_, stands⟩, fun stands => ⟨_, stands⟩, fun stands => ⟨_, stands⟩⟩

/-- The same panics, and final values that are the same up to addresses. -/
structure Verdict.Same (names : Renaming) (verdict verdict' : Verdict) : Prop where
  panics : verdict.panics = verdict'.panics
  finalValues : names.links.Entries verdict.finalValues.entries verdict'.finalValues.entries

theorem Verdict.Same.beside {first second : Renaming} {verdict verdict' middle : Verdict}
    (left : verdict.Same first middle) (right : verdict'.Same second middle) :
    verdict.Same (first.beside second) verdict' :=
  ⟨left.panics.trans right.panics.symm, Renaming.entries_beside left.finalValues right.finalValues⟩

/-- Two verdicts that are the same up to addresses, or one error. -/
inductive SameResult (names : Renaming) :
    Except SimulationError Verdict → Except SimulationError Verdict → Prop where
  | verdict {verdict verdict' : Verdict} (same : verdict.Same names verdict') :
      SameResult names (.ok verdict) (.ok verdict')
  | error (error : SimulationError) : SameResult names (.error error) (.error error)

/-- Two runs that end in the same way, in what they return and in what can be asked for later. -/
def SameEnd (ended ended' : Except SimulationError Verdict × Simulator) : Prop :=
  ∃ names, SameResult names ended.1 ended'.1 ∧
    ended.2.verdict.Same names ended'.2.verdict

theorem SameEnd.beside {ended ended' middle : Except SimulationError Verdict × Simulator}
    (left : SameEnd ended middle) (right : SameEnd ended' middle) : SameEnd ended ended' := by
  obtain ⟨first, result, verdicts⟩ := left
  obtain ⟨second, result', verdicts'⟩ := right
  refine ⟨first.beside second, ?_, verdicts.beside verdicts'⟩
  generalize middle.1 = here at result result'
  generalize ended.1 = start at result
  cases result with
  | verdict same =>
      generalize ended'.1 = there at result'
      cases result' with
      | verdict same' => exact .verdict (same.beside same')
  | error error =>
      generalize ended'.1 = there at result'
      cases result'
      exact .error error

/-- The configuration with another placement of the sites. -/
def Config.placing (config : Config) (policy : PlacementPolicy) (mode : EscapeMode) : Config :=
  { config with placementPolicy := policy, escapeMode := mode }

namespace Simulator

variable {program : Program} {config : Config}

/-- What is made of one end of two runs that are still together. -/
theorem sameEnd_conclude {left right : Simulator} {world : Paired} {machine machine' : Machine}
    (panics : left.panics = right.panics)
    (relates : world.Relates machine.storage machine'.storage)
    (finals : world.pairs.links.Entries machine.finalValues.entries machine'.finalValues.entries)
    (result : Except Halt Unit) :
    SameEnd (left.conclude (result, machine)) (right.conclude (result, machine')) := by
  let names := world.pairs.toRenaming relates.2.unique
  have kept : world.pairs.links.Le names.links := world.pairs.links_toRenaming _
  have final : names.links.Entries machine.finalValues.entries machine'.finalValues.entries :=
    finals.mono kept
  refine ⟨names, ?_⟩
  cases result with
  | ok _ => exact ⟨.verdict ⟨panics, final⟩, panics, final⟩
  | error halt =>
      cases halt with
      | aborted _ => exact ⟨.error _, panics, .nil⟩
      | callDepthExceeded => exact ⟨.error _, panics, final⟩
      | error error =>
          cases error with
          | fault cause location =>
              obtain ⟨storage, trace, abort, finalValues⟩ := machine
              obtain ⟨storage', trace', abort', finalValues'⟩ := machine'
              have captured : names.links.Entries (Run.captured storage).entries
                  (Run.captured storage').entries := relates.2.captured.mono kept
              have both : left.panics ++ [Panic.mk cause.kind location] =
                  right.panics ++ [Panic.mk cause.kind location] :=
                congrArg (· ++ [Panic.mk cause.kind location]) panics
              simp only [conclude, panicked_eq]
              exact ⟨.verdict ⟨both, captured⟩, both, captured⟩
          | _ => exact ⟨.error _, panics, final⟩

/-- A run ends as with every site in the heap, or at a slot whose frame is gone. -/
theorem dangles_or_sameEnd (policy : PlacementPolicy) (mode other : EscapeMode)
    (fits : (new program (config.placing policy mode)).ending.2.storage.Fits) :
    (∃ halt, (new program (config.placing policy mode)).ending.1 = .error halt ∧ halt.Dangles) ∨
      SameEnd (new program (config.placing policy mode)).run
        (new program (config.placing .forceHeap other)).run := by
  let left := Model.new program (config.placing policy mode)
  let right := Model.new program (config.placing .forceHeap other)
  let sim := relocation left right rfl rfl rfl fun _ => rfl
  let world : Paired := ⟨⟨fun _ _ _ => False⟩, 1⟩
  have calls := Simulation.invoke_calls sim.toSimulation left.maxCallDepth
  have related : sim.Related world (new program (config.placing policy mode)).machine
      (new program (config.placing .forceHeap other)).machine :=
    ⟨⟨rfl, .empty⟩, rfl, .nil⟩
  have atRoot : ¬ sim.InCall world := Nat.lt_irrefl 1
  have ended : sim.Ends world (fun _ _ _ => True)
      (new program (config.placing policy mode)).ending
      (new program (config.placing .forceHeap other)).ending :=
    ProgramSimulation.run_agrees calls atRoot _ _ related
  rw [run_eq_conclude rfl, run_eq_conclude rfl]
  generalize (new program (config.placing policy mode)).ending = last at ended fits
  generalize (new program (config.placing .forceHeap other)).ending = last' at ended
  cases ended with
  | overflow full => exact absurd fits full
  | left_open dangles => exact .inl ⟨_, rfl, dangles⟩
  | halted next _ related =>
      refine .inr (sameEnd_conclude ?_ related.storages related.finals _)
      rfl
  | done next _ related _ =>
      refine .inr (sameEnd_conclude ?_ related.storages related.finals _)
      rfl

/-- A classified run ends as with every site in the heap. -/
theorem classified_sameEnd (checked : program.check config.entry = .ok ())
    (mode other : EscapeMode)
    (fits : (new program (config.placing .classified mode)).ending.2.storage.Fits) :
    SameEnd (new program (config.placing .classified mode)).run
      (new program (config.placing .forceHeap other)).run := by
  let placed := config.placing .classified mode
  have accepted : program.Accepted placed.entry := Program.accepted_of_check checked
  have room : (signalled program placed .idle).ending.2.storage.Fits := fits
  have grounded := (ending_secure accepted rfl room).2
  rcases dangles_or_sameEnd .classified mode other fits with
    ⟨halt, ended, address, location, rfl⟩ | same
  · exact (grounded _ ended).elim
  · exact same

/-- The placement of sites cannot be observed. Classified runs, in either mode, end as the run with
every site in the heap does, up to addresses. With every site on the stack a run ends in this way as
well, or in a panic at a slot whose frame is gone. -/
theorem placement_unobservable (checked : program.check config.entry = .ok ()) :
    let simulator := fun policy mode => new program (config.placing policy mode)
    let Fits := fun policy mode => (simulator policy mode).ending.2.storage.Fits
    (∀ mode other, Fits .classified mode →
      SameEnd (simulator .classified mode).run (simulator .forceHeap other).run) ∧
    (∀ mode other, Fits .classified mode → Fits .classified other →
      SameEnd (simulator .classified mode).run (simulator .classified other).run) ∧
    ∀ mode other, Fits .forceStack mode →
      SameEnd (simulator .forceStack mode).run (simulator .forceHeap other).run ∨
        ∃ verdict location, (simulator .forceStack mode).run.1 = .ok verdict ∧
          verdict.panics = [⟨.danglingPointer, location⟩] := by
  intro simulator Fits
  refine ⟨fun mode other fits => classified_sameEnd checked mode other fits,
    fun mode other fits fits' => ?_, fun mode other fits => ?_⟩
  · exact (classified_sameEnd checked mode mode fits).beside
      (classified_sameEnd checked other mode fits')
  · rcases dangles_or_sameEnd .forceStack mode other fits with
      ⟨halt, ended, address, location, rfl⟩ | same
    · refine .inr ?_
      dsimp only [simulator]
      rw [run_eq_conclude rfl]
      generalize (new program (config.placing .forceStack mode)).ending = last at ended
      obtain ⟨result, machine⟩ := last
      obtain rfl : result = .error (.error (.fault (.dangling address) location)) := ended
      exact ⟨_, location, rfl, rfl⟩
    · exact .inl same

/-- A function that hands out the address of its local, which is then read. -/
def leakingProgram : Program :=
  ⟨[], [.new "main" []
      [.declare (.new "p" .pointer (some (.call "leak" []))),
        .declare (.new "x" .value (some (.deref (.var "p"))))],
    (FunctionDef.new "leak" []
      [.declare (.new "y" .value (some (.lit (.int 7)))),
        .ret (some (.addrOf (.var "y")))]).withResult none .pointer]⟩

theorem leaking_fits (policy : PlacementPolicy) (mode : EscapeMode) :
    (new leakingProgram (Config.default.placing policy mode)).ending.2.storage.Fits := by
  have few : (new leakingProgram
      (Config.default.placing policy mode)).ending.2.storage.nextStackAddress.ble heapStart := by
    cases policy <;> cases mode <;> cbv
  exact Nat.le_of_ble_eq_true few

theorem leaking_differs :
    ¬ SameEnd (new leakingProgram (Config.default.placing .forceStack .conservative)).run
      (new leakingProgram (Config.default.placing .forceHeap .conservative)).run := by
  rintro ⟨_, -, same⟩
  have onStack : (new leakingProgram
      (Config.default.placing .forceStack .conservative)).run.2.verdict.panics =
        [⟨.danglingPointer, ⟨"main", 1⟩⟩] := by
    cbv
  have inHeap : (new leakingProgram
      (Config.default.placing .forceHeap .conservative)).run.2.verdict.panics = [] := by
    cbv
  have panics := same.panics
  rw [onStack, inHeap] at panics
  cases panics

/-- On the stack the local is gone when it is read; classified, it is in the heap. -/
theorem placement_unobservable_leaking :
    leakingProgram.check "main" = .ok () ∧
      (∀ policy mode,
        (new leakingProgram (Config.default.placing policy mode)).ending.2.storage.Fits) ∧
      SameEnd (new leakingProgram (Config.default.placing .classified .conservative)).run
        (new leakingProgram (Config.default.placing .forceHeap .conservative)).run ∧
      SameEnd (new leakingProgram (Config.default.placing .classified .conservative)).run
        (new leakingProgram (Config.default.placing .classified .interprocedural)).run ∧
      ∃ verdict location,
        (new leakingProgram (Config.default.placing .forceStack .conservative)).run.1 =
          .ok verdict ∧ verdict.panics = [⟨.danglingPointer, location⟩] := by
  have checked : leakingProgram.check Config.default.entry = .ok () := by
    cbv
  obtain ⟨heap, classified, stack⟩ := placement_unobservable checked
  refine ⟨checked, leaking_fits, heap _ _ (leaking_fits _ _),
    classified _ _ (leaking_fits _ _) (leaking_fits _ _), ?_⟩
  rcases stack .conservative .conservative (leaking_fits _ _) with same | dangles
  · exact absurd same leaking_differs
  · exact dangles

end Simulator

end ReferenceSemantics
