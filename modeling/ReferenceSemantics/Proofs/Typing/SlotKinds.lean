import Mathlib
import ReferenceSemantics.Proofs.Run.Ending
import ReferenceSemantics.Proofs.Run.NameSafety
import ReferenceSemantics.Proofs.Typing.Calls

set_option autoImplicit false

/-!
Slots keep their kinds.

In a checked program a box without a tag is one of the literal `nil`, and a named result is not
declared again. So a run started in regular storage keeps it regular, under every signal.
-/

namespace ReferenceSemantics

open Run

/-- A slot of a live frame, or one in the heap. -/
def Storage.HasSlot (storage : Storage) (slot : Slot) : Prop :=
  (∃ frame ∈ storage.frames, slot ∈ frame.slots) ∨
    ∃ address, storage.heap.get? address = some (.slot slot)

theorem Storage.Regular.kind_eq {storage : Storage} (regular : storage.Regular)
    (fits : storage.Fits) {slot : Slot} (has : storage.HasSlot slot) :
    slot.value.kind = slot.kind := by
  rcases has with ⟨frame, member, owned⟩ | ⟨address, found⟩
  · have inStack : slot ∈ storage.stackSlots := List.mem_flatMap.mpr ⟨frame, member, owned⟩
    exact regular.kinds fits (.inl ⟨slot, inStack, rfl, rfl⟩)
  · exact regular.kinds fits (.inr found)

namespace Program

variable {program : Program} {all : List String}

/-- What the check of a program says of its boxes and of its named results. -/
def typing (program : Program) (config : Config) (known : program.Globals all)
    (isOpen : Halt → Prop) : Typing where
  model := .new program config
  Open := isOpen
  tagged found stmt member := by
    obtain ⟨scope, admits⟩ := FunctionDef.admits_of_check (known.function found).2 stmt member
    exact admits.tagged
  taggedGlobals decl member := by
    obtain ⟨scope, admits⟩ := admits_of_checkGlobals known.globals decl member
    exact admits.tagged
  single found _ named _ member _ declared :=
    FunctionDef.gives_check (known.function found).2 named member declared

end Program

namespace Simulator

variable {program : Program} {config : Config} {simulator : Simulator}

/-- A run of a checked program ends in regular storage if it starts there. -/
theorem ending_regular (checked : program.check config.entry = .ok ())
    (model : simulator.model = .new program config) (regular : simulator.storage.Regular) :
    simulator.ending.2.storage.Regular := by
  obtain ⟨all, known⟩ := Program.exists_globals checked
  let typing := program.typing config known fun _ => False
  have calls := typing.invoke_calls typing.model.maxCallDepth
  have ended : typing.Ends (fun _ _ => True)
      (exec (Model.new program config).execute simulator.machine) :=
    Typing.run_leads calls simulator.machine rfl regular
  rw [← model] at ended
  change typing.Ends _ simulator.ending at ended
  generalize simulator.ending = last at ended
  cases ended with
  | left_open isOpen => exact isOpen.elim
  | halted _ regular => exact regular
  | done regular _ => exact regular

/-- At every statement boundary of a first run and after it every slot holds a value of its kind. -/
theorem slot_kinds (checked : program.check config.entry = .ok ()) {signal : AbortSignal}
    (fits : (signalled program config signal).ending.2.storage.Fits) :
    let simulator := signalled program config signal
    (∀ slot, simulator.ending.2.storage.HasSlot slot → slot.value.kind = slot.kind) ∧
      ∀ slot, simulator.run.2.storage.HasSlot slot → slot.value.kind = slot.kind := by
  intro simulator
  have regular : simulator.ending.2.storage.Regular := ending_regular checked rfl .empty
  refine ⟨fun _ => regular.kind_eq fits, ?_⟩
  rcases storage_run program config signal with same | same | same
  · exact same ▸ fun _ => regular.kind_eq fits
  · exact same ▸ fun _ => regular.sweep.kind_eq fits
  · exact same ▸ fun _ => Storage.Regular.empty.kind_eq (show stackStart ≤ heapStart by decide)

/-- A call that writes to the local that its result is assigned to. -/
def aliasCallee : FunctionDef :=
  (FunctionDef.new "bump" [⟨"p", .pointer⟩]
    [.store (.var "p") (.lit (.int 2)), .ret (some (.deref (.var "p")))]).withResult (some "r")
      .value

def aliasEntry : FunctionDef :=
  .new "main" [] [.declare (.new "n" .value (some (.lit (.int 1)))),
    .declare (.new "p" .pointer (some (.addrOf (.var "n")))),
    .assign "n" (.call "bump" [.var "p"])]

def aliasProgram : Program := ⟨[], [aliasEntry, aliasCallee]⟩

/-- The run stops within the call, after the store. The local leaks, so it is in the heap. -/
def aliasing : Simulator := signalled aliasProgram .default ⟨false, some 4⟩

theorem aliasProgram_checked : aliasProgram.check "main" = .ok () := by
  cbv

theorem aliasing_fits : aliasing.ending.2.storage.Fits := by
  have slots : aliasing.ending.2.storage.nextStackAddress = stackStart + 3 * slotSize := by cbv
  unfold Storage.Fits
  rw [slots]
  decide

theorem aliasing_hasSlot : aliasing.ending.2.storage.HasSlot
    ⟨"n", .value, .int 2, some (defaultSite "main" "n"), heapStart⟩ := by
  have stored : aliasing.ending.2.storage.heap.get? heapStart =
      some (.slot ⟨"n", .value, .int 2, some (defaultSite "main" "n"), heapStart⟩) := by cbv
  exact .inr ⟨heapStart, stored⟩

theorem slot_kinds_aliasing :
    aliasProgram.check "main" = .ok () ∧ aliasing.ending.2.storage.Fits ∧
      aliasing.ending.2.storage.HasSlot
        ⟨"n", .value, .int 2, some (defaultSite "main" "n"), heapStart⟩ ∧
      (Value.int 2).kind = .value :=
  ⟨aliasProgram_checked, aliasing_fits, aliasing_hasSlot,
    (slot_kinds aliasProgram_checked aliasing_fits).1 _ aliasing_hasSlot⟩

end Simulator

end ReferenceSemantics
