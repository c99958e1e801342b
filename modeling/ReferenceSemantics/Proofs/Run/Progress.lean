import ReferenceSemantics.Proofs.Run.Step
import ReferenceSemantics.Proofs.Storage.Allocation

set_option autoImplicit false

/-!
The interpreter moves the machine by elementary steps.

The only assumption is about the evaluator's calls, and it holds of every depth of nesting.
-/

namespace ReferenceSemantics

open Run

/-- The calls of an evaluator move the machine by elementary steps. -/
class Evaluator.Stepwise (evaluator : Evaluator) : Prop where
  invoke : ∀ function args callSite, Run.Stepwise (evaluator.invoke function args callSite)

attribute [instance] Evaluator.Stepwise.invoke

instance (location : Location) (kind : Kind) (expr : Expr) (evaluated : Run Value)
    [Stepwise evaluated] : Stepwise (flowInto location kind expr evaluated) := by
  unfold flowInto
  split <;> infer_instance

instance (location : Location) (value : Value) : Stepwise (followPointer location value) := by
  unfold followPointer
  infer_instance

instance (location : Location) (name : String) (value : Value) :
    Stepwise (selectField location name value) := by
  unfold selectField
  split
  · split <;> infer_instance
  · infer_instance

instance (location : Location) (base : SlotRef) (found : Value) :
    Stepwise (fieldHolder location base found) := by
  unfold fieldHolder
  split <;> infer_instance

instance (location : Location) (holder : SlotRef) (name : String) (found : Value) :
    Stepwise (fieldOf location holder name found) := by
  unfold fieldOf
  split <;> infer_instance

instance (location : Location) (base : SlotRef) (name : String) :
    Stepwise (fieldRef location base name) := by
  unfold fieldRef
  infer_instance

instance (location : Location) (callee : String) (result : Option Value) :
    Stepwise (expectResult location callee result) := by
  unfold expectResult
  split <;> infer_instance

instance (found : Option Value) (otherwise : Run Value) (next : Value → Run Value)
    [Stepwise otherwise] [∀ value, Stepwise (next value)] :
    Stepwise (found.elim otherwise next) := by
  cases found with
  | none => exact inferInstanceAs (Stepwise otherwise)
  | some value => exact inferInstanceAs (Stepwise (next value))

instance (location : Location) (value : Value) : Stepwise (asInt location value) := by
  unfold asInt
  split <;> infer_instance

instance (location : Location) (function : FunctionDef) (count : Nat) :
    Stepwise (checkArgumentCount location function count) := by
  unfold checkArgumentCount
  infer_instance

instance (model : Model) (name : String) (location : Location) :
    Stepwise (model.function name location) := by
  unfold Model.function
  split <;> infer_instance

instance (model : Model) (name : String) (kind : Kind) (site : SiteId) (value : Value) :
    Stepwise (model.bind name kind site value) := by
  unfold Model.bind
  infer_instance

instance (evaluator : Evaluator) (site : SiteId) (value : Value) :
    Stepwise (evaluator.allocateNew site value) := by
  unfold Evaluator.allocateNew
  infer_instance

instance (cells : List Value) (capacity : Option Nat) :
    Stepwise (Evaluator.allocateSlice cells capacity) := by
  unfold Evaluator.allocateSlice
  infer_instance

namespace Evaluator

variable (evaluator : Evaluator) [evaluator.Stepwise] (location : Location)

-- Some members of the block need the calls only through other members, which the linter misses.
set_option linter.unusedSectionVars false

mutual

theorem placeRef_stepwise : ∀ place : Place, Run.Stepwise (evaluator.placeRef location place)
  | .var name => by
      rw [placeRef]
      infer_instance
  | .field base name => by
      have := placeRef_stepwise base
      rw [placeRef]
      infer_instance
  | .deref pointer => by
      have := evaluate_stepwise pointer
      rw [placeRef]
      infer_instance

theorem evaluate_stepwise : ∀ expr : Expr, Run.Stepwise (evaluator.evaluate location expr)
  | .lit _ | .nil | .var _ => by
      rw [evaluate]
      infer_instance
  | .field base _ | .len base | .cap base | .reslice base _ _ | .boxed _ base | .isNil base => by
      have := evaluate_stepwise base
      rw [evaluate]
      infer_instance
  | .deref pointer => by
      have := evaluate_stepwise pointer
      rw [evaluate]
      infer_instance
  | .addrOf place => by
      have := placeRef_stepwise place
      rw [evaluate]
      infer_instance
  | .new init _ => by
      have := evaluate_stepwise init
      rw [evaluate]
      infer_instance
  | .composite _ fields => by
      have := evaluateFields_stepwise fields
      rw [evaluate]
      infer_instance
  | .sliceLit elems _ => by
      have := evaluateAll_stepwise elems
      rw [evaluate]
      infer_instance
  | .makeSlice _ _ zero => by
      have := evaluate_stepwise zero
      rw [evaluate]
      infer_instance
  | .mapLit entries => by
      have := evaluateEntries_stepwise entries
      rw [evaluate]
      infer_instance
  | .index base index => by
      have := evaluate_stepwise base
      have := evaluate_stepwise index
      rw [evaluate]
      infer_instance
  | .lookup base key default => by
      have := evaluate_stepwise base
      have := evaluate_stepwise key
      have := evaluate_stepwise default
      rw [evaluate]
      infer_instance
  | .call callee args => by
      have (params : List Param) := evaluateArgs_stepwise params args
      rw [evaluate]
      infer_instance

theorem evaluateAll_stepwise :
    ∀ exprs : List Expr, Run.Stepwise (evaluator.evaluateAll location exprs)
  | [] => by
      rw [evaluateAll]
      infer_instance
  | expr :: exprs => by
      have := evaluate_stepwise expr
      have := evaluateAll_stepwise exprs
      rw [evaluateAll]
      infer_instance

theorem evaluateFields_stepwise :
    ∀ fields : List (String × Expr), Run.Stepwise (evaluator.evaluateFields location fields)
  | [] => by
      rw [evaluateFields]
      infer_instance
  | (_, expr) :: fields => by
      have := evaluate_stepwise expr
      have := evaluateFields_stepwise fields
      rw [evaluateFields]
      infer_instance

theorem evaluateEntries_stepwise :
    ∀ entries : List (Expr × Expr), Run.Stepwise (evaluator.evaluateEntries location entries)
  | [] => by
      rw [evaluateEntries]
      infer_instance
  | (key, value) :: entries => by
      have := evaluate_stepwise key
      have := evaluate_stepwise value
      have := evaluateEntries_stepwise entries
      rw [evaluateEntries]
      infer_instance

theorem evaluateArgs_stepwise :
    ∀ (params : List Param) (args : List Expr),
      Run.Stepwise (evaluator.evaluateArgs location params args)
  | param :: params, arg :: args => by
      have := evaluate_stepwise arg
      have := evaluateArgs_stepwise params args
      rw [evaluateArgs]
      infer_instance
  | [], _ | _ :: _, [] => by
      simp only [evaluateArgs]
      infer_instance

end

attribute [instance] placeRef_stepwise evaluate_stepwise evaluateAll_stepwise
  evaluateFields_stepwise evaluateEntries_stepwise evaluateArgs_stepwise

instance (kind : Kind) (expr : Expr) :
    Run.Stepwise (evaluator.evaluateFor location kind expr) := by
  unfold evaluateFor
  infer_instance

instance (decl : VarDecl) : Run.Stepwise (evaluator.evaluateDecl location decl) := by
  unfold evaluateDecl
  dsimp only
  split <;> infer_instance

instance (callee : String) (args : List Expr) :
    Run.Stepwise (evaluator.call location callee args) := by
  unfold call
  infer_instance

instance (kind : Option Kind) (expr : Expr) :
    Run.Stepwise (evaluator.evaluateElement location kind expr) := by
  unfold evaluateElement
  split <;> infer_instance

instance evaluateElements_stepwise (kind : Option Kind) :
    ∀ exprs : List Expr, Run.Stepwise (evaluator.evaluateElements location kind exprs)
  | [] => by
      rw [evaluateElements]
      infer_instance
  | expr :: exprs => by
      have := evaluateElements_stepwise kind exprs
      rw [evaluateElements]
      infer_instance

instance (ref : SlotRef) (kind : Kind) (value : Expr) :
    Run.Stepwise (evaluator.overwrite location ref kind value) := by
  unfold overwrite
  infer_instance

instance (target : Place) (values : List Expr) :
    Run.Stepwise (evaluator.appendOperands location target values) := by
  unfold appendOperands
  infer_instance

instance (target : Place) (values : List Expr) :
    Run.Stepwise (evaluator.append location target values) := by
  unfold append
  infer_instance

instance (function : FunctionDef) (value : Value) :
    Run.Stepwise (function.deliver location value) := by
  unfold FunctionDef.deliver
  split <;> infer_instance

instance (function : FunctionDef) (value : Expr) :
    Run.Stepwise (evaluator.returnValue function location value) := by
  unfold returnValue
  infer_instance

instance (function : FunctionDef) (stmt : Stmt) :
    Run.Stepwise (evaluator.execute function location stmt) := by
  cases stmt with
  | ret value =>
      cases value <;>
      · rw [execute]
        infer_instance
  | _ =>
      rw [execute]
      infer_instance

instance (flow : Flow) (rest : Run (Option Value)) [Run.Stepwise rest] :
    Run.Stepwise (flow.resume rest) := by
  unfold Flow.resume
  split <;> infer_instance

instance executeFrom_stepwise (function : FunctionDef) :
    ∀ (index : Nat) (stmts : List Stmt),
      Run.Stepwise (evaluator.executeFrom function index stmts)
  | _, [] => by
      rw [executeFrom]
      infer_instance
  | index, stmt :: stmts => by
      have := executeFrom_stepwise function (index + 1) stmts
      rw [executeFrom]
      infer_instance

instance (function : FunctionDef) : Run.Stepwise (evaluator.executeBody function) := by
  unfold executeBody
  infer_instance

end Evaluator

instance Model.bindParams_stepwise (model : Model) (function : String) (location : Location) :
    ∀ (params : List Param) (args : List Value),
      Stepwise (model.bindParams function location params args)
  | param :: params, arg :: args => by
      have := bindParams_stepwise model function location params args
      rw [bindParams]
      infer_instance
  | [], _ | _ :: _, [] => by
      simp only [bindParams]
      infer_instance

instance (model : Model) (function : FunctionDef) : Stepwise (model.bindResult function) := by
  unfold Model.bindResult
  split <;> infer_instance

instance (model : Model) (function : FunctionDef) (args : List Value) (location : Location) :
    Stepwise (model.bindSlots function args location) := by
  unfold Model.bindSlots
  infer_instance

instance (model : Model) (function : FunctionDef) (args : List Value)
    (callSite : Option Location) : Stepwise (model.enter function args callSite) := by
  unfold Model.enter
  infer_instance

instance (function : FunctionDef) (returned : Option Value) :
    Stepwise (function.copyOut returned) := by
  unfold FunctionDef.copyOut
  split <;> infer_instance

instance (function : FunctionDef) (returned : Option Value) :
    Stepwise (function.leave returned) := by
  unfold FunctionDef.leave
  infer_instance

namespace Evaluator

variable (evaluator : Evaluator) [evaluator.Stepwise]

instance (function : FunctionDef) (args : List Value) (callSite : Location) :
    Run.Stepwise (evaluator.perform function args callSite) := by
  unfold perform
  infer_instance

instance (location : Location) (decl : VarDecl) :
    Run.Stepwise (evaluator.declareGlobal location decl) := by
  unfold declareGlobal
  infer_instance

instance declareGlobals_stepwise :
    ∀ (index : Nat) (decls : List VarDecl),
      Run.Stepwise (evaluator.declareGlobals index decls)
  | _, [] => by
      rw [declareGlobals]
      infer_instance
  | index, decl :: decls => by
      have := declareGlobals_stepwise (index + 1) decls
      rw [declareGlobals]
      infer_instance

instance (entry : FunctionDef) : Run.Stepwise (evaluator.runEntry entry) := by
  unfold runEntry
  infer_instance

instance : Run.Stepwise evaluator.run := by
  unfold Evaluator.run
  infer_instance

end Evaluator

namespace Model

instance invoke_stepwise (model : Model) :
    ∀ (depth : Nat), Evaluator.Stepwise ⟨model, model.invoke depth⟩
  | 0 => ⟨fun _ _ _ => inferInstanceAs (Run.Stepwise (throw _))⟩
  | depth + 1 => ⟨fun function args callSite => by
      have := invoke_stepwise model depth
      exact inferInstanceAs (Run.Stepwise (Evaluator.perform ⟨model, model.invoke depth⟩ _ _ _))⟩

instance (model : Model) : model.evaluator.Stepwise := invoke_stepwise model model.maxCallDepth

end Model

/-- What every elementary step preserves, every run preserves. -/
theorem Run.Stepwise.preserves {α : Type} (run : Run α) [Stepwise run]
    (kept : Machine → Machine → Prop) (refl : ∀ machine, kept machine machine)
    (trans : ∀ first second third, kept first second → kept second third → kept first third)
    (step : ∀ machine after : Machine, machine.Step after → kept machine after)
    (machine : Machine) : kept machine (exec run machine).2 := by
  have steps := Run.steps run machine
  generalize (exec run machine).2 = after at steps
  induction steps with
  | refl => exact refl machine
  | tail _ last inductionHypothesis => exact trans _ _ _ inductionHypothesis (step _ _ last)

/-! ### No computation records a fault -/

theorem Trace.faults_record_regular (trace : Trace) {event : TraceEvent}
    (regular : event.faultKind? = none) : (trace.record event).faults = trace.faults := by
  unfold Trace.record
  split
  · simp [Trace.faults, regular]
  · rfl

theorem Run.Stepwise.faults_eq {α : Type} (run : Run α) [Stepwise run] (machine : Machine) :
    (exec run machine).2.trace.faults = machine.trace.faults := by
  refine preserves run (fun machine after => after.trace.faults = machine.trace.faults)
    (fun _ => rfl) (fun _ _ _ before after => after.trans before) ?_ machine
  intro machine after step
  cases step with
  | record event regular => exact machine.trace.faults_record_regular regular
  | storage | tick | capture => rfl

/-! ### The stack only grows -/

theorem Storage.nextStackAddress_setSlot (storage : Storage) (address : Address) (new : Slot) :
    (storage.setSlot address new).nextStackAddress = storage.nextStackAddress := by
  rcases storage.owned_or_absent address with ⟨old, ⟨owned⟩⟩ | ⟨-, -, replaced⟩
  · exact (owned.replaced new).2.2
  · rw [replaced]

theorem Storage.nextStackAddress_allocate (storage : Storage) (name : String) (kind : Kind)
    (site : Option SiteId) (placement : Placement) (value : Value) :
    storage.nextStackAddress ≤
      (storage.allocate name kind site placement value).2.nextStackAddress := by
  cases placement with
  | stack => exact Nat.le_add_right _ _
  | heap => exact Nat.le_refl _

theorem Storage.Step.nextStackAddress_le {storage changed : Storage}
    (step : storage.Step changed) :
    storage.nextStackAddress ≤ changed.nextStackAddress := by
  cases step with
  | setSlot address slot value read => exact Nat.le_of_eq (nextStackAddress_setSlot _ _ _).symm
  | allocate name kind site placement value => exact nextStackAddress_allocate _ _ _ _ _ _
  | declare name kind site placement value =>
      have allocated := nextStackAddress_allocate storage name kind site placement value
      exact Nat.le_trans allocated (Nat.le_of_eq (nextStackAddress_modifyCurrent _ _).symm)
  | popFrame => exact Nat.le_of_eq (heap_popFrame storage).2.1.symm
  | setBlock | setTable | addBlock | addTable | pushFrame | sweep => exact Nat.le_refl _

theorem Run.Stepwise.nextStackAddress_le {α : Type} (run : Run α) [Stepwise run]
    (machine : Machine) :
    machine.storage.nextStackAddress ≤ (exec run machine).2.storage.nextStackAddress := by
  refine preserves run (fun machine after =>
    machine.storage.nextStackAddress ≤ after.storage.nextStackAddress)
    (fun _ => Nat.le_refl _) (fun _ _ _ => Nat.le_trans) ?_ machine
  intro machine after step
  cases step with
  | storage changed step => exact step.nextStackAddress_le
  | record | tick | capture => exact Nat.le_refl _

theorem Run.Stepwise.fits {α : Type} (run : Run α) [Stepwise run] {machine : Machine}
    (fits : (exec run machine).2.storage.Fits) : machine.storage.Fits :=
  Nat.le_trans (nextStackAddress_le run machine) fits

end ReferenceSemantics
