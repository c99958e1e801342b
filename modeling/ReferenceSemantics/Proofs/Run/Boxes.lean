import ReferenceSemantics.Proofs.Run.Lasting
import ReferenceSemantics.Proofs.Storage.Boxed
import ReferenceSemantics.Proofs.Value.Boxes

set_option autoImplicit false

/-!
Containers of boxes stay containers of boxes.

A statement that writes into a container settles for a kind before it evaluates the value, and does
not look at the kind of what it writes. While it evaluates, calls may write into the same container.
So a container of boxes can get something else only from a statement that had settled for another
kind, before the container was one of boxes, and was still evaluating then.
-/

namespace ReferenceSemantics

open Run

/-- Masks the stops while a value that is not to be boxed is evaluated for the container at the
address. If it pauses, the run can be stopped after every statement, too. -/
def Guard.unboxing (address : Address) (pauses : Bool) : Guard where
  around header kind evaluated :=
    if header.behind? = some address ∧ kind ≠ some .interfaceBox then evaluated.masked
    else evaluated
  after location := if pauses then pause location else pure ()

theorem Run.masked_masked {α : Type} (run : Run α) : run.masked.masked = run.masked := by
  have same (machine : Machine) : exec run.masked.masked machine = exec run.masked machine := by
    rw [exec_masked, exec_masked]
    cases (exec run machine).1 with
    | ok value => rfl
    | error halt => cases halt <;> rfl
  exact funext same

namespace Guard

variable (address : Address) (pauses : Bool)

/-- Where it pauses, it makes no difference as long as no signal is given. -/
theorem unboxing_discreet :
    (unboxing address pauses).Discreet fun signal => pauses = true → signal = .idle where
  steady signal allowed paused := by rw [allowed paused]; rfl
  around header kind {evaluated} agrees := by
    unfold unboxing
    dsimp only
    split
    · intro machine allowed
      rw [Run.masked_masked]
      exact ⟨rfl, (agrees machine allowed).2⟩
    · exact agrees
  after location := by
    unfold unboxing
    dsimp only
    split
    next paused =>
      rintro ⟨storage, trace, signal, finals⟩ allowed
      obtain rfl : signal = .idle := allowed paused
      have passes : exec (pause location) ⟨storage, trace, .idle, finals⟩ =
          (.ok (), ⟨storage, trace, .idle, finals⟩) := exec_pause _ _
      exact ⟨by rw [exec_masked, passes]; rfl, by rwa [passes]⟩
    next => exact .pure ()

variable {pauses} {holds : Heap → Prop}

theorem around_unboxing_lasts (header : Value) (kind : Option Kind) {evaluated : Run Value}
    (lasts : Lasts holds evaluated) :
    Lasts holds ((unboxing address pauses).around header kind evaluated) := by
  unfold unboxing
  dsimp only
  split
  · exact lasts.masked
  · exact lasts

theorem after_unboxing_lasts (location : Location) :
    Lasts holds ((unboxing address pauses).after location) := by
  unfold unboxing
  dsimp only
  split
  · exact .pause location
  · exact .pure ()

end Guard

/-! ### What is evaluated for boxes -/

theorem Value.kind_inBox (value : Value) : value.inBox.kind = .interfaceBox := by
  cases value <;> rfl

/-- What is made of an expression where a box is expected is a box. A concrete value is in it, and
then it is not empty, not even with an empty pointer. -/
structure Evaluator.Boxes (evaluator : Evaluator) (location : Location) (expr : Expr)
    (machine : Machine) (box : Value) (last : Machine) : Prop where
  kind : box.kind = .interfaceBox
  content : expr ≠ .nil → ∃ value,
    exec (evaluator.evaluate location expr) machine = (.ok value, last) ∧ box = value.inBox ∧
      (value.shape ≠ .interfaceBox → box.isEmpty = false)

/-- Boxes that are made one after the other. -/
inductive Evaluator.BoxesAll (evaluator : Evaluator) (location : Location) :
    List Expr → Machine → List Value → Machine → Prop where
  | nil (machine : Machine) : BoxesAll evaluator location [] machine [] machine
  | cons {expr : Expr} {exprs : List Expr} {box : Value} {boxes : List Value}
      {machine middle last : Machine} (first : evaluator.Boxes location expr machine box middle)
      (rest : BoxesAll evaluator location exprs middle boxes last) :
      BoxesAll evaluator location (expr :: exprs) machine (box :: boxes) last

namespace Evaluator

variable {evaluator : Evaluator} {location : Location} {machine last : Machine}

theorem evaluateFor_boxes {expr : Expr} {box : Value}
    (ran : exec (evaluator.evaluateFor location .interfaceBox expr) machine = (.ok box, last)) :
    evaluator.Boxes location expr machine box last := by
  unfold evaluateFor flowInto at ran
  split at ran
  next =>
    cases ran
    exact ⟨rfl, fun other => absurd rfl other⟩
  next =>
    obtain ⟨value, middle, evaluated, made⟩ := ok_of_bind ran
    cases made
    exact ⟨value.kind_inBox, fun _ => ⟨value, evaluated, rfl, Value.isEmpty_inBox⟩⟩

theorem evaluateElements_boxes {exprs : List Expr} {boxes : List Value}
    (ran : exec (evaluator.evaluateElements location (some .interfaceBox) exprs) machine =
      (.ok boxes, last)) : evaluator.BoxesAll location exprs machine boxes last := by
  induction exprs generalizing machine boxes with
  | nil =>
      cases ran
      exact .nil _
  | cons expr exprs inductionHypothesis =>
      rw [evaluateElements] at ran
      obtain ⟨box, middle, first, ran⟩ := ok_of_bind ran
      obtain ⟨boxes, after, rest, made⟩ := ok_of_bind ran
      cases made
      exact .cons (evaluateFor_boxes first) (inductionHypothesis rest)

theorem BoxesAll.kind {exprs : List Expr} {boxes : List Value}
    (made : evaluator.BoxesAll location exprs machine boxes last) :
    ∀ box ∈ boxes, box.kind = .interfaceBox := by
  induction made with
  | nil => exact List.forall_mem_nil _
  | cons first rest inductionHypothesis =>
      exact List.forall_mem_cons.mpr ⟨first.kind, inductionHypothesis⟩

end Evaluator

/-! ### What fills spare cells -/

theorem Model.preserves_filledAt (model : Model) {guard : Guard} (address : Address) (fill : Value)
    (around : ∀ header kind evaluated, Lasts (Heap.FilledAt address fill) evaluated →
      Lasts (Heap.FilledAt address fill) (guard.around header kind evaluated))
    (after : ∀ location, Lasts (Heap.FilledAt address fill) (guard.after location)) :
    model.Preserves guard (Heap.FilledAt address fill) := by
  apply Model.Preserves.of_set around after
  · exact fun object filled => filled.push object
  · exact fun _ found same filled => filled.set found same

theorem Heap.lasting_boxedAt (address : Address) : Lasting (Heap.BoxedAt address) where
  push object boxed := boxed.push object
  setSlot _ found boxed := boxed.set found fun _ => by rintro ⟨⟩

section

variable {location : Location} {machine last : Machine}

theorem Run.ok_of_read {α : Type} {look : Storage → Except StorageError α} {value : α}
    (ran : exec (read location look) machine = (.ok value, last)) :
    look machine.storage = .ok value ∧ last = machine := by
  rw [exec_read] at ran
  generalize look machine.storage = found at ran
  cases found with
  | error error => cases ran
  | ok found =>
      cases ran
      exact ⟨rfl, rfl⟩

theorem Run.ok_of_write {change : Storage → Except StorageError Storage}
    (ran : exec (write location change) machine = (.ok (), last)) :
    change machine.storage = .ok last.storage := by
  obtain ⟨changed, middle, read, set⟩ := ok_of_bind ran
  obtain ⟨made, rfl⟩ := ok_of_read read
  cases set
  exact made

end

namespace Evaluator

variable {model : Model} {invoke : Invocation} {location : Location} {address : Address}

/-- Only boxes are appended to a block that is one of boxes in the end. -/
theorem appendOperands_boxes
    (filled : ∀ fill, invoke.Lasts (Heap.FilledAt address fill)) {target : Place}
    {exprs : List Expr} {machine last : Machine} {operands : AppendOperands}
    (ran : exec (Evaluator.appendOperands ⟨model, invoke⟩ location target exprs) machine =
      (.ok operands, last))
    (behind : operands.header.behind? = some address)
    (boxed : last.storage.heap.BoxedAt address) :
    (∃ middle,
      Evaluator.BoxesAll ⟨model, invoke⟩ location exprs middle operands.values last) ∧
      ∃ block, last.storage.block address = .ok block ∧ block.Boxed := by
  unfold Evaluator.appendOperands at ran
  obtain ⟨ref, _, -, ran⟩ := ok_of_bind ran
  obtain ⟨header, _, -, ran⟩ := ok_of_bind ran
  obtain ⟨kind, middle, settled, ran⟩ := ok_of_bind ran
  obtain ⟨values, _, evaluated, made⟩ := ok_of_bind ran
  cases made
  obtain ⟨read, rfl⟩ := ok_of_read settled
  obtain ⟨block, opened, rfl⟩ := Storage.elementKind_eq_some behind read
  -- what fills the block is still what it was when its kind was read
  have preserves : model.Preserves .idle (Heap.FilledAt address block.zero) :=
    model.preserves_filledAt address block.zero (fun _ _ _ => id) fun _ => .pure ()
  have evaluates : Evaluates invoke location True (Evaluator.evaluateElements ⟨model, invoke⟩
      location (some block.zero.kind) exprs) :=
    evaluateElements_evaluates model _ exprs (permits_all _)
  have before : Heap.FilledAt address block.zero middle.storage.heap := by
    rw [Heap.FilledAt, Storage.block_eq_ok_iff.mp opened]
    rfl
  have after : Heap.FilledAt address block.zero last.storage.heap :=
    (Lasts.evaluates preserves.lasting evaluates (filled _)).keeps.of_exec before evaluated
  obtain ⟨container, there, boxes⟩ := boxed
  rw [Heap.FilledAt, there] at after
  cases boxes with
  | table => cases after
  | block boxed =>
      have same : _ = block.zero := Option.some.inj after
      rw [← same, boxed.fill] at evaluated
      exact ⟨⟨middle, evaluateElements_boxes evaluated⟩, _, Storage.block_eq_ok_iff.mpr there,
        boxed⟩

section

variable {pauses : Bool} (called : invoke.Lasts (Heap.BoxedAt address))

include called

theorem writeElement_lasts (header : Value) (index : Int) (value : Expr) :
    Lasts (Heap.BoxedAt address)
      (Evaluator.writeElement ⟨model, invoke⟩ (.unboxing address pauses) location header index
        value) := by
  intro before
  unfold writeElement
  refine (Lasts.read _ before).bind_of_exec fun machine old reached started settled => ?_
  obtain ⟨read, rfl⟩ := ok_of_read settled
  have evaluated : Lasts (Heap.BoxedAt address)
      (Evaluator.evaluateFor ⟨model, invoke⟩ location old.kind value) :=
    evaluateFor_lasts (Heap.lasting_boxedAt address) called old.kind value
  unfold Guard.unboxing
  dsimp only
  split
  next unboxed =>
    -- the element is no box, so the property is not there to be lost
    refine .masked_bind evaluated (fun boxed => ?_) fun _ => .quiet _
    exact unboxed.2 (congrArg some (Storage.kind_element boxed unboxed.1 read))
  next boxing =>
    refine (evaluated _).bind_of_exec fun _ box middle _ ran => ?_
    refine Lasts.quiet (.write fun storage changed stored => ?_) _
    refine Storage.boxedAt_setElement stored fun behind => ?_
    have settled : old.kind = .interfaceBox :=
      Option.some.inj (not_not.mp (not_and.mp boxing behind))
    rw [settled] at ran
    exact (evaluateFor_boxes ran).kind

theorem writeEntry_lasts (header key : Value) (value : Expr) :
    Lasts (Heap.BoxedAt address)
      (Evaluator.writeEntry ⟨model, invoke⟩ (.unboxing address pauses) location header key
        value) := by
  intro before
  unfold writeEntry
  refine (Lasts.read _ before).bind_of_exec fun machine kind reached started settled => ?_
  obtain ⟨read, rfl⟩ := ok_of_read settled
  have evaluated : Lasts (Heap.BoxedAt address)
      (Evaluator.evaluateElement ⟨model, invoke⟩ location kind value) :=
    evaluateElement_lasts (Heap.lasting_boxedAt address) called kind value
  unfold Guard.unboxing
  dsimp only
  split
  next unboxed =>
    refine .masked_bind evaluated (fun boxed => ?_) fun _ => .quiet _
    exact unboxed.2 (Storage.tableValueKind_eq_some boxed unboxed.1 read)
  next boxing =>
    refine (evaluated _).bind_of_exec fun _ box middle _ ran => ?_
    refine Lasts.quiet (.write fun storage changed stored => ?_) _
    refine Storage.boxedAt_tableInsert stored fun behind => ?_
    have settled : kind = some .interfaceBox := not_not.mp (not_and.mp boxing behind)
    rw [settled] at ran
    exact (evaluateFor_boxes ran).kind

theorem append_lasts (filled : ∀ fill, invoke.Lasts (Heap.FilledAt address fill)) (target : Place)
    (values : List Expr) :
    Lasts (Heap.BoxedAt address)
      (Evaluator.append ⟨model, invoke⟩ location target values) := by
  intro before
  have operands : Lasts (Heap.BoxedAt address)
      (Evaluator.appendOperands ⟨model, invoke⟩ location target values) :=
    .evaluates (Heap.lasting_boxedAt address)
      (appendOperands_evaluates model (permits_all _)) called
  unfold Evaluator.append
  refine (operands before).bind_of_exec fun machine operands reached _ ran => ?_
  obtain ⟨ref, header, values⟩ := operands
  have grows : LastsFrom (Heap.BoxedAt address) reached.storage
      (update location (·.append header values)) := by
    refine .straight (.quiet _) fun machine started boxed => ?_
    have box (behind : header.behind? = some address) :
        ∀ value ∈ values, value.kind = .interfaceBox := by
      obtain ⟨⟨_, made⟩, -⟩ := appendOperands_boxes filled ran behind (started ▸ boxed)
      exact made.kind
    exact Keeps.update (fun _ _ _ appended => Storage.boxedAt_append appended box) machine boxed
  refine grows.bind_of_exec fun _ grown changed _ _ => ?_
  exact ((Lasts.quiet (.silent (silent_recordMove _ _))).bind fun _ =>
    .store (Heap.lasting_boxedAt address) ref grown) _

end

end Evaluator

/-- A container of boxes stays one. -/
theorem Model.preserves_boxedAt (model : Model) (address : Address) (pauses : Bool) :
    model.Preserves (.unboxing address pauses) (Heap.BoxedAt address) := by
  have lasting := Heap.lasting_boxedAt address
  refine ⟨lasting, Guard.after_unboxing_lasts address,
    fun depth called function location stmt element => ?_⟩
  cases stmt with
  | setIndex target index value =>
      refine (Evaluator.placeRef_lasts lasting called target).bind fun ref => ?_
      refine (Lasts.read (·.load ref)).bind fun header => ?_
      refine (Evaluator.evaluate_lasts lasting called index).bind fun found => ?_
      refine (Evaluator.asInt_lasts lasting called found).bind fun index => ?_
      exact (Evaluator.writeElement_lasts called header index value).bind fun _ => .pure _
  | setKey target key value =>
      refine (Evaluator.placeRef_lasts lasting called target).bind fun ref => ?_
      refine (Lasts.read (·.load ref)).bind fun header => ?_
      refine (Evaluator.evaluate_lasts lasting called key).bind fun key => ?_
      exact (Evaluator.writeEntry_lasts called header key value).bind fun _ => .pure _
  | append target values =>
      have filled (fill : Value) : Invocation.Lasts (Heap.FilledAt address fill)
          (model.invokeGuarded (.unboxing address pauses) depth) :=
        (model.preserves_filledAt address fill
          (fun header kind _ => Guard.around_unboxing_lasts address header kind)
          (Guard.after_unboxing_lasts address)).invoke_lasts depth
      rw [Evaluator.executeGuarded_append]
      exact (Evaluator.append_lasts called filled target values).bind fun _ => .pure _
  | _ => cases element

/-! ### What is written and read back -/

namespace Evaluator

/-- Where an element or an entry is written: the header, and what is made of the index or key. -/
def locate {α : Type} (evaluator : Evaluator) (location : Location) (target : Place) (inside : Expr)
    (made : Value → Run α) : Run (Value × α) := do
  let header ← load location (← evaluator.placeRef location target)
  let place ← made (← evaluator.evaluate location inside)
  return (header, place)

/-- How a container of boxes at the address is treated. -/
structure RespectsBoxes (evaluator : Evaluator) (address : Address) : Prop where
  evaluations : ∀ {α : Type} {location : Location} {run : Run α},
    Evaluates evaluator.invoke location True run → Keeps (Heap.BoxedAt address) run
  statements : ∀ (function : FunctionDef) (location : Location) (stmt : Stmt),
    Keeps (Heap.BoxedAt address) (evaluator.execute function location stmt)
  /-- Boxes are appended to a block of boxes. What grows from it has only boxes and is filled with
  them, and shows the new ones at its end. -/
  appended : ∀ {location target exprs machine operands last},
    exec (evaluator.appendOperands location target exprs) machine = (.ok operands, last) →
      operands.header.behind? = some address → last.storage.heap.BoxedAt address →
        (∃ middle, evaluator.BoxesAll location exprs middle operands.values last) ∧
          (∀ grown changed,
            last.storage.append operands.header operands.values = .ok (grown, changed) →
              ∃ other block, grown.behind? = some other ∧ changed.block other = .ok block ∧
                block.Boxed) ∧
          ∀ len cap offset, operands.header = .referenceHeader len cap offset (some address) →
            last.storage.ValidHeader len cap offset (some address) →
              ∃ grown changed seen,
                last.storage.append operands.header operands.values = .ok (grown, changed) ∧
                  seen.length = len ∧ changed.Shows grown (seen ++ operands.values)
  /-- The element that is read after it was written is the box that was made. -/
  element : ∀ {function location target index value machine flow last},
    exec (evaluator.execute function location (.setIndex target index value)) machine =
        (.ok flow, last) →
      ∃ header place settled,
        exec (evaluator.locate location target index (asInt location)) machine =
            (.ok (header, place), settled) ∧
          (header.behind? = some address → settled.storage.heap.BoxedAt address →
            ∃ box middle, evaluator.Boxes location value settled box middle ∧
              last.storage.element header place = .ok box)
  /-- The entry that is read after it was written has the box that was made. A key that is not a
  number is equal to none, not even to itself. -/
  entry : ∀ {function location target inside value machine flow last},
    exec (evaluator.execute function location (.setKey target inside value)) machine =
        (.ok flow, last) →
      ∃ header key settled,
        exec (evaluator.locate location target inside pure) machine =
            (.ok (header, key), settled) ∧
          (header.behind? = some address → settled.storage.heap.BoxedAt address →
            ∃ box middle, evaluator.Boxes location value settled box middle ∧
              middle.storage.tableInsert header key box = .ok last.storage ∧
              (key.hasNaN = false → last.storage.tableGet header key = .ok (some box)))

section

variable {evaluator : Evaluator} {function : FunctionDef} {location : Location} {address : Address}
  {machine last : Machine} {flow : Flow}

theorem writeElement_boxes {header : Value} {index : Int} {value : Expr}
    (ran : exec (evaluator.writeElement .idle location header index value) machine = (.ok (), last))
    (behind : header.behind? = some address) (boxed : machine.storage.heap.BoxedAt address) :
    ∃ box middle, evaluator.Boxes location value machine box middle ∧
      last.storage.element header index = .ok box := by
  unfold writeElement Guard.idle at ran
  obtain ⟨old, _, settled, rest⟩ := ok_of_bind ran
  obtain ⟨read, rfl⟩ := ok_of_read settled
  obtain ⟨box, middle, evaluated, written⟩ := ok_of_bind rest
  rw [Storage.kind_element boxed behind read] at evaluated
  exact ⟨box, middle, evaluateFor_boxes evaluated,
    Storage.element_of_setElement (ok_of_write written)⟩

theorem writeEntry_boxes {header key : Value} {value : Expr}
    (ran : exec (evaluator.writeEntry .idle location header key value) machine = (.ok (), last))
    (behind : header.behind? = some address) (boxed : machine.storage.heap.BoxedAt address) :
    ∃ box middle, evaluator.Boxes location value machine box middle ∧
      middle.storage.tableInsert header key box = .ok last.storage ∧
      (key.hasNaN = false → last.storage.tableGet header key = .ok (some box)) := by
  unfold writeEntry Guard.idle at ran
  obtain ⟨kind, _, settled, rest⟩ := ok_of_bind ran
  obtain ⟨read, rfl⟩ := ok_of_read settled
  obtain ⟨box, middle, evaluated, written⟩ := ok_of_bind rest
  rw [Storage.tableValueKind_eq_some boxed behind read] at evaluated
  have inserted := ok_of_write written
  exact ⟨box, middle, evaluateFor_boxes evaluated, inserted,
    Storage.tableGet_of_tableInsert inserted⟩

theorem setIndex_eq (target : Place) (index value : Expr) :
    evaluator.execute function location (.setIndex target index value) = do
      let (header, place) ← evaluator.locate location target index (asInt location)
      evaluator.writeElement .idle location header place value
      return .next := by
  rw [← executeGuarded_idle, executeGuarded]
  simp only [locate, bind_assoc, pure_bind]

theorem setKey_eq (target : Place) (key value : Expr) :
    evaluator.execute function location (.setKey target key value) = do
      let (header, key) ← evaluator.locate location target key pure
      evaluator.writeEntry .idle location header key value
      return .next := by
  rw [← executeGuarded_idle, executeGuarded]
  simp only [locate, bind_assoc, pure_bind]

end

theorem respectsBoxes (model : Model) (depth : Nat) (address : Address) :
    RespectsBoxes ⟨model, model.invoke depth⟩ address := by
  have preserves := model.preserves_boxedAt address false
  have lasts := preserves.invoke_lasts depth
  have discreet := Guard.unboxing_discreet address false
  have calls := model.invokeGuarded_agrees discreet depth
  have allowed (signal : AbortSignal) : false = true → signal = .idle := Bool.noConfusion
  constructor
  case evaluations =>
    intro _ _ _ evaluates
    refine Keeps.evaluates preserves.lasting evaluates fun function args location => ?_
    exact .of_agrees (lasts function args location).keeps allowed (calls function args location)
  case statements =>
    intro function location stmt
    have guarded := executeGuarded_lasts preserves.lasting lasts function
      (preserves.elements depth lasts function location stmt)
    exact .of_agrees guarded.keeps allowed
      (executeGuarded_agrees discreet calls function location stmt)
  case appended =>
    intro location target exprs machine operands last ran behind boxed
    have filled (fill : Value) : Invocation.Lasts (Heap.FilledAt address fill)
        (model.invoke depth) :=
      (model.preserves_filledAt address fill (fun _ _ _ => id) fun _ =>
        .pure ()).invoke_of_idle depth
    obtain ⟨⟨middle, made⟩, block, opened, boxes⟩ := appendOperands_boxes filled ran behind boxed
    refine ⟨⟨middle, made⟩, fun grown changed => ?_, fun len cap offset same valid => ?_⟩
    · exact Storage.boxed_grown opened boxes behind made.kind
    · rw [same]
      exact Storage.shows_append valid operands.values
  case element =>
    intro function location target index value machine flow last ran
    rw [setIndex_eq] at ran
    obtain ⟨⟨header, place⟩, settled, located, ran⟩ := ok_of_bind ran
    obtain ⟨_, _, written, done⟩ := ok_of_bind ran
    cases done
    exact ⟨header, place, settled, located, writeElement_boxes written⟩
  case entry =>
    intro function location target inside value machine flow last ran
    rw [setKey_eq] at ran
    obtain ⟨⟨header, key⟩, settled, located, ran⟩ := ok_of_bind ran
    obtain ⟨_, _, written, done⟩ := ok_of_bind ran
    cases done
    exact ⟨header, key, settled, located, writeEntry_boxes written⟩

end Evaluator

/-- Containers of boxes stay containers of boxes. Under the guard a run leaves the machine that it
leaves without, and it ends in the same way unless the guard masks that it was stopped: then a value
that is not to be boxed was being evaluated for the container. Where a run was stopped otherwise,
before or after whatever statement, a container of boxes is one at every later stop and in the end.
A container that is one before a run, a sweep, a statement or an evaluation is one after it, and
what is appended to it, grown from it and read back from it are boxes. -/
theorem Model.boxes_stay (model : Model) (address : Address) :
    (∀ pauses machine, (pauses = true → machine.abort = .idle) →
      (exec (model.executeGuarded (.unboxing address pauses)) machine).2 =
          (exec model.execute machine).2 ∧
        (exec (model.executeGuarded (.unboxing address pauses)) machine).1.mapError Halt.masked =
          (exec model.execute machine).1.mapError Halt.masked) ∧
      (∀ pauses machine location stopped signal,
        exec (model.executeGuarded (.unboxing address pauses)) machine =
            (.error (.aborted location), stopped) →
          AbortSignal.Ahead machine.abort signal → stopped.storage.heap.BoxedAt address →
            (exec (model.executeGuarded (.unboxing address pauses))
              { machine with abort := signal }).2.storage.heap.BoxedAt address) ∧
      (∀ machine, machine.storage.heap.BoxedAt address →
        (exec model.execute machine).2.storage.heap.BoxedAt address ∧
          machine.storage.sweep.2.heap.BoxedAt address) ∧
      ∀ depth, Evaluator.RespectsBoxes ⟨model, model.invoke depth⟩ address := by
  have guarded (pauses : Bool) (machine : Machine)
      (allowed : pauses = true → machine.abort = .idle) :=
    model.exec_executeGuarded (Guard.unboxing_discreet address pauses) allowed
  have lasts (pauses : Bool) := (model.preserves_boxedAt address pauses).execute_lasts
    fun _ => Storage.boxedAt_sweep
  refine ⟨guarded, ?_, fun machine boxed => ⟨?_, Storage.boxedAt_sweep boxed⟩,
    fun depth => Evaluator.respectsBoxes model depth address⟩
  · intro pauses machine location stopped signal ran ahead boxed
    have later := (lasts pauses machine.storage).later machine signal rfl ahead
    rw [ran] at later
    generalize exec (model.executeGuarded (.unboxing address pauses)) _ = last at later
    cases later with
    | same => exact boxed
    | stopped kept => exact kept boxed
  · rw [← (guarded false machine Bool.noConfusion).1]
    exact (lasts false).keeps machine boxed

namespace Simulator

/-- The second element of a slice is written with what a call hands back that writes a box there. -/
def sharingProgram (second : Expr) : Program :=
  ⟨[], [.new "main" [] [
      .declare (.new "s" .referenceHeader
        (some (.sliceLit [.boxed (some "t") (.lit (.int 1)), second] none))),
      .setIndex (.var "s") (.lit (.int 1)) (.call "f" [.var "s"]),
      .declare (.new "c" .value
        (some (.composite "C" [("x", .index (.var "s") (.lit (.int 1)))])))],
    (FunctionDef.new "f" [⟨"h", .referenceHeader⟩] [
      .setIndex (.var "h") (.lit (.int 1)) (.boxed (some "t") (.lit (.int 2))),
      .ret (some (.lit (.int 7)))]).withResult none .value]⟩

/-- The second element is a box from the start. -/
def boxesProgram : Program := sharingProgram (.boxed (some "t") (.lit (.int 5)))

/-- The second element is an integer at first. -/
def mixedProgram : Program := sharingProgram (.lit (.int 5))

/-- The slice has two boxes. -/
theorem boxedAt_shared {storage : Storage} {second : Value}
    (read : storage.block heapStart =
      .ok ⟨[.interfaceBox (some "t") (.int 1), second], .zero .interfaceBox⟩)
    (boxed : second.kind = .interfaceBox) : storage.heap.BoxedAt heapStart := by
  have cells : Block.Boxed ⟨[.interfaceBox (some "t") (.int 1), second], .zero .interfaceBox⟩ :=
    ⟨rfl, List.forall_mem_cons.mpr ⟨rfl, List.forall_mem_singleton.mpr boxed⟩⟩
  exact ⟨_, Storage.block_eq_ok_iff.mp read, .block cells⟩

/-- The guarded run stops when the call has written its box, before it returns. -/
def pausedEnding : Except Halt Unit × Machine :=
  exec ((Model.new boxesProgram .default).executeGuarded (.unboxing heapStart true))
    (signalled boxesProgram .default ⟨false, some 4⟩).machine

theorem pausedEnding_block :
    pausedEnding.1 = .error (.aborted ⟨"f", 0⟩) ∧
      pausedEnding.2.storage.block heapStart =
        .ok ⟨[.interfaceBox (some "t") (.int 1), .interfaceBox (some "t") (.int 2)],
          .zero .interfaceBox⟩ :=
  ⟨by cbv, by cbv⟩

theorem boxesProgram_block :
    (signalled boxesProgram .default .idle).ending.2.storage.block heapStart =
      .ok ⟨[.interfaceBox (some "t") (.int 1), .interfaceBox (some "primitive") (.int 7)],
        .zero .interfaceBox⟩ := by
  cbv

theorem mixedProgram_block :
    (signalled mixedProgram .default ⟨false, some 3⟩).ending.2.storage.block heapStart =
        .ok ⟨[.interfaceBox (some "t") (.int 1), .interfaceBox (some "t") (.int 2)],
          .zero .interfaceBox⟩ ∧
      (signalled mixedProgram .default .idle).ending.2.storage.block heapStart =
        .ok ⟨[.interfaceBox (some "t") (.int 1), .int 7], .zero .interfaceBox⟩ :=
  ⟨by cbv, by cbv⟩

/-- With a box there before, the slice has only boxes when the call has written its box, and from
then on. -/
theorem boxes_stay_shared :
    boxesProgram.check "main" = .ok () ∧
      pausedEnding.1 = .error (.aborted ⟨"f", 0⟩) ∧
      pausedEnding.2.storage.heap.BoxedAt heapStart ∧
      (signalled boxesProgram .default .idle).ending.2.storage.heap.BoxedAt heapStart ∧
      (signalled boxesProgram .default .idle).ending.2.storage.element
        (.referenceHeader 2 2 0 (some heapStart)) 1 =
          .ok (.interfaceBox (some "primitive") (.int 7)) := by
  obtain ⟨stops, block⟩ := pausedEnding_block
  have boxed := boxedAt_shared block rfl
  have ahead : AbortSignal.Ahead ⟨false, some 4⟩ .idle :=
    ⟨4, rfl, fun _ limited => by cases limited⟩
  have stay := (Model.new boxesProgram .default).boxes_stay heapStart
  have kept := stay.2.1 true _ _ _ .idle (Prod.ext stops rfl) ahead boxed
  rw [(stay.1 true _ fun _ => rfl).1] at kept
  refine ⟨by cbv, stops, boxed, kept, ?_⟩
  exact Storage.element_eq_ok.mpr ⟨heapStart, 1, _, rfl, boxesProgram_block, rfl⟩

/-- With an integer there before, the slice has only boxes before the call returns, and not in the
end. -/
theorem boxes_replaced :
    mixedProgram.check "main" = .ok () ∧
      (signalled mixedProgram .default ⟨false, some 3⟩).ending.1 =
        .error (.aborted ⟨"f", 1⟩) ∧
      (signalled mixedProgram .default ⟨false, some 3⟩).ending.2.storage.heap.BoxedAt heapStart ∧
      ¬ (signalled mixedProgram .default .idle).ending.2.storage.heap.BoxedAt heapStart ∧
      (signalled mixedProgram .default .idle).run.1.toOption.bind (·.finalValues.get? "c") =
        some (.composite "C" [("x", .int 7)]) := by
  obtain ⟨block, ending⟩ := mixedProgram_block
  refine ⟨by cbv, by cbv, boxedAt_shared block rfl, ?_, by cbv⟩
  rintro ⟨object, found, boxed⟩
  obtain rfl := Option.some.inj ((Storage.block_eq_ok_iff.mp ending).symm.trans found)
  cases boxed with
  | block boxed =>
      cases boxed.cells (.int 7) (List.mem_cons_of_mem _ (List.mem_singleton.mpr rfl))

end Simulator

end ReferenceSemantics
