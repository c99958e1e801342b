import Mathlib
import ReferenceSemantics.Proofs.Run.Ending

set_option autoImplicit false

/-!
Reading a place and evaluating the expression that is written like it.

A place resolves to a reference, which is read in the end. The expression copies a value at every
step and selects from it. Both follow at most one pointer at a field, so they find the same value,
or they fail in the same way at the same location.
-/

namespace ReferenceSemantics

open Run

/-- The expression that is written like a place. -/
def Place.toExpr : Place → Expr
  | var name => .var name
  | field base name => .field base.toExpr name
  | deref pointer => .deref pointer

/-- A copy of the value that a place designates. -/
def Evaluator.placeValue (evaluator : Evaluator) (location : Location) (place : Place) :
    Run Value := do
  let ref ← evaluator.placeRef location place
  load location ref

/-- What a field is selected from when a value is found: the value, or what it points to. -/
def Storage.Follows (storage : Storage) : (found holder : Value) → Prop
  | .pointer target, holder => ∃ ref, target = some ref ∧ storage.load ref = .ok holder
  | found, holder => holder = found

/-- One reason to stop. Where a field is missing, a reference has a path that ends with it. -/
inductive Halt.Matches : Halt → Halt → Prop where
  | same (halt : Halt) : Matches halt halt
  | missingField (above : List String) (name : String) (location : Location) :
      Matches (.error (.missingField (above ++ [name]) location))
        (.error (.missingField [name] location))

/-- The same value, or matching reasons to stop, on the same machine. -/
inductive Matching : Except Halt Value × Machine → Except Halt Value × Machine → Prop where
  | value (value : Value) (machine : Machine) : Matching (.ok value, machine) (.ok value, machine)
  | halt {halt halt' : Halt} (alike : halt.Matches halt') (machine : Machine) :
      Matching (.error halt, machine) (.error halt', machine)

theorem Matching.ok_iff {left right : Except Halt Value × Machine} (matching : Matching left right)
    {value : Value} : left.1 = .ok value ↔ right.1 = .ok value := by
  cases matching with
  | value => exact Iff.rfl
  | halt => constructor <;> rintro ⟨⟩

theorem Matching.refl (last : Except Halt Value × Machine) : Matching last last := by
  obtain ⟨result, machine⟩ := last
  cases result with
  | ok value => exact .value value machine
  | error halt => exact .halt (.same halt) machine

/-! ### One field -/

theorem Value.atPath?_concat (value : Value) (path : List String) (name : String) :
    value.atPath? (path ++ [name]) = (value.atPath? path).bind (·.field? name) := by
  induction path generalizing value with
  | nil =>
      rw [List.nil_append, atPath?, atPath?, Option.bind_some]
      cases value.field? name <;> rfl
  | cons first path inductionHypothesis =>
      rw [List.cons_append, atPath?, atPath?, Option.bind_assoc]
      exact congrArg _ (funext inductionHypothesis)

namespace Storage

variable {storage : Storage} {ref : SlotRef} {held : Value}

/-- A field of what a reference designates. -/
theorem load_field (loaded : storage.load ref = .ok held) (name : String) :
    storage.load (ref.field name) =
      match held.field? name with
      | some inner => .ok inner
      | none => .error (.missingField (ref.path ++ [name])) := by
  obtain ⟨slot, read, found⟩ := load_eq_ok.mp loaded
  have inside : slot.value.atPath? (ref.path ++ [name]) = held.field? name := by
    rw [Value.atPath?_concat, found, Option.bind_some]
  rw [load, SlotRef.field, read, Except.ok_bind, inside]
  cases held.field? name <;> rfl

theorem dereference_some (target : SlotRef) :
    storage.dereference (.pointer (some target)) =
      (storage.slot target.address).map fun _ => target := by
  rw [dereference]
  cases storage.slot target.address <;> rfl

end Storage

variable {location : Location} {machine : Machine} {name : String}

theorem exec_selectField (value : Value) :
    exec (selectField location name value) machine =
      match value.shape, value.field? name with
      | .composite, some inner => (.ok inner, machine)
      | .composite, none => (.error (.error (.missingField [name] location)), machine)
      | shape, _ => (.error (.error (.kindMismatch (.notComposite shape) location)), machine) := by
  cases value with
  | composite typeName fields =>
      rw [selectField, Value.shape, Value.field?]
      cases fields.lookup name <;> rfl
  | _ => rfl

theorem selectField_eq_ok {held value : Value} {after : Machine} :
    exec (selectField location name held) machine = (.ok value, after) ↔
      held.field? name = some value ∧ machine = after := by
  cases held with
  | composite typeName fields =>
      rw [selectField, Value.field?]
      cases fields.lookup name <;> simp
  | _ => simp [selectField, mismatch, Value.field?]

theorem exec_dereference_some (target : SlotRef) :
    exec (dereference location (.pointer (some target))) machine =
      match machine.storage.slot target.address with
      | .ok _ => (.ok target, machine)
      | .error error => (.error (.error (.ofStorage location error)), machine) := by
  rw [dereference, exec_read, Storage.dereference_some]
  cases machine.storage.slot target.address <;> rfl

theorem followPointer_pointer (target : Option SlotRef) :
    followPointer location (.pointer target) = (do
      load location (← dereference location (.pointer target))) := rfl

/-- At most one pointer is followed. -/
theorem followPointer_eq_ok {found holder : Value} {after : Machine} :
    exec (followPointer location found) machine = (.ok holder, after) ↔
      machine.storage.Follows found holder ∧ machine = after := by
  cases found with
  | pointer target =>
      rw [followPointer_pointer, exec_bind, dereference, exec_read, Storage.Follows]
      cases target with
      | none => simp [Storage.dereference]
      | some target =>
          rw [Storage.dereference_some]
          cases read : machine.storage.slot target.address with
          | error error => simp [Storage.load_eq_ok, read, Except.map]
          | ok slot =>
              simp only [Except.map, load, exec_read]
              cases loaded : machine.storage.load target <;> simp [loaded]
  | _ => simp [followPointer, Value.isPointer, Storage.Follows, eq_comm]

/-- Once the composite is found, a reference to the field is read like the field itself. -/
theorem fieldOf_matches {holder : SlotRef} {held : Value}
    (loaded : machine.storage.load holder = .ok held) :
    Matching
      (exec (do load location (← fieldOf location holder name held)) machine)
      (exec (selectField location name held) machine) := by
  have inside := Storage.load_field loaded name
  cases held with
  | composite typeName fields =>
      simp only [fieldOf, bind_assoc, pure_bind]
      rw [exec_bind, load, exec_read, inside, exec_selectField]
      cases found : Value.field? name (.composite typeName fields) with
      | none => exact .halt (.missingField holder.path name location) machine
      | some inner =>
          dsimp only
          rw [exec_read, inside, found]
          exact .value inner machine
  | _ => exact .refl _

/-- A field step on a reference goes like the same step on the value that it designates. -/
theorem fieldRef_matches {base : SlotRef} {found : Value}
    (loaded : machine.storage.load base = .ok found) :
    Matching
      (exec (do load location (← fieldRef location base name)) machine)
      (exec (do selectField location name (← followPointer location found)) machine) := by
  have start : exec (load location base) machine = (.ok found, machine) := by
    rw [load, exec_read, loaded]
  rw [fieldRef, bind_assoc, exec_bind_ok found start, bind_assoc]
  cases found with
  | composite typeName fields =>
      rw [fieldHolder, pure_bind, bind_assoc, exec_bind_ok _ start]
      exact fieldOf_matches loaded
  | pointer target =>
      rw [fieldHolder, followPointer_pointer, bind_assoc]
      cases target with
      | none => exact .refl _
      | some target =>
          rw [exec_bind, exec_bind, exec_dereference_some]
          cases machine.storage.slot target.address with
          | error error => exact .refl _
          | ok slot =>
              dsimp only
              cases held : machine.storage.load target with
              | error error =>
                  have failed : exec (load location target) machine =
                      (.error (.error (.ofStorage location error)), machine) := by
                    rw [load, exec_read, held]
                  rw [exec_bind_error failed, bind_assoc, exec_bind_error failed]
                  exact .refl _
              | ok value =>
                  have there : exec (load location target) machine = (.ok value, machine) := by
                    rw [load, exec_read, held]
                  rw [exec_bind_ok value there, bind_assoc, exec_bind_ok value there]
                  exact fieldOf_matches held
  | _ => exact .refl _

namespace Evaluator

variable (evaluator : Evaluator) (location : Location)

theorem placeValue_matches : ∀ (place : Place) (machine : Machine),
    Matching (exec (evaluator.placeValue location place) machine)
      (exec (evaluator.evaluate location place.toExpr) machine)
  | .var name, machine => by
      rw [placeValue, placeRef, Place.toExpr, evaluate]
      exact .refl _
  | .deref pointer, machine => by
      rw [placeValue, placeRef, Place.toExpr, evaluate, bind_assoc]
      exact .refl _
  | .field base name, machine => by
      have below := placeValue_matches base machine
      rw [placeValue, exec_bind] at below
      rw [placeValue, placeRef, Place.toExpr, evaluate, bind_assoc, exec_bind]
      generalize exec (evaluator.placeRef location base) machine = resolved at below ⊢
      generalize evaluated : exec (evaluator.evaluate location base.toExpr) machine = copied
        at below
      obtain ⟨result, middle⟩ := resolved
      cases result with
      | error halt =>
          cases below with
          | halt alike =>
              rw [exec_bind_error evaluated]
              exact .halt alike middle
      | ok ref =>
          dsimp only at below ⊢
          rw [load, exec_read] at below
          cases loaded : middle.storage.load ref with
          | error error =>
              have failed : exec (load location ref) middle =
                  (.error (.error (.ofStorage location error)), middle) := by
                rw [load, exec_read, loaded]
              rw [loaded] at below
              rw [fieldRef, bind_assoc, exec_bind_error failed]
              cases below with
              | halt alike =>
                  rw [exec_bind_error evaluated]
                  exact .halt alike middle
          | ok found =>
              rw [loaded] at below
              cases below with
              | value =>
                  rw [exec_bind_ok found evaluated]
                  exact fieldRef_matches loaded

/-- What is read of a place is what the expression written like it evaluates to, from any machine
and however calls are run; where there is nothing to read, both stop for the same reason at the same
location. A field is selected from the value of what stands before it, or from what this points to,
and no further pointer is followed. -/
theorem placeValue_agrees (place : Place) (machine : Machine) :
    Matching (exec (evaluator.placeValue location place) machine)
        (exec (evaluator.evaluate location place.toExpr) machine) ∧
      ∀ found after, exec (evaluator.placeValue location place) machine = (.ok found, after) →
        ∀ name value,
          ((exec (evaluator.placeValue location (.field place name)) machine).1 = .ok value ↔
            ∃ holder, after.storage.Follows found holder ∧ holder.field? name = some value) ∧
          ((exec (evaluator.evaluate location (.field place.toExpr name)) machine).1 = .ok value ↔
            ∃ holder, after.storage.Follows found holder ∧ holder.field? name = some value) := by
  have matching := evaluator.placeValue_matches location place machine
  refine ⟨matching, fun found after read name value => ?_⟩
  have evaluated : (exec (evaluator.evaluate location (.field place.toExpr name)) machine).1 =
      .ok value ↔ ∃ holder, after.storage.Follows found holder ∧
        holder.field? name = some value := by
    rw [read] at matching
    generalize copied : exec (evaluator.evaluate location place.toExpr) machine = last at matching
    cases matching
    rw [evaluate, exec_bind_ok found copied]
    constructor
    · intro result
      obtain ⟨holder, middle, followed, selected⟩ := ok_of_bind (Prod.ext result rfl)
      obtain ⟨follows, rfl⟩ := followPointer_eq_ok.mp followed
      exact ⟨holder, follows, (selectField_eq_ok.mp selected).1⟩
    · rintro ⟨holder, follows, inside⟩
      rw [exec_bind_ok holder (followPointer_eq_ok.mpr ⟨follows, rfl⟩),
        selectField_eq_ok.mpr ⟨inside, rfl⟩]
  exact ⟨(evaluator.placeValue_matches location (.field place name) machine).ok_iff.trans evaluated,
    evaluated⟩

end Evaluator

/-- The machine of a program with a pointer to a point and a pointer to this pointer. -/
def pointing : Machine :=
  (Simulator.signalled
    (Program.empty.withFunction <| .new "main" []
      [.declare (.new "point" .value (some (.composite "Point" [("x", .lit (.int 3))]))),
        .declare (.new "p" .pointer (some (.addrOf (.var "point")))),
        .declare (.new "q" .pointer (some (.addrOf (.var "p")))),
        .ret none])
    .default ⟨false, some 3⟩).ending.2

/-- The field is found through the one pointer and not through both. -/
theorem placeValue_agrees_pointing :
    let evaluator := (Model.new .empty .default).evaluator
    let location : Location := ⟨"main", 3⟩
    let pointer (index : Nat) : Value := .pointerTo (.ofAddress (stackStart + slotSize * index))
    exec (evaluator.placeValue location (.var "p")) pointing = (.ok (pointer 0), pointing) ∧
      (exec (evaluator.evaluate location (.field (.var "p") "x")) pointing).1 = .ok (.int 3) ∧
      exec (evaluator.placeValue location (.var "q")) pointing = (.ok (pointer 1), pointing) ∧
      ∀ value,
        (exec (evaluator.placeValue location (.field (.var "q") "x")) pointing).1 ≠ .ok value := by
  intro evaluator location pointer
  have single : exec (evaluator.placeValue location (.var "p")) pointing =
      (.ok (pointer 0), pointing) := by cbv
  have double : exec (evaluator.placeValue location (.var "q")) pointing =
      (.ok (pointer 1), pointing) := by cbv
  have point : pointing.storage.load (.ofAddress stackStart) =
      .ok (.composite "Point" [("x", .int 3)]) := by cbv
  have held : pointing.storage.load (.ofAddress (stackStart + slotSize)) = .ok (pointer 0) := by
    cbv
  refine ⟨single, ?_, double, fun value result => ?_⟩
  · exact ((evaluator.placeValue_agrees location (.var "p") pointing).2 _ _ single "x" _).2.mpr
      ⟨_, ⟨_, rfl, point⟩, rfl⟩
  · have reads := (evaluator.placeValue_agrees location (.var "q") pointing).2 _ _ double "x" value
    obtain ⟨holder, ⟨ref, same, loaded⟩, inside⟩ := reads.1.mp result
    obtain rfl := Option.some.inj same
    obtain rfl := Except.ok.inj (held.symm.trans loaded)
    cases inside

end ReferenceSemantics
