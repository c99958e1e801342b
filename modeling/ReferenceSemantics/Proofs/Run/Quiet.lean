import ReferenceSemantics.Proofs.Run.Step
import ReferenceSemantics.Proofs.Storage.Retention

set_option autoImplicit false

/-!
Computations that leave the names alone.

They read storage and change it, and they log allocations, but they bind no name, push no frame,
take no slot away and pass no statement boundary. What they do depends on storage only.
-/

namespace ReferenceSemantics

/-- A frame without its slots. -/
def Frame.bare (frame : Frame) : Frame := { frame with slots := [] }

namespace Storage

/-- What the frames are apart from their slots, from the root up. -/
def skeleton (storage : Storage) : List Frame := storage.frames.map Frame.bare

theorem skeleton_eq (storage : Storage) :
    storage.skeleton = storage.skeleton.dropLast ++ [storage.current.bare] := by
  rw [skeleton, frames_eq, List.map_append, List.map_singleton, List.dropLast_concat]

theorem skeleton_setSlot (storage : Storage) (address : Address) (new : Slot) :
    (storage.setSlot address new).skeleton = storage.skeleton := by
  rcases storage.owned_or_absent address with ⟨slot, ⟨owned⟩⟩ | ⟨-, -, replaced⟩
  · rw [skeleton, skeleton, (owned.replaced new).1, owned.frames]
    simp only [List.map_append, List.map_cons]
    rfl
  · rw [replaced]
    rfl

theorem skeleton_allocate (storage : Storage) (name : String) (kind : Kind)
    (site : Option SiteId) (placement : Placement) (value : Value) :
    (storage.allocate name kind site placement value).2.skeleton = storage.skeleton := by
  cases placement with
  | heap => rfl
  | stack =>
      have pushed := storage.frames_modifyCurrent
        (·.push ⟨name, kind, value, site, storage.nextStackAddress⟩)
      calc (storage.allocate name kind site .stack value).2.skeleton
          = (storage.frames.dropLast ++ [storage.current]).map Frame.bare := by
            simp only [List.map_append]
            exact (congrArg (List.map Frame.bare) pushed).trans (List.map_append ..)
        _ = storage.skeleton := by rw [← frames_eq, skeleton]

/-- The functions of the frames, from the root up. -/
def functions (storage : Storage) : List String := storage.frames.map (·.function)

theorem functions_skeleton (storage : Storage) :
    storage.skeleton.map (·.function) = storage.functions :=
  List.map_map

theorem functions_of_skeleton {storage changed : Storage}
    (same : changed.skeleton = storage.skeleton) : changed.functions = storage.functions := by
  rw [← functions_skeleton, same, functions_skeleton]

theorem functions_of_outline {storage changed : Storage}
    (same : changed.outline = storage.outline) : changed.functions = storage.functions := by
  have functions := congrArg (List.map Frame.function) same
  rwa [outline, outline, List.map_map, List.map_map] at functions

theorem functions_eq (storage : Storage) :
    storage.functions = storage.frames.dropLast.map (·.function) ++ [storage.current.function] := by
  rw [functions, frames_eq, List.map_append, ← frames_eq]
  rfl

theorem functions_declare (storage : Storage) (name : String) (kind : Kind) (site : Option SiteId)
    (placement : Placement) (value : Value) :
    (storage.declare name kind site placement value).2.functions = storage.functions := by
  let allocated := storage.allocate name kind site placement value
  have bound := allocated.2.frames_modifyCurrent (·.bind name allocated.1.address)
  have same : (storage.declare name kind site placement value).2.functions =
      allocated.2.functions := by
    rw [functions_eq allocated.2]
    exact (congrArg (List.map Frame.function) bound).trans (List.map_append ..)
  exact same.trans
    (functions_of_skeleton (storage.skeleton_allocate name kind site placement value))

theorem functions_pushFrame (storage : Storage) (function : String) (callSite : Option Location) :
    (storage.pushFrame function callSite).functions = storage.functions ++ [function] :=
  (congrArg _ (storage.frames_pushFrame function callSite)).trans (List.map_append ..)

theorem functions_popFrame {storage : Storage} {functions : List String} {function : String}
    (same : storage.functions = functions ++ [function]) (called : functions ≠ []) :
    storage.popFrame.functions = functions := by
  have inCall : storage.InCall := by
    have sizes := congrArg List.length same
    rw [Storage.functions, List.length_map, List.length_append, List.length_singleton] at sizes
    rw [inCall_iff, sizes]
    exact Nat.lt_add_of_pos_left (List.length_pos_iff.mpr called)
  rw [Storage.functions, frames_popFrame inCall, List.map_dropLast]
  exact (congrArg List.dropLast same).trans List.dropLast_concat

/-- The frames are as before but for more slots and for what is in the slots. -/
structure Fills (storage changed : Storage) : Prop where
  skeleton : changed.skeleton = storage.skeleton
  embeds : storage.Embeds changed

namespace Fills

theorem refl (storage : Storage) : storage.Fills storage := ⟨rfl, .refl storage⟩

theorem trans {first second third : Storage} (before : first.Fills second)
    (after : second.Fills third) : first.Fills third :=
  ⟨after.skeleton.trans before.skeleton, before.embeds.trans after.embeds⟩

/-- Only the heap has changed. -/
theorem heap {storage changed : Storage} (retains : storage.Retains changed)
    (frames : changed.frames = storage.frames) : storage.Fills changed :=
  ⟨congrArg (List.map Frame.bare) frames,
    Edits.embeds ⟨retains, congrArg (List.map Frame.outline) frames⟩⟩

theorem setSlot {storage : Storage} {address : Address} {slot : Slot}
    (read : storage.slot address = .ok slot) (value : Value) :
    storage.Fills (storage.setSlot address { slot with value }) :=
  ⟨storage.skeleton_setSlot _ _, (edits_setSlot read value).embeds⟩

theorem allocate (storage : Storage) (name : String) (kind : Kind) (site : Option SiteId)
    (placement : Placement) (value : Value) :
    storage.Fills (storage.allocate name kind site placement value).2 :=
  ⟨storage.skeleton_allocate name kind site placement value,
    storage.embeds_allocate name kind site placement value⟩

theorem append {storage changed : Storage} {header grown : Value} {values : List Value}
    (appended : storage.append header values = .ok (grown, changed)) : storage.Fills changed := by
  refine ⟨?_, (edits_append appended).embeds⟩
  cases append_eq_ok appended <;> rfl

end Fills

end Storage

/-- The event of an allocation or of a sweep. -/
def TraceEvent.Plain : TraceEvent → Prop
  | .alloc _ _ _ | .sweep _ => True
  | _ => False

/-- Record some events, one after the other. -/
def Trace.recordAll (trace : Trace) (events : List TraceEvent) : Trace :=
  events.foldl record trace

theorem Trace.recordAll_append (trace : Trace) (events later : List TraceEvent) :
    trace.recordAll (events ++ later) = (trace.recordAll events).recordAll later :=
  List.foldl_append

theorem Trace.mem_record {trace : Trace} {event added : TraceEvent}
    (member : event ∈ (trace.record added).events) : event ∈ trace.events ∨ event = added := by
  unfold record at member
  split at member
  · exact Array.mem_push.mp member
  · exact .inl member

theorem Trace.mem_recordAll {trace : Trace} {event : TraceEvent} {events : List TraceEvent}
    (member : event ∈ (trace.recordAll events).events) : event ∈ trace.events ∨ event ∈ events := by
  induction events generalizing trace with
  | nil => exact .inl member
  | cons added events inductionHypothesis =>
      rcases inductionHypothesis member with before | later
      · refine (mem_record before).imp_right fun same => ?_
        exact same ▸ List.mem_cons_self ..
      · exact .inr (List.mem_cons_of_mem _ later)

namespace Run

variable {α β : Type}

/-- What a computation does that depends on storage only. -/
structure Reaction (run : Run α) (storage : Storage) (result : Except RuntimeError α)
    (changed : Storage) (events : List TraceEvent) : Prop where
  fills : storage.Fills changed
  plain : ∀ event ∈ events, event.Plain
  named : ∀ name location, result ≠ .error (.undefinedVariable name location)
  ran : ∀ trace abort finals, exec run ⟨storage, trace, abort, finals⟩ =
    (result.mapError .error, ⟨changed, trace.recordAll events, abort, finals⟩)

theorem Reaction.skeleton {run : Run α} {storage changed : Storage}
    {result : Except RuntimeError α} {events : List TraceEvent}
    (reaction : Reaction run storage result changed events) : changed.skeleton = storage.skeleton :=
  reaction.fills.skeleton

/-- A computation that leaves the names alone. -/
class Quiet (run : Run α) : Prop where
  reacts : ∀ storage, ∃ result changed events, Reaction run storage result changed events

theorem reacts (run : Run α) [Quiet run] (storage : Storage) :
    ∃ result changed events, Reaction run storage result changed events :=
  Quiet.reacts storage

theorem named_ofStorage (location : Location) (error : StorageError) (name : String)
    (place : Location) : RuntimeError.ofStorage location error ≠ .undefinedVariable name place := by
  intro same
  cases error <;> exact RuntimeError.noConfusion same

theorem Reaction.done {run : Run α} {storage changed : Storage} {result : α}
    {events : List TraceEvent} (fills : storage.Fills changed)
    (plain : ∀ event ∈ events, event.Plain)
    (ran : ∀ trace abort finals, exec run ⟨storage, trace, abort, finals⟩ =
      (.ok result, ⟨changed, trace.recordAll events, abort, finals⟩)) :
    Reaction run storage (.ok result) changed events := by
  refine ⟨fills, plain, ?_, ran⟩
  rintro name location ⟨⟩

theorem Reaction.refused {run : Run α} {storage : Storage} {error : RuntimeError}
    (named : ∀ name location, error ≠ .undefinedVariable name location)
    (ran : ∀ trace abort finals, exec run ⟨storage, trace, abort, finals⟩ =
      (.error (.error error), ⟨storage, trace, abort, finals⟩)) :
    Reaction run storage (.error error) storage [] :=
  ⟨.refl storage, List.forall_mem_nil _, fun name location same =>
    named name location (Except.error.inj same), ran⟩

/-! ### Single operations -/

instance (value : α) : Quiet (pure value : Run α) where
  reacts storage :=
    ⟨.ok value, storage, [], .done (.refl storage) (List.forall_mem_nil _) fun _ _ _ => rfl⟩

theorem quiet_fail {error : RuntimeError}
    (named : ∀ name location, error ≠ .undefinedVariable name location) :
    Quiet (fail error : Run α) where
  reacts storage := ⟨.error error, storage, [], .refused named fun _ _ _ => rfl⟩

instance (location : Location) (reason : Mismatch) : Quiet (mismatch location reason : Run α) :=
  quiet_fail fun _ _ same => RuntimeError.noConfusion same

instance (first : Run α) (next : α → Run β) [Quiet first] [∀ value, Quiet (next value)] :
    Quiet (first >>= next) where
  reacts storage := by
    obtain ⟨result, middle, events, reaction⟩ := Run.reacts first storage
    cases result with
    | error error =>
        refine ⟨.error error, middle, events, reaction.fills, reaction.plain, ?_, ?_⟩
        · rintro name location ⟨⟩
          exact reaction.named name location rfl
        · exact fun trace abort finals => exec_bind_error (reaction.ran trace abort finals)
    | ok value =>
        obtain ⟨last, changed, later, rest⟩ := Run.reacts (next value) middle
        refine ⟨last, changed, events ++ later, reaction.fills.trans rest.fills, ?_,
          rest.named, ?_⟩
        · exact List.forall_mem_append.mpr ⟨reaction.plain, rest.plain⟩
        · intro trace abort finals
          rw [exec_bind_ok value (reaction.ran trace abort finals), rest.ran,
            Trace.recordAll_append]

instance (condition : Prop) [Decidable condition] (first second : Run α) [Quiet first]
    [Quiet second] : Quiet (if condition then first else second) := by
  split <;> infer_instance

/-- A change of storage that may fail. -/
theorem quiet_update {location : Location} {change : Storage → Except StorageError (α × Storage)}
    (kept : ∀ storage result changed, change storage = .ok (result, changed) →
      storage.Fills changed) :
    Quiet (update location change) where
  reacts storage := by
    cases made : change storage with
    | error error =>
        refine ⟨.error (.ofStorage location error), storage, [],
          .refused (named_ofStorage location error) fun trace abort finals => ?_⟩
        rw [exec_update, made]
    | ok both =>
        refine ⟨.ok both.1, both.2, [],
          .done (kept _ _ _ made) (List.forall_mem_nil _) fun trace abort finals => ?_⟩
        rw [exec_update, made]
        rfl

theorem quiet_write {location : Location} {change : Storage → Except StorageError Storage}
    (kept : ∀ storage changed, change storage = .ok changed → storage.Fills changed) :
    Quiet (write location change) where
  reacts storage := by
    cases made : change storage with
    | error error =>
        refine ⟨.error (.ofStorage location error), storage, [],
          .refused (named_ofStorage location error) fun trace abort finals => ?_⟩
        rw [exec_write, made]
    | ok changed =>
        refine ⟨.ok (), changed, [],
          .done (kept _ _ made) (List.forall_mem_nil _) fun trace abort finals => ?_⟩
        rw [exec_write, made]
        rfl

theorem quiet_allocate {change : Storage → α × Storage}
    (kept : ∀ storage : Storage, storage.Fills (change storage).2) :
    Quiet (allocate change) where
  reacts storage :=
    ⟨.ok (change storage).1, (change storage).2, [],
      .done (kept storage) (List.forall_mem_nil _) fun _ _ _ => rfl⟩

theorem quiet_record {event : TraceEvent} (plain : event.Plain) : Quiet (record event) where
  reacts storage :=
    ⟨.ok (), storage, [event],
      .done (.refl storage) (List.forall_mem_singleton.mpr plain) fun _ _ _ => rfl⟩

instance (location : Location) (look : Storage → Except StorageError α) :
    Quiet (read location look) where
  reacts storage := by
    cases seen : look storage with
    | error error =>
        refine ⟨.error (.ofStorage location error), storage, [],
          .refused (named_ofStorage location error) fun trace abort finals => ?_⟩
        rw [exec_read, seen]
    | ok result =>
        refine ⟨.ok result, storage, [],
          .done (.refl storage) (List.forall_mem_nil _) fun trace abort finals => ?_⟩
        rw [exec_read, seen]
        rfl

instance (location : Location) (ref : SlotRef) : Quiet (load location ref) :=
  inferInstanceAs (Quiet (read _ _))

instance (location : Location) (pointer : Value) : Quiet (dereference location pointer) :=
  inferInstanceAs (Quiet (read _ _))

instance (location : Location) (ref : SlotRef) (value : Value) : Quiet (store location ref value) :=
  quiet_write fun storage changed stored => by
    obtain ⟨slot, whole, read, -, rfl⟩ := Storage.store_eq_ok.mp stored
    exact .setSlot read whole

instance (location : Location) (header value : Value) (index : Int) :
    Quiet (write location (·.setElement header index value)) :=
  quiet_write fun storage changed stored => by
    obtain ⟨address, cell, block, -, read, -, rfl⟩ := Storage.setElement_eq_ok.mp stored
    refine .heap (.heapSet (Storage.block_eq_ok_iff.mp read) ?_) rfl
    exact congrArg HeapObject.Form.block List.length_set

instance (location : Location) (header key value : Value) :
    Quiet (write location (·.tableInsert header key value)) :=
  quiet_write fun storage changed stored => by
    obtain ⟨address, table, -, read, rfl⟩ := Storage.tableInsert_eq_ok.mp stored
    exact .heap (.heapSet (Storage.table_eq_ok_iff.mp read) rfl) rfl

instance (location : Location) (header : Value) (values : List Value) :
    Quiet (update location (·.append header values)) :=
  quiet_update fun _ _ _ appended => .append appended

instance (cells : List Value) (len : Nat) (zero : Value) :
    Quiet (allocate (·.allocBlock cells len zero)) :=
  quiet_allocate fun storage => .heap (.heapPush storage _) rfl

instance (entries : List (Value × Value)) : Quiet (allocate (·.allocTable entries)) :=
  quiet_allocate fun storage => .heap (.heapPush storage _) rfl

instance (name : String) (kind : Kind) (site : Option SiteId) (placement : Placement)
    (value : Value) : Quiet (allocate (·.allocate name kind site placement value)) :=
  quiet_allocate fun storage => .allocate storage name kind site placement value

instance (site : Option SiteId) (address : Address) (placement : Placement) :
    Quiet (record (.alloc site address placement)) :=
  quiet_record trivial

instance : Quiet sweep := by
  unfold sweep
  have swept : Quiet (allocate Storage.sweep) := quiet_allocate fun storage =>
    .heap (.sweep storage) rfl
  have recorded (unreachable : Nat) : Quiet (record (.sweep unreachable)) := quiet_record trivial
  infer_instance

instance (location : Location) (kind : Kind) (value : Value) :
    Quiet (expectKind location kind value) := by
  unfold expectKind
  infer_instance

instance (header : Value) : Quiet (recordBehind header) := by
  unfold recordBehind
  split <;> infer_instance

instance (header moved : Value) : Quiet (recordMove header moved) := by
  unfold recordMove
  infer_instance

/-! ### Parts of evaluation -/

instance (location : Location) (value : Value) : Quiet (followPointer location value) := by
  unfold followPointer
  infer_instance

instance (location : Location) (name : String) (value : Value) :
    Quiet (selectField location name value) := by
  have missing : Quiet (fail (.missingField [name] location) : Run Value) :=
    quiet_fail fun _ _ same => RuntimeError.noConfusion same
  unfold selectField
  split
  · split <;> infer_instance
  · infer_instance

instance (location : Location) (base : SlotRef) (found : Value) :
    Quiet (fieldHolder location base found) := by
  unfold fieldHolder
  split <;> infer_instance

instance (location : Location) (holder : SlotRef) (name : String) (found : Value) :
    Quiet (fieldOf location holder name found) := by
  unfold fieldOf
  split <;> infer_instance

instance (location : Location) (base : SlotRef) (name : String) :
    Quiet (fieldRef location base name) := by
  unfold fieldRef
  infer_instance

instance (location : Location) (value : Value) : Quiet (asInt location value) := by
  unfold asInt
  split <;> infer_instance

instance (location : Location) (callee : String) (result : Option Value) :
    Quiet (expectResult location callee result) := by
  unfold expectResult
  split <;> infer_instance

instance (evaluator : Evaluator) (site : SiteId) (value : Value) :
    Quiet (evaluator.allocateNew site value) := by
  unfold Evaluator.allocateNew
  infer_instance

instance (cells : List Value) (capacity : Option Nat) :
    Quiet (Evaluator.allocateSlice cells capacity) := by
  unfold Evaluator.allocateSlice
  infer_instance

end Run

end ReferenceSemantics
