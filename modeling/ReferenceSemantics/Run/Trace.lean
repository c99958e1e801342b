import ReferenceSemantics.Program.Document
import ReferenceSemantics.Run.Error

set_option autoImplicit false

/-!
The log of a run: statements, call transitions, allocations, faults and sweeps, up to a limit.
-/

namespace ReferenceSemantics

/-- The life of one call. -/
inductive CallState where
  | entered
  | executing
  | returning
  | exited
deriving DecidableEq, Repr, Inhabited

namespace CallState

def all : List CallState := [entered, executing, returning, exited]

def name : CallState → String
  | entered => "entered"
  | executing => "executing"
  | returning => "returning"
  | exited => "exited"

def decoder : Decoder CallState := .choice all name

end CallState

def Placement.decoder : Decoder Placement := .choice all name

def FaultKind.decoder : Decoder FaultKind := .choice all name

inductive TraceEvent where
  | statement (location : Location)
  | call (function : String) (state : CallState) (depth : Nat)
  /-- Globals, blocks and tables have no site. -/
  | alloc (site : Option SiteId) (address : Address) (placement : Placement)
  | fault (kind : FaultKind) (location : Location)
  | sweep (unreachable : Nat)
deriving DecidableEq, Repr, Inhabited

namespace TraceEvent

def faultKind? : TraceEvent → Option FaultKind
  | fault kind _ => some kind
  | _ => none

def toJson : TraceEvent → Json
  | statement location =>
      .obj [("event", .str "statement"), ("location", location.toJson)]
  | call function state depth =>
      .obj [("event", .str "call"), ("function", .str function), ("state", .str state.name),
        ("depth", .ofNat depth)]
  | alloc site address placement =>
      .obj [("event", .str "alloc"), ("site", .ofOption .str site), ("address", .ofNat address),
        ("placement", .str placement.name)]
  | fault kind location =>
      .obj [("event", .str "fault"), ("kind", .str kind.name), ("location", location.toJson)]
  | sweep unreachable =>
      .obj [("event", .str "sweep"), ("unreachable", .ofNat unreachable)]

def variants : List (String × Decoder TraceEvent) :=
  [("statement", Record.decoder (statement <$> .required "location" Location.decoder)),
    ("call", Record.decoder (call <$> .required "function" .text
      <*> .required "state" CallState.decoder <*> .required "depth" .word)),
    ("alloc", Record.decoder (alloc <$> .nullable "site" .text <*> .required "address" .word
      <*> .required "placement" Placement.decoder)),
    ("fault", Record.decoder (fault <$> .required "kind" FaultKind.decoder
      <*> .required "location" Location.decoder)),
    ("sweep", Record.decoder (sweep <$> .required "unreachable" .word))]

def decoder : Decoder TraceEvent := .tagged "event" variants

end TraceEvent

structure Trace where
  events : Array TraceEvent
  limit : Nat
  /-- An event was dropped. -/
  truncated : Bool
deriving Inhabited

namespace Trace

def new (limit : Nat) : Trace := ⟨#[], limit, false⟩

/-- Events past the limit are dropped. -/
def record (trace : Trace) (event : TraceEvent) : Trace :=
  if trace.events.size < trace.limit then { trace with events := trace.events.push event }
  else { trace with truncated := true }

def size (trace : Trace) : Nat := trace.events.size

/-- The faults that were recorded, in order. -/
def faults (trace : Trace) : List FaultKind := trace.events.toList.filterMap TraceEvent.faultKind?

/-- The call transitions of a function, in order. -/
def callStates (trace : Trace) (function : String) : List CallState :=
  trace.events.toList.filterMap fun
    | .call callee state _ => if callee = function then some state else none
    | _ => none

def toJson (trace : Trace) : Json :=
  .obj [("events", .ofList TraceEvent.toJson trace.events.toList), ("limit", .ofNat trace.limit),
    ("truncated", .bool trace.truncated)]

end Trace

end ReferenceSemantics
