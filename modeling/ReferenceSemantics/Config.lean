import ReferenceSemantics.Escape.Basic
import ReferenceSemantics.Json.Record

set_option autoImplicit false

/-!
Options of a run. Every option has a default.
-/

namespace ReferenceSemantics

/-- How sites are placed: as classified, or all in one place. -/
inductive PlacementPolicy where
  | classified
  | forceStack
  | forceHeap
deriving DecidableEq, Repr, Inhabited

namespace PlacementPolicy

def all : List PlacementPolicy := [classified, forceStack, forceHeap]

def name : PlacementPolicy → String
  | classified => "classified"
  | forceStack => "force_stack"
  | forceHeap => "force_heap"

/-- The placement of every site under a policy that does not ask the classification. -/
def forced? : PlacementPolicy → Option Placement
  | classified => none
  | forceStack => some .stack
  | forceHeap => some .heap

def toJson (policy : PlacementPolicy) : Json := .str policy.name

def decoder : Decoder PlacementPolicy := .choice all name

end PlacementPolicy

structure Config where
  entry : String
  escapeMode : EscapeMode
  placementPolicy : PlacementPolicy
  /-- The number of trace events that are kept. -/
  traceLimit : Nat
deriving DecidableEq, Repr

namespace Config

def default : Config := ⟨"main", .conservative, .classified, 100000⟩

instance : Inhabited Config := ⟨default⟩

def toJson (config : Config) : Json :=
  .obj [("entry", .str config.entry), ("escape_mode", config.escapeMode.toJson),
    ("placement_policy", config.placementPolicy.toJson),
    ("trace_limit", .ofNat config.traceLimit)]

def decoder : Decoder Config :=
  Record.decoder (mk <$> .withDefault "entry" .text default.entry
    <*> .withDefault "escape_mode" EscapeMode.decoder default.escapeMode
    <*> .withDefault "placement_policy" PlacementPolicy.decoder default.placementPolicy
    <*> .withDefault "trace_limit" .word default.traceLimit)

/-- The configuration a text describes. -/
def ofText (text : String) : Except ReadError Config := decoder.readText text

end Config

end ReferenceSemantics
