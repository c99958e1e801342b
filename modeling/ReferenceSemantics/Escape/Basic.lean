import ReferenceSemantics.Graph.Reach
import ReferenceSemantics.Json.Decode
import ReferenceSemantics.NameMap
import ReferenceSemantics.Program.Parts
import ReferenceSemantics.Storage.Error

set_option autoImplicit false

/-!
Modes and results of the escape classification, and the facts it collects.

An abstract location is an allocation site, or the content that the caller passes in for a
parameter. The facts say which locations may hold the address of which, and which locations escape:
their address may outlive the frame that owns them.
-/

namespace ReferenceSemantics

/-- What a call may keep of its arguments: anything, or what its parameters are found to leak. -/
inductive EscapeMode where
  | conservative
  | interprocedural
deriving DecidableEq, Repr, Inhabited

namespace EscapeMode

def all : List EscapeMode := [conservative, interprocedural]

def name : EscapeMode → String
  | conservative => "conservative"
  | interprocedural => "interprocedural"

def toJson (mode : EscapeMode) : Json := .str mode.name

def decoder : Decoder EscapeMode := .choice all name

end EscapeMode

/-- Why a location escapes: the reason found first. -/
inductive EscapeReason where
  | returned
  | storedOutside
  | passedToCall
  | heldByEscaping
deriving DecidableEq, Repr, Inhabited

def EscapeReason.name : EscapeReason → String
  | returned => "returned"
  | storedOutside => "stored_outside"
  | passedToCall => "passed_to_call"
  | heldByEscaping => "held_by_escaping"

/-- The placement of every site, with the reason of those in the heap unless it was forced. -/
structure Placements where
  sites : NameMap (Placement × Option EscapeReason)

namespace Placements

def get? (placements : Placements) (site : SiteId) : Option Placement :=
  (placements.sites.get? site).map (·.1)

def reason? (placements : Placements) (site : SiteId) : Option EscapeReason :=
  (placements.sites.get? site).bind (·.2)

def heapSites (placements : Placements) : List SiteId :=
  (placements.sites.entries.filter (·.2.1 == .heap)).map (·.1)

/-- The placements alone. -/
def table (placements : Placements) : NameMap Placement :=
  placements.sites.mapValues fun _ entry => entry.1

/-- The same sites, all in one place. -/
def forced (placements : Placements) (placement : Placement) : Placements :=
  ⟨placements.sites.mapValues fun _ _ => (placement, none)⟩

end Placements

/-- An abstract location. -/
inductive Loc where
  | site (site : SiteId)
  | content (function : String) (param : Nat)
deriving DecidableEq, Repr, Inhabited

/-- What is known about the locations of a program. -/
structure EscapeFacts where
  /-- The second location's address may be stored in the first. -/
  holds : List (Loc × Loc)
  escaped : List (Loc × EscapeReason)
deriving DecidableEq, Inhabited

namespace EscapeFacts

def empty : EscapeFacts := ⟨[], []⟩

def size (facts : EscapeFacts) : Nat := facts.holds.length + facts.escaped.length

def heldBy (facts : EscapeFacts) (loc : Loc) : List Loc :=
  (facts.holds.filter (·.1 == loc)).map (·.2)

/-- What any of the locations holds. -/
def contents (facts : EscapeFacts) (locs : List Loc) : List Loc :=
  (facts.holds.filter (locs.contains ·.1)).map (·.2)

/-- The locations and all that they hold, directly or not. -/
def closure (facts : EscapeFacts) (locs : List Loc) : List Loc :=
  reach facts.heldBy (locs ++ facts.holds.map (·.2)).eraseDups locs

def addHolds (facts : EscapeFacts) (holder : Loc) (held : List Loc) : EscapeFacts :=
  { facts with holds := held.foldl (fun holds loc => holds.insert (holder, loc)) facts.holds }

def reason? (facts : EscapeFacts) (loc : Loc) : Option EscapeReason := facts.escaped.lookup loc

/-- Locations that already escape keep their reason. -/
def escape (facts : EscapeFacts) (locs : List Loc) (reason : EscapeReason) : EscapeFacts :=
  { facts with
    escaped := locs.foldl
      (fun escaped loc => if escaped.any (·.1 == loc) then escaped else (loc, reason) :: escaped)
      facts.escaped }

/-- The content of this parameter escapes, so a call may retain the argument. -/
def leaks (facts : EscapeFacts) (function : String) (param : Nat) : Bool :=
  facts.escaped.any (·.1 == .content function param)

end EscapeFacts

end ReferenceSemantics
