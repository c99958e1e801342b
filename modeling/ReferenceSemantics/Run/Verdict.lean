import ReferenceSemantics.Json.Printer
import ReferenceSemantics.Run.Machine
import ReferenceSemantics.Value.Document

set_option autoImplicit false

/-!
What a run shows: its verdict, and the state of the heap at its end.
-/

namespace ReferenceSemantics

/-- A fault that ended a run. -/
structure Panic where
  kind : FaultKind
  location : Location
deriving DecidableEq, Repr

namespace Panic

def toJson (panic : Panic) : Json :=
  .obj [("kind", .str panic.kind.name), ("location", panic.location.toJson)]

def decoder : Decoder Panic :=
  Record.decoder (mk <$> .required "kind" FaultKind.decoder
    <*> .required "location" Location.decoder)

end Panic

structure Verdict where
  finalValues : NameMap Value
  panics : List Panic
  placements : NameMap Placement

namespace NameMap

variable {α : Type}

def toJson (encode : α → Json) (map : NameMap α) : Json :=
  .obj (map.entries.map fun entry => (entry.1, encode entry.2))

def decoder (value : Decoder α) : Decoder (NameMap α) := ofList <$> value.entries

end NameMap

namespace Verdict

def value? (verdict : Verdict) (name : String) : Option Value := verdict.finalValues.get? name

def placement? (verdict : Verdict) (site : SiteId) : Option Placement :=
  verdict.placements.get? site

def panicked (verdict : Verdict) : Bool := !verdict.panics.isEmpty

def toJson (verdict : Verdict) : Json :=
  .obj [("finalValues", verdict.finalValues.toJson Value.toJson),
    ("panics", .ofList Panic.toJson verdict.panics),
    ("placements", verdict.placements.toJson (.str ·.name))]

/-- The verdict as text over several lines. -/
def text (verdict : Verdict) : String := verdict.toJson.pretty

def decoder : Decoder Verdict :=
  Record.decoder (mk <$> .required "finalValues" (NameMap.decoder Value.decoder)
    <*> .required "panics" (.list Panic.decoder)
    <*> .required "placements" (NameMap.decoder Placement.decoder))

/-- The verdict a text describes. -/
def ofText (text : String) : Except ReadError Verdict := decoder.readText text

end Verdict

/-- One object of the heap. Blocks and tables have no name. -/
structure ObjectReport where
  address : Address
  role : Target
  name : Option String
  state : HeapState

/-- The objects of the heap in the order of their addresses, and how many are in each state. -/
structure HeapReport where
  live : Nat
  unreachable : Nat
  objects : List ObjectReport

namespace ObjectReport

def ofEntry (address : Address) (entry : HeapEntry) : ObjectReport :=
  match entry.object with
  | .slot slot => ⟨address, .slot, some slot.name, entry.state⟩
  | .block _ => ⟨address, .block, none, entry.state⟩
  | .table _ => ⟨address, .table, none, entry.state⟩

def toJson (report : ObjectReport) : Json :=
  .obj [("address", .ofNat report.address), ("object", .str report.role.name),
    ("name", .ofOption .str report.name), ("state", .str report.state.name)]

end ObjectReport

namespace HeapReport

def ofHeap (heap : Heap) : HeapReport :=
  ⟨heap.count .live, heap.count .unreachable,
    heap.toList.map fun (address, entry) => .ofEntry address entry⟩

def toJson (report : HeapReport) : Json :=
  .obj [("live", .ofNat report.live), ("unreachable", .ofNat report.unreachable),
    ("objects", .ofList ObjectReport.toJson report.objects)]

end HeapReport

end ReferenceSemantics
