import ReferenceSemantics.Number.Binary64

set_option autoImplicit false

/-!
JSON values. The fields of an object keep their order and their repetitions: which of them count
is for the document that they describe.
-/

namespace ReferenceSemantics

/-- A value without parts, other than a string. -/
inductive Scalar where
  | null
  | bool (value : Bool)
  | int (value : Int)
  | float (value : Binary64)
deriving DecidableEq, Inhabited

inductive Json where
  | scalar (value : Scalar)
  | str (value : String)
  | arr (items : List Json)
  | obj (fields : List (String × Json))
deriving Inhabited

abbrev Fields := List (String × Json)

namespace Json

@[match_pattern]
abbrev null : Json := scalar .null

@[match_pattern]
abbrev bool (value : Bool) : Json := scalar (.bool value)

@[match_pattern]
abbrev int (value : Int) : Json := scalar (.int value)

@[match_pattern]
abbrev float (value : Binary64) : Json := scalar (.float value)

mutual

/-- The number of containers open at once in the written value. -/
def height : Json → Nat
  | arr items => heightItems items + 1
  | obj fields => heightFields fields + 1
  | scalar _ | str _ => 0

def heightItems : List Json → Nat
  | [] => 0
  | item :: items => max item.height (heightItems items)

def heightFields : Fields → Nat
  | [] => 0
  | (_, value) :: fields => max value.height (heightFields fields)

end

/-- `null` stands for an absent value. -/
def ofOption {α : Type} (encode : α → Json) : Option α → Json
  | none => null
  | some value => encode value

/-- The field is left out when its value is absent. -/
def fieldOfOption {α : Type} (name : String) (encode : α → Json) : Option α → Fields
  | none => []
  | some value => [(name, encode value)]

def ofNat (n : Nat) : Json := .int n

def ofList {α : Type} (encode : α → Json) (values : List α) : Json :=
  arr (values.map encode)

end Json

end ReferenceSemantics
