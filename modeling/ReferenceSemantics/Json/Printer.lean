import ReferenceSemantics.Json.Basic
import ReferenceSemantics.Number.Shortest

set_option autoImplicit false

/-!
Writing JSON: on one line without blanks, or with two blanks of indentation a level.

Quotes, backslashes and control characters are escaped, the usual ones by a letter and the others
by their code; every other character stands for itself. Doubles have the fewest digits that read
back, and a number that is not finite is written as `null`.
-/

namespace ReferenceSemantics.Json

def hexDigit (n : Nat) : Char := (Nat.toDigits 16 (n % 16)).headD '0'

def escape (c : Char) : List Char :=
  if c = '"' then ['\\', '"']
  else if c = '\\' then ['\\', '\\']
  else if c = '\x08' then ['\\', 'b']
  else if c = '\x0c' then ['\\', 'f']
  else if c = '\n' then ['\\', 'n']
  else if c = '\r' then ['\\', 'r']
  else if c = '\t' then ['\\', 't']
  else if c < ' ' then ['\\', 'u', '0', '0', hexDigit (c.toNat / 16), hexDigit c.toNat]
  else [c]

def quoted (s : String) : List Char := '"' :: (s.toList.flatMap escape ++ ['"'])

/-- Doubles are positional from a millionth of ten to below ten to the sixteenth. -/
def floatLayout : DecimalLayout := ⟨-5, 16⟩

def floatText (x : Binary64) : String :=
  if x.isNaN || x.isInfinite then "null"
  else
    let digits := if x.isZero then "0.0" else floatLayout.text x.shortest
    if x.isNegative then "-" ++ digits else digits

def scalarText : Scalar → String
  | .null => "null"
  | .bool true => "true"
  | .bool false => "false"
  | .int n => toString n
  | .float x => floatText x

/-- The text of a value that is not a container with parts. -/
def leaf : Json → List Char
  | scalar value => (scalarText value).toList
  | str s => quoted s
  | arr _ => ['[', ']']
  | obj _ => ['\x7b', '\x7d']

mutual

/-- The value on one line. -/
def line : Json → List Char
  | arr (item :: items) => '[' :: (item.line ++ lineItems items)
  | obj ((name, value) :: fields) =>
      '\x7b' :: (quoted name ++ ':' :: (value.line ++ lineFields fields))
  | value => value.leaf

/-- The items after the first, and the end of the array. -/
def lineItems : List Json → List Char
  | [] => [']']
  | item :: items => ',' :: (item.line ++ lineItems items)

/-- The fields after the first, and the end of the object. -/
def lineFields : List (String × Json) → List Char
  | [] => ['\x7d']
  | (name, value) :: fields =>
      ',' :: (quoted name ++ ':' :: (value.line ++ lineFields fields))

end

/-- The start of a line at a level of nesting. -/
def newline (level : Nat) : List Char := '\n' :: List.replicate (2 * level) ' '

mutual

/-- The value over several lines, its first one already begun at the given level. -/
def lines (level : Nat) : Json → List Char
  | arr (item :: items) =>
      '[' :: (newline (level + 1) ++ (item.lines (level + 1) ++ linesItems level items))
  | obj ((name, value) :: fields) =>
      '\x7b' :: (newline (level + 1) ++ (quoted name ++ ':' :: ' ' ::
        (value.lines (level + 1) ++ linesFields level fields)))
  | value => value.leaf

/-- The items after the first of an array at the given level, and its end. -/
def linesItems (level : Nat) : List Json → List Char
  | [] => newline level ++ [']']
  | item :: items =>
      ',' :: (newline (level + 1) ++ (item.lines (level + 1) ++ linesItems level items))

/-- The fields after the first of an object at the given level, and its end. -/
def linesFields (level : Nat) : List (String × Json) → List Char
  | [] => newline level ++ ['\x7d']
  | (name, value) :: fields =>
      ',' :: (newline (level + 1) ++ (quoted name ++ ':' :: ' ' ::
        (value.lines (level + 1) ++ linesFields level fields)))

end

def compact (value : Json) : String := String.ofList value.line

def pretty (value : Json) : String := String.ofList (value.lines 0)

end ReferenceSemantics.Json
