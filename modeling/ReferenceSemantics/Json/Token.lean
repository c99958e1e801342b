import ReferenceSemantics.Json.Numeral

set_option autoImplicit false

/-!
The tokens of a JSON text.

The text is read one character at a time. Reading never fails: a string, number or word that is
cut off or wrong is a token with a flaw, and a character that begins no token is one of its own.
No reader gets past such a place, so the tokens end there. What a flaw means depends on whether
the value is wanted or passed over.
-/

namespace ReferenceSemantics

/-- Why a text gives no document: it is not JSON, it is JSON of another shape, or it ends early. -/
inductive ReadError where
  | malformed
  | mismatched
  | truncated
deriving DecidableEq, Repr

/-- What is wrong with a string, a number or a word. -/
structure Flaw where
  /-- The error for a reader that wants the value. -/
  read : ReadError
  /-- The error for a reader that passes over the value, unless the value does not stop it. -/
  skip : Option ReadError
deriving DecidableEq, Repr

namespace Flaw

def malformed : Flaw := ⟨.malformed, some .malformed⟩

def truncated : Flaw := ⟨.truncated, some .truncated⟩

/-- The text ends where a number needs a digit. -/
def noDigit : Flaw := ⟨.truncated, some .malformed⟩

/-- Well formed, but without a value: a number out of range, or half of a surrogate pair. -/
def noValue : Flaw := ⟨.malformed, none⟩

end Flaw

inductive Bracket where
  | square
  | curly
deriving DecidableEq, Repr

inductive Token where
  | opening (bracket : Bracket)
  | closing (bracket : Bracket)
  | comma
  | colon
  | text (value : Except Flaw String)
  | scalar (value : Except Flaw Scalar)
  /-- A character that begins no token. -/
  | stray

namespace Token

/-- The token is the closing bracket of this form. -/
def closes (bracket : Bracket) : Token → Bool
  | closing other => other == bracket
  | _ => false

def isBlank (c : Char) : Bool := c == ' ' || c == '\n' || c == '\t' || c == '\r'

def digit? (c : Char) : Option Nat :=
  if '0' ≤ c ∧ c ≤ '9' then some (c.toNat - '0'.toNat) else none

def hexDigit? (c : Char) : Option Nat :=
  if '0' ≤ c ∧ c ≤ '9' then some (c.toNat - '0'.toNat)
  else if 'a' ≤ c ∧ c ≤ 'f' then some (c.toNat - 'a'.toNat + 10)
  else if 'A' ≤ c ∧ c ≤ 'F' then some (c.toNat - 'A'.toNat + 10)
  else none

/-- The character that a one-letter escape stands for. -/
def escaped? : Char → Option Char
  | '"' => some '"'
  | '\\' => some '\\'
  | '/' => some '/'
  | 'b' => some '\x08'
  | 'f' => some '\x0c'
  | 'n' => some '\n'
  | 'r' => some '\r'
  | 't' => some '\t'
  | _ => none

/-! ## Strings -/

/-- What the characters of a string make, the last one first. -/
structure Chars where
  read : List Char
  /-- Every half of a surrogate pair has met the other one. -/
  paired : Bool
  /-- The first half of a surrogate pair whose second half must follow. -/
  half : Option Nat

namespace Chars

def empty : Chars := ⟨[], true, none⟩

/-- A first half of a pair that is not followed by its second stays without one. -/
def settle (chars : Chars) : Chars :=
  if chars.half.isSome then { chars with paired := false, half := none } else chars

def push (chars : Chars) (c : Char) : Chars :=
  let settled := chars.settle
  { settled with read := c :: settled.read }

/-- Add a 16-bit code unit. -/
def pushUnit (chars : Chars) (code : Nat) : Chars :=
  match chars.half with
  | some first =>
      if 0xDC00 ≤ code ∧ code ≤ 0xDFFF then
        { chars with
          read := Char.ofNat (0x10000 + (first - 0xD800) * 0x400 + (code - 0xDC00)) :: chars.read
          half := none }
      else { chars with paired := false, half := none }
  | none =>
      if 0xD800 ≤ code ∧ code ≤ 0xDBFF then { chars with half := some code }
      else if 0xDC00 ≤ code ∧ code ≤ 0xDFFF then { chars with paired := false }
      else { chars with read := Char.ofNat code :: chars.read }

/-- The string that ends here. -/
def finish (chars : Chars) : Except Flaw String :=
  let settled := chars.settle
  if settled.paired then .ok (String.ofList settled.read.reverse) else .error .noValue

/-- A string whose text ends here without its closing quote. -/
def cutOff (chars : Chars) : Flaw :=
  if chars.paired then .truncated else { Flaw.truncated with read := .malformed }

end Chars

inductive CharsPhase where
  | plain
  | escape
  /-- A code of four digits, with the bytes of it that were read. Its digits are judged when there
  are four bytes. -/
  | code (value : Option Nat) (bytes : Nat)

/-! ## Numbers -/

inductive NumeralPhase where
  | sign
  | zero
  | whole
  | point
  | fraction
  | mark
  | markSign
  | exponent

/-- A numeral may end in this phase. -/
def NumeralPhase.canEnd : NumeralPhase → Bool
  | .zero | .whole | .fraction | .exponent => true
  | .sign | .point | .mark | .markSign => false

/-- The number whose runs of digits were collected in reverse. -/
def ofNumeral (n : Numeral) : Token :=
  let value := Numeral.value? ⟨n.negative, n.whole.reverse, n.fraction.map List.reverse,
    n.exponent.map fun (below, digits) => (below, digits.reverse)⟩
  scalar (value.elim (.error .noValue) .ok)

/-! ## Texts -/

/-- The token that is being read. -/
inductive Unfinished where
  | nothing
  /-- The rest of a word that spells a value. -/
  | word (rest : List Char) (value : Scalar)
  | chars (chars : Chars) (phase : CharsPhase)
  | numeral (numeral : Numeral) (phase : NumeralPhase)
  /-- Nothing more is read. -/
  | stuck

/-- The tokens read so far, the last one first. -/
structure Lexer where
  tokens : List Token
  current : Unfinished

namespace Lexer

def start : Lexer := ⟨[], .nothing⟩

def goOn (lexer : Lexer) (current : Unfinished) : Lexer := { lexer with current }

def add (lexer : Lexer) (token : Token) : Lexer := ⟨token :: lexer.tokens, .nothing⟩

def stop (lexer : Lexer) (token : Token) : Lexer := ⟨token :: lexer.tokens, .stuck⟩

/-- A character between tokens. -/
def begin (lexer : Lexer) (c : Char) : Lexer :=
  if isBlank c then lexer.goOn .nothing
  else
    match c with
    | '[' => lexer.add (.opening .square)
    | ']' => lexer.add (.closing .square)
    | '\x7b' => lexer.add (.opening .curly)
    | '\x7d' => lexer.add (.closing .curly)
    | ',' => lexer.add .comma
    | ':' => lexer.add .colon
    | '"' => lexer.goOn (.chars .empty .plain)
    | 'n' => lexer.goOn (.word ['u', 'l', 'l'] .null)
    | 't' => lexer.goOn (.word ['r', 'u', 'e'] (.bool true))
    | 'f' => lexer.goOn (.word ['a', 'l', 's', 'e'] (.bool false))
    | '-' => lexer.goOn (.numeral ⟨true, [], none, none⟩ .sign)
    | _ =>
        match digit? c with
        | some d =>
            lexer.goOn (.numeral ⟨false, [d], none, none⟩ (if d = 0 then .zero else .whole))
        | none => lexer.stop .stray

def stepWord (lexer : Lexer) (rest : List Char) (value : Scalar) (c : Char) : Lexer :=
  match rest with
  | [] => lexer.stop .stray
  | expected :: rest =>
      if c ≠ expected then lexer.stop (.scalar (.error .malformed))
      else if rest.isEmpty then lexer.add (.scalar (.ok value))
      else lexer.goOn (.word rest value)

def stepChars (lexer : Lexer) (chars : Chars) (phase : CharsPhase) (c : Char) : Lexer :=
  match phase with
  | .plain =>
      if c = '"' then lexer.add (.text chars.finish)
      else if c = '\\' then lexer.goOn (.chars chars .escape)
      else if c < ' ' then lexer.stop (.text (.error .malformed))
      else lexer.goOn (.chars (chars.push c) .plain)
  | .escape =>
      if c = 'u' then lexer.goOn (.chars chars (.code (some 0) 0))
      else
        match escaped? c with
        | some e => lexer.goOn (.chars (chars.push e) .plain)
        | none => lexer.stop (.text (.error .malformed))
  | .code value bytes =>
      let value := value.bind fun value => (hexDigit? c).map (value * 16 + ·)
      let bytes := bytes + c.utf8Size
      if bytes < 4 then lexer.goOn (.chars chars (.code value bytes))
      else
        match value with
        | some code => lexer.goOn (.chars (chars.pushUnit code) .plain)
        | none => lexer.stop (.text (.error .malformed))

/-- The character after the last one that can belong to a numeral. -/
def endNumeral (lexer : Lexer) (n : Numeral) (phase : NumeralPhase) (c : Char) : Lexer :=
  if phase.canEnd then (lexer.add (ofNumeral n)).begin c
  else lexer.stop (.scalar (.error .malformed))

def stepNumeral (lexer : Lexer) (n : Numeral) (phase : NumeralPhase) (c : Char) : Lexer :=
  match digit? c with
  | some d =>
      match phase with
      | .sign =>
          lexer.goOn (.numeral { n with whole := [d] } (if d = 0 then .zero else .whole))
      | .zero => lexer.stop (.scalar (.error .malformed))
      | .whole => lexer.goOn (.numeral { n with whole := d :: n.whole } .whole)
      | .point | .fraction =>
          lexer.goOn (.numeral { n with fraction := some (d :: n.fraction.getD []) } .fraction)
      | .mark => lexer.goOn (.numeral { n with exponent := some (false, [d]) } .exponent)
      | .markSign | .exponent =>
          let (below, digits) := n.exponent.getD (false, [])
          lexer.goOn (.numeral { n with exponent := some (below, d :: digits) } .exponent)
  | none =>
      match phase, c with
      | .zero, '.' | .whole, '.' => lexer.goOn (.numeral { n with fraction := some [] } .point)
      | .zero, 'e' | .whole, 'e' | .fraction, 'e'
      | .zero, 'E' | .whole, 'E' | .fraction, 'E' => lexer.goOn (.numeral n .mark)
      | .mark, '+' => lexer.goOn (.numeral { n with exponent := some (false, []) } .markSign)
      | .mark, '-' => lexer.goOn (.numeral { n with exponent := some (true, []) } .markSign)
      | _, _ => lexer.endNumeral n phase c

def step (lexer : Lexer) (c : Char) : Lexer :=
  match lexer.current with
  | .nothing => lexer.begin c
  | .word rest value => lexer.stepWord rest value c
  | .chars chars phase => lexer.stepChars chars phase c
  | .numeral n phase => lexer.stepNumeral n phase c
  | .stuck => lexer

/-- The tokens of a text that ends here, the last one first. -/
def finish (lexer : Lexer) : List Token :=
  match lexer.current with
  | .nothing | .stuck => lexer.tokens
  | .word _ _ => .scalar (.error .truncated) :: lexer.tokens
  | .chars chars _ => .text (.error chars.cutOff) :: lexer.tokens
  | .numeral n phase =>
      (if phase.canEnd then ofNumeral n else .scalar (.error .noDigit)) :: lexer.tokens

end Lexer

/-- The tokens of a text, in order. -/
def ofChars (text : List Char) : List Token :=
  (text.foldl Lexer.step .start).finish.reverse

end Token

end ReferenceSemantics
