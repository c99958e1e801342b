import Mathlib.Tactic.IntervalCases
import ReferenceSemantics.Json.Printer
import ReferenceSemantics.Json.Token

set_option autoImplicit false

/-!
Reading back the characters of a written value.

A number ends only where another character follows it, so after its last digit the lexer does not
hold its token yet. What follows a number in a written value is no digit, point or exponent: the
lexer then goes on as if the number had been complete.
-/

namespace ReferenceSemantics

/-- The scalars that a text keeps: integers of word size, and none of the doubles. -/
def Scalar.Exact : Scalar → Prop
  | .null | .bool _ => True
  | .int n => -integerEnd ≤ n ∧ n < wordEnd
  | .float _ => False

namespace Token

namespace Lexer

/-- The lexer has read these tokens, the last one first, though a number may still go on. -/
inductive Holds : Lexer → List Token → Prop
  | ready (tokens : List Token) : Holds ⟨tokens, .nothing⟩ tokens
  | number {tokens : List Token} {n : Numeral} {phase : NumeralPhase}
      (canEnd : phase.canEnd = true) : Holds ⟨tokens, .numeral n phase⟩ (ofNumeral n :: tokens)

/-- A character that a number does not go on with. -/
def Delimits (c : Char) : Prop :=
  digit? c = none ∧ c ≠ '.' ∧ c ≠ 'e' ∧ c ≠ 'E'

instance (c : Char) : Decidable (Delimits c) := inferInstanceAs (Decidable (_ ∧ _))

/-- A text that no number goes on in. -/
def Delimited (text : List Char) : Prop :=
  ∀ c ∈ text.head?, Delimits c

theorem delimited_nil : Delimited [] := by
  intro c same
  cases same

theorem delimited_cons {c : Char} (delimits : Delimits c) (text : List Char) :
    Delimited (c :: text) := by
  intro c same
  cases same
  exact delimits

namespace Holds

variable {lexer : Lexer} {tokens : List Token}

theorem finish (holds : Holds lexer tokens) : lexer.finish = tokens := by
  cases holds with
  | ready => rfl
  | number canEnd => exact congrArg (· :: _) (if_pos canEnd)

theorem step (holds : Holds lexer tokens) {c : Char} (delimits : Delimits c) :
    lexer.step c = Lexer.step ⟨tokens, .nothing⟩ c := by
  cases holds with
  | ready => rfl
  | @number tokens n phase canEnd =>
      obtain ⟨noDigit, noPoint, noMark, noOtherMark⟩ := delimits
      have ended : Lexer.endNumeral ⟨tokens, .numeral n phase⟩ n phase c =
          Lexer.begin ⟨ofNumeral n :: tokens, .nothing⟩ c := by
        unfold endNumeral
        rw [if_pos canEnd]
        rfl
      change Lexer.stepNumeral _ n phase c = _
      unfold stepNumeral
      rw [noDigit]
      dsimp only
      split <;> first | contradiction | cases canEnd | exact ended

/-- Before the rest of a text, a number might as well be complete. -/
theorem rest (holds : Holds lexer tokens) {text : List Char} (delimited : Delimited text) :
    (text.foldl Lexer.step lexer).finish =
      (text.foldl Lexer.step ⟨tokens, .nothing⟩).finish := by
  cases text with
  | nil => exact holds.finish
  | cons c text => rw [List.foldl_cons, List.foldl_cons, holds.step (delimited c rfl)]

end Holds

/-! ### Strings -/

/-- The lexer inside a string of which these characters were read, the last one first. -/
def inside (tokens : List Token) (read : List Char) : Lexer :=
  ⟨tokens, .chars ⟨read, true, none⟩ .plain⟩

theorem step_escape (tokens : List Token) (read : List Char) (c : Char) :
    (Json.escape c).foldl Lexer.step (inside tokens read) = inside tokens (c :: read) := by
  unfold Json.escape
  split
  next same => subst same; rfl
  split
  next same => subst same; rfl
  split
  next same => subst same; rfl
  split
  next same => subst same; rfl
  split
  next same => subst same; rfl
  split
  next same => subst same; rfl
  split
  next same => subst same; rfl
  split
  next low =>
    have below : c.toNat < 32 := low
    have same : c = Char.ofNat c.toNat := (Char.ofNat_toNat c).symm
    generalize c.toNat = code at below same ⊢
    subst same
    interval_cases code <;> rfl
  next notQuote notBackslash _ _ _ _ _ high =>
    change Lexer.stepChars _ _ .plain c = _
    unfold stepChars
    dsimp only
    rw [if_neg notQuote, if_neg notBackslash, if_neg high]
    rfl

theorem step_escapes (tokens : List Token) (read text : List Char) :
    (text.flatMap Json.escape).foldl Lexer.step (inside tokens read) =
      inside tokens (text.reverse ++ read) := by
  induction text generalizing read with
  | nil => rfl
  | cons c text inductionHypothesis =>
      rw [List.flatMap_cons, List.foldl_append, step_escape, inductionHypothesis,
        List.reverse_cons, List.append_assoc, List.singleton_append]

theorem step_quoted (tokens : List Token) (s : String) :
    (Json.quoted s).foldl Lexer.step ⟨tokens, .nothing⟩ = ⟨.text (.ok s) :: tokens, .nothing⟩ := by
  have opened : Lexer.step ⟨tokens, .nothing⟩ '"' = inside tokens [] := rfl
  rw [Json.quoted, List.foldl_cons, opened, List.foldl_append, step_escapes, List.append_nil]
  change Lexer.mk (.text (.ok (String.ofList s.toList.reverse.reverse)) :: tokens) .nothing = _
  rw [List.reverse_reverse, String.ofList_toList]

/-! ### Numbers -/

theorem absorb_concat {start value digit : Nat} {digits : List Nat}
    (absorbed : Numeral.absorb start digits = (value, 0)) (fits : value * 10 + digit < wordEnd) :
    Numeral.absorb start (digits ++ [digit]) = (value * 10 + digit, 0) := by
  induction digits generalizing start with
  | nil =>
      cases absorbed
      exact if_pos fits
  | cons first digits inductionHypothesis =>
      rw [Numeral.absorb] at absorbed
      rw [List.cons_append, Numeral.absorb]
      split at absorbed
      next here => rw [if_pos here, inductionHypothesis absorbed]
      next => cases absorbed

/-- The lexer before the first digit of a number. -/
def unsigned (tokens : List Token) : (negative : Bool) → Lexer
  | true => ⟨tokens, .numeral ⟨true, [], none, none⟩ .sign⟩
  | false => ⟨tokens, .nothing⟩

theorem step_firstDigit (tokens : List Token) (negative : Bool) {digit : Nat} (small : digit < 10) :
    (unsigned tokens negative).step digit.digitChar =
      ⟨tokens, .numeral ⟨negative, [digit], none, none⟩ (if digit = 0 then .zero else .whole)⟩ := by
  cases negative with
  | true | false => interval_cases digit <;> rfl

theorem step_digit (tokens : List Token) (n : Numeral) {digit : Nat} (small : digit < 10) :
    Lexer.step ⟨tokens, .numeral n .whole⟩ digit.digitChar =
      ⟨tokens, .numeral { n with whole := digit :: n.whole } .whole⟩ := by
  interval_cases digit <;> rfl

theorem step_digits (tokens : List Token) (negative : Bool) {n : Nat} (fits : n < wordEnd) :
    ∃ whole, Numeral.absorb 0 whole.reverse = (n, 0) ∧
      (Nat.toDigits 10 n).foldl Lexer.step (unsigned tokens negative) =
        ⟨tokens, .numeral ⟨negative, whole, none, none⟩ (if n = 0 then .zero else .whole)⟩ := by
  induction n using Nat.strongRecOn with
  | ind n inductionHypothesis =>
      by_cases small : n < 10
      · rw [Nat.toDigits_of_lt_base small, List.foldl_cons, step_firstDigit _ _ small]
        refine ⟨[n], ?_, rfl⟩
        have absorbed : Numeral.absorb 0 ([] ++ [n]) = (0 * 10 + n, 0) :=
          absorb_concat rfl (by omega)
        rwa [Nat.zero_mul, Nat.zero_add] at absorbed
      · obtain ⟨whole, absorbed, reached⟩ := inductionHypothesis (n / 10) (by omega) (by omega)
        rw [Nat.toDigits_of_base_le (by decide) (by omega), List.foldl_append, reached,
          if_neg (by omega : n / 10 ≠ 0), if_neg (by omega : n ≠ 0)]
        refine ⟨n % 10 :: whole, ?_, step_digit _ _ (by omega)⟩
        rw [List.reverse_cons, absorb_concat absorbed (by omega)]
        exact congrArg (·, 0) (by omega)

theorem value?_of_absorbed {negative : Bool} {digits : List Nat} {n : Nat}
    (absorbed : Numeral.absorb 0 digits = (n, 0)) (signed : negative = true → n ≠ 0)
    (fits : negative = true → n ≤ integerEnd) :
    Numeral.value? ⟨negative, digits, none, none⟩ =
      some (.int (if negative then -n else n)) := by
  unfold Numeral.value?
  rw [absorbed]
  cases negative with
  | false => rfl
  | true => exact if_neg (not_or.mpr ⟨signed rfl, Int.not_lt.mpr (fits rfl)⟩)

/-- The digits of a number, after its sign if it has one. -/
theorem holds_digits (tokens : List Token) (negative : Bool) {n : Nat} (fits : n < wordEnd)
    (signed : negative = true → n ≠ 0) (small : negative = true → n ≤ integerEnd) :
    Holds ((Nat.toDigits 10 n).foldl Lexer.step (unsigned tokens negative))
      (.scalar (.ok (.int (if negative then -n else n))) :: tokens) := by
  obtain ⟨whole, absorbed, reached⟩ := step_digits tokens negative fits
  have same : ofNumeral ⟨negative, whole, none, none⟩ =
      .scalar (.ok (.int (if negative then -n else n))) := by
    unfold ofNumeral
    dsimp only [Option.map_none]
    rw [value?_of_absorbed absorbed signed small]
    rfl
  rw [reached, ← same]
  refine .number ?_
  split <;> rfl

theorem step_scalar (tokens : List Token) {value : Scalar} (exact : value.Exact) :
    Holds ((Json.scalarText value).toList.foldl Lexer.step ⟨tokens, .nothing⟩)
      (.scalar (.ok value) :: tokens) := by
  cases value with
  | null => exact .ready _
  | bool value =>
      cases value with
      | true | false => exact .ready _
  | float x => exact exact.elim
  | int n =>
      obtain ⟨above, below⟩ := exact
      cases n with
      | ofNat n =>
          have text : Json.scalarText (.int n) = String.ofList (Nat.toDigits 10 n) :=
            Nat.repr_eq_ofList_toDigits
          have held := holds_digits tokens false (Int.ofNat_lt.mp below) nofun nofun
          rwa [Int.ofNat_eq_natCast, text, String.toList_ofList]
      | negSucc n =>
          have text : (Json.scalarText (.int (.negSucc n))).toList =
              '-' :: Nat.toDigits 10 (n + 1) := by
            change ("-" ++ (n + 1).repr).toList = _
            rw [String.toList_append, Nat.repr_eq_ofList_toDigits]
            exact congrArg ('-' :: ·) String.toList_ofList
          rw [text]
          have small : ((n + 1 : Nat) : Int) ≤ integerEnd := by omega
          have fits : n + 1 < wordEnd := by
            unfold integerEnd at small
            unfold wordEnd
            omega
          exact holds_digits tokens true fits (fun _ => Nat.succ_ne_zero n) fun _ => small

/-! ### Written values -/

/-- A text of these tokens, with blanks between them. -/
inductive Spells : List Char → List Token → Prop
  | done : Spells [] []
  | blank {c : Char} {text : List Char} {tokens : List Token} (blank : isBlank c = true)
      (rest : Spells text tokens) : Spells (c :: text) tokens
  | mark {c : Char} {token : Token} {text : List Char} {tokens : List Token}
      (reads : ∀ before, Lexer.step ⟨before, .nothing⟩ c = ⟨token :: before, .nothing⟩)
      (rest : Spells text tokens) : Spells (c :: text) (token :: tokens)
  | text (s : String) {text : List Char} {tokens : List Token}
      (rest : Spells text tokens) : Spells (Json.quoted s ++ text) (.text (.ok s) :: tokens)
  | scalar {value : Scalar} (exact : value.Exact) {text : List Char} {tokens : List Token}
      (delimited : Delimited text) (rest : Spells text tokens) :
      Spells ((Json.scalarText value).toList ++ text) (.scalar (.ok value) :: tokens)

theorem Spells.finish {text : List Char} {tokens : List Token} (spells : Spells text tokens)
    (before : List Token) :
    (text.foldl Lexer.step ⟨before, .nothing⟩).finish = tokens.reverse ++ before := by
  induction spells generalizing before with
  | done => rfl
  | @blank c text tokens blank rest inductionHypothesis =>
      have stays : Lexer.step ⟨before, .nothing⟩ c = ⟨before, .nothing⟩ := if_pos blank
      rw [List.foldl_cons, stays, inductionHypothesis]
  | mark reads rest inductionHypothesis =>
      rw [List.foldl_cons, reads, inductionHypothesis, List.reverse_cons, List.append_assoc,
        List.singleton_append]
  | text s rest inductionHypothesis =>
      rw [List.foldl_append, step_quoted, inductionHypothesis, List.reverse_cons,
        List.append_assoc, List.singleton_append]
  | scalar exact delimited rest inductionHypothesis =>
      rw [List.foldl_append, (step_scalar before exact).rest delimited, inductionHypothesis,
        List.reverse_cons, List.append_assoc, List.singleton_append]

end Lexer

theorem ofChars_of_spells {text : List Char} {tokens : List Token}
    (spells : Lexer.Spells text tokens) : ofChars text = tokens := by
  unfold ofChars Lexer.start
  rw [spells.finish, List.append_nil, List.reverse_reverse]

end Token

end ReferenceSemantics
