import ReferenceSemantics.Json.Tree
import ReferenceSemantics.Proofs.Json.Lexing

set_option autoImplicit false

/-!
The tree of a written value.

On one line or over several, a value is written as the same tokens, and they make the tree of the
value. Doubles are left out: a number that is not finite is written as `null`.
-/

namespace ReferenceSemantics

namespace Json

mutual

/-- Every scalar in a value is one that a text keeps. -/
def Exact : Json → Prop
  | scalar value => value.Exact
  | str _ => True
  | arr items => ExactItems items
  | obj fields => ExactFields fields

def ExactItems : List Json → Prop
  | [] => True
  | item :: items => item.Exact ∧ ExactItems items

def ExactFields : Fields → Prop
  | [] => True
  | (_, value) :: fields => value.Exact ∧ ExactFields fields

end

mutual

/-- The tokens of the text of a value. -/
def tokens : Json → List Token
  | scalar value => [.scalar (.ok value)]
  | str s => [.text (.ok s)]
  | arr [] => [.opening .square, .closing .square]
  | arr (item :: items) => .opening .square :: (item.tokens ++ tokensItems items)
  | obj [] => [.opening .curly, .closing .curly]
  | obj ((name, value) :: fields) =>
      .opening .curly :: .text (.ok name) :: .colon :: (value.tokens ++ tokensFields fields)

/-- The tokens of the items after the first, and of the end of the array. -/
def tokensItems : List Json → List Token
  | [] => [.closing .square]
  | item :: items => .comma :: (item.tokens ++ tokensItems items)

/-- The tokens of the fields after the first, and of the end of the object. -/
def tokensFields : Fields → List Token
  | [] => [.closing .curly]
  | (name, value) :: fields =>
      .comma :: .text (.ok name) :: .colon :: (value.tokens ++ tokensFields fields)

end

end Json

open Token.Lexer (Spells Delimited delimited_nil delimited_cons)

/-! ### From characters to tokens -/

namespace Token.Lexer.Spells

variable {text : List Char} {tokens : List Token}

theorem newline (level : Nat) (spells : Spells text tokens) :
    Spells (Json.newline level ++ text) tokens := by
  unfold Json.newline
  refine .blank rfl ?_
  generalize 2 * level = blanks
  induction blanks with
  | zero => exact spells
  | succ blanks inductionHypothesis => exact .blank rfl inductionHypothesis

end Token.Lexer.Spells

namespace Json

mutual

theorem line_spells (value : Json) (exact : value.Exact) {text : List Char} {rest : List Token}
    (delimited : Delimited text) (spells : Spells text rest) :
    Spells (value.line ++ text) (value.tokens ++ rest) := by
  cases value with
  | scalar value => exact .scalar exact delimited spells
  | str s => exact .text s spells
  | arr items =>
      cases items with
      | nil => exact .mark (fun _ => rfl) (.mark (fun _ => rfl) spells)
      | cons item items =>
          rw [line, tokens, List.cons_append, List.cons_append, List.append_assoc,
            List.append_assoc]
          obtain ⟨limit, later⟩ := lineItems_spells items exact.2 spells
          exact .mark (fun _ => rfl) (line_spells item exact.1 limit later)
  | obj fields =>
      cases fields with
      | nil => exact .mark (fun _ => rfl) (.mark (fun _ => rfl) spells)
      | cons field fields =>
          obtain ⟨name, value⟩ := field
          rw [line, tokens]
          simp only [List.cons_append, List.append_assoc]
          obtain ⟨limit, later⟩ := lineFields_spells fields exact.2 spells
          refine .mark (fun _ => rfl) (.text name (.mark (fun _ => rfl) ?_))
          exact line_spells value exact.1 limit later

theorem lineItems_spells (items : List Json) (exact : ExactItems items)
    {text : List Char} {rest : List Token} (spells : Spells text rest) :
    Delimited (lineItems items ++ text) ∧
      Spells (lineItems items ++ text) (tokensItems items ++ rest) := by
  cases items with
  | nil => exact ⟨delimited_cons (by decide) _, .mark (fun _ => rfl) spells⟩
  | cons item items =>
      rw [lineItems, tokensItems, List.cons_append, List.cons_append, List.append_assoc,
        List.append_assoc]
      obtain ⟨limit, later⟩ := lineItems_spells items exact.2 spells
      exact ⟨delimited_cons (by decide) _,
        .mark (fun _ => rfl) (line_spells item exact.1 limit later)⟩

theorem lineFields_spells (fields : Fields) (exact : ExactFields fields)
    {text : List Char} {rest : List Token} (spells : Spells text rest) :
    Delimited (lineFields fields ++ text) ∧
      Spells (lineFields fields ++ text) (tokensFields fields ++ rest) := by
  cases fields with
  | nil => exact ⟨delimited_cons (by decide) _, .mark (fun _ => rfl) spells⟩
  | cons field fields =>
      obtain ⟨name, value⟩ := field
      rw [lineFields, tokensFields]
      simp only [List.cons_append, List.append_assoc]
      obtain ⟨limit, later⟩ := lineFields_spells fields exact.2 spells
      refine ⟨delimited_cons (by decide) _, .mark (fun _ => rfl) ?_⟩
      exact .text name (.mark (fun _ => rfl) (line_spells value exact.1 limit later))

end

mutual

theorem lines_spells (level : Nat) (value : Json) (exact : value.Exact) {text : List Char}
    {rest : List Token} (delimited : Delimited text) (spells : Spells text rest) :
    Spells (value.lines level ++ text) (value.tokens ++ rest) := by
  cases value with
  | scalar value => exact .scalar exact delimited spells
  | str s => exact .text s spells
  | arr items =>
      cases items with
      | nil => exact .mark (fun _ => rfl) (.mark (fun _ => rfl) spells)
      | cons item items =>
          rw [lines, tokens]
          simp only [List.cons_append, List.append_assoc]
          obtain ⟨limit, later⟩ := linesItems_spells level items exact.2 spells
          refine .mark (fun _ => rfl) (.newline _ ?_)
          exact lines_spells (level + 1) item exact.1 limit later
  | obj fields =>
      cases fields with
      | nil => exact .mark (fun _ => rfl) (.mark (fun _ => rfl) spells)
      | cons field fields =>
          obtain ⟨name, value⟩ := field
          rw [lines, tokens]
          simp only [List.cons_append, List.append_assoc]
          obtain ⟨limit, later⟩ := linesFields_spells level fields exact.2 spells
          refine .mark (fun _ => rfl) (.newline _ (.text name (.mark (fun _ => rfl) ?_)))
          exact .blank rfl (lines_spells (level + 1) value exact.1 limit later)

theorem linesItems_spells (level : Nat) (items : List Json) (exact : ExactItems items)
    {text : List Char} {rest : List Token} (spells : Spells text rest) :
    Delimited (linesItems level items ++ text) ∧
      Spells (linesItems level items ++ text) (tokensItems items ++ rest) := by
  cases items with
  | nil =>
      rw [linesItems, tokensItems, List.append_assoc]
      exact ⟨delimited_cons (by decide) _, .newline _ (.mark (fun _ => rfl) spells)⟩
  | cons item items =>
      rw [linesItems, tokensItems]
      simp only [List.cons_append, List.append_assoc]
      obtain ⟨limit, later⟩ := linesItems_spells level items exact.2 spells
      refine ⟨delimited_cons (by decide) _, .mark (fun _ => rfl) (.newline _ ?_)⟩
      exact lines_spells (level + 1) item exact.1 limit later

theorem linesFields_spells (level : Nat) (fields : Fields) (exact : ExactFields fields)
    {text : List Char} {rest : List Token} (spells : Spells text rest) :
    Delimited (linesFields level fields ++ text) ∧
      Spells (linesFields level fields ++ text) (tokensFields fields ++ rest) := by
  cases fields with
  | nil =>
      rw [linesFields, tokensFields, List.append_assoc]
      exact ⟨delimited_cons (by decide) _, .newline _ (.mark (fun _ => rfl) spells)⟩
  | cons field fields =>
      obtain ⟨name, value⟩ := field
      rw [linesFields, tokensFields]
      simp only [List.cons_append, List.append_assoc]
      obtain ⟨limit, later⟩ := linesFields_spells level fields exact.2 spells
      refine ⟨delimited_cons (by decide) _, .mark (fun _ => rfl) (.newline _ ?_)⟩
      refine .text name (.mark (fun _ => rfl) (.blank rfl ?_))
      exact lines_spells (level + 1) value exact.1 limit later

end

theorem spells_compact {value : Json} (exact : value.Exact) :
    Spells value.compact.toList value.tokens := by
  have spells := line_spells value exact delimited_nil .done
  rw [List.append_nil, List.append_nil] at spells
  rwa [compact, String.toList_ofList]

theorem spells_pretty {value : Json} (exact : value.Exact) :
    Spells value.pretty.toList value.tokens := by
  have spells := lines_spells 0 value exact delimited_nil .done
  rw [List.append_nil, List.append_nil] at spells
  rwa [pretty, String.toList_ofList]

end Json

/-! ### From tokens to trees -/

namespace Tree

variable {stack : List Container} {rest : List Token}

theorem build_next {position next : Position} {stack after : List Container} {token : Token}
    {tokens : List Token} (stepped : step stack position token = .next after next) :
    build stack position (token :: tokens) = build after next tokens := by
  rw [build, stepped]

/-- An array that does not end at once has a first item. -/
theorem build_firstItem (value : Json) :
    build stack .firstItem (value.tokens ++ rest) =
      build (.arr [] :: stack) .value (value.tokens ++ rest) := by
  cases value with
  | scalar value => rfl
  | str s => rfl
  | arr items => cases items <;> rfl
  | obj fields => cases fields <;> rfl

mutual

theorem build_tokens (value : Json) (stack : List Container) (rest : List Token) :
    build stack .value (value.tokens ++ rest) = build stack (.after value.tree) rest := by
  cases value with
  | scalar value => rfl
  | str s => rfl
  | arr items =>
      cases items with
      | nil => rfl
      | cons item items =>
          rw [Json.tokens, List.cons_append, List.append_assoc, build_next rfl, build_firstItem,
            build_tokens item, build_items items]
          rfl
  | obj fields =>
      cases fields with
      | nil => rfl
      | cons field fields =>
          obtain ⟨name, value⟩ := field
          rw [Json.tokens]
          simp only [List.cons_append, List.append_assoc]
          rw [build_next rfl, build_next rfl, build_next rfl, build_tokens value,
            build_fields fields]
          rfl

theorem build_items (items : List Json) (read : List Tree) (last : Tree) (stack : List Container)
    (rest : List Token) :
    build (.arr read :: stack) (.after last) (Json.tokensItems items ++ rest) =
      build stack (.after (.arr ((last :: read).reverse ++ Json.treeItems items) none)) rest := by
  cases items with
  | nil => rw [Json.treeItems, List.append_nil]; rfl
  | cons item items =>
      have joined : (item.tree :: last :: read).reverse = (last :: read).reverse ++ [item.tree] :=
        List.reverse_cons
      rw [Json.tokensItems, List.cons_append, List.append_assoc, build_next rfl,
        build_tokens item, build_items items, joined, List.append_assoc, List.singleton_append,
        Json.treeItems]

theorem build_fields (fields : Fields) (read : Members) (name : Except Flaw String) (last : Tree)
    (stack : List Container) (rest : List Token) :
    build (.obj read name :: stack) (.after last) (Json.tokensFields fields ++ rest) =
      build stack (.after (.obj (((name, last) :: read).reverse ++ Json.treeFields fields) none))
        rest := by
  cases fields with
  | nil => rw [Json.treeFields, List.append_nil]; rfl
  | cons field fields =>
      obtain ⟨name, value⟩ := field
      rw [Json.tokensFields]
      simp only [List.cons_append, List.append_assoc]
      rw [build_next rfl, build_next rfl, build_next rfl, build_tokens value, build_fields fields,
        List.reverse_cons, List.append_assoc, List.singleton_append, Json.treeFields]

end

theorem Document.ofText_of_spells {text : String} {value : Json}
    (spells : Spells text.toList value.tokens) : Document.ofText text = ⟨value.tree, false⟩ := by
  have built := build_tokens value [] []
  rw [List.append_nil] at built
  unfold Document.ofText
  rw [Token.ofChars_of_spells spells, built]
  rfl

end Tree

end ReferenceSemantics
