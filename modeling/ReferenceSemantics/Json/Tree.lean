import ReferenceSemantics.Json.Token

set_option autoImplicit false

/-!
The tree of a JSON text, good or bad.

Up to the first place that no reader gets past, the tree is that of the text. There stands an
absent value, a flawed leaf or name, or a container with an error for its end, and the containers
around it end early. A reader that goes through the tree in the order of the text comes upon that place before
it needs the end of any of them.
-/

namespace ReferenceSemantics

inductive Tree where
  | text (value : Except Flaw String)
  | scalar (value : Except Flaw Scalar)
  /-- No value stands here. -/
  | absent (error : ReadError)
  /-- `ending` is the error that stands in place of the closing bracket, if any. -/
  | arr (items : List Tree) (ending : Option ReadError)
  | obj (members : List (Except Flaw String × Tree)) (ending : Option ReadError)
deriving Inhabited

namespace Tree

abbrev Members := List (Except Flaw String × Tree)

/-- An open container with the parts read so far, the last one first. -/
inductive Container where
  | arr (items : List Tree)
  | obj (members : Members) (name : Except Flaw String)

/-- What may stand at the present position. -/
inductive Position where
  | value
  /-- The first item of an array, or its end. -/
  | firstItem
  /-- The first name of an object, or its end. -/
  | firstName
  /-- A name, in an object with these members. -/
  | name (members : Members)
  | colon (members : Members) (name : Except Flaw String)
  /-- A value is complete. -/
  | after (value : Tree)

def Container.bracket : Container → Bracket
  | .arr _ => .square
  | .obj _ _ => .curly

/-- The container with its last part, and an error in place of its end, if any. -/
def Container.close (container : Container) (last : Tree) (ending : Option ReadError) : Tree :=
  match container with
  | .arr items => .arr (last :: items).reverse ending
  | .obj members name => .obj ((name, last) :: members).reverse ending

/-- The tree of a text that ends inside all of the open containers. -/
def enclose (tree : Tree) (stack : List Container) : Tree :=
  stack.foldl (fun last container => container.close last (some .truncated)) tree

/-- The tree of a text that ends at this position. -/
def cutOff (stack : List Container) : Position → Tree
  | .value => enclose (.absent .truncated) stack
  | .firstItem => enclose (.arr [] (some .truncated)) stack
  | .firstName => enclose (.obj [] (some .truncated)) stack
  | .name members => enclose (.absent .truncated) (.obj members (.error .truncated) :: stack)
  | .colon members name => enclose (.absent .truncated) (.obj members name :: stack)
  | .after value => enclose value stack

/-- The tree of a text, and whether something follows it. -/
structure Document where
  tree : Tree
  trailing : Bool

/-- Reading goes on at another position, or no reader gets further. -/
inductive Outcome where
  | next (stack : List Container) (position : Position)
  | stop (document : Document)

def stop (tree : Tree) (stack : List Container) : Outcome := .stop ⟨tree.enclose stack, false⟩

/-- A token where a value may stand. -/
def beginValue (stack : List Container) : Token → Outcome
  | .opening .square => .next stack .firstItem
  | .opening .curly => .next stack .firstName
  | .text value => .next stack (.after (.text value))
  | .scalar value => .next stack (.after (.scalar value))
  | _ => stop (.absent .malformed) stack

/-- A token where a name may stand. -/
def beginName (stack : List Container) (members : Members) : Token → Outcome
  | .text name => .next stack (.colon members name)
  | _ => stop (.absent .malformed) (.obj members (.error .malformed) :: stack)

/-- A token after a complete value. -/
def afterValue (stack : List Container) (value : Tree) (token : Token) : Outcome :=
  match stack, token with
  | [], _ => .stop ⟨value, true⟩
  | .arr items :: rest, .comma => .next (.arr (value :: items) :: rest) .value
  | .obj members name :: rest, .comma => .next rest (.name ((name, value) :: members))
  | container :: rest, token =>
      if token.closes container.bracket then .next rest (.after (container.close value none))
      else stop (container.close value (some .malformed)) rest

def step (stack : List Container) (position : Position) (token : Token) : Outcome :=
  match position, token with
  | .value, token => beginValue stack token
  | .firstItem, .closing .square => .next stack (.after (.arr [] none))
  | .firstItem, token => beginValue (.arr [] :: stack) token
  | .firstName, .closing .curly => .next stack (.after (.obj [] none))
  | .firstName, token => beginName stack [] token
  | .name members, token => beginName stack members token
  | .colon members name, .colon => .next (.obj members name :: stack) .value
  | .colon members name, _ => stop (.absent .malformed) (.obj members name :: stack)
  | .after value, token => afterValue stack value token

def build (stack : List Container) (position : Position) : List Token → Document
  | [] => ⟨cutOff stack position, false⟩
  | token :: tokens =>
      match step stack position token with
      | .next stack position => build stack position tokens
      | .stop document => document

def Document.ofText (text : String) : Document := build [] .value (Token.ofChars text.toList)

end Tree

mutual

/-- The tree of the text of a value. -/
def Json.tree : Json → Tree
  | .scalar value => .scalar (.ok value)
  | .str value => .text (.ok value)
  | .arr items => .arr (treeItems items) none
  | .obj fields => .obj (treeFields fields) none

def Json.treeItems : List Json → List Tree
  | [] => []
  | item :: items => item.tree :: treeItems items

def Json.treeFields : Fields → Tree.Members
  | [] => []
  | (name, value) :: fields => (.ok name, value.tree) :: treeFields fields

end

end ReferenceSemantics
