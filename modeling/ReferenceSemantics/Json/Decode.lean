import ReferenceSemantics.Json.Tree

set_option autoImplicit false

/-!
Reading documents from the trees of their texts.

A text is read from its front to its end, and the first problem in that order is the error: a name
or a value of the wrong shape is one as soon as it is met. Opening one container more than the
document may have open is malformed; a value that is passed over may have any depth. An object that
tells by a tag what it is, is taken in whole first, and read again when its tag is known.
-/

namespace ReferenceSemantics

/-- The most containers that may be open at once in a document. -/
def maxDepth : Nat := 127

/-- Where a value is read: from the text, where so many containers may still be opened, or from
something that was taken in whole. -/
inductive Setting where
  | text (depth : Nat)
  | whole

namespace Setting

/-- The setting inside a container. -/
def inner : Setting → Except ReadError Setting
  | text 0 => .error .malformed
  | text (depth + 1) => .ok (text depth)
  | whole => .ok whole

/-- The error for a part that no field is left for. -/
def surplus : Setting → ReadError
  | text _ => .malformed
  | whole => .mismatched

end Setting

namespace Tree

/-- The error where a value of another shape is expected; a text or scalar is read nevertheless. -/
def misfit : Tree → ReadError
  | text (.error flaw) | scalar (.error flaw) => flaw.read
  | absent error => error
  | _ => .mismatched

def readName (name : Except Flaw String) : Except ReadError String := name.mapError Flaw.read

/-- The end of a container. -/
def close : Option ReadError → Except ReadError Unit
  | none => .ok ()
  | some error => .error error

mutual

/-- Go through a value without reading it; `fault` says which flaws matter. -/
def check (fault : Flaw → Option ReadError) (setting : Setting) : Tree → Except ReadError Unit
  | text (.error flaw) | scalar (.error flaw) => close (fault flaw)
  | text (.ok _) | scalar (.ok _) => .ok ()
  | absent error => .error error
  | arr items ending => do
      checkItems fault (← setting.inner) items
      close ending
  | obj members ending => do
      checkMembers fault (← setting.inner) members
      close ending

def checkItems (fault : Flaw → Option ReadError) (setting : Setting) :
    List Tree → Except ReadError Unit
  | [] => .ok ()
  | item :: items => do
      item.check fault setting
      checkItems fault setting items

def checkMembers (fault : Flaw → Option ReadError) (setting : Setting) :
    Members → Except ReadError Unit
  | [] => .ok ()
  | (name, value) :: members => do
      match name with
      | .error flaw => close (fault flaw)
      | .ok _ => .ok ()
      value.check fault setting
      checkMembers fault setting members

end

/-- Pass over a value. -/
def skip (tree : Tree) : Except ReadError Unit := tree.check Flaw.skip .whole

/-- Take in a value whole, so that every part of it can be read. -/
def takeIn (setting : Setting) (tree : Tree) : Except ReadError Unit :=
  match setting with
  | .text _ => tree.check (fun flaw => some flaw.read) setting
  | .whole => .ok ()

end Tree

/-- A way to read values of a type. -/
structure Decoder (α : Type) where
  read : Setting → Tree → Except ReadError α

namespace Decoder

variable {α β : Type}

instance : Functor Decoder where
  map f decoder := ⟨fun setting tree => f <$> decoder.read setting tree⟩

/-- The document in a text. -/
def readText (decoder : Decoder α) (text : String) : Except ReadError α := do
  let document := Tree.Document.ofText text
  let value ← decoder.read (.text maxDepth) document.tree
  if document.trailing then .error .malformed else .ok value

/-! ## Leaves -/

def text : Decoder String where
  read
    | _, .text (.ok s) => .ok s
    | _, tree => .error tree.misfit

def flag : Decoder Bool where
  read
    | _, .scalar (.ok (.bool b)) => .ok b
    | _, tree => .error tree.misfit

/-- A natural number of 64 bits. -/
def word : Decoder Nat where
  read
    | _, .scalar (.ok (.int n)) =>
        if 0 ≤ n ∧ n < wordEnd then .ok n.toNat else .error .mismatched
    | _, tree => .error tree.misfit

/-- An integer of 64 bits with a sign. -/
def integer : Decoder Int where
  read
    | _, .scalar (.ok (.int n)) =>
        if -integerEnd ≤ n ∧ n < integerEnd then .ok n else .error .mismatched
    | _, tree => .error tree.misfit

/-- A double, which may be written as an integer. -/
def float : Decoder Binary64 where
  read
    | _, .scalar (.ok (.int n)) => .ok (.ofInt n)
    | _, .scalar (.ok (.float x)) => .ok x
    | _, tree => .error tree.misfit

/-! ## Choices and lists -/

/-- Absent when `null`. -/
def option (decoder : Decoder α) : Decoder (Option α) where
  read
    | _, .scalar (.ok .null) => .ok none
    | setting, tree => some <$> decoder.read setting tree

/-- The choice of a name. -/
def chosen (choices : List α) (name : α → String) (written : String) : Except ReadError α :=
  (choices.find? (name · == written)).elim (.error .mismatched) .ok

/-- One of the given choices: its name, or an object with nothing in it but `null` under that name.
In the text anything else is malformed. -/
def choice (choices : List α) (name : α → String) : Decoder α where
  read
    | _, .text (.ok written) => chosen choices name written
    | .text depth, .obj members ending => do
        discard (Setting.text depth).inner
        match members with
        | [] =>
            Tree.close ending
            .error .malformed
        | (key, value) :: others =>
            let found ← chosen choices name (← Tree.readName key)
            match value with
            | .scalar (.ok .null) =>
                if others.isEmpty then
                  Tree.close ending
                  return found
                else .error .malformed
            | value => .error value.misfit
    | .text _, .scalar _ | .text _, .arr _ _ => .error .malformed
    | .whole, .obj [(.ok written, .scalar (.ok .null))] _
    | .whole, .obj [(.ok written, .obj [] _)] _ => chosen choices name written
    | _, tree => .error tree.misfit

def list (decoder : Decoder α) : Decoder (List α) where
  read
    | setting, .arr items ending => do
        let inner ← setting.inner
        let values ← items.mapM (decoder.read inner)
        Tree.close ending
        return values
    | _, tree => .error tree.misfit

/-- Named values; of a repeated name all are listed. -/
def entries (decoder : Decoder α) : Decoder (List (String × α)) where
  read
    | setting, .obj members ending => do
        let inner ← setting.inner
        let values ← members.mapM fun (name, value) => do
          return (← Tree.readName name, ← decoder.read inner value)
        Tree.close ending
        return values
    | _, tree => .error tree.misfit

/-! ## Tagged objects -/

/-- The fields besides a tag, whatever they are. -/
def anything (value : α) : Decoder α where
  read
    | _, .obj _ _ | _, .arr [] _ => .ok value
    | _, _ => .error .mismatched

/-- A tag: a name, or its index in something that was taken in whole. -/
def variant (variants : List (String × Decoder α)) : Decoder (Decoder α) where
  read
    | _, .text (.ok name) => (variants.lookup name).elim (.error .mismatched) .ok
    | .whole, .scalar (.ok (.int (.ofNat index))) =>
        (variants[index]?).elim (.error .mismatched) fun named => .ok named.2
    | _, tree => .error tree.misfit

/-- Find the tag among the members, and take in the others. -/
def tagOfMembers (tag : String) (variant : Decoder (Decoder α)) (setting : Setting) :
    Tree.Members → (found : Option (Decoder α)) →
    Except ReadError (Option (Decoder α) × Tree.Members)
  | [], found => .ok (found, [])
  | (name, value) :: members, found => do
      if (← Tree.readName name) = tag then
        if found.isSome then .error .mismatched
        else
          let decoder ← variant.read setting value
          tagOfMembers tag variant setting members (some decoder)
      else
        value.takeIn setting
        let (found, others) ← tagOfMembers tag variant setting members found
        return (found, (name, value) :: others)

/-- An object with a tag that says how its other members are read, or an array of the tag and the
other fields. The tag is read in one way among the members and in another as the first item. -/
def taggedBy (tag : String) (member item : Decoder (Decoder α)) : Decoder α where
  read
    | setting, .obj members ending => do
        let inner ← setting.inner
        let (found, others) ← tagOfMembers tag member inner members none
        Tree.close ending
        match found with
        | some decoder => decoder.read .whole (.obj others none)
        | none => .error .mismatched
    | setting, .arr items ending => do
        let inner ← setting.inner
        match items with
        | [] =>
            Tree.close ending
            .error .mismatched
        | first :: others =>
            let decoder ← item.read inner first
            others.forM (·.takeIn inner)
            Tree.close ending
            decoder.read .whole (.arr others none)
    | _, tree => .error tree.misfit

/-- A tagged object whose tag is read alike in both forms. -/
def tagged (tag : String) (variants : List (String × Decoder α)) : Decoder α :=
  taggedBy tag (variant variants) (variant variants)

end Decoder

end ReferenceSemantics
