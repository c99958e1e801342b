import ReferenceSemantics.Json.Record
import ReferenceSemantics.Proofs.Json.Reading

set_option autoImplicit false

/-!
Reading documents from the trees of written values.

A value is read alike wherever as many containers may be opened as it has, in a text as in something
that was taken in whole. A record is read from its fields in their declared order; a tagged object
from its tag and the record after it.
-/

namespace ReferenceSemantics

namespace Setting

/-- So many containers may be opened here, one in another. -/
def Admits : Setting → Nat → Prop
  | text depth, height => height ≤ depth
  | whole, _ => True

variable {setting : Setting} {height more : Nat}

theorem Admits.mono (admits : setting.Admits more) (le : height ≤ more) :
    setting.Admits height := by
  cases setting with
  | text depth => exact Nat.le_trans le admits
  | whole => trivial

theorem Admits.inner (admits : setting.Admits (height + 1)) :
    ∃ inner, setting.inner = .ok inner ∧ inner.Admits height := by
  cases setting with
  | text depth =>
      cases depth with
      | zero => cases admits
      | succ depth => exact ⟨.text depth, rfl, Nat.le_of_succ_le_succ admits⟩
  | whole => exact ⟨.whole, rfl, trivial⟩

end Setting

namespace Json

theorem exactFields_append {fields others : Fields} (exact : ExactFields fields)
    (alsoExact : ExactFields others) : ExactFields (fields ++ others) := by
  induction fields with
  | nil => exact alsoExact
  | cons field fields inductionHypothesis => exact ⟨exact.1, inductionHypothesis exact.2⟩

theorem heightFields_append (fields others : Fields) :
    heightFields (fields ++ others) = max (heightFields fields) (heightFields others) := by
  induction fields with
  | nil => rw [List.nil_append, heightFields, Nat.zero_max]
  | cons field fields inductionHypothesis =>
      rw [List.cons_append, heightFields, heightFields, inductionHypothesis, Nat.max_assoc]

theorem height_le_heightItems {item : Json} {items : List Json} (member : item ∈ items) :
    item.height ≤ heightItems items := by
  induction items with
  | nil => cases member
  | cons first items inductionHypothesis =>
      rw [heightItems]
      cases member with
      | head => exact Nat.le_max_left ..
      | tail _ later => exact Nat.le_trans (inductionHypothesis later) (Nat.le_max_right ..)

theorem height_le_heightFields {field : String × Json} {fields : Fields} (member : field ∈ fields) :
    field.2.height ≤ heightFields fields := by
  induction fields with
  | nil => cases member
  | cons first fields inductionHypothesis =>
      rw [heightFields]
      cases member with
      | head => exact Nat.le_max_left ..
      | tail _ later => exact Nat.le_trans (inductionHypothesis later) (Nat.le_max_right ..)

mutual

theorem check_tree (fault : Flaw → Option ReadError) (value : Json) {setting : Setting}
    (admits : setting.Admits value.height) : value.tree.check fault setting = .ok () := by
  cases value with
  | scalar value => rfl
  | str s => rfl
  | arr items =>
      obtain ⟨inner, opened, room⟩ := admits.inner
      rw [tree, Tree.check, opened]
      dsimp only [bind, Except.bind]
      rw [checkItems_tree fault items room]
      rfl
  | obj fields =>
      obtain ⟨inner, opened, room⟩ := admits.inner
      rw [tree, Tree.check, opened]
      dsimp only [bind, Except.bind]
      rw [checkMembers_tree fault fields room]
      rfl

theorem checkItems_tree (fault : Flaw → Option ReadError) (items : List Json) {setting : Setting}
    (admits : setting.Admits (heightItems items)) :
    Tree.checkItems fault setting (treeItems items) = .ok () := by
  cases items with
  | nil => rfl
  | cons item items =>
      rw [treeItems, Tree.checkItems,
        check_tree fault item (admits.mono (Nat.le_max_left ..))]
      exact checkItems_tree fault items (admits.mono (Nat.le_max_right ..))

theorem checkMembers_tree (fault : Flaw → Option ReadError) (fields : Fields) {setting : Setting}
    (admits : setting.Admits (heightFields fields)) :
    Tree.checkMembers fault setting (treeFields fields) = .ok () := by
  cases fields with
  | nil => rfl
  | cons field fields =>
      obtain ⟨name, value⟩ := field
      rw [treeFields, Tree.checkMembers]
      dsimp only [bind, Except.bind]
      rw [check_tree fault value (admits.mono (Nat.le_max_left ..))]
      exact checkMembers_tree fault fields (admits.mono (Nat.le_max_right ..))

end

theorem takeIn_tree {value : Json} {setting : Setting} (admits : setting.Admits value.height) :
    value.tree.takeIn setting = .ok () := by
  cases setting with
  | text depth => exact check_tree _ value admits
  | whole => rfl

end Json

namespace Decoder

variable {α β : Type} {decoder : Decoder α} {json : Json} {value : α}

/-- A text keeps the written value, and the decoder reads this from its tree. -/
structure Reads (decoder : Decoder α) (json : Json) (value : α) : Prop where
  exact : json.Exact
  read : ∀ setting, setting.Admits json.height → decoder.read setting json.tree = .ok value

theorem Reads.readText {text : String} (reads : decoder.Reads json value)
    (spells : Token.Lexer.Spells text.toList json.tokens) (height : json.height ≤ maxDepth) :
    decoder.readText text = .ok value := by
  unfold Decoder.readText
  rw [Tree.Document.ofText_of_spells spells]
  dsimp only
  rw [reads.read (.text maxDepth) height]
  rfl

theorem Reads.map (f : α → β) (reads : decoder.Reads json value) :
    (f <$> decoder).Reads json (f value) where
  exact := reads.exact
  read setting admits := by
    change f <$> decoder.read setting json.tree = _
    rw [reads.read setting admits]
    rfl

/-! ### Leaves, choices and lists -/

theorem reads_text (s : String) : text.Reads (.str s) s := ⟨trivial, fun _ _ => rfl⟩

theorem reads_flag (b : Bool) : flag.Reads (.bool b) b := ⟨trivial, fun _ _ => rfl⟩

theorem reads_word {n : Nat} (fits : n < wordEnd) : word.Reads (.ofNat n) n := by
  have below : (n : Int) < wordEnd := Int.ofNat_lt.mpr fits
  have above : -integerEnd ≤ (n : Int) := by unfold integerEnd; omega
  refine ⟨⟨above, below⟩, fun setting _ => ?_⟩
  rw [Json.ofNat, Json.tree, Decoder.word]
  dsimp only
  rw [if_pos ⟨Int.natCast_nonneg n, below⟩, Int.toNat_natCast]

theorem reads_integer {n : Int} (fits : -integerEnd ≤ n ∧ n < integerEnd) :
    integer.Reads (.int n) n := by
  have below : n < (wordEnd : Int) := by unfold integerEnd at fits; unfold wordEnd; omega
  exact ⟨⟨fits.1, below⟩, fun _ _ => if_pos fits⟩

theorem reads_choice {choices : List α} {name : α → String} {written : String}
    (found : choices.find? (name · == written) = some value) :
    (choice choices name).Reads (.str written) value where
  exact := trivial
  read _ _ := congrArg (Option.elim · _ _) found

theorem reads_variant {variants : List (String × Decoder α)} {name : String}
    (found : variants.lookup name = some decoder) :
    (variant variants).Reads (.str name) decoder where
  exact := trivial
  read _ _ := congrArg (Option.elim · _ _) found

/-- A value that is not `null` is a present one. -/
theorem Reads.option (reads : decoder.Reads json value) (present : json ≠ .null) :
    decoder.option.Reads json (some value) where
  exact := reads.exact
  read setting admits := by
    have read := reads.read setting admits
    cases json with
    | scalar scalar =>
        cases scalar with
        | null => exact absurd rfl present
        | bool _ | int _ | float _ => exact congrArg (some <$> ·) read
    | str _ | arr _ | obj _ => exact congrArg (some <$> ·) read

/-- An absent value is written as `null`. -/
theorem reads_ofOption {encode : α → Json} {value : Option α}
    (reads : ∀ present ∈ value, decoder.Reads (encode present) present)
    (present : ∀ value, encode value ≠ .null) :
    decoder.option.Reads (.ofOption encode value) value := by
  cases value with
  | none => exact ⟨trivial, fun _ _ => rfl⟩
  | some value => exact (reads value rfl).option (present value)

theorem reads_list {encode : α → Json} {values : List α}
    (reads : ∀ value ∈ values, decoder.Reads (encode value) value) :
    decoder.list.Reads (.ofList encode values) values where
  exact := by
    induction values with
    | nil => trivial
    | cons value values inductionHypothesis =>
        obtain ⟨first, others⟩ := List.forall_mem_cons.mp reads
        exact ⟨first.exact, inductionHypothesis others⟩
  read setting admits := by
    obtain ⟨inner, opened, room⟩ := admits.inner
    have items : (Json.treeItems (values.map encode)).mapM (decoder.read inner) = .ok values := by
      clear opened admits
      induction values with
      | nil => rfl
      | cons value values inductionHypothesis =>
          obtain ⟨first, others⟩ := List.forall_mem_cons.mp reads
          rw [List.map_cons, Json.treeItems, List.mapM_cons,
            first.read inner (room.mono (Nat.le_max_left ..)),
            inductionHypothesis others (room.mono (Nat.le_max_right ..))]
          rfl
    rw [Json.ofList, Json.tree, Decoder.list]
    dsimp only
    rw [opened]
    dsimp only [bind, Except.bind]
    rw [items]
    rfl

theorem mapM_treeFields {encode : α → Json} {named : List (String × α)}
    {read : Except Flaw String × Tree → Except ReadError (String × α)}
    (each : ∀ entry ∈ named, read (.ok entry.1, (encode entry.2).tree) = .ok entry) :
    (Json.treeFields (named.map fun entry => (entry.1, encode entry.2))).mapM read =
      .ok named := by
  induction named with
  | nil => rfl
  | cons entry named inductionHypothesis =>
      obtain ⟨first, others⟩ := List.forall_mem_cons.mp each
      rw [List.map_cons, Json.treeFields, List.mapM_cons, first, inductionHypothesis others]
      rfl

theorem reads_entries {encode : α → Json} {named : List (String × α)}
    (reads : ∀ entry ∈ named, decoder.Reads (encode entry.2) entry.2) :
    decoder.entries.Reads (.obj (named.map fun entry => (entry.1, encode entry.2))) named where
  exact := by
    induction named with
    | nil => trivial
    | cons entry named inductionHypothesis =>
        obtain ⟨first, others⟩ := List.forall_mem_cons.mp reads
        exact ⟨first.exact, inductionHypothesis others⟩
  read setting admits := by
    obtain ⟨inner, opened, room⟩ := admits.inner
    rw [Json.tree, Decoder.entries]
    dsimp only
    rw [opened]
    dsimp only [bind, Except.bind]
    rw [mapM_treeFields]
    · rfl
    · intro entry member
      have listed := List.mem_map_of_mem (f := fun entry => (entry.1, encode entry.2)) member
      have below := Json.height_le_heightFields listed
      dsimp only [Tree.readName, Except.mapError]
      rw [(reads entry member).read inner (room.mono below)]
      rfl

/-! ### Tagged objects -/

theorem tagOfMembers_others {tag : String} {member : Decoder (Decoder α)} {setting : Setting}
    {fields : Fields} (other : ∀ field ∈ fields, field.1 ≠ tag)
    (admits : setting.Admits (Json.heightFields fields)) (found : Option (Decoder α)) :
    tagOfMembers tag member setting (Json.treeFields fields) found =
      .ok (found, Json.treeFields fields) := by
  induction fields with
  | nil => rfl
  | cons field fields inductionHypothesis =>
      obtain ⟨name, value⟩ := field
      obtain ⟨here, others⟩ := List.forall_mem_cons.mp other
      rw [Json.treeFields, tagOfMembers]
      change (if name = tag then _ else _) = _
      rw [if_neg here, Json.takeIn_tree (admits.mono (Nat.le_max_left ..))]
      dsimp only [bind, Except.bind]
      rw [inductionHypothesis others (admits.mono (Nat.le_max_right ..))]
      rfl

theorem reads_taggedBy {tag : String} {member item : Decoder (Decoder α)} {written : Json}
    {fields : Fields} (tagged : member.Reads written decoder)
    (reads : decoder.Reads (.obj fields) value) (other : ∀ field ∈ fields, field.1 ≠ tag) :
    (taggedBy tag member item).Reads (.obj ((tag, written) :: fields)) value where
  exact := ⟨tagged.exact, reads.exact⟩
  read setting admits := by
    obtain ⟨inner, opened, room⟩ := admits.inner
    have found : tagOfMembers tag member inner
        ((.ok tag, written.tree) :: Json.treeFields fields) none =
        .ok (some decoder, Json.treeFields fields) := by
      rw [tagOfMembers]
      change (if tag = tag then _ else _) = _
      rw [if_pos rfl, Option.isSome_none, if_neg Bool.false_ne_true,
        tagged.read inner (room.mono (Nat.le_max_left ..))]
      exact tagOfMembers_others other (room.mono (Nat.le_max_right ..)) _
    rw [Json.tree, Json.treeFields, taggedBy]
    dsimp only
    rw [opened]
    dsimp only [bind, Except.bind]
    rw [found]
    exact reads.read .whole trivial

theorem reads_tagged {tag name : String} {variants : List (String × Decoder α)} {fields : Fields}
    (reads : decoder.Reads (.obj fields) value) (found : variants.lookup name = some decoder)
    (other : ∀ field ∈ fields, field.1 ≠ tag) :
    (tagged tag variants).Reads (.obj ((tag, .str name) :: fields)) value :=
  reads_taggedBy (reads_variant found) reads other

theorem reads_anything (value : α) : (anything value).Reads (.obj []) value :=
  ⟨trivial, fun _ _ => rfl⟩

end Decoder

/-! ### Records -/

namespace Record

variable {α β : Type} {record : Record α} {value : α} {fields : Fields}

/-- A text keeps the written fields, all of them fields of the record, and they make this record. -/
structure Reads (record : Record α) (fields : Fields) (value : α) : Prop where
  named : ∀ field ∈ fields, field.1 ∈ record.names
  exact : Json.ExactFields fields
  read : ∀ setting, setting.Admits (Json.heightFields fields) →
    ∃ slots, record.readMembers setting (Json.treeFields fields) record.blank = .ok slots ∧
      record.finish false slots = some value

theorem Reads.decoder (reads : record.Reads fields value) :
    record.decoder.Reads (.obj fields) value where
  exact := reads.exact
  read setting admits := by
    obtain ⟨inner, opened, room⟩ := admits.inner
    obtain ⟨slots, filled, finished⟩ := reads.read inner room
    rw [Json.tree, Record.decoder]
    dsimp only
    rw [opened]
    dsimp only [bind, Except.bind]
    rw [filled]
    change record.complete false slots = _
    unfold complete
    rw [finished]
    rfl

theorem readMembers_map (f : α → β) (setting : Setting) (members : Tree.Members)
    (slots : record.Slots) :
    (f <$> record).readMembers setting members slots =
      record.readMembers setting members slots := by
  induction members generalizing slots with
  | nil => rfl
  | cons member members inductionHypothesis =>
      have same : (f <$> record).readMembers setting members =
          record.readMembers setting members := funext inductionHypothesis
      rw [readMembers, readMembers, same]
      rfl

theorem Reads.map (f : α → β) (reads : record.Reads fields value) :
    (f <$> record).Reads fields (f value) where
  named := reads.named
  exact := reads.exact
  read setting admits := by
    obtain ⟨slots, filled, finished⟩ := reads.read setting admits
    exact ⟨slots, (readMembers_map f setting _ _).trans filled, congrArg (Option.map f) finished⟩

/-! The fields of a pair of records are those of the first, then those of the second. -/

theorem readMembers_field {name : String} (named : name ∈ record.names) (setting : Setting)
    (json : Json) (fields : Fields) (slots : record.Slots) :
    record.readMembers setting (Json.treeFields ((name, json) :: fields)) slots =
      (record.fill name slots).read setting json.tree >>=
        record.readMembers setting (Json.treeFields fields) := by
  rw [Json.treeFields, readMembers]
  change (if record.names.contains name then _ else _) = _
  rw [if_pos (List.contains_iff_mem.mpr named)]

section Pairs

variable {first : Record (α → β)} {second : Record α}

theorem fill_left {name : String} (named : name ∈ first.names) (setting : Setting) (tree : Tree)
    (left : first.Slots) (right : second.Slots) :
    ((first <*> second).fill name (left, right)).read setting tree =
      (·, right) <$> (first.fill name left).read setting tree := by
  change (if first.names.contains name then _ else _ : Decoder _).read setting tree = _
  rw [if_pos (List.contains_iff_mem.mpr named)]
  rfl

theorem fill_right {name : String} (unnamed : name ∉ first.names) (setting : Setting)
    (tree : Tree) (left : first.Slots) (right : second.Slots) :
    ((first <*> second).fill name (left, right)).read setting tree =
      (left, ·) <$> (second.fill name right).read setting tree := by
  change (if first.names.contains name then _ else _ : Decoder _).read setting tree = _
  rw [if_neg fun named => unnamed (List.contains_iff_mem.mp named)]
  rfl

theorem readMembers_right {setting : Setting} {fields : Fields}
    (named : ∀ field ∈ fields, field.1 ∈ second.names)
    (apart : ∀ name ∈ second.names, name ∉ first.names) (left : first.Slots)
    (right : second.Slots) :
    (first <*> second).readMembers setting (Json.treeFields fields) (left, right) =
      (left, ·) <$> second.readMembers setting (Json.treeFields fields) right := by
  induction fields generalizing right with
  | nil => rfl
  | cons field fields inductionHypothesis =>
      obtain ⟨name, json⟩ := field
      obtain ⟨here, others⟩ := List.forall_mem_cons.mp named
      rw [readMembers_field here, readMembers_field (List.mem_append_right _ here),
        fill_right (apart name here)]
      cases (second.fill name right).read setting json.tree with
      | error _ => rfl
      | ok right => exact inductionHypothesis others right

theorem readMembers_left {setting : Setting} {fields others : Fields}
    (named : ∀ field ∈ fields, field.1 ∈ first.names) (left : first.Slots) (right : second.Slots) :
    (first <*> second).readMembers setting (Json.treeFields (fields ++ others)) (left, right) =
      first.readMembers setting (Json.treeFields fields) left >>= fun left =>
        (first <*> second).readMembers setting (Json.treeFields others) (left, right) := by
  induction fields generalizing left with
  | nil => rfl
  | cons field fields inductionHypothesis =>
      obtain ⟨name, json⟩ := field
      obtain ⟨here, rest⟩ := List.forall_mem_cons.mp named
      rw [List.cons_append, readMembers_field here, readMembers_field (List.mem_append_left _ here),
        fill_left here]
      cases (first.fill name left).read setting json.tree with
      | error _ => rfl
      | ok left => exact inductionHypothesis rest left

theorem Reads.seq {f : α → β} {value : α} {fields others : Fields} (reads : first.Reads fields f)
    (alsoReads : second.Reads others value) (apart : ∀ name ∈ second.names, name ∉ first.names) :
    (first <*> second).Reads (fields ++ others) (f value) where
  named := by
    intro field member
    rcases List.mem_append.mp member with member | member
    · exact List.mem_append_left _ (reads.named field member)
    · exact List.mem_append_right _ (alsoReads.named field member)
  exact := Json.exactFields_append reads.exact alsoReads.exact
  read setting admits := by
    rw [Json.heightFields_append] at admits
    obtain ⟨left, filledLeft, finishedLeft⟩ :=
      reads.read setting (admits.mono (Nat.le_max_left ..))
    obtain ⟨right, filledRight, finishedRight⟩ :=
      alsoReads.read setting (admits.mono (Nat.le_max_right ..))
    refine ⟨(left, right), ?_, ?_⟩
    · change (first <*> second).readMembers setting _ (first.blank, second.blank) = _
      rw [readMembers_left reads.named, filledLeft]
      change (first <*> second).readMembers setting _ (left, second.blank) = _
      rw [readMembers_right alsoReads.named apart, filledRight]
      rfl
    · change (first.finish false left).bind (fun f => (second.finish false right).bind
        fun value => some (f value)) = _
      rw [finishedLeft, finishedRight]
      rfl

end Pairs

/-! A single field is written unless it is left out when absent. -/

section Fields

variable {name : String} {decoder : Decoder α} {json : Json} {value : α}

theorem reads_field (missing : Bool → Option α) (reads : decoder.Reads json value) :
    (field name decoder missing).Reads [(name, json)] value where
  named := List.forall_mem_singleton.mpr (List.mem_singleton_self name)
  exact := ⟨reads.exact, trivial⟩
  read setting admits := by
    refine ⟨some value, ?_, rfl⟩
    rw [readMembers_field (List.mem_singleton_self name)]
    change (some <$> decoder.read setting json.tree >>= _) = _
    rw [reads.read setting (admits.mono (Nat.le_max_left ..))]
    rfl

theorem reads_required (name : String) (reads : decoder.Reads json value) :
    (required name decoder).Reads [(name, json)] value := reads_field _ reads

/-- The fields of a record are none with another name. -/
theorem Reads.other {record : Record α} {fields : Fields} {tag : String}
    (reads : record.Reads fields value) (unnamed : record.names.contains tag = false) :
    ∀ field ∈ fields, field.1 ≠ tag := by
  intro field member same
  have named := reads.named field member
  rw [same, ← List.contains_iff_mem, unnamed] at named
  cases named

theorem Reads.tagged {record : Record α} {fields : Fields} {tag name : String}
    {variants : List (String × Decoder α)} (reads : record.Reads fields value)
    (found : variants.lookup name = some record.decoder)
    (unnamed : record.names.contains tag = false) :
    (Decoder.tagged tag variants).Reads (.obj ((tag, .str name) :: fields)) value :=
  Decoder.reads_tagged reads.decoder found (reads.other unnamed)

/-- One more field after those of a record. -/
theorem Reads.and {record : Record (α → β)} {next : Record α} {f : α → β} {fields others : Fields}
    (reads : record.Reads fields f) (alsoReads : next.Reads others value) {name : String}
    (single : next.names = [name]) (fresh : record.names.contains name = false) :
    (record <*> next).Reads (fields ++ others) (f value) := by
  refine reads.seq alsoReads fun other named known => ?_
  rw [single] at named
  cases List.mem_singleton.mp named
  rw [← List.contains_iff_mem, fresh] at known
  cases known

theorem reads_withDefault (name : String) (default : α) (reads : decoder.Reads json value) :
    (withDefault name decoder default).Reads [(name, json)] value := reads_field _ reads

/-- A field with a default may be left out. -/
theorem reads_absent (name : String) (decoder : Decoder α) (default : α) :
    (withDefault name decoder default).Reads [] default :=
  ⟨List.forall_mem_nil _, trivial, fun _ _ => ⟨none, rfl, rfl⟩⟩

theorem reads_optional (name : String) {encode : α → Json} {value : Option α}
    (reads : ∀ present ∈ value, decoder.Reads (encode present) present)
    (present : ∀ value, encode value ≠ .null) :
    (optional name decoder).Reads (Json.fieldOfOption name encode value) value := by
  cases value with
  | none => exact reads_absent name decoder.option none
  | some value => exact reads_field _ ((reads value rfl).option (present value))

/-- A nullable field is always written. -/
theorem reads_nullable (name : String) {encode : α → Json} {value : Option α}
    (reads : ∀ present ∈ value, decoder.Reads (encode present) present)
    (present : ∀ value, encode value ≠ .null) :
    (nullable name decoder).Reads [(name, .ofOption encode value)] value :=
  reads_field _ (Decoder.reads_ofOption reads present)

theorem reads_pair {first second : String} {left : Decoder α} {right : Decoder β}
    {json json' : Json} {a : α} {b : β} (reads : left.Reads json a)
    (alsoReads : right.Reads json' b) (apart : [first].contains second = false) :
    (Decoder.pair first second left right).Reads (.obj [(first, json), (second, json')])
      (a, b) := by
  have fields := ((reads_required first reads).map Prod.mk).and
    (reads_required second alsoReads) rfl apart
  exact fields.decoder

end Fields

end Record

end ReferenceSemantics
