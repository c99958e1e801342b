import ReferenceSemantics.Program.Document
import ReferenceSemantics.Proofs.Json.Decoding
import ReferenceSemantics.Proofs.Program.Sites

set_option autoImplicit false

/-!
Programs are read back from what is written of them.

A document keeps a program when its doubles are left out, its numbers have 64 bits, and no more
containers are open at once than may be. What is in an expression then has a level less than the
expression, so the levels that are read suffice.
-/

namespace ReferenceSemantics

open Decoder Record

/-- The integers and counts of an expression, those of its parts apart, have 64 bits. -/
def Expr.InRange : Expr → Prop
  | .lit (.int n) => -integerEnd ≤ n ∧ n < integerEnd
  | .sliceLit _ (some n) => n < wordEnd
  | .makeSlice m n _ => m < wordEnd ∧ n < wordEnd
  | .reslice _ m n => m < wordEnd ∧ n < wordEnd
  | _ => True

namespace Program

/-- The expressions of a program at any depth. -/
def parts (program : Program) : List Expr :=
  program.globals.flatMap VarDecl.parts ++
    program.functions.flatMap fun function => function.body.flatMap Stmt.parts

def InRange (program : Program) : Prop :=
  ∀ part ∈ program.parts, part.InRange

/-- No literal of the program is a double. -/
def FloatFree (program : Program) : Prop :=
  ∀ x, .lit (.float x) ∉ program.parts

end Program

/-! ### What a document keeps -/

theorem exprsToJson_eq (exprs : List Expr) : exprsToJson exprs = exprs.map Expr.toJson := by
  induction exprs with
  | nil => rfl
  | cons expr exprs inductionHypothesis =>
      rw [exprsToJson, inductionHypothesis, List.map_cons]

/-- A named value of a composite literal, as it is written. -/
def fieldToJson (field : String × Expr) : Json :=
  .obj [("name", .str field.1), ("value", field.2.toJson)]

theorem fieldsToJson_eq (fields : List (String × Expr)) :
    fieldsToJson fields = fields.map fieldToJson := by
  induction fields with
  | nil => rfl
  | cons field fields inductionHypothesis =>
      rw [fieldsToJson, inductionHypothesis, List.map_cons, fieldToJson]

/-- An entry of a map literal, as it is written. -/
def entryToJson (entry : Expr × Expr) : Json :=
  .obj [("key", entry.1.toJson), ("value", entry.2.toJson)]

theorem entriesToJson_eq (entries : List (Expr × Expr)) :
    entriesToJson entries = entries.map entryToJson := by
  induction entries with
  | nil => rfl
  | cons entry entries inductionHypothesis =>
      rw [entriesToJson, inductionHypothesis, List.map_cons, entryToJson]

/-- A document keeps what the expression has itself. -/
def Expr.Kept (expr : Expr) : Prop :=
  expr.InRange ∧ ∀ x, expr ≠ .lit (.float x)

/-- A document keeps the expression, with at most so many containers. -/
structure Expr.Fits (levels : Nat) (expr : Expr) : Prop where
  height : expr.toJson.height ≤ levels
  kept : ∀ part ∈ expr.parts, part.Kept

structure Place.Fits (levels : Nat) (place : Place) : Prop where
  height : place.toJson.height ≤ levels
  kept : ∀ part ∈ place.parts, part.Kept

section Levels

variable {levels : Nat}

theorem Place.Fits.base {base : Place} {name : String}
    (fits : (Place.field base name).Fits (levels + 1)) : base.Fits levels where
  height := by
    have height := fits.height
    simp only [Place.toJson, Json.height, Json.heightFields] at height
    omega
  kept := fits.kept

theorem Place.Fits.pointer {pointer : Expr} (fits : (Place.deref pointer).Fits (levels + 1)) :
    pointer.Fits levels where
  height := by
    have height := fits.height
    simp only [Place.toJson, Json.height, Json.heightFields] at height
    omega
  kept := fits.kept

theorem Place.height_operand {inner : Expr} (place : Place) (member : inner ∈ place.operands) :
    inner.toJson.height < place.toJson.height := by
  cases place with
  | var _ => cases member
  | field base _ =>
      have below := base.height_operand member
      simp only [toJson, Json.height, Json.heightFields]
      omega
  | deref pointer =>
      cases List.mem_singleton.mp member
      simp only [toJson, Json.height, Json.heightFields]
      omega

theorem height_le_exprs {expr : Expr} (exprs : List Expr) (member : expr ∈ exprs) :
    expr.toJson.height ≤ Json.heightItems (exprsToJson exprs) := by
  rw [exprsToJson_eq]
  exact Json.height_le_heightItems (List.mem_map_of_mem member)

theorem Expr.height_operand {inner expr : Expr} (member : inner ∈ expr.operands) :
    inner.toJson.height < expr.toJson.height := by
  cases expr with
  | lit _ | nil | var _ => cases member
  | field base _ | len base | cap base | reslice base _ _ | deref base | new base _
  | makeSlice _ _ base | isNil base =>
      cases List.mem_singleton.mp member
      simp only [toJson, Json.height, Json.heightFields]
      omega
  | boxed _ value =>
      cases List.mem_singleton.mp member
      simp only [toJson, Json.height, Json.heightFields_append, Json.heightFields]
      omega
  | addrOf place =>
      have below := place.height_operand member
      simp only [toJson, Json.height, Json.heightFields]
      omega
  | index base position =>
      rcases List.mem_pair.mp member with rfl | rfl
      all_goals
        simp only [toJson, Json.height, Json.heightFields]
        omega
  | lookup base key default =>
      simp only [operands, List.mem_cons, List.not_mem_nil, or_false] at member
      rcases member with rfl | rfl | rfl
      all_goals
        simp only [toJson, Json.height, Json.heightFields]
        omega
  | composite typeName fields =>
      obtain ⟨field, listed, rfl⟩ := List.mem_map.mp member
      have inField : field.2.toJson.height < (fieldToJson field).height := by
        simp only [fieldToJson, Json.height, Json.heightFields]
        omega
      have below := Json.height_le_heightItems (List.mem_map_of_mem (f := fieldToJson) listed)
      rw [← fieldsToJson_eq] at below
      simp only [toJson, Json.height, Json.heightFields]
      omega
  | mapLit entries =>
      obtain ⟨entry, listed, inEntry⟩ := List.mem_flatMap.mp member
      have inEntry : inner.toJson.height < (entryToJson entry).height := by
        rcases List.mem_pair.mp inEntry with rfl | rfl
        all_goals
          simp only [entryToJson, Json.height, Json.heightFields]
          omega
      have below := Json.height_le_heightItems (List.mem_map_of_mem (f := entryToJson) listed)
      rw [← entriesToJson_eq] at below
      simp only [toJson, Json.height, Json.heightFields]
      omega
  | sliceLit elems _ | call _ elems =>
      have below := height_le_exprs elems member
      simp only [toJson, Json.height, Json.heightFields_append, Json.heightFields]
      omega

theorem Expr.Fits.operand {inner expr : Expr} (fits : expr.Fits (levels + 1))
    (member : inner ∈ expr.operands) : inner.Fits levels where
  height := by
    have below := Expr.height_operand member
    have height := fits.height
    omega
  kept part inInner := by
    refine fits.kept part ?_
    rw [Expr.parts_eq]
    exact List.mem_cons_of_mem _ (List.mem_flatMap.mpr ⟨inner, member, inInner⟩)

theorem Expr.Fits.place {place : Place} (fits : (Expr.addrOf place).Fits (levels + 1)) :
    place.Fits levels where
  height := by
    have height := fits.height
    simp only [Expr.toJson, Json.height, Json.heightFields] at height
    omega
  kept part inPlace := by
    refine fits.kept part ?_
    rw [Expr.parts]
    exact List.mem_cons_of_mem _ inPlace

theorem Expr.Fits.own {expr : Expr} (fits : expr.Fits levels) : expr.Kept := by
  refine fits.kept expr ?_
  rw [Expr.parts_eq]
  exact List.mem_cons_self ..

/-! ### Places and expressions -/

theorem Primitive.reads_variant {name : String} {record : Record Primitive} {fields : Fields}
    {value : Primitive} (reads : record.Reads fields value)
    (found : variants.find? (·.1 == name) = some (name, record.decoder))
    (unnamed : record.names.contains "type" = false) :
    Primitive.decoder.Reads (.obj (("type", .str name) :: fields)) value :=
  reads_taggedBy ((reads_choice found).map Prod.snd) reads.decoder (reads.other unnamed)

theorem Primitive.reads {value : Primitive} (kept : (Expr.lit value).Kept) :
    Primitive.decoder.Reads value.toJson value := by
  obtain ⟨inRange, floatFree⟩ := kept
  cases value with
  | bool value => exact reads_variant ((reads_required "value" (reads_flag value)).map bool) rfl rfl
  | int n => exact reads_variant ((reads_required "value" (reads_integer inRange)).map int) rfl rfl
  | float x => exact absurd rfl (floatFree x)
  | string s => exact reads_variant ((reads_required "value" (reads_text s)).map string) rfl rfl

/-- Decoders that read all that has at most so many levels. -/
structure Reading (levels : Nat) (place : Decoder Place) (expr : Decoder Expr) : Prop where
  places : ∀ value : Place, value.Fits levels → place.Reads value.toJson value
  exprs : ∀ value : Expr, value.Fits levels → expr.Reads value.toJson value

variable {place : Decoder Place} {expr : Decoder Expr}

theorem Place.reads_tagged (reading : Reading levels place expr) {value : Place}
    (fits : value.Fits (levels + 1)) :
    (tagged "place" (Place.variants place expr)).Reads value.toJson value := by
  cases value with
  | var name => exact ((reads_required "name" (reads_text name)).map var).tagged rfl rfl
  | field base name =>
      have base := reads_required "base" (reading.places base fits.base)
      have fields := (base.map field).and (reads_required "field" (reads_text name)) rfl rfl
      exact fields.tagged rfl rfl
  | deref pointer =>
      have pointer := reads_required "pointer" (reading.exprs pointer fits.pointer)
      exact (pointer.map deref).tagged rfl rfl

theorem reads_exprs {exprs : List Expr}
    (reads : ∀ inner ∈ exprs, expr.Reads inner.toJson inner) :
    expr.list.Reads (.arr (exprsToJson exprs)) exprs := by
  rw [exprsToJson_eq]
  exact reads_list reads

theorem Expr.reads_tagged (reading : Reading levels place expr) {value : Expr}
    (fits : value.Fits (levels + 1)) :
    (tagged "expr" (Expr.variants place expr)).Reads value.toJson value := by
  have reads {inner : Expr} (name : String) (member : inner ∈ value.operands) :=
    reads_required name (reading.exprs inner (fits.operand member))
  cases value with
  | lit value => exact ((reads_required "value" (Primitive.reads fits.own)).map lit).tagged rfl rfl
  | nil => exact Decoder.reads_tagged (reads_anything nil) rfl (List.forall_mem_nil _)
  | var name => exact ((reads_required "name" (reads_text name)).map var).tagged rfl rfl
  | field base name =>
      have fields := ((reads "base" (.head _)).map field).and
        (reads_required "field" (reads_text name)) rfl rfl
      exact fields.tagged rfl rfl
  | deref pointer => exact ((reads "pointer" (.head _)).map deref).tagged rfl rfl
  | addrOf place =>
      have place := reads_required "place" (reading.places place fits.place)
      exact (place.map addrOf).tagged rfl rfl
  | new init site =>
      have fields := ((reads "init" (.head _)).map new).and
        (reads_required "site" (reads_text site)) rfl rfl
      exact fields.tagged rfl rfl
  | composite typeName fields =>
      have listed : ((pair "name" "value" text expr).list).Reads (.arr (fieldsToJson fields))
          fields := by
        rw [fieldsToJson_eq]
        exact reads_list fun field member => reads_pair (reads_text field.1)
          (reading.exprs field.2 (fits.operand (List.mem_map_of_mem member))) rfl
      have fields := ((reads_required "type_name" (reads_text typeName)).map composite).and
        (reads_withDefault "fields" [] listed) rfl rfl
      exact fields.tagged rfl rfl
  | sliceLit elems capacity =>
      have listed := reads_exprs fun inner member => reading.exprs inner (fits.operand member)
      have counted : ∀ n ∈ capacity, word.Reads (.ofNat n) n := by
        rintro n rfl
        exact reads_word fits.own.1
      have fields := ((reads_withDefault "elems" [] listed).map sliceLit).and
        (reads_optional "capacity" counted nofun) rfl rfl
      exact fields.tagged rfl rfl
  | makeSlice length capacity zero =>
      obtain ⟨⟨shortLength, shortCapacity⟩, -⟩ := fits.own
      have fields := ((reads_required "len" (reads_word shortLength)).map makeSlice).and
        (reads_required "cap" (reads_word shortCapacity)) rfl rfl
      exact (fields.and (reads "zero" (.head _)) rfl rfl).tagged rfl rfl
  | mapLit entries =>
      have listed : ((pair "key" "value" expr expr).list).Reads (.arr (entriesToJson entries))
          entries := by
        rw [entriesToJson_eq]
        refine reads_list fun entry member => reads_pair ?_ ?_ rfl
        · exact reading.exprs entry.1 (fits.operand (List.mem_flatMap.mpr ⟨entry, member, .head _⟩))
        · exact reading.exprs entry.2
            (fits.operand (List.mem_flatMap.mpr ⟨entry, member, .tail _ (.head _)⟩))
      exact ((reads_withDefault "entries" [] listed).map mapLit).tagged rfl rfl
  | index base position =>
      have fields := ((reads "base" (.head _)).map index).and
        (reads "index" (.tail _ (.head _))) rfl rfl
      exact fields.tagged rfl rfl
  | lookup base key default =>
      have fields := ((reads "base" (.head _)).map lookup).and
        (reads "key" (.tail _ (.head _))) rfl rfl
      have fields := fields.and (reads "default" (.tail _ (.tail _ (.head _)))) rfl rfl
      exact fields.tagged rfl rfl
  | len base => exact ((reads "base" (.head _)).map len).tagged rfl rfl
  | cap base => exact ((reads "base" (.head _)).map cap).tagged rfl rfl
  | reslice base low high =>
      obtain ⟨⟨small, alsoSmall⟩, -⟩ := fits.own
      have fields := ((reads "base" (.head _)).map reslice).and
        (reads_required "low" (reads_word small)) rfl rfl
      exact (fields.and (reads_required "high" (reads_word alsoSmall)) rfl rfl).tagged rfl rfl
  | boxed typeTag value =>
      have tag : ∀ s ∈ typeTag, text.Reads (.str s) s := fun s _ => reads_text s
      have fields := ((reads_optional "type_tag" tag nofun).map boxed).and
        (reads "value" (.head _)) rfl rfl
      exact fields.tagged rfl rfl
  | isNil value => exact ((reads "value" (.head _)).map isNil).tagged rfl rfl
  | call callee args =>
      have listed := reads_exprs fun inner member => reading.exprs inner (fits.operand member)
      have fields := ((reads_required "callee" (reads_text callee)).map call).and
        (reads_withDefault "args" [] listed) rfl rfl
      exact fields.tagged rfl rfl

theorem reading_levels (levels : Nat) :
    Reading levels ⟨Place.read levels⟩ ⟨Expr.read levels⟩ := by
  induction levels with
  | zero =>
      refine ⟨fun value fits => ?_, fun value fits => ?_⟩
      · have height := fits.height
        cases value <;> cases height
      · have height := fits.height
        cases value <;> cases height
  | succ levels reading =>
      exact ⟨fun _ fits => Place.reads_tagged reading fits,
        fun _ fits => Expr.reads_tagged reading fits⟩

end Levels

/-! ### Declarations and statements -/

theorem Kind.reads (kind : Kind) : Kind.decoder.Reads kind.toJson kind := by
  refine reads_choice ?_
  cases kind <;> rfl

theorem Place.reads {place : Place} (fits : place.Fits maxDepth) :
    Place.decoder.Reads place.toJson place := (reading_levels maxDepth).places place fits

theorem Expr.reads {expr : Expr} (fits : expr.Fits maxDepth) :
    Expr.decoder.Reads expr.toJson expr := (reading_levels maxDepth).exprs expr fits

theorem Expr.toJson_ne_null (expr : Expr) : expr.toJson ≠ .null := by
  cases expr <;> exact nofun

theorem VarDecl.reads {decl : VarDecl} (fits : ∀ init ∈ decl.init, init.Fits maxDepth) :
    VarDecl.decoder.Reads decl.toJson decl ∧ ∀ field ∈ decl.toJsonFields, field.1 ≠ "stmt" := by
  obtain ⟨name, kind, init, site⟩ := decl
  have inits : ∀ expr ∈ init, Expr.decoder.Reads expr.toJson expr :=
    fun expr member => Expr.reads (fits expr member)
  have sites : ∀ s ∈ site, text.Reads (.str s) s := fun s _ => reads_text s
  have fields := ((reads_required "name" (reads_text name)).map mk).and
    (reads_withDefault "kind" .value (Kind.reads kind)) rfl rfl
  have fields := fields.and (reads_optional "init" inits Expr.toJson_ne_null) rfl rfl
  have fields := fields.and (reads_optional "site" sites nofun) rfl rfl
  exact ⟨fields.decoder, fields.other rfl⟩

theorem Param.reads (param : Param) : Param.decoder.Reads param.toJson param := by
  have fields := ((reads_required "name" (reads_text param.name)).map mk).and
    (reads_withDefault "kind" .value (Kind.reads param.kind)) rfl rfl
  exact fields.decoder

theorem ResultDecl.reads (result : ResultDecl) :
    ResultDecl.decoder.Reads result.toJson result := by
  obtain ⟨name, kind⟩ := result
  have named : ∀ s ∈ name, text.Reads (.str s) s := fun s _ => reads_text s
  have fields := ((reads_optional "name" named nofun).map mk).and
    (reads_withDefault "kind" .value (Kind.reads kind)) rfl rfl
  exact fields.decoder

/-- A document keeps the statement, with no more containers than may be open. -/
structure Stmt.Fits (stmt : Stmt) : Prop where
  height : stmt.toJson.height ≤ maxDepth
  kept : ∀ part ∈ stmt.parts, part.Kept

theorem Json.height_fieldOfOption {α : Type} (name : String) (encode : α → Json)
    {value : Option α} {present : α} (member : present ∈ value) :
    Json.heightFields (Json.fieldOfOption name encode value) = (encode present).height := by
  cases member
  exact Nat.max_zero _

theorem VarDecl.height_init {decl : VarDecl} {init : Expr} (present : init ∈ decl.init) :
    init.toJson.height ≤ decl.toJson.height := by
  have same := Json.height_fieldOfOption "init" Expr.toJson present
  simp only [toJson, toJsonFields, Json.height, Json.heightFields_append]
  omega

theorem Stmt.height_operand {inner : Expr} {stmt : Stmt} (member : inner ∈ stmt.operands) :
    inner.toJson.height ≤ stmt.toJson.height := by
  cases stmt with
  | declare decl =>
      have below := VarDecl.height_init (Option.mem_toList.mp member)
      exact Nat.le_trans below (Nat.succ_le_succ (Nat.le_max_right ..))
  | assign _ value =>
      cases List.mem_singleton.mp member
      simp only [toJson, Json.height, Json.heightFields]
      omega
  | store pointer value =>
      rcases List.mem_pair.mp member with rfl | rfl
      all_goals
        simp only [toJson, Json.height, Json.heightFields]
        omega
  | setField target _ value =>
      rcases List.mem_append.mp member with member | member
      · have below := target.height_operand member
        simp only [toJson, Json.height, Json.heightFields]
        omega
      · cases List.mem_singleton.mp member
        simp only [toJson, Json.height, Json.heightFields]
        omega
  | setIndex target _ value | setKey target _ value =>
      rcases List.mem_append.mp member with member | member
      · have below := target.height_operand member
        simp only [toJson, Json.height, Json.heightFields]
        omega
      · rcases List.mem_pair.mp member with rfl | rfl
        all_goals
          simp only [toJson, Json.height, Json.heightFields]
          omega
  | append target values =>
      rcases List.mem_append.mp member with member | member
      · have below := target.height_operand member
        simp only [toJson, Json.height, Json.heightFields]
        omega
      · have below := height_le_exprs values member
        simp only [toJson, Json.height, Json.heightFields]
        omega
  | call _ args =>
      have below := height_le_exprs args member
      simp only [toJson, Json.height, Json.heightFields]
      omega
  | ret value =>
      have same := Json.height_fieldOfOption "value" Expr.toJson (Option.mem_toList.mp member)
      simp only [toJson, Json.height, Json.heightFields]
      omega

theorem Stmt.Fits.operand {inner : Expr} {stmt : Stmt} (fits : stmt.Fits)
    (member : inner ∈ stmt.operands) : inner.Fits maxDepth where
  height := Nat.le_trans (Stmt.height_operand member) fits.height
  kept part inInner := by
    refine fits.kept part ?_
    rw [Stmt.parts_eq]
    exact List.mem_flatMap.mpr ⟨inner, member, inInner⟩

/-- The place in which a statement changes something. -/
def Stmt.place? : Stmt → Option Place
  | .setField target _ _ | .setIndex target _ _ | .setKey target _ _ | .append target _ =>
      some target
  | _ => none

theorem Stmt.Fits.place {place : Place} {stmt : Stmt} (fits : stmt.Fits)
    (changed : stmt.place? = some place) : place.Fits maxDepth := by
  obtain ⟨height, kept⟩ := fits
  cases stmt with
  | declare _ | assign _ _ | store _ _ | call _ _ | ret _ => cases changed
  | setField target _ _ | setIndex target _ _ | setKey target _ _ | append target _ =>
      cases changed
      simp only [toJson, Json.height, Json.heightFields] at height
      simp only [Stmt.parts, List.forall_mem_append] at kept
      refine ⟨by omega, ?_⟩
      first | exact kept.1 | exact kept.1.1

theorem Stmt.reads {stmt : Stmt} (fits : stmt.Fits) : Stmt.decoder.Reads stmt.toJson stmt := by
  have reads {inner : Expr} (name : String) (member : inner ∈ stmt.operands) :=
    reads_required name (Expr.reads (fits.operand member))
  cases stmt with
  | declare decl =>
      obtain ⟨reads, other⟩ := VarDecl.reads fun init member =>
        fits.operand (Option.mem_toList.mpr member)
      exact Decoder.reads_tagged (reads.map declare) rfl other
  | assign target value =>
      have fields := ((reads_required "target" (reads_text target)).map assign).and
        (reads "value" (.head _)) rfl rfl
      exact fields.tagged rfl rfl
  | setField target name value =>
      have place := fits.place rfl
      have fields := ((reads_required "target" (Place.reads place)).map setField).and
        (reads_required "field" (reads_text name)) rfl rfl
      have last := reads "value" (List.mem_append_right _ (.head _))
      exact (fields.and last rfl rfl).tagged rfl rfl
  | store pointer value =>
      have fields := ((reads "pointer" (.head _)).map store).and
        (reads "value" (.tail _ (.head _))) rfl rfl
      exact fields.tagged rfl rfl
  | setIndex target index value =>
      have place := fits.place rfl
      have fields := ((reads_required "target" (Place.reads place)).map setIndex).and
        (reads "index" (List.mem_append_right _ (.head _))) rfl rfl
      have last := reads "value" (List.mem_append_right _ (.tail _ (.head _)))
      exact (fields.and last rfl rfl).tagged rfl rfl
  | setKey target key value =>
      have place := fits.place rfl
      have fields := ((reads_required "target" (Place.reads place)).map setKey).and
        (reads "key" (List.mem_append_right _ (.head _))) rfl rfl
      have last := reads "value" (List.mem_append_right _ (.tail _ (.head _)))
      exact (fields.and last rfl rfl).tagged rfl rfl
  | append target values =>
      have place := fits.place rfl
      have listed := reads_exprs fun inner member =>
        Expr.reads (fits.operand (List.mem_append_right _ member))
      have fields := ((reads_required "target" (Place.reads place)).map append).and
        (reads_required "values" listed) rfl rfl
      exact fields.tagged rfl rfl
  | call callee args =>
      have listed := reads_exprs fun inner member => Expr.reads (fits.operand member)
      have fields := ((reads_required "callee" (reads_text callee)).map call).and
        (reads_withDefault "args" [] listed) rfl rfl
      exact fields.tagged rfl rfl
  | ret value =>
      have present : ∀ expr ∈ value, Expr.decoder.Reads expr.toJson expr :=
        fun expr member => Expr.reads (fits.operand (Option.mem_toList.mpr member))
      exact ((reads_optional "value" present Expr.toJson_ne_null).map ret).tagged rfl rfl

/-! ### Programs -/

theorem FunctionDef.reads {function : FunctionDef} (fits : ∀ stmt ∈ function.body, stmt.Fits) :
    FunctionDef.decoder.Reads function.toJson function := by
  obtain ⟨name, params, result, body⟩ := function
  have listed := reads_list fun param (_ : param ∈ params) => Param.reads param
  have declared : ∀ decl ∈ result, ResultDecl.decoder.Reads decl.toJson decl :=
    fun decl _ => ResultDecl.reads decl
  have stmts := reads_list fun stmt member => Stmt.reads (fits stmt member)
  have fields := ((reads_required "name" (reads_text name)).map mk).and
    (reads_withDefault "params" [] listed) rfl rfl
  have fields := fields.and (reads_optional "result" declared nofun) rfl rfl
  have fields := fields.and (reads_withDefault "body" [] stmts) rfl rfl
  exact fields.decoder

theorem Json.height_lt_ofList {α : Type} (encode : α → Json) {values : List α} {value : α}
    (member : value ∈ values) : (encode value).height < (Json.ofList encode values).height :=
  Nat.lt_succ_of_le (Json.height_le_heightItems (List.mem_map_of_mem member))

theorem FunctionDef.height_stmt {function : FunctionDef} {stmt : Stmt}
    (listed : stmt ∈ function.body) : stmt.toJson.height ≤ function.toJson.height := by
  have below := Json.height_lt_ofList Stmt.toJson listed
  simp only [toJson, Json.height, Json.heightFields_append, Json.heightFields]
  omega

namespace Program

variable {program : Program}

theorem height_global {decl : VarDecl} (member : decl ∈ program.globals) :
    decl.toJson.height ≤ program.toJson.height := by
  have below := Json.height_lt_ofList VarDecl.toJson member
  simp only [toJson, Json.height, Json.heightFields]
  omega

theorem height_function {function : FunctionDef} (member : function ∈ program.functions) :
    function.toJson.height ≤ program.toJson.height := by
  have below := Json.height_lt_ofList FunctionDef.toJson member
  simp only [toJson, Json.height, Json.heightFields]
  omega

theorem fits_init (height : program.toJson.height ≤ maxDepth)
    (kept : ∀ part ∈ program.parts, part.Kept) {decl : VarDecl} (member : decl ∈ program.globals)
    {init : Expr} (present : init ∈ decl.init) : init.Fits maxDepth where
  height :=
    Nat.le_trans (VarDecl.height_init present) (Nat.le_trans (height_global member) height)
  kept part inInit := by
    refine kept part (List.mem_append_left _ (List.mem_flatMap.mpr ⟨decl, member, ?_⟩))
    rw [VarDecl.parts_eq]
    exact List.mem_flatMap.mpr ⟨init, Option.mem_toList.mpr present, inInit⟩

theorem fits_stmt (height : program.toJson.height ≤ maxDepth)
    (kept : ∀ part ∈ program.parts, part.Kept) {function : FunctionDef}
    (member : function ∈ program.functions) {stmt : Stmt} (listed : stmt ∈ function.body) :
    stmt.Fits where
  height :=
    Nat.le_trans (FunctionDef.height_stmt listed) (Nat.le_trans (height_function member) height)
  kept part inStmt := kept part <| List.mem_append_right _ <| List.mem_flatMap.mpr
    ⟨function, member, List.mem_flatMap.mpr ⟨stmt, listed, inStmt⟩⟩

theorem reads (height : program.toJson.height ≤ maxDepth)
    (kept : ∀ part ∈ program.parts, part.Kept) : decoder.Reads program.toJson program := by
  have globals := reads_list fun decl member =>
    (VarDecl.reads fun _ present => fits_init height kept member present).1
  have functions := reads_list fun function member =>
    FunctionDef.reads fun _ listed => fits_stmt height kept member listed
  have fields := ((reads_withDefault "globals" [] globals).map mk).and
    (reads_withDefault "functions" [] functions) rfl rfl
  exact fields.decoder

theorem ofText_of_spells (height : program.toJson.height ≤ maxDepth)
    (kept : ∀ part ∈ program.parts, part.Kept) {text : String}
    (spells : Token.Lexer.Spells text.toList program.toJson.tokens) : ofText text = .ok program :=
  (reads height kept).readText spells height

end Program

end ReferenceSemantics
