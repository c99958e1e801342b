import ReferenceSemantics.Proofs.Json.Loaded
import ReferenceSemantics.Proofs.Program.Written

set_option autoImplicit false

/-!
Documents of programs round-trip.

Whatever a document is like, the numbers of the program in it have 64 bits. So a program that was
loaded is loaded again from what is written of it, as long as that is not too deep.
-/

namespace ReferenceSemantics

open Decoder Record

/-- All numbers in an expression have 64 bits. -/
def Expr.Sized (expr : Expr) : Prop :=
  ∀ part ∈ expr.parts, part.InRange

def Place.Sized (place : Place) : Prop :=
  ∀ part ∈ place.parts, part.InRange

theorem Expr.sized {expr : Expr} (own : expr.InRange)
    (operands : ∀ inner ∈ expr.operands, inner.Sized) : expr.Sized := by
  intro part member
  rw [Expr.parts_eq] at member
  rcases List.mem_cons.mp member with rfl | later
  · exact own
  · obtain ⟨inner, direct, inside⟩ := List.mem_flatMap.mp later
    exact operands inner direct part inside

theorem Place.operands_sized {place : Place} (sized : place.Sized) :
    ∀ inner ∈ place.operands, inner.Sized := by
  intro inner member part inside
  refine sized part ?_
  rw [Place.parts_eq]
  exact List.mem_flatMap.mpr ⟨inner, member, inside⟩

theorem Primitive.yields : Primitive.decoder.Yields fun value => (Expr.lit value).InRange := by
  have variants : ∀ named ∈ Primitive.variants,
      named.2.Yields fun value => (Expr.lit value).InRange := by
    simp only [Primitive.variants, List.forall_mem_cons, List.not_mem_nil, false_implies,
      implies_true, and_true]
    refine ⟨?bool, ?int, ?float, ?string⟩
    case int => exact ((yields_required _ yields_integer).map fun _ inRange => inRange).decoder
    case bool | float | string =>
      exact ((yields_required _ (yields_any _)).map fun _ _ => trivial).decoder
  exact yields_taggedBy ((yields_choice _ _).map variants) (yields_variant variants)

/-- The numbers in what these decoders read have 64 bits. -/
structure Sizing (place : Decoder Place) (expr : Decoder Expr) : Prop where
  places : place.Yields Place.Sized
  exprs : expr.Yields Expr.Sized

namespace Sizing

variable {place : Decoder Place} {expr : Decoder Expr} (sizing : Sizing place expr)
include sizing

theorem place_variants : ∀ named ∈ Place.variants place expr, named.2.Yields Place.Sized := by
  simp only [Place.variants, List.forall_mem_cons, List.not_mem_nil, false_implies, implies_true,
    and_true]
  refine ⟨?var, ?field, ?deref⟩
  case var => exact ((yields_required _ (yields_any _)).map fun _ _ => nofun).decoder
  case field =>
    refine Record.Yields.decoder (.seq ((yields_required _ sizing.places).map ?_)
      (yields_required _ (yields_any _)))
    exact fun base sized _ _ => sized
  case deref =>
    refine ((yields_required _ sizing.exprs).map ?_).decoder
    exact fun pointer sized => sized

/-- A form with one operand and without numbers. -/
theorem of_operand {form : Expr → Expr} (name : String)
    (plain : ∀ base, (form base).InRange ∧ (form base).operands = [base]) :
    (Record.decoder (form <$> .required name expr)).Yields Expr.Sized := by
  refine ((yields_required name sizing.exprs).map fun base sized => ?_).decoder
  obtain ⟨own, operands⟩ := plain base
  exact Expr.sized own (operands ▸ List.forall_mem_singleton.mpr sized)

theorem expr_variants : ∀ named ∈ Expr.variants place expr, named.2.Yields Expr.Sized := by
  have base (name : String) := yields_required name sizing.exprs
  have named (name : String) := yields_required name (yields_any text)
  have counted (name : String) := yields_required name yields_word
  have listed (name : String) :=
    yields_withDefault name sizing.exprs.list (List.forall_mem_nil _)
  simp only [Expr.variants, List.forall_mem_cons, List.not_mem_nil, false_implies, implies_true,
    and_true]
  refine ⟨?lit, ?nil, ?var, ?field, sizing.of_operand _ ?deref, ?addrOf, ?new, ?composite,
    ?sliceLit, ?makeSlice, ?mapLit, ?index, ?lookup, sizing.of_operand _ ?len,
    sizing.of_operand _ ?cap, ?reslice, ?boxed, sizing.of_operand _ ?isNil, ?call⟩
  case deref | len | cap | isNil => exact fun _ => ⟨trivial, rfl⟩
  case lit =>
    refine ((yields_required _ Primitive.yields).map ?_).decoder
    exact fun value inRange => Expr.sized inRange nofun
  case nil => exact yields_anything (Expr.sized trivial nofun)
  case var =>
    refine ((named _).map ?_).decoder
    exact fun name _ => Expr.sized trivial nofun
  case field =>
    refine Record.Yields.decoder (.seq ((base _).map ?_) (named _))
    exact fun base sized _ _ => Expr.sized trivial (List.forall_mem_singleton.mpr sized)
  case addrOf =>
    refine ((yields_required _ sizing.places).map ?_).decoder
    exact fun place sized => Expr.sized trivial (Place.operands_sized sized)
  case new =>
    refine Record.Yields.decoder (.seq ((base _).map ?_) (named _))
    exact fun init sized _ _ => Expr.sized trivial (List.forall_mem_singleton.mpr sized)
  case composite =>
    have pairs : (pair "name" "value" text expr).Yields fun field => field.2.Sized := by
      refine Record.Yields.decoder (.seq ((named _).map ?_) (base _))
      exact fun _ _ value sized => sized
    refine Record.Yields.decoder (.seq ((named _).map ?_)
      (yields_withDefault _ pairs.list (List.forall_mem_nil _)))
    exact fun _ _ fields sized => Expr.sized trivial (List.forall_mem_map.mpr sized)
  case sliceLit =>
    refine Record.Yields.decoder (.seq ((listed _).map ?_) (yields_optional _ yields_word))
    intro elems sized capacity small
    refine Expr.sized ?_ sized
    cases capacity with
    | none => trivial
    | some n => exact small n rfl
  case makeSlice =>
    refine Record.Yields.decoder (.seq (.seq ((counted _).map ?_) (counted _)) (base _))
    exact fun _ small _ alsoSmall zero sized =>
      Expr.sized ⟨small, alsoSmall⟩ (List.forall_mem_singleton.mpr sized)
  case mapLit =>
    have pairs : (pair "key" "value" expr expr).Yields fun entry =>
        entry.1.Sized ∧ entry.2.Sized := by
      refine Record.Yields.decoder (.seq ((base _).map ?_) (base _))
      exact fun key sized value alsoSized => ⟨sized, alsoSized⟩
    refine ((yields_withDefault _ pairs.list (List.forall_mem_nil _)).map ?_).decoder
    refine fun entries sized => Expr.sized trivial fun inner member => ?_
    obtain ⟨entry, inEntries, inEntry⟩ := List.mem_flatMap.mp member
    obtain ⟨key, value⟩ := sized entry inEntries
    exact List.forall_mem_cons.mpr ⟨key, List.forall_mem_singleton.mpr value⟩ inner inEntry
  case index =>
    refine Record.Yields.decoder (.seq ((base _).map ?_) (base _))
    exact fun base sized position alsoSized => Expr.sized trivial
      (List.forall_mem_cons.mpr ⟨sized, List.forall_mem_singleton.mpr alsoSized⟩)
  case lookup =>
    refine Record.Yields.decoder (.seq (.seq ((base _).map ?_) (base _)) (base _))
    exact fun base sized key keySized default defaultSized => Expr.sized trivial
      (List.forall_mem_cons.mpr ⟨sized,
        List.forall_mem_cons.mpr ⟨keySized, List.forall_mem_singleton.mpr defaultSized⟩⟩)
  case reslice =>
    refine Record.Yields.decoder (.seq (.seq ((base _).map ?_) (counted _)) (counted _))
    exact fun base sized _ small _ alsoSmall =>
      Expr.sized ⟨small, alsoSmall⟩ (List.forall_mem_singleton.mpr sized)
  case boxed =>
    refine Record.Yields.decoder (.seq ((yields_optional _ (yields_any text)).map ?_) (base _))
    exact fun _ _ value sized => Expr.sized trivial (List.forall_mem_singleton.mpr sized)
  case call =>
    refine Record.Yields.decoder (.seq ((named _).map ?_) (listed _))
    exact fun _ _ args sized => Expr.sized trivial sized

end Sizing

theorem sizing_levels (levels : Nat) : Sizing ⟨Place.read levels⟩ ⟨Expr.read levels⟩ := by
  induction levels with
  | zero => exact ⟨nofun, nofun⟩
  | succ levels sizing =>
      exact ⟨yields_tagged sizing.place_variants, yields_tagged sizing.expr_variants⟩

theorem Place.yields : Place.decoder.Yields Place.Sized := (sizing_levels maxDepth).places

theorem Expr.yields : Expr.decoder.Yields Expr.Sized := (sizing_levels maxDepth).exprs

/-! ### Loaded programs -/

def Stmt.Sized (stmt : Stmt) : Prop :=
  ∀ part ∈ stmt.parts, part.InRange

theorem Stmt.sized {stmt : Stmt} (operands : ∀ inner ∈ stmt.operands, inner.Sized) :
    stmt.Sized := by
  intro part member
  rw [Stmt.parts_eq] at member
  obtain ⟨inner, direct, inside⟩ := List.mem_flatMap.mp member
  exact operands inner direct part inside

theorem VarDecl.yields : VarDecl.decoder.Yields fun decl => ∀ init ∈ decl.init, init.Sized := by
  refine Record.Yields.decoder (.seq (.seq (.seq ((yields_required _ (yields_any _)).map ?_)
    (yields_withDefault _ (yields_any _) trivial)) (yields_optional _ Expr.yields))
    (yields_optional _ (yields_any _)))
  exact fun name _ kind _ init sized site _ => sized

theorem Stmt.yields : Stmt.decoder.Yields Stmt.Sized := by
  refine yields_tagged ?_
  have expr (name : String) := yields_required name Expr.yields
  have place (name : String) := yields_required name Place.yields
  have named (name : String) := yields_required name (yields_any text)
  simp only [Stmt.variants, List.forall_mem_cons, List.not_mem_nil, false_implies, implies_true,
    and_true]
  refine ⟨?declare, ?assign, ?setField, ?store, ?setIndex, ?setKey, ?append, ?call, ?ret⟩
  case declare =>
    refine VarDecl.yields.map fun decl sized => Stmt.sized fun init member => ?_
    exact sized init (Option.mem_toList.mp member)
  case assign =>
    refine Record.Yields.decoder (.seq ((named _).map ?_) (expr _))
    exact fun _ _ value sized => Stmt.sized (List.forall_mem_singleton.mpr sized)
  case setField =>
    refine Record.Yields.decoder (.seq (.seq ((place _).map ?_) (named _)) (expr _))
    exact fun target sized _ _ value valueSized => List.forall_mem_append.mpr ⟨sized, valueSized⟩
  case store =>
    refine Record.Yields.decoder (.seq ((expr _).map ?_) (expr _))
    exact fun pointer sized value valueSized => List.forall_mem_append.mpr ⟨sized, valueSized⟩
  case setIndex | setKey =>
    refine Record.Yields.decoder (.seq (.seq ((place _).map ?_) (expr _)) (expr _))
    exact fun target sized _ alsoSized value valueSized =>
      List.forall_mem_append.mpr ⟨List.forall_mem_append.mpr ⟨sized, alsoSized⟩, valueSized⟩
  case append =>
    refine Record.Yields.decoder (.seq ((place _).map ?_) (yields_required _ Expr.yields.list))
    exact fun target sized values valuesSized => Stmt.sized
      (List.forall_mem_append.mpr ⟨Place.operands_sized sized, valuesSized⟩)
  case call =>
    refine Record.Yields.decoder (.seq ((named _).map ?_)
      (yields_withDefault _ Expr.yields.list (List.forall_mem_nil _)))
    exact fun _ _ args sized => Stmt.sized sized
  case ret =>
    refine ((yields_optional _ Expr.yields).map ?_).decoder
    exact fun value sized => Stmt.sized fun inner member =>
      sized inner (Option.mem_toList.mp member)

theorem FunctionDef.yields :
    FunctionDef.decoder.Yields fun function => ∀ stmt ∈ function.body, stmt.Sized := by
  refine Record.Yields.decoder (.seq (.seq (.seq ((yields_required _ (yields_any _)).map ?_)
    (yields_withDefault _ (yields_any _) trivial)) (yields_optional _ (yields_any _)))
    (yields_withDefault _ Stmt.yields.list (List.forall_mem_nil _)))
  exact fun name _ params _ result _ body sized => sized

namespace Program

theorem yields : Program.decoder.Yields InRange := by
  refine Record.Yields.decoder (.seq
    ((yields_withDefault _ VarDecl.yields.list (List.forall_mem_nil _)).map ?_)
    (yields_withDefault _ FunctionDef.yields.list (List.forall_mem_nil _)))
  intro globals sized functions alsoSized part member
  rcases List.mem_append.mp member with inGlobals | inFunctions
  · obtain ⟨decl, declared, inDecl⟩ := List.mem_flatMap.mp inGlobals
    rw [VarDecl.parts_eq] at inDecl
    obtain ⟨init, present, inInit⟩ := List.mem_flatMap.mp inDecl
    exact sized decl declared init (Option.mem_toList.mp present) part inInit
  · obtain ⟨function, defined, inFunction⟩ := List.mem_flatMap.mp inFunctions
    obtain ⟨stmt, listed, inStmt⟩ := List.mem_flatMap.mp inFunction
    exact alsoSized function defined stmt listed part inStmt

/-- Programs without doubles and with numbers of 64 bits are read back from what is written of them,
on one line and over several, as long as no more containers are open at once than may be. So what
was loaded from any document is loaded again from what is written of it. -/
theorem ofText_toJson :
    (∀ program : Program, program.InRange → program.FloatFree →
      program.toJson.height ≤ maxDepth →
        ofText program.toJson.compact = .ok program ∧
          ofText program.toJson.pretty = .ok program) ∧
      ∀ text program, ofText text = .ok program → program.FloatFree →
        program.toJson.height ≤ maxDepth →
          ofText program.toJson.compact = .ok program ∧
            ofText program.toJson.pretty = .ok program := by
  have writes (program : Program) (inRange : program.InRange) (floatFree : program.FloatFree)
      (height : program.toJson.height ≤ maxDepth) :
      ofText program.toJson.compact = .ok program ∧
        ofText program.toJson.pretty = .ok program := by
    have kept : ∀ part ∈ program.parts, part.Kept := fun part member =>
      ⟨inRange part member, fun x same => floatFree x (same ▸ member)⟩
    have exact := (reads height kept).exact
    exact ⟨ofText_of_spells height kept (Json.spells_compact exact),
      ofText_of_spells height kept (Json.spells_pretty exact)⟩
  exact ⟨writes, fun text program loaded => writes program (yields.readText loaded)⟩

/-- Names of any characters, the least integer, the greatest count, and no list with an item. -/
def writtenProgram : Program :=
  ⟨[⟨"über", .keyValueHeader, some (.lit (.string "\n\"\x01λ")), some "∅"⟩],
    [(FunctionDef.new "main" [⟨"p", .pointer⟩]
      [.setIndex (.deref (.var "p")) (.lit (.int (-0x8000000000000000)))
          (.boxed none (.sliceLit [] (some 0xffffffffffffffff))),
        .ret none]).withResult none .value]⟩

theorem writtenProgram_parts : writtenProgram.parts =
    [.lit (.string "\n\"\x01λ"), .var "p", .lit (.int (-0x8000000000000000)),
      .boxed none (.sliceLit [] (some 0xffffffffffffffff)),
      .sliceLit [] (some 0xffffffffffffffff)] := rfl

theorem writtenProgram_inRange : writtenProgram.InRange := by
  unfold InRange
  rw [writtenProgram_parts]
  simp only [List.forall_mem_cons, List.not_mem_nil, false_implies, implies_true, and_true]
  have least : -integerEnd ≤ -0x8000000000000000 ∧ -0x8000000000000000 < integerEnd := by decide
  have greatest : 0xffffffffffffffff < wordEnd := by decide
  exact ⟨trivial, trivial, least, trivial, greatest⟩

theorem writtenProgram_floatFree : writtenProgram.FloatFree := by
  intro x
  rw [writtenProgram_parts]
  simp

/-- Functions as lists of their parts, of which some are left out, and a tag after what it tags. -/
def loadedText : String :=
  "\x7b\"functions\": [[\"f\", [], null, [\x7b\"callee\": \"f\", \"stmt\": \"call\"\x7d]]]\x7d"

def loadedTree : Tree :=
  .obj [(.ok "functions", .arr [.arr [.text (.ok "f"), .arr [] none, .scalar (.ok .null),
    .arr [.obj [(.ok "callee", .text (.ok "f")), (.ok "stmt", .text (.ok "call"))] none]
      none] none] none)] none

def loadedProgram : Program := ⟨[], [.new "f" [] [.call "f" []]]⟩

theorem loadedText_tree : Tree.Document.ofText loadedText = ⟨loadedTree, false⟩ := by
  cbv

theorem loadedText_read : ofText loadedText = .ok loadedProgram := by
  unfold ofText Decoder.readText
  rw [loadedText_tree]
  rfl

theorem ofText_toJson_written :
    writtenProgram.InRange ∧ writtenProgram.FloatFree ∧ writtenProgram.toJson.height ≤ maxDepth ∧
      ofText writtenProgram.toJson.compact = .ok writtenProgram ∧
      ofText writtenProgram.toJson.pretty = .ok writtenProgram ∧
      ofText loadedText = .ok loadedProgram ∧ loadedProgram.FloatFree ∧
      loadedProgram.toJson.height ≤ maxDepth ∧
      ofText loadedProgram.toJson.compact = .ok loadedProgram := by
  have height : writtenProgram.toJson.height ≤ maxDepth := by decide
  have loadedHeight : loadedProgram.toJson.height ≤ maxDepth := by decide
  have floatFree : loadedProgram.FloatFree := nofun
  obtain ⟨written, rewritten⟩ := ofText_toJson
  obtain ⟨compact, pretty⟩ :=
    written writtenProgram writtenProgram_inRange writtenProgram_floatFree height
  exact ⟨writtenProgram_inRange, writtenProgram_floatFree, height, compact, pretty,
    loadedText_read, floatFree, loadedHeight,
    (rewritten loadedText loadedProgram loadedText_read floatFree loadedHeight).1⟩

end Program

end ReferenceSemantics
