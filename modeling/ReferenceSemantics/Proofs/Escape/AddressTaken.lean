import Mathlib
import ReferenceSemantics.Proofs.Escape.LeastSolution

set_option autoImplicit false

/-!
Only slots whose address is taken are placed in the heap.

The sites of a program are those of its slots and those of its new expressions, and in an accepted
program no two are the same. The address of a slot can then be made only where a place that starts
from it stands under the taking of an address, and a slot that nothing makes the address of does
not escape.
-/

namespace ReferenceSemantics

open Findings

/-! ### The sites of slots -/

namespace FunctionDef

variable {function : FunctionDef} {before after : List Stmt}

/-- The sites of the new expressions in the body. -/
def newSites (function : FunctionDef) : List SiteId :=
  function.body.flatMap fun stmt => stmt.parts.filterMap Expr.newSite?

theorem localsBefore_subset (split : function.body = before ++ after) :
    function.localsBefore before ⊆ function.localsBefore function.body := by
  intro slot member
  rw [localsBefore, List.mem_reverse] at member ⊢
  rw [split, List.filterMap_append, ← List.append_assoc]
  exact List.mem_append_left _ member

/-- The classification designates the slots that are there by their names. -/
theorem lookup_of_site? {mode : EscapeMode} {name : String} {site : SiteId}
    (designated : (function.scopeAt mode before).site? name = some (.site site)) :
    ∃ kind, (function.localsBefore before).lookup name = some (site, kind) := by
  rw [scopeAt_eq, EscapeScope.site?, Option.map_eq_some_iff] at designated
  obtain ⟨⟨_, kind⟩, found, same⟩ := designated
  cases same
  exact ⟨kind, found⟩

/-- The sites of a function are those of its slots and those of its new expressions. -/
theorem sites_perm (function : FunctionDef) :
    function.sites.Perm
      ((function.localsBefore function.body).map (·.2.1) ++ function.newSites) := by
  have slots : (function.localsBefore function.body).map (·.2.1) =
      (function.slotNames.map (defaultSite function.name) ++ function.body.flatMap fun stmt =>
        (stmt.declared?.map (·.siteId function.name)).toList).reverse := by
    rw [localsBefore, ← map_slots, ← List.filterMap_eq_flatMap_toList, List.map_reverse,
      List.map_append, List.map_map, List.map_map, List.map_filterMap]
    congr 3
    funext stmt
    cases stmt.declared? <;> rfl
  rw [slots, sites, newSites]
  refine List.Perm.trans ?_ ((List.reverse_perm _).symm.append_right _)
  rw [List.append_assoc]
  exact (List.flatMap_append_perm _ _ _).symm.append_left _

end FunctionDef

/-- The name at the root of a place whose address is taken. -/
def Expr.addressed? : Expr → Option String
  | addrOf place => place.rootVar
  | _ => none

namespace FunctionDef

variable {function : FunctionDef}

/-- In the function the address is taken of a place that starts from the variable: its name is the
root of the place, and there it designates the slot of the site. -/
inductive TakesAddress (function : FunctionDef) (name : String) (site : SiteId) (kind : Kind) : Prop
  | addrOf {before after : List Stmt} {stmt : Stmt} {place : Place}
      (split : function.body = before ++ stmt :: after) (inside : .addrOf place ∈ stmt.parts)
      (root : place.rootVar = some name)
      (designated : (function.localsBefore before).lookup name = some (site, kind))

/-- The names of which, or of fields of which, the address is taken in the body. -/
def addressed (function : FunctionDef) : List String :=
  function.body.flatMap fun stmt => stmt.parts.filterMap Expr.addressed?

theorem TakesAddress.mem_addressed {name : String} {site : SiteId} {kind : Kind}
    (taken : function.TakesAddress name site kind) : name ∈ function.addressed := by
  obtain @⟨before, after, stmt, place, split, inside, root, -⟩ := taken
  refine List.mem_flatMap.mpr ⟨stmt, split ▸ by simp, ?_⟩
  exact List.mem_filterMap.mpr ⟨.addrOf place, inside, root⟩

end FunctionDef

namespace Program

variable {program : Program} {entry : String} {mode : EscapeMode}

/-- The slots of all functions. -/
def slots (program : Program) : List (String × String × SiteId × Kind) :=
  program.functions.flatMap fun function =>
    (function.localsBefore function.body).map (function.name, ·)

def newSites (program : Program) : List SiteId :=
  program.globals.flatMap (fun decl => decl.parts.filterMap Expr.newSite?)
    ++ program.functions.flatMap FunctionDef.newSites

theorem sites_perm (program : Program) :
    program.sites.Perm (program.slots.map (·.2.2.1) ++ program.newSites) := by
  have functions : (program.functions.flatMap FunctionDef.sites).Perm
      (program.slots.map (·.2.2.1) ++ program.functions.flatMap FunctionDef.newSites) := by
    rw [slots, List.map_flatMap]
    refine (List.Perm.flatMap_left _ fun function _ => function.sites_perm).trans ?_
    simp only [List.map_map]
    exact (List.flatMap_append_perm _ _ _).symm
  rw [sites, newSites]
  refine (functions.append_left _).trans ?_
  rw [← List.append_assoc, ← List.append_assoc]
  exact List.perm_append_comm.append_right _

theorem mem_slots {function : FunctionDef} (member : function ∈ program.functions)
    {slot : String × SiteId × Kind} (inFunction : slot ∈ function.localsBefore function.body) :
    (function.name, slot) ∈ program.slots :=
  List.mem_flatMap.mpr ⟨function, member, List.mem_map_of_mem inFunction⟩

/-- The site of a slot belongs to no other slot and to no new expression. -/
theorem slot_site_unique (checked : program.check entry = .ok ())
    {slot : String × String × SiteId × Kind} (member : slot ∈ program.slots) :
    slot.2.2.1 ∉ program.newSites ∧
      ∀ other ∈ program.slots, other.2.2.1 = slot.2.2.1 → other = slot := by
  have nodup := program.sites_perm.nodup_iff.mp (nodup_sites checked)
  obtain ⟨single, -, apart⟩ := List.nodup_append.mp nodup
  refine ⟨fun inNew => apart _ (List.mem_map_of_mem member) _ inNew rfl, ?_⟩
  exact fun other also same => List.inj_on_of_nodup_map single also member same

/-- A slot in the heap has its address taken in its function. -/
theorem takesAddress_of_heap (checked : program.check entry = .ok ()) {function : FunctionDef}
    (member : function ∈ program.functions) {name : String} {site : SiteId} {kind : Kind}
    (slot : (name, site, kind) ∈ function.localsBefore function.body)
    (heap : (program.classify mode).get? site = some .heap) :
    function.TakesAddress name site kind := by
  obtain ⟨notNew, unique⟩ := slot_site_unique checked (mem_slots member slot)
  cases introduces_of_escapes ((program.get?_classify_eq_heap mode site).mp heap) with
  | @globalInit decl _ inGlobals made =>
      cases made with
      | new inside =>
          refine absurd (List.mem_append_left _ ?_) notNew
          exact List.mem_flatMap.mpr ⟨decl, inGlobals, List.mem_filterMap.mpr ⟨_, inside, rfl⟩⟩
      | addrOf _ _ designated => cases designated
  | @statement other before after stmt _ inFunctions split made =>
      cases made with
      | new inside =>
          have inBody : stmt ∈ other.body := split ▸ by simp
          refine absurd (List.mem_append_right _ ?_) notNew
          exact List.mem_flatMap.mpr ⟨other, inFunctions, List.mem_flatMap.mpr
            ⟨stmt, inBody, List.mem_filterMap.mpr ⟨_, inside, rfl⟩⟩⟩
      | @addrOf place root _ inside rooted designated =>
          obtain ⟨otherKind, found⟩ := FunctionDef.lookup_of_site? designated
          have declared : (root, site, otherKind) ∈ other.localsBefore other.body := by
            obtain ⟨inner, outer, listed, -⟩ := List.lookup_eq_some_iff.mp found
            apply FunctionDef.localsBefore_subset split
            rw [listed]
            exact List.mem_append_right inner (List.mem_cons_self ..)
          -- The site belongs to one slot only, so this is the slot, and its function is this one.
          have same := unique _ (mem_slots inFunctions declared) rfl
          simp only [Prod.mk.injEq, true_and] at same
          obtain ⟨named, rfl, rfl⟩ := same
          obtain rfl := List.inj_on_of_nodup_map (accepted_of_check checked).single inFunctions
            member named
          exact .addrOf split inside rooted found

/-- In an accepted program a parameter, a named result or a local is placed in the heap only if its
address, or that of a field of it, is taken in its function. One whose name never stands under the
taking of an address is placed on the stack. -/
theorem slot_placed_by_address (checked : program.check entry = .ok ()) (mode : EscapeMode)
    {function : FunctionDef} (member : function ∈ program.functions) {name : String}
    {site : SiteId} {kind : Kind}
    (slot : (name, site, kind) ∈ function.localsBefore function.body) :
    ((program.classify mode).get? site = some .heap → function.TakesAddress name site kind) ∧
      (name ∉ function.addressed → (program.classify mode).get? site = some .stack) := by
  refine ⟨takesAddress_of_heap checked member slot, fun unnamed => ?_⟩
  have listed : site ∈ program.sites := by
    apply program.sites_perm.mem_iff.mpr
    exact List.mem_append_left _ (List.mem_map_of_mem (mem_slots member slot))
  cases placed : (program.classify mode).get? site with
  | none =>
      have known := (program.get?_classify_isSome mode site).mpr listed
      rw [placed] at known
      cases known
  | some placement =>
      cases placement with
      | stack => rfl
      | heap => exact absurd (takesAddress_of_heap checked member slot placed).mem_addressed unnamed

/-- The address of a field of one local is kept in a global, and that of another is passed on; what
the parameter holds goes to a local, to the result and into a block. -/
def keepingFunction : FunctionDef :=
  (FunctionDef.new "keep" [⟨"p", .pointer⟩]
    [.declare (.new "box" .value (some (.composite "Cell" [("ptr", .var "p")]))),
      .assign "kept" (.addrOf (.field (.var "box") "ptr")),
      .declare (.new "q" .pointer (some (.var "p"))), .assign "r" (.var "q")]).withResult
    (some "r") .pointer

def keepingProgram : Program :=
  ⟨[.new "kept" .pointer none], [keepingFunction, .new "main" []
    [.declare (.new "x" .value (some (.lit (.int 1)))),
      .declare (.new "s" .referenceHeader
        (some (.sliceLit [.call "keep" [.addrOf (.var "x")]] none)))]]⟩

theorem keepingProgram_checked : keepingProgram.check "main" = .ok () := by
  cbv

theorem keepingProgram_box :
    (keepingProgram.classify .interprocedural).get? "keep.box" = some .heap := by
  cbv

theorem slot_placed_by_address_keeping :
    keepingFunction ∈ keepingProgram.functions ∧
      keepingFunction.TakesAddress "box" "keep.box" .value ∧
      (∀ mode, ∀ slot ∈ keepingFunction.localsBefore keepingFunction.body, slot.1 ≠ "box" →
        (keepingProgram.classify mode).get? slot.2.1 = some .stack) := by
  have member : keepingFunction ∈ keepingProgram.functions := List.mem_cons_self ..
  have box : ("box", "keep.box", .value) ∈ keepingFunction.localsBefore keepingFunction.body := by
    decide
  refine ⟨member, (slot_placed_by_address keepingProgram_checked .interprocedural member box).1
    keepingProgram_box, fun mode slot inFunction other => ?_⟩
  apply (slot_placed_by_address keepingProgram_checked mode member inFunction).2
  have addressed : keepingFunction.addressed = ["box"] := by cbv
  rw [addressed]
  simpa using other

end Program

end ReferenceSemantics
