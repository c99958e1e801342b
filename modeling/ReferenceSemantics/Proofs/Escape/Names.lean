import Mathlib.Data.List.Nodup
import ReferenceSemantics.Proofs.Escape.Findings
import ReferenceSemantics.Proofs.Run.Lookups

set_option autoImplicit false

/-!
What the classification says of the names at a statement.

The classification knows a name by the site and the kind of the local that is bound to it, if there
is one. It applies the rules of a statement in the scope of the statements before it, and those of
the initialiser of a global in a scope without locals.
-/

namespace ReferenceSemantics

namespace Storage

/-- The slot at an address was made under the name for the site and the kind: it is one of the
current frame or one of the heap. -/
def MadeFor (storage : Storage) (address : Address) (name : String) (site : SiteId) (kind : Kind) :
    Prop :=
  ∃ slot, (slot ∈ storage.current.slots ∨ storage.heap.get? address = some (.slot slot)) ∧
    slot.address = address ∧ slot.name = name ∧ slot.site = some site ∧ slot.kind = kind

/-- The slot at an address was made for a global, in the root frame. -/
def MadeForGlobal (storage : Storage) (globals : List VarDecl) (address : Address)
    (name : String) : Prop :=
  ∃ decl ∈ globals, decl.name = name ∧ ∃ slot ∈ storage.root.slots,
    slot.address = address ∧ slot.name = name ∧ slot.site = none ∧ slot.kind = decl.kind

/-- A name designates what the classification takes it for. A local is bound in the current frame,
to the slot made for its site and kind. Any other name is not bound by a call, and it is found as
the global that the root frame binds, if at all. -/
def Resolves (storage : Storage) (globals : List VarDecl) (scope : EscapeScope) (name : String) :
    Prop :=
  match scope.locals.lookup name with
  | some (site, kind) =>
      ∃ address, storage.lookup name = some (.ofAddress address) ∧
        storage.current.lookup name = some address ∧ storage.MadeFor address name site kind
  | none =>
      (storage.InCall → storage.current.lookup name = none) ∧
      ∀ ref, storage.lookup name = some ref →
        ∃ address, ref = .ofAddress address ∧ storage.root.lookup name = some address ∧
          storage.MadeForGlobal globals address name

end Storage

theorem EscapeScope.body_append (scope : EscapeScope) (before after : List Stmt) :
    scope.body (before ++ after) = (do
      scope.body before
      (before.foldl afterStatement scope).body after) := by
  induction before generalizing scope with
  | nil => exact (pure_bind () fun _ => scope.body after).symm
  | cons stmt before inductionHypothesis =>
      rw [List.cons_append, body, body, inductionHypothesis, bind_assoc, List.foldl_cons]

/-- The rules of every statement are applied in the scope of the statements before it, whatever is
known. -/
theorem FunctionDef.escapeBody_split {function : FunctionDef} {before after : List Stmt}
    {stmt : Stmt} (split : function.body = before ++ stmt :: after) (mode : EscapeMode)
    (known : EscapeFacts) :
    (function.escapeScope mode known).body function.body = (do
      (function.escapeScope mode known).body before
      ((function.scopeAt mode before).knowing known).statement stmt
      ((function.scopeAt mode (before ++ [stmt])).knowing known).body after) := by
  rw [split, EscapeScope.body_append, EscapeScope.body, ← foldl_escapeScope, ← foldl_escapeScope,
    List.foldl_append]
  rfl

/-- The classification applies the rules of what stands there in the scope, whatever is known: the
rules of a statement after those of the statements before it, and the rules of an initialiser. -/
def Task.AppliedIn (mode : EscapeMode) (scope : EscapeScope) : Task → Prop
  | statement function stmt =>
      ∃ before after, function.body = before ++ stmt :: after ∧ ∀ known,
        (function.escapeScope mode known).body function.body = (do
          (function.escapeScope mode known).body before
          (scope.knowing known).statement stmt
          ((scope.afterStatement stmt).knowing known).body after)
  | initialiser decl => ∀ known, Program.escapeGlobal mode known decl = (do
      if let some init := decl.init then
        EscapeRule.escape (← (scope.knowing known).addrs init) .storedOutside)

/-- The scope in which the rules of what comes next are applied. -/
def Task.scopeAfter (scope : EscapeScope) : Task → EscapeScope
  | statement _ stmt => scope.afterStatement stmt
  | initialiser _ => scope

/-- What stands at a location when the storage is as given, and its scope: a statement of the
function whose frame is on top, or outside of calls the initialiser of a global. -/
inductive Program.Stands (program : Program) (mode : EscapeMode) (storage : Storage) :
    Location → EscapeScope → Task → Prop
  | statement {function : FunctionDef} {before after : List Stmt} {stmt : Stmt}
      (member : function ∈ program.functions) (split : function.body = before ++ stmt :: after)
      (inCall : storage.InCall) (current : storage.current.function = function.name) :
      Stands program mode storage ⟨function.name, before.length⟩ (function.scopeAt mode before)
        (.statement function stmt)
  | initialiser {before after : List VarDecl} {decl : VarDecl}
      (split : program.globals = before ++ decl :: after) (outside : ¬ storage.InCall) :
      Stands program mode storage ⟨globalsFrame, before.length⟩ ⟨mode, .empty, globalsFrame, []⟩
        (.initialiser decl)

namespace Program

variable {program : Program} {mode : EscapeMode} {storage : Storage} {location : Location}
  {scope scope' : EscapeScope} {task task' : Task}

/-- The classification applies the rules of what stands at a location in its scope. -/
theorem Stands.applied (stands : program.Stands mode storage location scope task) :
    task.AppliedIn mode scope := by
  cases stands with
  | @statement function before after stmt member split inCall current =>
      refine ⟨before, after, split, fun known => ?_⟩
      have next : (function.scopeAt mode before).afterStatement stmt =
          function.scopeAt mode (before ++ [stmt]) := by
        unfold FunctionDef.scopeAt
        rw [List.foldl_append]
        rfl
      rw [next]
      exact FunctionDef.escapeBody_split split mode known
  | initialiser split outside => exact fun known => rfl

/-- At most one thing stands at a location. -/
theorem Stands.unique (single : (program.functions.map (·.name)).Nodup)
    (stands : program.Stands mode storage location scope task)
    (stands' : program.Stands mode storage location scope' task') :
    scope = scope' ∧ task = task' := by
  cases stands with
  | @statement function before after stmt member split inCall current =>
      generalize same : (⟨function.name, before.length⟩ : Location) = location at stands'
      cases stands' with
      | initialiser _ outside => exact absurd inCall outside
      | @statement function' before' after' stmt' member' split' _ _ =>
          obtain ⟨named, sized⟩ := Location.mk.inj same
          obtain rfl := List.inj_on_of_nodup_map single member member' named
          obtain ⟨rfl, rest⟩ := List.append_inj (split.symm.trans split') sized
          obtain ⟨rfl, -⟩ := List.cons.inj rest
          exact ⟨rfl, rfl⟩
  | @initialiser before after decl split outside =>
      generalize same : (⟨globalsFrame, before.length⟩ : Location) = location at stands'
      cases stands' with
      | statement _ _ inCall _ => exact absurd inCall outside
      | @initialiser before' after' decl' split' _ =>
          obtain ⟨-, sized⟩ := Location.mk.inj same
          obtain ⟨rfl, rest⟩ := List.append_inj (split.symm.trans split') sized
          obtain ⟨rfl, -⟩ := List.cons.inj rest
          exact ⟨rfl, rfl⟩

end Program

end ReferenceSemantics
