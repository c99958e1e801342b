import ReferenceSemantics.Program.Parts
import ReferenceSemantics.Program.WellFormedness

set_option autoImplicit false

/-!
Cycles among the calls of a program.

Functions are searched depth first, callees in order of their names. `path` holds the functions
whose search is under way, innermost first, and `done` those that reach no cycle. A call into the
path closes a cycle and is reported.
-/

namespace ReferenceSemantics

/-- The functions and whom each of them calls. -/
abbrev CallGraph := List (String × List String)

def Program.callGraph (program : Program) : CallGraph :=
  program.functions.map fun function => (function.name, function.callees)

namespace CallGraph

/-- The callees of the last definition of a name. -/
def callees? (graph : CallGraph) (name : String) : Option (List String) :=
  (graph.reverse.find? (·.1 == name)).map (·.2)

/-- The definitions that are not on the path. -/
def unvisited (graph : CallGraph) (path : List String) : Nat :=
  graph.countP fun node => !path.contains node.1

theorem unvisited_cons_lt {graph : CallGraph} {path : List String} {name : String}
    {callees : List String} (defined : graph.callees? name = some callees) (fresh : name ∉ path) :
    graph.unvisited (name :: path) < graph.unvisited path := by
  obtain ⟨node, found, -⟩ := Option.map_eq_some_iff.mp defined
  have inGraph : node ∈ graph := List.mem_reverse.mp (List.mem_of_find?_eq_some found)
  have sameName : node.1 = name := by simpa using List.find?_some found
  clear found defined
  have shrinks (entry : String × List String) :
      (if (!(name :: path).contains entry.1) = true then 1 else 0) ≤
        (if (!path.contains entry.1) = true then 1 else 0) := by
    by_cases same : entry.1 = name <;> by_cases inPath : entry.1 ∈ path <;> simp [same, inPath]
  have monotone (rest : CallGraph) : unvisited rest (name :: path) ≤ unvisited rest path := by
    induction rest with
    | nil => exact Nat.le_refl _
    | cons head rest hypothesis =>
        have := shrinks head
        simp only [unvisited, List.countP_cons] at hypothesis ⊢
        omega
  induction graph with
  | nil => cases inGraph
  | cons head rest hypothesis =>
      rcases List.mem_cons.mp inGraph with here | inRest
      · have bound := monotone rest
        have drops : (if (!(name :: path).contains head.1) = true then 1 else 0) <
            (if (!path.contains head.1) = true then 1 else 0) := by
          rw [← here, sameName]
          simp [fresh]
        simp only [unvisited, List.countP_cons] at bound ⊢
        omega
      · have bound := hypothesis inRest
        have := shrinks head
        simp only [unvisited, List.countP_cons] at bound ⊢
        omega

mutual

/-- Search from a function; the functions known to reach no cycle grow. -/
def visit (graph : CallGraph) (path done : List String) (name : String) :
    Except WellFormednessError (List String) :=
  if done.contains name then .ok done
  else if _onPath : name ∈ path then .error (.recursiveCall name name)
  else
    match _defined : graph.callees? name with
    | none => .ok (name :: done)
    | some callees => do
        let done ← graph.visitAll (name :: path) done name callees
        return name :: done
termination_by (graph.unvisited path, 0)
decreasing_by exact .left _ _ (unvisited_cons_lt _defined _onPath)

/-- Search from the callees of `via`, the innermost function of the path. -/
def visitAll (graph : CallGraph) (path done : List String) (via : String) :
    List String → Except WellFormednessError (List String)
  | [] => .ok done
  | callee :: callees =>
      if path.contains callee then .error (.recursiveCall callee via)
      else do
        let done ← graph.visit path done callee
        graph.visitAll path done via callees
termination_by callees => (graph.unvisited path, callees.length + 1)

end

/-- Refuses a graph with a cycle. -/
def check (graph : CallGraph) : Except WellFormednessError Unit := do
  let _ ← graph.foldlM (fun done node => graph.visit [] done node.1) []

end CallGraph

end ReferenceSemantics
