import ReferenceSemantics.Escape.Rules

set_option autoImplicit false

/-!
Classification of every allocation site as stack- or heap-bound.

The rules are applied in rounds until a round finds nothing new. Facts are only added and relate
finitely many locations, so the number of facts bounds the number of rounds. The sites that are
classified are those that the rules have come upon.
-/

namespace ReferenceSemantics

/-- What the rounds have found so far. -/
structure Classifier where
  facts : EscapeFacts
  /-- The sites that the rules have come upon, each once. -/
  sites : List SiteId

namespace Program

/-- The facts after one more round. -/
def escapeRound (program : Program) (mode : EscapeMode) (facts : EscapeFacts) : EscapeFacts :=
  ((program.escapeRules mode facts).run facts).2

/-- The sites that the rules come upon in one more round. -/
def visitedSites (program : Program) (mode : EscapeMode) (facts : EscapeFacts) : List SiteId :=
  (program.escapeRules mode facts).visited facts

def classifierRound (program : Program) (mode : EscapeMode) (classifier : Classifier) :
    Classifier where
  facts := program.escapeRound mode classifier.facts
  sites := (program.visitedSites mode classifier.facts).foldl (·.insert ·) classifier.sites

/-- The contents of the parameters. -/
def contentTokens (program : Program) : List Loc :=
  program.functions.flatMap fun function =>
    (List.range function.params.length).map (Loc.content function.name)

def locations (program : Program) : List Loc :=
  program.sites.map Loc.site ++ program.contentTokens

/-- A bound on the number of facts: any location may hold any other, and each may escape. -/
def maxFacts (program : Program) : Nat :=
  program.locations.length * program.locations.length + program.locations.length

/-- Go on until a round adds no facts. -/
def classifierFrom (program : Program) (mode : EscapeMode) (classifier : Classifier) :
    Classifier :=
  let next := program.classifierRound mode classifier
  if _grows : classifier.facts.size < next.facts.size ∧ next.facts.size ≤ program.maxFacts then
    program.classifierFrom mode next
  else next
termination_by program.maxFacts - classifier.facts.size
decreasing_by exact Nat.sub_lt_sub_left (Nat.lt_of_lt_of_le _grows.1 _grows.2) _grows.1

/-- What all the rounds find. -/
def classifier (program : Program) (mode : EscapeMode) : Classifier :=
  program.classifierFrom mode ⟨.empty, []⟩

def escapeFacts (program : Program) (mode : EscapeMode) : EscapeFacts :=
  (program.classifier mode).facts

/-- The sites that escape belong in the heap. -/
def classify (program : Program) (mode : EscapeMode) : Placements :=
  let classifier := program.classifier mode
  ⟨.ofList (classifier.sites.map fun site =>
    match classifier.facts.reason? (.site site) with
    | some reason => (site, .heap, some reason)
    | none => (site, .stack, none))⟩

end Program

end ReferenceSemantics
