import ReferenceSemantics.Run.Simulator

set_option autoImplicit false

/-!
The command line: load a program from a file, run it and print its verdict.

A run takes its arguments and the texts of the files it may read, and gives what it prints and
how it exits.
-/

namespace ReferenceSemantics.CommandLine

structure Options where
  path : Option String
  configPath : Option String
  entry : Option String
  interprocedural : Bool
  showHeap : Bool
deriving DecidableEq, Repr

def Options.unset : Options := ⟨.none, .none, .none, false, false⟩

/-- What the arguments ask for. -/
inductive Request where
  | usage
  | unexpected (arg : String)
  | run (options : Options)
deriving DecidableEq, Repr

/-- Read the arguments in order; the first one that settles the request ends the reading. An
option at the end that lacks its argument is as if it were never given. -/
def parse (options : Options) : List String → Request
  | [] => .run options
  | "--interprocedural" :: args => parse { options with interprocedural := true } args
  | "--heap" :: args => parse { options with showHeap := true } args
  | "--entry" :: entry :: args => parse { options with entry := some entry } args
  | "--config" :: path :: args => parse { options with configPath := some path } args
  | ["--entry"] => .run { options with entry := none }
  | ["--config"] => .run { options with configPath := none }
  | "-h" :: _ | "--help" :: _ => .usage
  | arg :: args =>
      if options.path.isNone && !arg.startsWith "--" then parse { options with path := some arg } args
      else .unexpected arg

/-- How a run ends, and what it prints. -/
structure Outcome where
  code : Nat
  stdout : String
  stderr : String
deriving DecidableEq, Repr

def usage (program : String) : String :=
  "Usage: " ++ program ++ " <program.json> [options]\n" ++
  "\n" ++
  "Options:\n" ++
  "  --interprocedural   Use per-parameter leak summaries for calls\n" ++
  "  --entry NAME        Entry function (default: main)\n" ++
  "  --config FILE       Load a JSON SimConfig; flags override it\n" ++
  "  --heap              Also print the heap report\n"

def failure (message : String) : Outcome := ⟨1, "", message ++ "\n"⟩

/-- The configuration in a file, or the default one; options override it. -/
def Options.config (options : Options) (file : String → Option String) : Except String Config := do
  let config ←
    match options.configPath with
    | none => pure Config.default
    | some path =>
        match file path with
        | none => throw s!"cannot read '{path}'"
        | some text =>
            match Config.ofText text with
            | .ok config => pure config
            | .error error => throw (SimulationError.unreadable error).message
  let config := options.entry.elim config fun entry => { config with entry }
  return if options.interprocedural then { config with escapeMode := .interprocedural } else config

/-- What is printed of a simulator that has run. -/
def report (showHeap : Bool) (result : Except SimulationError Verdict) (simulator : Simulator) :
    Outcome :=
  match result with
  | .error error => failure ("Runtime error: " ++ error.message)
  | .ok verdict =>
      let heap := if showHeap then simulator.heapReport.toJson.pretty ++ "\n" else ""
      let note :=
        if verdict.panicked then s!"Trace ended by {verdict.panics.length} panic(s).\n" else ""
      ⟨0, verdict.text ++ "\n" ++ heap, note⟩

def runFile (options : Options) (file : String → Option String) (text : String) : Outcome :=
  match options.config file with
  | .error message => failure ("Error: " ++ message)
  | .ok config =>
      match Simulator.load text config with
      | .error error => failure ("Error: " ++ error.message)
      | .ok simulator =>
          let (result, simulator) := simulator.run
          report options.showHeap result simulator

/-- Run the program under a name, on arguments and the files that there are. -/
def run (program : String) (args : List String) (file : String → Option String) : Outcome :=
  match parse .unset args with
  | .usage => ⟨0, "", usage program⟩
  | .unexpected arg => ⟨2, "", s!"Error: unexpected argument '{arg}'\n" ++ usage program⟩
  | .run options =>
      match options.path with
      | none => ⟨1, "", "Error: No input file provided\n\n" ++ usage program⟩
      | some path =>
          match file path with
          | none => failure s!"Error: File '{path}' not found"
          | some text => runFile options file text

end ReferenceSemantics.CommandLine
