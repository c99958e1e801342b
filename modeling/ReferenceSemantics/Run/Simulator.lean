import ReferenceSemantics.Program.Check
import ReferenceSemantics.Run.Execute
import ReferenceSemantics.Run.Verdict

set_option autoImplicit false

/-!
Runs of one program, and the ways they end.

A fault ends the run and is part of the verdict. Another error leaves storage as it was, so that a
further run goes on from there; an abort discards storage. A run that has ended in a verdict is
not repeated.
-/

namespace ReferenceSemantics

inductive SimulationError where
  | unreadable (error : ReadError)
  | wellFormedness (error : WellFormednessError)
  | runtime (error : RuntimeError)
  | aborted
  | callDepthExceeded
deriving DecidableEq, Repr

namespace SimulationError

def message : SimulationError → String
  | unreadable .malformed => "invalid JSON: the text is malformed"
  | unreadable .mismatched => "invalid JSON: the text describes something else"
  | unreadable .truncated => "invalid JSON: the text ends early"
  | wellFormedness error => "malformed program model: " ++ error.message
  | runtime error => "runtime error: " ++ error.message
  | aborted => "trace aborted by host"
  | callDepthExceeded => "calls are nested too deeply"

end SimulationError

namespace Program

/-- The program, if it may run from an entry function. -/
def accepted (program : Program) (entry : String) : Except SimulationError Program :=
  match program.check entry with
  | .error error => .error (.wellFormedness error)
  | .ok () => .ok program

/-- The program in a text, checked against an entry function. -/
def load (text entry : String) : Except SimulationError Program :=
  match ofText text with
  | .error error => .error (.unreadable error)
  | .ok program => program.accepted entry

end Program

structure Simulator where
  model : Model
  machine : Machine
  panics : List Panic
  finished : Bool

namespace Simulator

/-- A simulator of a program that is taken as it is. -/
def new (program : Program) (config : Config) : Simulator :=
  ⟨.new program config, .new config.traceLimit, [], false⟩

/-- A simulator of the checked program in a text. -/
def load (text : String) (config : Config) : Except SimulationError Simulator := do
  return .new (← Program.load text config.entry) config

def storage (simulator : Simulator) : Storage := simulator.machine.storage

def heapReport (simulator : Simulator) : HeapReport := .ofHeap simulator.storage.heap

def verdict (simulator : Simulator) : Verdict :=
  ⟨simulator.machine.finalValues, simulator.panics, simulator.model.placements.table⟩

def modifySignal (simulator : Simulator) (f : AbortSignal → AbortSignal) : Simulator :=
  { simulator with
    machine := { simulator.machine with abort := f simulator.machine.abort } }

/-- The machine after an abort: storage and captured values are gone, the trace stays. -/
def discard (machine : Machine) : Machine :=
  { machine with storage := .empty, finalValues := .empty }

/-- Record the fault that ended a run, and take the values at that moment. -/
def panicked (cause : Fault) (location : Location) : Run Unit := do
  Run.record (.fault cause.kind location)
  Run.capture
  Run.sweep

/-- Run to the end or to the first fault. -/
def run (simulator : Simulator) : Except SimulationError Verdict × Simulator :=
  if simulator.finished then (.ok simulator.verdict, simulator)
  else
    match simulator.model.execute.run.run simulator.machine with
    | (.ok (), machine) =>
        let ended := { simulator with machine, finished := true }
        (.ok ended.verdict, ended)
    | (.error (.error (.fault cause location)), machine) =>
        let ended := { simulator with
          machine := ((panicked cause location).run.run machine).2
          panics := simulator.panics ++ [⟨cause.kind, location⟩]
          finished := true }
        (.ok ended.verdict, ended)
    | (.error (.aborted _), machine) =>
        (.error .aborted, { simulator with machine := discard machine })
    | (.error (.error error), machine) => (.error (.runtime error), { simulator with machine })
    | (.error .callDepthExceeded, machine) =>
        (.error .callDepthExceeded, { simulator with machine })

end Simulator

/-- Run the program in a text. -/
def simulate (text : String) (config : Config) : Except SimulationError Verdict := do
  (← Simulator.load text config).run.1

/-- Check and run a program. -/
def Program.run (program : Program) (config : Config) : Except SimulationError Verdict :=
  match program.accepted config.entry with
  | .error error => .error error
  | .ok program => (Simulator.new program config).run.1

end ReferenceSemantics
