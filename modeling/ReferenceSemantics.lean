import ReferenceSemantics.CommandLine
import ReferenceSemantics.Main
import ReferenceSemantics.Program.Equality
import ReferenceSemantics.Proofs.Reference.Validity
import ReferenceSemantics.Proofs.Reference.Visibility
import ReferenceSemantics.Proofs.Escape.Fixpoint
import ReferenceSemantics.Proofs.Escape.Programs
import ReferenceSemantics.Proofs.Escape.Classification
import ReferenceSemantics.Proofs.Escape.Safety
import ReferenceSemantics.Proofs.Escape.LeastSolution
import ReferenceSemantics.Proofs.Run.Termination
import ReferenceSemantics.Proofs.Run.Interruption
import ReferenceSemantics.Proofs.Run.NameSafety
import ReferenceSemantics.Proofs.Run.Repetition
import ReferenceSemantics.Proofs.Run.Recording
import ReferenceSemantics.Proofs.Run.Brackets
import ReferenceSemantics.Proofs.Placement.Unobservable
import ReferenceSemantics.Proofs.Placement.Recorded
import ReferenceSemantics.Proofs.Storage.Garbage
import ReferenceSemantics.Proofs.Storage.Lenses
import ReferenceSemantics.Proofs.Storage.Growth
import ReferenceSemantics.Proofs.Storage.Tables
import ReferenceSemantics.Proofs.Escape.Saturation
import ReferenceSemantics.Proofs.Typing.BoxForms
import ReferenceSemantics.Proofs.Program.WellFormed
import ReferenceSemantics.Proofs.Run.CallSafety
import ReferenceSemantics.Proofs.Run.Executed
import ReferenceSemantics.Proofs.Typing.CallResults
import ReferenceSemantics.Proofs.Program.RoundTrip
import ReferenceSemantics.Proofs.Escape.Resolution
import ReferenceSemantics.Proofs.Escape.Modes
import ReferenceSemantics.Proofs.Escape.AddressTaken
import ReferenceSemantics.Proofs.Run.Documents
import ReferenceSemantics.Proofs.Run.FinalValues
import ReferenceSemantics.Proofs.Run.Resuming
import ReferenceSemantics.Proofs.Run.Blame
import ReferenceSemantics.Proofs.Run.Boxes
import ReferenceSemantics.Proofs.Run.PlaceValue
import ReferenceSemantics.Proofs.Escape.Rounds
import ReferenceSemantics.Proofs.Run.Sweeping
import ReferenceSemantics.Proofs.Run.Zeros
import ReferenceSemantics.Proofs.Storage.Representation
