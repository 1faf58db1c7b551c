import PatternMachine.CommandLine.Outcome
import PatternMachine.Main
import PatternMachine.Proofs.CommandLine.Log
import PatternMachine.Proofs.CommandLine.Scan
import PatternMachine.Proofs.Machine.Agreement
import PatternMachine.Proofs.Machine.Budget
import PatternMachine.Proofs.Machine.Control
import PatternMachine.Proofs.Machine.Descent
import PatternMachine.Proofs.Machine.Leaves
import PatternMachine.Proofs.Machine.Limits
import PatternMachine.Proofs.Machine.Lines
import PatternMachine.Proofs.Machine.Moves
import PatternMachine.Proofs.Machine.Nesting
import PatternMachine.Proofs.Machine.Note
import PatternMachine.Proofs.Machine.Reachable
import PatternMachine.Proofs.Machine.Room
import PatternMachine.Proofs.Machine.Safety
import PatternMachine.Proofs.Machine.Search
import PatternMachine.Proofs.Machine.Strategies
import PatternMachine.Proofs.Machine.Surroundings
import PatternMachine.Proofs.Machine.Termination
import PatternMachine.Proofs.Machine.Walk
import PatternMachine.Proofs.Pattern.Assertion
import PatternMachine.Proofs.Pattern.Atom
import PatternMachine.Proofs.Pattern.Blame
import PatternMachine.Proofs.Pattern.Canonical
import PatternMachine.Proofs.Pattern.Collapse
import PatternMachine.Proofs.Pattern.Completion
import PatternMachine.Proofs.Pattern.Context
import PatternMachine.Proofs.Pattern.Deletion
import PatternMachine.Proofs.Pattern.Ending
import PatternMachine.Proofs.Pattern.FixedPoint
import PatternMachine.Proofs.Pattern.Flat
import PatternMachine.Proofs.Pattern.Meaning
import PatternMachine.Proofs.Pattern.Printed
import PatternMachine.Proofs.Pattern.Readback
import PatternMachine.Proofs.Pattern.Reading
import PatternMachine.Proofs.Pattern.SameWords
import PatternMachine.Proofs.Pattern.Shape
import PatternMachine.Proofs.Pattern.Token
import PatternMachine.Proofs.Pattern.Words
import PatternMachine.Proofs.Pattern.Written
import PatternMachine.Proofs.Program.Ceiling
import PatternMachine.Proofs.Program.Code
import PatternMachine.Proofs.Program.Correctness
import PatternMachine.Proofs.Program.Decoding
import PatternMachine.Proofs.Program.EndAnchor
import PatternMachine.Proofs.Program.Fits
import PatternMachine.Proofs.Program.Halting
import PatternMachine.Proofs.Program.Journal
import PatternMachine.Proofs.Program.Listing
import PatternMachine.Proofs.Program.NormalForm
import PatternMachine.Proofs.Program.Overflow
import PatternMachine.Proofs.Program.Placement
import PatternMachine.Proofs.Program.Realizes
import PatternMachine.Proofs.Program.Region
import PatternMachine.Proofs.Program.Relocation
import PatternMachine.Proofs.Program.Reports
import PatternMachine.Proofs.Program.Unwrapping
import PatternMachine.Proofs.Program.WellFormed
import PatternMachine.Proofs.Regex.Accounts
import PatternMachine.Proofs.Regex.Agreement
import PatternMachine.Proofs.Regex.Compiled
import PatternMachine.Proofs.Regex.WellFormed
import PatternMachine.Proofs.Text.Naming
import PatternMachine.Proofs.Text.Numerals
