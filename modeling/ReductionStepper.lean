import ReductionStepper.Action
import ReductionStepper.Chart
import ReductionStepper.CommandLine.Folder
import ReductionStepper.CommandLine.Options
import ReductionStepper.CommandLine.Run
import ReductionStepper.Decimal.Shortest
import ReductionStepper.Edge
import ReductionStepper.Evaluator.Check
import ReductionStepper.Evaluator.Outcome
import ReductionStepper.Evaluator.Reply
import ReductionStepper.Evaluator.Reply.Decoder
import ReductionStepper.Evaluator.Reply.Encoder
import ReductionStepper.Evaluator.Reply.Fields
import ReductionStepper.Evaluator.Reply.Mismatch
import ReductionStepper.Graph
import ReductionStepper.Graph.Index
import ReductionStepper.Graph.Walk
import ReductionStepper.Json.Fault
import ReductionStepper.Json.Reader
import ReductionStepper.Json.Value
import ReductionStepper.Json.Writer
import ReductionStepper.Log.Check
import ReductionStepper.Log.Event
import ReductionStepper.Log.Session
import ReductionStepper.Plan
import ReductionStepper.Sample
import ReductionStepper.Screen.Canvas
import ReductionStepper.Screen.Style
import ReductionStepper.Screen.Theme
import ReductionStepper.Session
import ReductionStepper.Source.Binding
import ReductionStepper.Source.Diagnostic
import ReductionStepper.Source.Marking
import ReductionStepper.Source.Position
import ReductionStepper.Stepper
import ReductionStepper.Stepper.Draw
import ReductionStepper.Stepper.Panel
import ReductionStepper.Term
import ReductionStepper.Text.Casing
import ReductionStepper.Text.Digit
import ReductionStepper.Text.Layout
import ReductionStepper.Text.Quoted
import ReductionStepper.Text.Table
import ReductionStepper.View
import ReductionStepper.Workbench
import ReductionStepper.Proofs.Chart.Lines
import ReductionStepper.Proofs.Chart.Rows
import ReductionStepper.Proofs.Chart.StepCount
import ReductionStepper.Proofs.Chart.Width
import ReductionStepper.Proofs.CommandLine.Grammar
import ReductionStepper.Proofs.CommandLine.Groups
import ReductionStepper.Proofs.CommandLine.Printing
import ReductionStepper.Proofs.Evaluator.Acceptance
import ReductionStepper.Proofs.Evaluator.Fields
import ReductionStepper.Proofs.Evaluator.Listing
import ReductionStepper.Proofs.Evaluator.Respelling
import ReductionStepper.Proofs.Evaluator.RoundTrip
import ReductionStepper.Proofs.Fallible
import ReductionStepper.Proofs.Graph.Bound
import ReductionStepper.Proofs.Graph.Copies
import ReductionStepper.Proofs.Graph.Inside
import ReductionStepper.Proofs.Graph.Mirror
import ReductionStepper.Proofs.Graph.Parts
import ReductionStepper.Proofs.Graph.Retrace
import ReductionStepper.Proofs.Graph.Round
import ReductionStepper.Proofs.Graph.Scan
import ReductionStepper.Proofs.Graph.Steps
import ReductionStepper.Proofs.Graph.Tags
import ReductionStepper.Proofs.Graph.WellFormed
import ReductionStepper.Proofs.Json.Canonical
import ReductionStepper.Proofs.Json.Depth
import ReductionStepper.Proofs.Json.Reading
import ReductionStepper.Proofs.Markup.Label
import ReductionStepper.Proofs.Plan.Armed
import ReductionStepper.Proofs.Plan.Mirror
import ReductionStepper.Proofs.Plan.Stops
import ReductionStepper.Proofs.Report.Places
import ReductionStepper.Proofs.Screen.Palette
import ReductionStepper.Proofs.Session.Completion
import ReductionStepper.Proofs.Session.Invariance
import ReductionStepper.Proofs.Session.Mirror
import ReductionStepper.Proofs.Session.Moves
import ReductionStepper.Proofs.Session.Refusal
import ReductionStepper.Proofs.Session.Selecting
import ReductionStepper.Proofs.Session.Stepping
import ReductionStepper.Proofs.Source.Binding
import ReductionStepper.Proofs.Source.Diagnostic
import ReductionStepper.Proofs.Source.Marking
import ReductionStepper.Proofs.Source.Search
import ReductionStepper.Proofs.Stepper.Chart
import ReductionStepper.Proofs.Stepper.Check
import ReductionStepper.Proofs.Stepper.Cursor
import ReductionStepper.Proofs.Stepper.Footer
import ReductionStepper.Proofs.Stepper.Walk
import ReductionStepper.Proofs.Text.Line
import ReductionStepper.Proofs.Text.Numeral
import ReductionStepper.Proofs.Text.Part
import ReductionStepper.Proofs.Text.Word
import ReductionStepper.Proofs.View.Determined
import ReductionStepper.Proofs.View.Difference
import ReductionStepper.Proofs.View.Follow
import ReductionStepper.Proofs.View.Forest
import ReductionStepper.Proofs.View.Growth
import ReductionStepper.Proofs.View.Layout
import ReductionStepper.Proofs.View.Mirror
import ReductionStepper.Proofs.View.Partition
import ReductionStepper.Proofs.View.Replay
import ReductionStepper.Proofs.View.RootChain
import ReductionStepper.Proofs.Workbench.Delivery
import ReductionStepper.Proofs.Workbench.Ticket

/-!
# A stepper for reductions

A stepper shows how an evaluation went: the graph of its reduction steps comes as a reply of an
evaluator, a session shows a part of it and reveals more of it step by step, and a terminal draws
what is shown. `ReductionStepper` holds the program from the texts it reads to the screen and the
command line, and under `ReductionStepper.Proofs` the theory of it:

* `Proofs.Graph`, `Proofs.View`, `Proofs.Plan`, `Proofs.Session`: reduction graphs and their walks,
  the views of a graph and the actions that change them;
* `Proofs.Chart`, `Proofs.Stepper`: what is drawn of a session, and what the keys do;
* `Proofs.Workbench`, `Proofs.Report`, `Proofs.CommandLine`: checks, reports and the exit code;
* `Proofs.Json`, `Proofs.Evaluator`: replies as they are written, read and understood;
* `Proofs.Text`, `Proofs.Markup`, `Proofs.Source`, `Proofs.Screen`: the texts in between, labels,
  program texts and palettes;
* `Proofs.Fallible`: results of several stages, of which any can fail.
-/
