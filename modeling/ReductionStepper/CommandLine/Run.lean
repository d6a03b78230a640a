import ReductionStepper.CommandLine.Folder
import ReductionStepper.CommandLine.Options
import ReductionStepper.Sample
import ReductionStepper.Source.Binding
import ReductionStepper.Stepper
import ReductionStepper.Workbench

/-!
# Running the command line

What the program does with its arguments: it loads the program text and perhaps a saved reply, and
then either prints a report or hands over to the interactive stepper. Files, the evaluator and the
environment are given by a `World`, in whatever monad they live.
-/

namespace ReductionStepper.CommandLine

open Screen (Setting Theme)

/-- The name of the program. -/
def programName : String := "nanostep"

/-- The variable of the environment that filters the log. -/
def logVariable : String := "NANOSTEP_LOG"

/-- How the program is used. -/
def usage : String :=
  "Usage:\n" ++
  "  " ++ programName ++ " [<program-file>] [--function <name>] [--server <url>] " ++
  "[--timeout-secs <n>] [--print] [--log-file <path>]\n" ++
  "  " ++ programName ++ " [--program <file>] [--function <name>] [--server <url>] " ++
  "[--timeout-secs <n>] [--print] [--log-file <path>]\n" ++
  "  " ++ programName ++ " --demo <name> [--function <name>] [--server <url>] [--print]\n" ++
  "  " ++ programName ++ " --graph <response.json> [<program-file> | --demo <name>] " ++
  "[--function <name>] [--print]\n\n" ++
  "--function defaults to the last top-level \x60let\x60 in the program (else \x60main\x60).\n" ++
  "--server defaults to " ++ Address.default ++ "; --timeout-secs defaults to " ++
  Nat.repr defaultTimeout ++ ".\n" ++
  "--demo picks a built-in program (" ++ ", ".intercalate (Sample.all.map Sample.name) ++
  "); names are matched fuzzily.\n" ++
  "--graph loads a saved /check response and never contacts the evaluator.\n" ++
  "--print writes the outcome, annotations and initial chain to stdout instead of " ++
  "opening the TUI.\n\n" ++
  "Logs are filtered by $" ++ logVariable ++
  " (default \x60info\x60); they go to --log-file, or to stderr with --print.\n"

/-- What the program finds around it. -/
structure World (m : Type → Type) where
  read : String → m (Except FileError String)
  openToAppend : String → m (Except FileError Unit)
  check : Address → Nat → Request → m CheckResult
  palette : Setting

/-- Why the program fails. -/
inductive RunError where
  | logFile (error : FileError)
  | unknownDemo (name : String)
  | unreadable (path : String) (error : FileError)
  | palette (error : Screen.PaletteError)
  | noGraph
  deriving DecidableEq

/-- The text of an error. -/
def RunError.message : RunError → String
  | .logFile error => error.message
  | .unknownDemo name => "unknown demo \x60" ++ name ++ "\x60"
  | .unreadable path error => "cannot read " ++ path ++ ": " ++ error.message
  | .palette error => error.message
  | .noGraph => "no reduction graph to show"

/-- How a run goes on or ends. -/
inductive Conclusion where
  | misused
  | printed (report : String) (error : Option RunError)
  | failed (error : RunError)
  | interactive (stepper : Stepper)

/-- What a run leaves behind: its exit code and what it wrote. -/
structure Exit where
  code : Nat
  output : String
  errors : String
  deriving DecidableEq

/-- The line about an error. -/
def errorLine (error : RunError) : String := programName ++ ": " ++ error.message ++ "\n"

/-- How a run ends unless the stepper takes over. -/
def Conclusion.exit : Conclusion → Exit
  | .misused => ⟨2, "", usage⟩
  | .printed report none => ⟨0, report, ""⟩
  | .printed report (some error) => ⟨1, report, errorLine error⟩
  | .failed error => ⟨1, "", errorLine error⟩
  | .interactive _ => ⟨0, "", ""⟩

section

variable {m : Type → Type} [Monad m]

/-- Reads a file whose absence is an error. -/
def readFile (world : World m) (path : String) : m (Except RunError String) := do
  match ← world.read path with
  | .error error => return .error (.unreadable path error)
  | .ok text => return .ok text

/-- The program text and the function of it to check: those of a sample, or those of a file, in
which the last binding is checked. -/
def loadProgram (world : World m) (options : Options) : m (Except RunError (String × String)) := do
  match options.demo with
  | some name =>
    match Sample.find? name with
    | none => return .error (.unknownDemo name)
    | some sample => return .ok (sample.source, sample.function)
  | none =>
    match options.program with
    | none => return .ok ("", Source.lastBound "")
    | some path =>
      match ← readFile world path with
      | .error error => return .error error
      | .ok text => return .ok (text, Source.lastBound text)

/-- Opens the log if one is asked for. -/
def openLog (world : World m) (options : Options) : m (Except RunError Unit) := do
  match options.logFile with
  | none => return .ok ()
  | some path =>
    match ← world.openToAppend path with
    | .error error => return .error (.logFile error)
    | .ok () => return .ok ()

/-- A workbench that took the given text as a reply. -/
def benchOfReply (bench : Workbench) (text : String) : Workbench :=
  let ((ticket, _), bench) := bench.beginCheck
  (bench.finishCheck ticket (CheckResult.ofText text)).2

/-- The report on a workbench; without a session the run fails. -/
def printed (bench : Workbench) : Conclusion :=
  .printed (Report.text bench) (if bench.session.isSome then none else some .noGraph)

/-- Hands over to the stepper, which asks for a check at once if it can and has no session. -/
def interactive (world : World m) (bench : Workbench) (canCheck : Bool) : Conclusion :=
  match Theme.ofSetting world.palette with
  | .error error => .failed (.palette error)
  | .ok theme =>
    let stepper := Stepper.start bench theme canCheck
    .interactive (if canCheck && bench.session.isNone then stepper.queueCheck else stepper)

/-- The evaluator that the options name. -/
def serverAddress (options : Options) : Address :=
  Address.ofString (options.server.getD Address.default)

/-- Goes on with a program that was loaded. -/
def runLoaded (world : World m) (options : Options) (bench : Workbench) : m Conclusion := do
  match options.graph with
  | some path =>
    match ← readFile world path with
    | .error error => return .failed error
    | .ok text =>
      let bench := benchOfReply bench text
      return if options.print then printed bench else interactive world bench false
  | none =>
    if options.print then
      let ((ticket, request), bench) := bench.beginCheck
      let seconds := (options.timeout.map UInt64.toNat).getD defaultTimeout
      let result ← world.check (serverAddress options) seconds request
      return printed (bench.finishCheck ticket result).2
    else return interactive world bench true

/-- Goes on with options that go together. -/
def runOptions (world : World m) (options : Options) : m Conclusion := do
  match ← openLog world options with
  | .error error => return .failed error
  | .ok () =>
    match ← loadProgram world options with
    | .error error => return .failed error
    | .ok (program, function) =>
      runLoaded world options (Workbench.start program (options.function.getD function))

/-- Runs the program on its arguments. -/
def run (world : World m) (arguments : List String) : m Conclusion := do
  match Options.ofArguments? arguments with
  | none => return .misused
  | some options => runOptions world options

end

/-- The world of a folder without an evaluator in reach. -/
def Folder.world (palette : Setting) : World (StateM Folder) where
  read path := do return (← get).read path
  openToAppend path := do
    let (result, folder) := (← get).openToAppend path
    set folder
    return result
  check _ _ _ := return .error Address.unusable
  palette := palette

end ReductionStepper.CommandLine
