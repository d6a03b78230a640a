import ReductionStepper.Text.Digit

/-!
# Options

The arguments of the command line fall into groups: a switch, a flag with its value, or the name of
a program file. The groups may come in any order, none twice, and some exclude each other.
-/

namespace ReductionStepper.CommandLine

/-- A flag that takes a text. -/
inductive Flag where
  | program
  | function
  | server
  | demo
  | graph
  | logFile
  deriving DecidableEq, Repr

/-- All flags that take a text. -/
def Flag.all : List Flag := [.program, .function, .server, .demo, .graph, .logFile]

/-- How a flag is written. -/
def Flag.word : Flag → String
  | .program => "--program"
  | .function => "--function"
  | .server => "--server"
  | .demo => "--demo"
  | .graph => "--graph"
  | .logFile => "--log-file"

/-- The flag that a word stands for. -/
def Flag.ofWord? (word : String) : Option Flag := Flag.all.find? (·.word = word)

/-- The word of a flag is read as the flag. -/
@[simp] theorem Flag.ofWord?_word (flag : Flag) : Flag.ofWord? flag.word = some flag := by
  cases flag <;> decide

/-- A group of arguments. -/
inductive Group where
  | print
  | text (flag : Flag) (value : String)
  | timeout (seconds : UInt64)
  | file (path : String)
  deriving DecidableEq

/-- The seconds that a text denotes: a number from one to below `2 ^ 64`. -/
def readSeconds? (text : String) : Option UInt64 :=
  match Text.readSignedNumeral UInt64.size text.toList with
  | none => none
  | some seconds => if seconds = 0 then none else some (UInt64.ofNat seconds)

/-- Whether a text starts like a flag. -/
def startsLikeFlag (text : String) : Bool := ['-', '-'].isPrefixOf text.toList

/-- Divides arguments into groups. The value of a flag must not start like a flag, and the name of a
program file must not start with a dash. -/
def groups? : List String → Option (List Group)
  | [] => some []
  | arg :: rest =>
    if arg = "--print" then (groups? rest).map (.print :: ·)
    else if arg = "--timeout-secs" then
      match rest with
      | [] => none
      | value :: rest =>
        match readSeconds? value with
        | none => none
        | some seconds => (groups? rest).map (.timeout seconds :: ·)
    else
      match Flag.ofWord? arg with
      | some flag =>
        match rest with
        | [] => none
        | value :: rest =>
          if startsLikeFlag value then none else (groups? rest).map (.text flag value :: ·)
      | none =>
        if ['-'].isPrefixOf arg.toList then none else (groups? rest).map (.file arg :: ·)

/-- What the arguments ask for. -/
structure Options where
  program : Option String := none
  function : Option String := none
  server : Option String := none
  timeout : Option UInt64 := none
  demo : Option String := none
  graph : Option String := none
  print : Bool := false
  logFile : Option String := none
  deriving DecidableEq

namespace Options

/-- The text given for a flag. -/
def text? (options : Options) : Flag → Option String
  | .program => options.program
  | .function => options.function
  | .server => options.server
  | .demo => options.demo
  | .graph => options.graph
  | .logFile => options.logFile

/-- The options with a text for a flag. -/
def setText (options : Options) (value : String) : Flag → Options
  | .program => { options with program := some value }
  | .function => { options with function := some value }
  | .server => { options with server := some value }
  | .demo => { options with demo := some value }
  | .graph => { options with graph := some value }
  | .logFile => { options with logFile := some value }

/-- The options with one group more; nothing may be given twice. A program file may be given with
its flag or without. -/
def add? (options : Options) : Group → Option Options
  | .print => if options.print then none else some { options with print := true }
  | .timeout seconds =>
    if options.timeout.isSome then none else some { options with timeout := some seconds }
  | .text flag value =>
    if (options.text? flag).isSome then none else some (options.setText value flag)
  | .file path =>
    if options.program.isSome then none else some { options with program := some path }

/-- Whether the options go together: a program file or a demo but not both, neither only beside a
graph, and no server or timeout beside a graph. -/
def isConsistent (options : Options) : Bool :=
  !(options.demo.isSome && options.program.isSome) &&
    !(options.graph.isSome && (options.server.isSome || options.timeout.isSome)) &&
    (options.program.isSome || options.demo.isSome || options.graph.isSome)

/-- The options that arguments give, none if they are misused. -/
def ofArguments? (arguments : List String) : Option Options := do
  let groups ← groups? arguments
  let options ← groups.foldlM add? {}
  if options.isConsistent then some options else none

end Options

end ReductionStepper.CommandLine
