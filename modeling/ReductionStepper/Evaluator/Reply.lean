import ReductionStepper.Json.Value
import ReductionStepper.Term

/-!
# Replies of the evaluator

What the evaluator answers to a check: a graph with the value it ends in, a graph that gets stuck, a
timeout, or a parse error. A reply names terms by numbers or by texts, and a number names the
same term as its decimal digits.
-/

namespace ReductionStepper

namespace Reply

/-- How a reply names a term. -/
inductive Name where
  | number (value : UInt64)
  | text (value : String)
  deriving DecidableEq

/-- The id that a name stands for, unless it is empty. -/
def Name.termId? : Name → Option TermId
  | .number value => some (.ofNat value.toNat)
  | .text value => TermId.ofString? value

/-- A term in a reply. -/
structure Node where
  id : Name
  label : String
  span : Option Source.Span
  deriving DecidableEq

/-- An edge in a reply. -/
structure Arrow where
  source : Name
  target : Name
  label : String
  deriving DecidableEq

end Reply

/-- A reply of the evaluator. -/
inductive Reply where
  | value (nodes : List Reply.Node) (edges : List Reply.Arrow) (root value : Reply.Name)
  /-- The term that got stuck may be given by either of two names, `stuck` before `bad`. -/
  | stuck (nodes : List Reply.Node) (edges : List Reply.Arrow) (root : Reply.Name)
      (stuck bad : Option Reply.Name) (reason : String)
  | timeout (root : Option Json)
  | parseError (error : String)

/-- The word for the kind of a reply. -/
inductive Reply.Kind where
  | value
  | stuck
  | timeout
  | parseError
  deriving DecidableEq, Repr

namespace Reply

/-- All kinds in their order. -/
def Kind.all : List Kind := [.value, .stuck, .timeout, .parseError]

/-- The word for a kind. -/
def Kind.word : Kind → String
  | .value => "value"
  | .stuck => "stuck"
  | .timeout => "timeout"
  | .parseError => "parse-error"

/-- The kind that a word stands for. -/
def Kind.ofWord? (word : String) : Option Kind := Kind.all.find? (·.word = word)

/-- The word of a kind is read as the kind. -/
@[simp] theorem Kind.ofWord?_word (kind : Kind) : Kind.ofWord? kind.word = some kind := by
  cases kind <;> decide

/-- The kind of a reply. -/
def kind : Reply → Kind
  | .value .. => .value
  | .stuck .. => .stuck
  | .timeout _ => .timeout
  | .parseError _ => .parseError

end Reply

end ReductionStepper
