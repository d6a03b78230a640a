/-!
# Actions

The six ways of revealing more of a reduction graph from a selected term.
-/

namespace ReductionStepper

/-- A way of revealing terms. -/
inductive Action where
  | stepForward
  | stepBackward
  | jumpForward
  | jumpBackward
  | stepInto
  | stepOver
  deriving DecidableEq, Repr

namespace Action

/-- All actions in the order in which they are listed. -/
def all : List Action :=
  [.stepForward, .stepBackward, .jumpForward, .jumpBackward, .stepInto, .stepOver]

/-- The name of an action in messages. -/
def name : Action → String
  | .stepForward => "step-forward"
  | .stepBackward => "step-backward"
  | .jumpForward => "jump-forward"
  | .jumpBackward => "jump-backward"
  | .stepInto => "step-into"
  | .stepOver => "step-over"

/-- The title of an action. -/
def title : Action → String
  | .stepForward => "Step forward"
  | .stepBackward => "Step backward"
  | .jumpForward => "Jump forward"
  | .jumpBackward => "Jump backward"
  | .stepInto => "Step into"
  | .stepOver => "Step over"

/-- The key that performs an action. -/
def key : Action → Char
  | .stepForward => 'f'
  | .stepBackward => 'b'
  | .jumpForward => 'n'
  | .jumpBackward => 'p'
  | .stepInto => 'i'
  | .stepOver => 'o'

/-- The action that a key performs. -/
def ofKey? (c : Char) : Option Action := all.find? (·.key = c)

/-- The action with a name. -/
def ofName? (name : String) : Option Action := all.find? (·.name = name)

/-- The key of an action is read as the action. -/
@[simp] theorem ofKey?_key (action : Action) : ofKey? action.key = some action := by
  cases action <;> decide

/-- The name of an action is read as the action. -/
@[simp] theorem ofName?_name (action : Action) : ofName? action.name = some action := by
  cases action <;> decide

end Action

end ReductionStepper
