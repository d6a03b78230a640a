import ReductionStepper.Action
import ReductionStepper.View

/-!
# Plans

A plan holds, for a selected term, what each action would reveal. Each rule looks at the only link
that leaves or enters the selected term, walks the steps behind it and picks a term on the way; an
action whose rule finds nothing is not armed. A plan is applied to a view by the two changes a view
knows.
-/

namespace ReductionStepper

/-- A hidden term and the link it would split. -/
structure Split where
  destination : TermId
  replacing : Link
  deriving DecidableEq

/-- A hidden subterm and its value, which would appear as a pair. -/
structure Pair where
  subterm : TermId
  value : TermId
  deriving DecidableEq

/-- What each action would reveal. -/
structure Plan where
  stepForward : Option Split := none
  stepBackward : Option Split := none
  jumpForward : Option Split := none
  jumpBackward : Option Split := none
  stepInto : Option Pair := none
  stepOver : Option Split := none
  deriving DecidableEq

namespace Plan

/-- The plan in which no action is armed. -/
def empty : Plan := {}

/-- The split of an action other than stepping into. -/
def split? (plan : Plan) : Action → Option Split
  | .stepForward => plan.stepForward
  | .stepBackward => plan.stepBackward
  | .jumpForward => plan.jumpForward
  | .jumpBackward => plan.jumpBackward
  | .stepInto => none
  | .stepOver => plan.stepOver

/-- The term that an action leads to. -/
def destination? (plan : Plan) : Action → Option TermId
  | .stepInto => plan.stepInto.map Pair.subterm
  | action => (plan.split? action).map Split.destination

/-- Whether an action would reveal anything. -/
def isArmed (plan : Plan) : Action → Bool
  | .stepInto => plan.stepInto.isSome
  | action => (plan.split? action).isSome

/-- The actions that would reveal something, in order. -/
def armed (plan : Plan) : List Action := Action.all.filter plan.isArmed

/-- Whether no action is armed. -/
def isEmpty (plan : Plan) : Bool := plan.armed.isEmpty

/-! ## Rules -/

/-- Forward by one step: the next term, if it is hidden. -/
def stepForward? (index : Index) (view : View) (selected : TermId) : Option Split := do
  let next ← index.next? selected
  if view.shows next then none
  else
    let replacing ← view.soleOutgoing? selected
    return ⟨next, replacing⟩

/-- Backward by one step: where the last step into the selected term starts, if the link stands for
more than two steps. -/
def stepBackward? (index : Index) (view : View) (selected : TermId) : Option Split := do
  let replacing ← view.soleIncoming? selected
  let path := index.path replacing.source replacing.target
  if path.length ≤ 2 then none
  else
    let last ← path.getLast?
    return ⟨last.source, replacing⟩

/-- The first stop along hops: before a call, or behind a return; none if a shown term lies
before it. -/
def firstStop? (view : View) : List Edge → Option TermId
  | [] => none
  | hop :: later =>
    if view.shows hop.target then none
    else if hop.has .callStep then some hop.source
    else if hop.has .returnStep then some hop.target
    else firstStop? view later

/-- Forward to the next call or behind the next return. A return right at the selected term counts,
a call there does not. -/
def jumpForward? (index : Index) (view : View) (selected : TermId) : Option Split := do
  let replacing ← view.soleOutgoing? selected
  match index.path replacing.source replacing.target with
  | [] => none
  | [_] => none
  | first :: later =>
    let destination ←
      if first.has .returnStep then some first.target else firstStop? view later
    return ⟨destination, replacing⟩

/-- The first call along hops given in reverse; none if a shown term lies before it. -/
def lastCall? (view : View) : List Edge → Option TermId
  | [] => none
  | hop :: earlier =>
    if view.shows hop.source then none
    else if hop.has .callStep then some hop.source
    else lastCall? view earlier

/-- Backward to the call before the last step into the selected term. -/
def jumpBackward? (index : Index) (view : View) (selected : TermId) : Option Split := do
  let replacing ← view.soleIncoming? selected
  let path := index.path replacing.source replacing.target
  let destination ← lastCall? view path.dropLast.reverse
  return ⟨destination, replacing⟩

/-- The first subterm of a term that takes a call step. -/
def callingSubterm? (index : Index) (selected : TermId) : Option TermId :=
  (index.subterms selected).find? fun subterm =>
    (index.outgoing subterm .stepsTo).any (·.has .callStep)

/-- Into the first subterm that makes a call: the subterm and its value, if both are hidden and
differ. -/
def stepInto? (index : Index) (view : View) (selected : TermId) : Option Pair := do
  let subterm ← callingSubterm? index selected
  let value := index.value subterm
  if value = subterm ∨ view.shows subterm = true ∨ view.shows value = true then none
  else return ⟨subterm, value⟩

/-- Over the reduction of the active subterm: to the first term on the way that has the subterm's
value as a subterm, if it is hidden. -/
def stepOver? (index : Index) (view : View) (selected : TermId) : Option Split := do
  let replacing ← view.soleOutgoing? selected
  let terms := Index.pathTerms (index.path replacing.source replacing.target)
  let subterm ← index.activeSubterm? replacing.source replacing.target
  let parents := index.parents (index.value subterm)
  let destination ← terms.find? parents.contains
  if view.shows destination then none else return ⟨destination, replacing⟩

/-- The plan for a selected term; nothing is armed for a hidden one. -/
def make (index : Index) (view : View) (selected : TermId) : Plan :=
  if view.shows selected then
    { stepForward := stepForward? index view selected
      stepBackward := stepBackward? index view selected
      jumpForward := jumpForward? index view selected
      jumpBackward := jumpBackward? index view selected
      stepInto := stepInto? index view selected
      stepOver := stepOver? index view selected }
  else empty

end Plan

/-- Why an action could not be performed. -/
inductive NavigationError where
  | nothingSelected
  | notVisible (id : TermId)
  | notArmed (action : Action)
  | refused (error : ViewError)
  deriving DecidableEq

/-- The text of an error. -/
def NavigationError.message : NavigationError → String
  | .nothingSelected => "no term is selected"
  | .notVisible id => s!"term {id.text} is not visible"
  | .notArmed action => s!"{action.name} is not available from the selection"
  | .refused error => s!"visible graph rejected the change: {error.message}"

/-- Reports what a view refuses. -/
def NavigationError.ofView {α : Type} : Except ViewError α → Except NavigationError α
  | .error error => .error (.refused error)
  | .ok result => .ok result

/-- Applies what a plan holds for an action. -/
def Plan.apply (plan : Plan) (index : Index) (view : View) :
    Action → Except NavigationError (Change × View)
  | .stepInto =>
    match plan.stepInto with
    | none => .error (.notArmed .stepInto)
    | some target => NavigationError.ofView (view.pair index target.subterm target.value)
  | action =>
    match plan.split? action with
    | none => .error (.notArmed action)
    | some target => NavigationError.ofView (view.split index target.destination target.replacing)

end ReductionStepper
