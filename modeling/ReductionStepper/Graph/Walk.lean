import ReductionStepper.Graph.Index

/-!
# Walks along the steps

A term has at most one step that counts, so the steps from a term form one chain. A walk follows
that chain to a given term or to its end. The chain of a malformed graph may never end; a walk
therefore takes at most one step more than the graph has edges, which no chain that ends or
meets its goal can use up.
-/

namespace ReductionStepper

/-- How a walk to a given term ends. -/
inductive Walk where
  /-- At the term, over these steps. -/
  | arrived (path : List Edge)
  /-- At another term, which has no step. -/
  | blocked
  /-- Not at all. -/
  | endless
  deriving DecidableEq

namespace Walk

/-- The walk with one step before it. -/
def after (step : Edge) : Walk → Walk
  | .arrived path => .arrived (step :: path)
  | walk => walk

/-- The steps of a walk that arrives. -/
def path : Walk → List Edge
  | .arrived path => path
  | _ => []

end Walk

namespace Index

/-- The walk from one term to another in at most the given number of steps. -/
def walkWithin (index : Index) (target : TermId) : Nat → TermId → Walk
  | 0, _ => .endless
  | bound + 1, source =>
    match index.step? source with
    | none => .blocked
    | some step =>
      if step.target = target then .arrived [step]
      else (walkWithin index target bound step.target).after step

/-- One more than the number of edges. -/
def walkBound (index : Index) : Nat := index.graph.edges.length + 1

/-- The walk from one term to another. It takes at least one step. -/
def walk (index : Index) (source target : TermId) : Walk :=
  index.walkWithin target index.walkBound source

/-- The steps from one term to another, none if the walk does not arrive. -/
def path (index : Index) (source target : TermId) : List Edge := (index.walk source target).path

/-- The term where a chain ends, or the one reached when the bound is used up. -/
inductive Settling where
  | ended (term : TermId)
  | unsettled (term : TermId)
  deriving DecidableEq

/-- The term that a chain was followed to. -/
def Settling.term : Settling → TermId
  | .ended term => term
  | .unsettled term => term

/-- Follows the chain from a term for at most the given number of steps. -/
def settleWithin (index : Index) : Nat → TermId → Settling
  | 0, id => .unsettled id
  | bound + 1, id =>
    match index.next? id with
    | none => .ended id
    | some next => settleWithin index bound next

/-- Follows the chain from a term to its end. -/
def settle (index : Index) (id : TermId) : Settling := index.settleWithin index.walkBound id

/-- The value of a term: the term that its chain ends at. -/
def value (index : Index) (id : TermId) : TermId := (index.settle id).term

/-- The terms along a path, its start included. -/
def pathTerms : List Edge → List TermId
  | [] => []
  | step :: later => step.source :: (step :: later).map Edge.target

/-- Among the subterms of `source` the first whose next term is a subterm of the term that
`source` steps to on its way to `target`. -/
def activeSubterm? (index : Index) (source target : TermId) : Option TermId := do
  let first ← (index.path source target).head?
  (index.subterms source).find? fun subterm =>
    match index.next? subterm with
    | none => false
    | some next => (index.parents next).contains first.target

end Index

end ReductionStepper
