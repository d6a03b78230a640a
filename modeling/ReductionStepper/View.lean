import Std.Data.ExtTreeSet
import ReductionStepper.Graph.Walk

/-!
# The view of a graph

A view shows some terms of a graph and links between them. It starts with the root, the last term
and one link, and grows in two ways: a hidden term splits a shown link, or a pair of hidden terms
appears with a link of its own. Every change is recorded with what it added and removed, so that
undoing the newest one restores the picture before it.
-/

namespace ReductionStepper

/-- Whether a link stands for a single edge or for several steps. -/
inductive Weight where
  | single
  | multi
  deriving DecidableEq, Repr

/-- The rank of a weight in the order of links. -/
def Weight.rank : Weight → Nat
  | .single => 0
  | .multi => 1

/-- A link between two terms of a view. -/
structure Link where
  source : TermId
  target : TermId
  weight : Weight
  deriving DecidableEq

namespace Link

/-- The order of links: by source, then by target, then single before multi. -/
def order : Link → Link → Ordering :=
  compareLex (compareOn source) (compareLex (compareOn target) (compareOn fun l => l.weight.rank))

instance : Ord Link := ⟨order⟩

instance : Std.TransCmp order := inferInstanceAs (Std.TransCmp (compareLex _ _))

instance : Std.TransOrd Link := inferInstanceAs (Std.TransCmp order)

instance : Std.LawfulEqOrd Link where
  compare_self {a} := (Std.ReflCmp.compare_self : order a a = .eq)
  eq_of_compare {a b} h := by
    obtain ⟨source, target, weight⟩ := a
    obtain ⟨source', target', weight'⟩ := b
    have h : order ⟨source, target, weight⟩ ⟨source', target', weight'⟩ = .eq := h
    simp only [order, compareLex, compareOn, Ordering.then_eq_eq] at h
    obtain ⟨hsource, htarget, hweight⟩ := h
    have hrank := Std.LawfulEqCmp.eq_of_compare hweight
    rw [Std.LawfulEqCmp.eq_of_compare hsource, Std.LawfulEqCmp.eq_of_compare htarget]
    cases weight <;> cases weight' <;> simp_all [Weight.rank]

/-- The link within a chain of steps: single exactly when a step leads over it. -/
def between (index : Index) (source target : TermId) : Link :=
  ⟨source, target, if index.hasStep source target then .single else .multi⟩

/-- The link of a pair that stands alone: single exactly when any edge leads over it. -/
def detached (index : Index) (source target : TermId) : Link :=
  ⟨source, target, if index.hasEdge source target then .single else .multi⟩

/-- Whether a link stands for several steps. -/
def isCollapsed (link : Link) : Bool := link.weight = .multi

end Link

/-- What a change of the view added and removed. -/
structure Change where
  nodesAdded : List TermId
  linksAdded : List Link
  linkRemoved : Option Link
  deriving DecidableEq

/-- The terms and links that are shown. -/
structure Picture where
  nodes : Std.ExtTreeSet TermId
  links : Std.ExtTreeSet Link

/-- A view: what it shows, what it showed at first, and the changes since, newest first. -/
structure View where
  root : TermId
  shown : Picture
  initial : Picture
  history : List Change

/-- Why a view refuses a change. -/
inductive ViewError where
  | unknownTerm (id : TermId)
  | alreadyVisible (id : TermId)
  | missingLink (source target : TermId)
  | degeneratePair (id : TermId)
  deriving DecidableEq

/-- The text of an error. -/
def ViewError.message : ViewError → String
  | .unknownTerm id => s!"term {id.text} is not in the graph"
  | .alreadyVisible id => s!"term {id.text} is already visible"
  | .missingLink source target => s!"no visible edge {source.text} -> {target.text}"
  | .degeneratePair id => s!"term {id.text} cannot be paired with itself"

/-- The picture of a fresh view: the root, the last term if it is another one, and one link. -/
def Picture.start (index : Index) : Picture :=
  let last := index.ending.term
  if last = index.root then ⟨{index.root}, ∅⟩
  else ⟨{index.root, last}, {Link.between index index.root last}⟩

namespace Picture

/-- The picture after a change. -/
def apply (picture : Picture) (change : Change) : Picture :=
  let links := match change.linkRemoved with
    | none => picture.links
    | some link => picture.links.erase link
  { nodes := change.nodesAdded.foldl (·.insert ·) picture.nodes
    links := change.linksAdded.foldl (·.insert ·) links }

/-- The picture before a change. -/
def revert (picture : Picture) (change : Change) : Picture :=
  let links := change.linksAdded.foldl (·.erase ·) picture.links
  { nodes := change.nodesAdded.foldl (·.erase ·) picture.nodes
    links := match change.linkRemoved with
      | none => links
      | some link => links.insert link }

end Picture

namespace View

/-- The view of a graph before any change. -/
def start (index : Index) : View :=
  ⟨index.root, Picture.start index, Picture.start index, []⟩

/-- Whether a term is shown. -/
def shows (view : View) (id : TermId) : Bool := view.shown.nodes.contains id

/-- Whether a link is shown. -/
def showsLink (view : View) (link : Link) : Bool := view.shown.links.contains link

/-- The shown links in order. -/
def links (view : View) : List Link := view.shown.links.toList

/-- The shown links that leave a term, in order. -/
def outgoing (view : View) (id : TermId) : List Link := view.links.filter (·.source = id)

/-- The shown links that enter a term, in order. -/
def incoming (view : View) (id : TermId) : List Link := view.links.filter (·.target = id)

/-- The only element of a list. -/
def sole? {α : Type} : List α → Option α
  | [x] => some x
  | _ => none

/-- The shown link that leaves a term, if there is exactly one. -/
def soleOutgoing? (view : View) (id : TermId) : Option Link := sole? (view.outgoing id)

/-- The shown link that enters a term, if there is exactly one. -/
def soleIncoming? (view : View) (id : TermId) : Option Link := sole? (view.incoming id)

/-- Whether there is a change to undo. -/
def canUndo (view : View) : Bool := !view.history.isEmpty

/-- Why a term is not a hidden term of the graph. -/
def hiddenError? (view : View) (index : Index) (id : TermId) : Option ViewError :=
  if !index.contains id then some (.unknownTerm id)
  else if view.shows id then some (.alreadyVisible id)
  else none

/-- Why a term cannot split a link. -/
def splitError? (view : View) (index : Index) (node : TermId) (replacing : Link) :
    Option ViewError :=
  (view.hiddenError? index node).or
    (if view.showsLink replacing then none
      else some (.missingLink replacing.source replacing.target))

/-- Why two terms cannot appear as a pair. -/
def pairError? (view : View) (index : Index) (subterm value : TermId) : Option ViewError :=
  if subterm = value then some (.degeneratePair subterm)
  else (view.hiddenError? index subterm).or (view.hiddenError? index value)

/-- The view after a change, which it records. -/
def record (view : View) (change : Change) : View :=
  { view with shown := view.shown.apply change, history := change :: view.history }

/-- The change that puts a term on a link. -/
def splitting (index : Index) (node : TermId) (replacing : Link) : Change :=
  { nodesAdded := [node]
    linksAdded := [.between index replacing.source node, .between index node replacing.target]
    linkRemoved := some replacing }

/-- The change that shows a pair of terms. -/
def pairing (index : Index) (subterm value : TermId) : Change :=
  { nodesAdded := [subterm, value]
    linksAdded := [.detached index subterm value]
    linkRemoved := none }

/-- Shows a hidden term on a shown link, in whose place come two links. -/
def split (view : View) (index : Index) (node : TermId) (replacing : Link) :
    Except ViewError (Change × View) :=
  match view.splitError? index node replacing with
  | some error => .error error
  | none =>
    let change := splitting index node replacing
    .ok (change, view.record change)

/-- Shows two hidden terms and a link between them. -/
def pair (view : View) (index : Index) (subterm value : TermId) :
    Except ViewError (Change × View) :=
  match view.pairError? index subterm value with
  | some error => .error error
  | none =>
    let change := pairing index subterm value
    .ok (change, view.record change)

/-- Takes back the newest change. -/
def undo? (view : View) : Option (Change × View) :=
  match view.history with
  | [] => none
  | change :: earlier =>
    some (change, { view with shown := view.shown.revert change, history := earlier })

/-- The view before any change. -/
def reset (view : View) : View := { view with shown := view.initial, history := [] }

end View

/-! ## Chains

The links of a view form chains. The first chain starts at the root, and each pair that was shown on
its own starts one more, in the order of the changes. A term stands in the first chain that
reaches it and nowhere else. -/

/-- A term and the links from it on, each link starting where the one before it ended. -/
structure Chain where
  head : TermId
  links : List Link
  deriving DecidableEq

/-- The terms of a chain in order. -/
def Chain.nodes (chain : Chain) : List TermId := chain.head :: chain.links.map Link.target

namespace View

/-- The terms at which chains may start, in order. -/
def heads (view : View) : List TermId :=
  let added := view.history.reverse.flatMap Change.nodesAdded
  let detached := added.filter fun node =>
    view.shows node && node ≠ view.root && (view.incoming node).isEmpty
  (if view.shows view.root then [view.root] else []) ++ detached

/-- Follows the links from a term over terms not seen before, in at most the given number of
links; answers the links and the terms seen by then. -/
def follow (view : View) : Nat → List TermId → TermId → List Link × List TermId
  | 0, seen, _ => ([], seen)
  | bound + 1, seen, node =>
    match (view.outgoing node).head? with
    | none => ([], seen)
    | some link =>
      if link.target ∈ seen then ([], seen)
      else
        let (links, seen) := follow view bound (link.target :: seen) link.target
        (link :: links, seen)

/-- The chains from the given heads. Every link of a chain leads to a term not seen before, so no
chain has more links than the view. -/
def chainsFrom (view : View) (seen : List TermId) : List TermId → List Chain
  | [] => []
  | head :: later =>
    if head ∈ seen then chainsFrom view seen later
    else
      let (links, seen) := view.follow view.links.length (head :: seen) head
      ⟨head, links⟩ :: chainsFrom view seen later

/-- The chains of a view in the order in which they are displayed. -/
def chains (view : View) : List Chain := view.chainsFrom [] view.heads

end View

end ReductionStepper
