import ReductionStepper.Proofs.Session.Moves
import ReductionStepper.Proofs.View.RootChain

/-!
# How far stepping gets

Every action that succeeds shows a term more, so without undoing there can be no more of them than
hidden terms. On a well-formed graph, whatever was done before, stepping forward along the first
chain is never blocked: each round shows one more of the hidden terms on the way from the root to
the last term, and when no round is left, the first chain is the whole way.
-/

namespace ReductionStepper

open Relation (ReflTransGen TransGen)

namespace View

/-! ## Numbers of shown terms -/

variable {view : View} {index : Index} {change : Change}

/-- A grown view shows no more terms than there are. -/
theorem Grown.size_le {graph : Graph} (h : Grown (Index.ofGraph graph) view) :
    view.shown.nodes.size ≤ graph.terms.length := by
  have hnodup : List.Nodup view.shown.nodes.toList := by
    refine Std.ExtTreeSet.distinct_toList.imp fun hne heq => hne ?_
    rw [heq]
    exact Std.ReflCmp.compare_self
  have hsubset : view.shown.nodes.toList ⊆ graph.ids := by
    intro id hid
    rw [Std.ExtTreeSet.mem_toList] at hid
    exact (Index.contains_ofGraph graph id).mp (h.known (Std.ExtTreeSet.contains_iff_mem.mpr hid))
  have hle := hnodup.length_le_of_subset hsubset
  rwa [Std.ExtTreeSet.length_toList, Graph.ids, List.length_map] at hle

/-- A grown view shows no fewer terms than a fresh one. -/
theorem Grown.size_start_le (h : Grown index view) :
    (View.start index).shown.nodes.size ≤ view.shown.nodes.size := by
  induction h with
  | start => exact Nat.le_refl _
  | record _ hchange ih => exact Nat.le_trans ih (Nat.le_of_lt hchange.size_lt)

end View

namespace Plan

variable {graph : Graph} {view : View} {selected : TermId}

private theorem split?_stepForward {index : Index} (hshown : view.shows selected = true) :
    (make index view selected).split? .stepForward = stepForward? index view selected := by
  rw [make, if_pos hshown]
  rfl

/-- At a shown term a step forward is armed exactly if the next term is hidden. -/
theorem isArmed_stepForward_iff (hgraph : graph.WellFormed)
    (h : view.Grown (Index.ofGraph graph)) (hfollows : view.Follows (Index.ofGraph graph))
    (hshown : view.shows selected = true) :
    (make (Index.ofGraph graph) view selected).isArmed .stepForward = true ↔
      ∃ next, (Index.ofGraph graph).Next selected next ∧ view.shows next = false := by
  rw [isArmed_iff, split?_stepForward hshown]
  simp only [reduceCtorEq, false_and, exists_false, or_false]
  constructor
  · rintro ⟨split, hsplit⟩
    obtain ⟨hnext, hhidden, -⟩ := stepForward?_eq_some_iff.mp hsplit
    exact ⟨split.destination, hnext, hhidden⟩
  · rintro ⟨next, hnext, hhidden⟩
    obtain ⟨link, hlink, hsource⟩ :=
      h.exists_link_of_transGen hgraph hfollows hshown (.single hnext)
    exact ⟨⟨next, link⟩, stepForward?_eq_some_iff.mpr
      ⟨hnext, hhidden, h.laidOut.soleOutgoing?_eq_some_iff.mpr ⟨hlink, hsource⟩⟩⟩

end Plan

namespace Session

/-! ## Successful actions -/

/-- Whether an action was performed. -/
def Answer.isPerformed : Answer → Bool
  | .performed (.ok _) => true
  | _ => false

/-- Every action that is performed shows a term more, and only undoing and resetting hide any. -/
theorem size_obey (session : Session) {command : Command}
    (hforth : command ≠ .undo ∧ command ≠ .reset) :
    [(session.obey command).1].countP Answer.isPerformed + session.view.shown.nodes.size ≤
      (session.obey command).2.view.shown.nodes.size := by
  cases command with
  | select id =>
    cases hshown : session.view.shows id <;>
      simp [obey, Session.select, hshown, Answer.isPerformed, deselect]
  | deselect => simp [obey, deselect, Answer.isPerformed]
  | perform action =>
    cases hselected : session.selection with
    | none => simp [obey, perform, hselected, Answer.isPerformed]
    | some selection =>
      cases happly : selection.plan.apply session.index session.view action with
      | error error => simp [obey, perform, hselected, happly, Answer.isPerformed]
      | ok made =>
        obtain ⟨hchange, hlater⟩ := View.admits_of_apply happly
        have hsize := hchange.size_lt
        rw [← hlater] at hsize
        simp only [obey, perform_of_apply hselected happly, Answer.isPerformed,
          List.countP_singleton, if_true]
        omega
  | undo => exact absurd rfl hforth.1
  | reset => exact absurd rfl hforth.2

/-- All actions that are performed show a term more each. -/
theorem size_run (session : Session) {commands : List Command}
    (hforth : ∀ command ∈ commands, command ≠ .undo ∧ command ≠ .reset) :
    (session.run commands).1.countP Answer.isPerformed + session.view.shown.nodes.size ≤
      (session.run commands).2.view.shown.nodes.size := by
  induction commands generalizing session with
  | nil => simp [Session.run]
  | cons command commands ih =>
    obtain ⟨hcommand, hcommands⟩ := List.forall_mem_cons.mp hforth
    have hfirst := session.size_obey hcommand
    have hlater := ih (session.obey command).2 hcommands
    simp only [Session.run, List.countP_cons, List.countP_nil] at hfirst hlater ⊢
    omega

/-! ## Rounds -/

/-- The terms of the first chain at which a step forward is armed once they are selected. -/
def ready (session : Session) : List TermId :=
  (session.view.chains.head?.toList.flatMap Chain.nodes).filter fun id =>
    (session.select id).2.plan.isArmed .stepForward

/-- Selects a term and steps forward. -/
def forward (session : Session) (id : TermId) : Except NavigationError Change × Session :=
  (session.select id).2.perform .stepForward

/-- Rounds in each of which a term of the first chain at which a step forward is armed is selected,
and the step is taken. -/
inductive Rounds : Nat → Session → Session → Prop where
  | done {session : Session} : Rounds 0 session session
  | round {rounds : Nat} {session later last : Session} {id : TermId} {change : Change}
      (hready : id ∈ session.ready) (hforward : session.forward id = (.ok change, later))
      (hlater : Rounds rounds later last) : Rounds (rounds + 1) session last

section WellFormed

variable {graph : Graph} (hgraph : graph.WellFormed) {session later last : Session}
  (h : session.Coherent graph) (hfollows : session.view.Follows (Index.ofGraph graph)) {id : TermId}

include hgraph h hfollows

/-- A step forward along the first chain is armed at the shown terms on the way from the root of
which the next one is hidden. -/
theorem mem_ready_iff :
    id ∈ session.ready ↔
      (session.view.shows id = true ∧ ReflTransGen (Index.ofGraph graph).Next graph.root id) ∧
        ∃ next, (Index.ofGraph graph).Next id next ∧ session.view.shows next = false := by
  obtain ⟨first, detached, hchains, -⟩ := h.grown.chains_eq_cons
  rw [ready, List.mem_filter, hchains, ← h.grown.mem_first_iff hgraph hfollows hchains]
  simp only [List.head?_cons, Option.toList_some, List.flatMap_cons, List.flatMap_nil,
    List.append_nil]
  refine and_congr_right fun hid => ?_
  have hshown := ((h.grown.mem_first_iff hgraph hfollows hchains).mp hid).1
  rw [select_of_shows hshown, ← Plan.isArmed_stepForward_iff hgraph h.grown hfollows hshown,
    ← h.index_eq]
  rfl

/-- A step forward that is armed succeeds, and takes one term from the hidden ones on the way. -/
theorem forward_of_mem_ready (hready : id ∈ session.ready) :
    ∃ change later, session.forward id = (.ok change, later) ∧
      (later.view.hiddenOnPath (Index.ofGraph graph)).length + 1 =
        (session.view.hiddenOnPath (Index.ofGraph graph)).length := by
  obtain ⟨⟨hshown, hreached⟩, hnext⟩ := (mem_ready_iff hgraph h hfollows).mp hready
  have harmed := (Plan.isArmed_stepForward_iff hgraph h.grown hfollows hshown).mpr hnext
  obtain ⟨change, happly, hrevealed⟩ :=
    Plan.apply_eq_ok_of_isArmed hgraph h.grown hfollows harmed
  obtain ⟨split, hsplit⟩ | ⟨_, hinto, -⟩ := Plan.isArmed_iff.mp harmed
  swap
  · cases hinto
  have hadded : change.nodesAdded = [split.destination] := by
    simpa [Plan.revealed, hsplit] using hrevealed
  rw [Plan.split?_stepForward hshown] at hsplit
  obtain ⟨hstep, hhidden, -⟩ := Plan.stepForward?_eq_some_iff.mp hsplit
  rw [← h.index_eq] at happly
  refine ⟨change, { session with view := session.view.record change, selection := none }, ?_,
    h.grown.length_hiddenOnPath_record hgraph hreached hstep hhidden hadded⟩
  rw [forward, select_of_shows hshown]
  exact perform_of_apply rfl happly

/-- A step forward keeps a session coherent and its view on the steps. -/
theorem coherent_forward (id : TermId) :
    (session.forward id).2.Coherent graph ∧
      (session.forward id).2.view.Follows (Index.ofGraph graph) :=
  ⟨h.run [.select id, .perform .stepForward],
    h.follows_run hgraph hfollows [.select id, .perform .stepForward]⟩

/-- Each round takes one term from the hidden ones on the way. -/
theorem Rounds.length_hiddenOnPath {rounds : Nat} (hrounds : Rounds rounds session last) :
    (last.Coherent graph ∧ last.view.Follows (Index.ofGraph graph)) ∧
      (last.view.hiddenOnPath (Index.ofGraph graph)).length + rounds =
        (session.view.hiddenOnPath (Index.ofGraph graph)).length := by
  induction hrounds with
  | done => exact ⟨⟨h, hfollows⟩, rfl⟩
  | @round rounds session later last id change hready hforward hlater ih =>
    obtain ⟨_, _, hforward', hfewer⟩ := forward_of_mem_ready hgraph h hfollows hready
    obtain ⟨-, rfl⟩ := Prod.mk.inj (hforward'.symm.trans hforward)
    have hkept := coherent_forward hgraph h hfollows id
    rw [hforward] at hkept
    obtain ⟨hlast, htotal⟩ := ih hkept.1 hkept.2
    exact ⟨hlast, by omega⟩

/-- A round is possible as long as terms on the way are hidden. -/
theorem ready_eq_nil_iff :
    session.ready = [] ↔ session.view.hiddenOnPath (Index.ofGraph graph) = [] := by
  constructor
  · intro hnone
    by_contra hne
    obtain ⟨id, next, hshown, hreached, hstep, hhidden⟩ := h.grown.exists_next_hidden hgraph hne
    have hready := (mem_ready_iff hgraph h hfollows).mpr ⟨⟨hshown, hreached⟩, next, hstep, hhidden⟩
    rw [hnone] at hready
    cases hready
  · intro hnil
    refine List.eq_nil_iff_forall_not_mem.mpr fun id hready => ?_
    obtain ⟨_, _, -, hfewer⟩ := forward_of_mem_ready hgraph h hfollows hready
    rw [hnil] at hfewer
    cases hfewer

end WellFormed

/-- Without undoing and resetting, at most as many actions succeed as terms are hidden. On a
well-formed graph, from wherever stepping got, stepping forward along the first chain succeeds
wherever it is armed, and it is armed somewhere until as many rounds are over as terms on the way
from the root to the last term were hidden. Then the first chain is the whole way, each step a
single link. -/
theorem stepping_forward_completes (graph : Graph) (commands : List Command) :
    let session := ((start graph).run commands).2
    (∀ more : List Command, (∀ command ∈ more, command ≠ .undo ∧ command ≠ .reset) →
      (session.run more).1.countP Answer.isPerformed + session.view.shown.nodes.size ≤
        graph.terms.length) ∧
    (start graph).view.shown.nodes.size ≤ session.view.shown.nodes.size ∧
    (graph.WellFormed → ∀ rounds last, Rounds rounds session last →
      let hidden := (session.view.hiddenOnPath (Index.ofGraph graph)).length
      rounds ≤ hidden ∧
      (∀ id ∈ last.ready, ∃ change later, last.forward id = (.ok change, later)) ∧
      (last.ready = [] ↔ rounds = hidden) ∧
      (rounds = hidden → ∃ first detached, last.view.chains = first :: detached ∧
        (first.nodes = if graph.ending.term = graph.root then [graph.root]
          else (Index.ofGraph graph).rootPath) ∧
        ∀ link ∈ first.links, link.weight = .single)) := by
  intro session
  have hcoherent : session.Coherent graph := (Coherent.start graph).run commands
  refine ⟨fun more hmore => ?_, hcoherent.grown.size_start_le, ?_⟩
  · exact Nat.le_trans (session.size_run hmore) (hcoherent.run more).grown.size_le
  intro hgraph rounds last hrounds hidden
  have hfollows : session.view.Follows (Index.ofGraph graph) :=
    (Coherent.start graph).follows_run hgraph (List.forall_mem_nil _) commands
  obtain ⟨⟨hlast, hfollows'⟩, htotal⟩ := hrounds.length_hiddenOnPath hgraph hcoherent hfollows
  have hdone : last.view.hiddenOnPath (Index.ofGraph graph) = [] ↔ rounds = hidden := by
    rw [← List.length_eq_zero_iff]
    omega
  refine ⟨by omega, ?_, ?_, ?_⟩
  · intro id hready
    obtain ⟨change, later, hforward, -⟩ := forward_of_mem_ready hgraph hlast hfollows' hready
    exact ⟨change, later, hforward⟩
  · rw [ready_eq_nil_iff hgraph hlast hfollows', hdone]
  · intro hrounds
    obtain ⟨first, detached, hchains, -⟩ := hlast.grown.chains_eq_cons
    exact ⟨first, detached, hchains, hlast.grown.first_eq_of_hiddenOnPath_eq_nil hgraph hfollows'
      (hdone.mpr hrounds) hchains⟩

/-- After stepping into the call and over it, two rounds show the two steps that were skipped. -/
theorem stepping_forward_completes_nestedCall :
    let r : TermId := ⟨"r", by decide⟩
    let commands : List Command := [.select r, .perform .stepInto, .select r, .perform .stepOver]
    let session := ((start Graph.nestedCall).run commands).2
    Graph.nestedCall.WellFormed ∧
      (session.view.hiddenOnPath (Index.ofGraph Graph.nestedCall)).map TermId.text = ["s", "t"] ∧
      ∃ last, Rounds 2 session last ∧ last.ready = [] ∧
        ∃ first detached, last.view.chains = first :: detached ∧
          first.nodes.map TermId.text = ["r", "s", "t", "u", "v"] ∧
          ∀ link ∈ first.links, link.weight = .single := by
  intro r commands session
  let s : TermId := ⟨"s", by decide⟩
  obtain ⟨-, -, hrounds⟩ := stepping_forward_completes Graph.nestedCall commands
  specialize hrounds Graph.wellFormed_nestedCall
  have hready : r ∈ session.ready := by decide +kernel
  obtain ⟨-, hforward, -⟩ := hrounds 0 session .done
  obtain ⟨change, later, hfirst⟩ := hforward r hready
  have hlater : (session.forward r).2 = later := by rw [hfirst]
  subst hlater
  have hready' : s ∈ (session.forward r).2.ready := by decide +kernel
  obtain ⟨-, hforward', -⟩ := hrounds 1 _ (.round hready hfirst .done)
  obtain ⟨change', last, hsecond⟩ := hforward' s hready'
  have htwo : Rounds 2 session last := .round hready hfirst (.round hready' hsecond .done)
  obtain ⟨-, -, hstops, hwhole⟩ := hrounds 2 last htwo
  have hhidden : 2 = (session.view.hiddenOnPath (Index.ofGraph Graph.nestedCall)).length := by
    decide +kernel
  obtain ⟨first, detached, hchains, hnodes, hsingle⟩ := hwhole hhidden
  refine ⟨Graph.wellFormed_nestedCall, by decide +kernel, last, htwo, hstops.mpr hhidden, first,
    detached, hchains, ?_, hsingle⟩
  rw [hnodes]
  decide +kernel

end Session

end ReductionStepper
