import ReductionStepper.Proofs.Graph.Inside
import ReductionStepper.Proofs.View.Follow
import ReductionStepper.Proofs.View.Forest

/-!
# What a plan arms

A rule arms a split of the one shown link at the selected term. Going forward by a step takes the
next term if it is hidden. Every other rule takes a term inside the path behind the link: the scans
find a hidden one, and so another one than the two ends, and the rules that do not look take one
between two steps. On a well-formed graph nothing inside the path of a shown link is shown, so
whatever is armed can be performed.
-/

namespace ReductionStepper

open Relation (TransGen)

/-- A split of a shown link at a term: its destination is inside the path behind the link, or it is
the hidden term that the first end of the link steps to. -/
structure Split.Lands (split : Split) (index : Index) (view : View) (selected : TermId) :
    Prop where
  showsLink : view.showsLink split.replacing = true
  incident : split.replacing.source = selected ∨ split.replacing.target = selected
  lands : index.Inside split.replacing.source split.replacing.target split.destination ∨
    view.shows split.destination = false ∧ index.Next split.replacing.source split.destination

/-- A split that succeeds: a shown link at a term, and a hidden term of the graph inside the path
behind the link. -/
structure Split.Fits (split : Split) (index : Index) (view : View) (selected : TermId) :
    Prop where
  showsLink : view.showsLink split.replacing = true
  incident : split.replacing.source = selected ∨ split.replacing.target = selected
  inside : index.Inside split.replacing.source split.replacing.target split.destination
  known : index.contains split.destination = true
  hidden : view.shows split.destination = false

/-- A pair that succeeds: two hidden terms of the graph, the other one the value of the first. -/
structure Pair.Fits (pair : Pair) (index : Index) (view : View) : Prop where
  value_eq : pair.value = index.value pair.subterm
  ne : pair.subterm ≠ pair.value
  known : index.contains pair.subterm = true ∧ index.contains pair.value = true
  hidden : view.shows pair.subterm = false ∧ view.shows pair.value = false

/-- The terms that an action reveals. -/
def Plan.revealed (plan : Plan) : Action → List TermId
  | .stepInto => (plan.stepInto.map fun pair => [pair.subterm, pair.value]).getD []
  | action => (plan.split? action).toList.map Split.destination

variable {graph : Graph} {view : View} {selected id : TermId} {link : Link} {split : Split}

/-- A hidden term on the path behind a shown link is inside it. -/
theorem View.Grown.inside_of_mem (h : view.Grown (Index.ofGraph graph))
    (hlink : view.showsLink link = true)
    (hmem : id ∈ Index.pathTerms ((Index.ofGraph graph).path link.source link.target))
    (hhidden : view.shows id = false) :
    (Index.ofGraph graph).Inside link.source link.target id := by
  obtain ⟨hsource, htarget⟩ := h.shows_ends hlink
  refine ⟨hmem, ?_, ?_⟩
  · rintro rfl
    exact absurd hsource (Bool.eq_false_iff.mp hhidden)
  · rintro rfl
    exact absurd htarget (Bool.eq_false_iff.mp hhidden)

namespace Plan

/-! ## Scans -/

/-- A scan forward stops at one of the hops: where a call starts, or where a return ends at a hidden
term. -/
theorem exists_of_firstStop? {hops : List Edge} (h : firstStop? view hops = some id) :
    ∃ hop ∈ hops, id = hop.source ∨ id = hop.target ∧ view.shows hop.target = false := by
  induction hops with
  | nil => cases h
  | cons hop later ih =>
    rw [firstStop?] at h
    split at h
    · cases h
    · next hhidden =>
      split at h
      · exact ⟨hop, List.mem_cons_self, .inl (Option.some.inj h).symm⟩
      · split at h
        · exact ⟨hop, List.mem_cons_self,
            .inr ⟨(Option.some.inj h).symm, Bool.eq_false_iff.mpr hhidden⟩⟩
        · obtain ⟨found, hfound, hstop⟩ := ih h
          exact ⟨found, List.mem_cons_of_mem _ hfound, hstop⟩

/-- A scan backward stops at a hidden term where one of the hops starts. -/
theorem exists_of_lastCall? {hops : List Edge} (h : lastCall? view hops = some id) :
    ∃ hop ∈ hops, id = hop.source ∧ view.shows hop.source = false := by
  induction hops with
  | nil => cases h
  | cons hop earlier ih =>
    rw [lastCall?] at h
    split at h
    · cases h
    · next hhidden =>
      split at h
      · exact ⟨hop, List.mem_cons_self, (Option.some.inj h).symm, Bool.eq_false_iff.mpr hhidden⟩
      · obtain ⟨found, hfound, hcall⟩ := ih h
        exact ⟨found, List.mem_cons_of_mem _ hfound, hcall⟩

/-! ## Rules -/

/-- A step forward is armed with the hidden next term and the only link that leaves the selected
one. -/
theorem stepForward?_eq_some_iff {index : Index} :
    stepForward? index view selected = some split ↔
      index.Next selected split.destination ∧ view.shows split.destination = false ∧
        view.soleOutgoing? selected = some split.replacing := by
  constructor
  · intro hsplit
    obtain ⟨next, hnext, htaken⟩ := Option.bind_eq_some_iff.mp hsplit
    split at htaken
    · cases htaken
    · next hhidden =>
      obtain ⟨link, hsole, htaken⟩ := Option.bind_eq_some_iff.mp htaken
      cases htaken
      exact ⟨hnext, Bool.eq_false_iff.mpr hhidden, hsole⟩
  · rintro ⟨hnext, hhidden, hsole⟩
    rw [Index.Next] at hnext
    simp [stepForward?, hnext, hhidden, hsole]

section Rules

variable (h : view.Grown (Index.ofGraph graph))

include h

/-- The next term is taken only if it is hidden. -/
theorem lands_of_stepForward?
    (hsplit : stepForward? (Index.ofGraph graph) view selected = some split) :
    split.Lands (Index.ofGraph graph) view selected := by
  obtain ⟨hnext, hhidden, hsole⟩ := stepForward?_eq_some_iff.mp hsplit
  obtain ⟨hlink, rfl⟩ := h.laidOut.soleOutgoing?_eq_some_iff.mp hsole
  exact ⟨hlink, .inl rfl, .inr ⟨hhidden, hnext⟩⟩

/-- The last step starts inside the path, as there are others before it. -/
theorem lands_of_stepBackward?
    (hsplit : stepBackward? (Index.ofGraph graph) view selected = some split) :
    split.Lands (Index.ofGraph graph) view selected := by
  obtain ⟨link, hsole, htaken⟩ := Option.bind_eq_some_iff.mp hsplit
  obtain ⟨hlink, rfl⟩ := h.laidOut.soleIncoming?_eq_some_iff.mp hsole
  dsimp only at htaken
  split at htaken
  · cases htaken
  · next hlength =>
    obtain ⟨last, hlast, htaken⟩ := Option.bind_eq_some_iff.mp htaken
    cases htaken
    obtain ⟨before, hpath⟩ := List.getLast?_eq_some_iff.mp hlast
    have hne : before ≠ [] := by
      rintro rfl
      simp [hpath] at hlength
    exact ⟨hlink, .inr rfl, .inl (Index.inside_source hpath hne)⟩

/-- The first hop ends inside the path, as there are others behind it, and these start inside. -/
theorem lands_of_jumpForward?
    (hsplit : jumpForward? (Index.ofGraph graph) view selected = some split) :
    split.Lands (Index.ofGraph graph) view selected := by
  obtain ⟨link, hsole, htaken⟩ := Option.bind_eq_some_iff.mp hsplit
  obtain ⟨hlink, rfl⟩ := h.laidOut.soleOutgoing?_eq_some_iff.mp hsole
  split at htaken
  · cases htaken
  · cases htaken
  · next first later hlater hpath =>
    have hfirst : (Index.ofGraph graph).path link.source link.target = [] ++ first :: later := hpath
    have hne : later ≠ [] := hlater
    split at htaken
    · cases htaken
      exact ⟨hlink, .inl rfl, .inl (Index.inside_target hfirst hne)⟩
    · obtain ⟨destination, hstop, htaken⟩ := Option.bind_eq_some_iff.mp htaken
      cases htaken
      refine ⟨hlink, .inl rfl, .inl ?_⟩
      obtain ⟨hop, hhop, rfl | ⟨rfl, hhidden⟩⟩ := exists_of_firstStop? hstop
      · obtain ⟨before, after, rfl⟩ := List.append_of_mem hhop
        have hpath : (Index.ofGraph graph).path link.source link.target =
            (first :: before) ++ hop :: after := hfirst
        exact Index.inside_source hpath (by simp)
      · have hmem : hop ∈ (Index.ofGraph graph).path link.source link.target :=
          hpath ▸ List.mem_cons_of_mem _ hhop
        exact h.inside_of_mem hlink (Index.ends_mem_pathTerms hmem).2 hhidden

/-- The scan backward finds a hidden term, and so another one than the two ends. -/
theorem lands_of_jumpBackward?
    (hsplit : jumpBackward? (Index.ofGraph graph) view selected = some split) :
    split.Lands (Index.ofGraph graph) view selected := by
  obtain ⟨link, hsole, htaken⟩ := Option.bind_eq_some_iff.mp hsplit
  obtain ⟨hlink, rfl⟩ := h.laidOut.soleIncoming?_eq_some_iff.mp hsole
  obtain ⟨destination, hcall, htaken⟩ := Option.bind_eq_some_iff.mp htaken
  cases htaken
  obtain ⟨hop, hhop, rfl, hhidden⟩ := exists_of_lastCall? hcall
  have hmem := List.dropLast_subset _ (List.mem_reverse.mp hhop)
  exact ⟨hlink, .inr rfl, .inl (h.inside_of_mem hlink (Index.ends_mem_pathTerms hmem).1 hhidden)⟩

/-- The first term on the way with the value as a subterm is taken only if it is hidden. -/
theorem lands_of_stepOver?
    (hsplit : stepOver? (Index.ofGraph graph) view selected = some split) :
    split.Lands (Index.ofGraph graph) view selected := by
  obtain ⟨link, hsole, htaken⟩ := Option.bind_eq_some_iff.mp hsplit
  obtain ⟨hlink, rfl⟩ := h.laidOut.soleOutgoing?_eq_some_iff.mp hsole
  obtain ⟨subterm, -, htaken⟩ := Option.bind_eq_some_iff.mp htaken
  obtain ⟨destination, hfound, htaken⟩ := Option.bind_eq_some_iff.mp htaken
  split at htaken
  · cases htaken
  · next hhidden =>
    cases htaken
    exact ⟨hlink, .inl rfl, .inl (h.inside_of_mem hlink (List.mem_of_find?_eq_some hfound)
      (Bool.eq_false_iff.mpr hhidden))⟩

/-- Whatever split a plan arms lands. -/
theorem lands_of_split? {action : Action}
    (hsplit : (make (Index.ofGraph graph) view selected).split? action = some split) :
    split.Lands (Index.ofGraph graph) view selected := by
  unfold make at hsplit
  split at hsplit
  · cases action with
    | stepForward => exact lands_of_stepForward? h hsplit
    | stepBackward => exact lands_of_stepBackward? h hsplit
    | jumpForward => exact lands_of_jumpForward? h hsplit
    | jumpBackward => exact lands_of_jumpBackward? h hsplit
    | stepInto => cases hsplit
    | stepOver => exact lands_of_stepOver? h hsplit
  · cases action <;> cases hsplit

end Rules

/-- A split that lands is one of a shown link by a term of the graph. -/
theorem known_of_lands (h : split.Lands (Index.ofGraph graph) view selected) :
    (Index.ofGraph graph).contains split.destination = true := by
  rcases h.lands with hinside | ⟨-, hnext⟩
  · exact Index.contains_of_inside hinside
  · obtain ⟨step, hstep, htarget⟩ := Option.map_eq_some_iff.mp hnext
    rw [← htarget]
    exact Index.contains_target_of_mem_outgoing (Index.step?_mem hstep)

/-- The pair that a plan arms is always one that succeeds. -/
theorem fits_of_stepInto {pair : Pair}
    (hpair : (make (Index.ofGraph graph) view selected).stepInto = some pair) :
    pair.Fits (Index.ofGraph graph) view := by
  unfold make at hpair
  split at hpair
  · obtain ⟨subterm, hcalling, htaken⟩ := Option.bind_eq_some_iff.mp hpair
    dsimp only at htaken
    split at htaken
    · cases htaken
    · next hhidden =>
      cases htaken
      simp only [not_or, Bool.not_eq_true] at hhidden
      obtain ⟨hne, hsubterm, hvalue⟩ := hhidden
      have hknown := Index.contains_of_mem_subterms (List.mem_of_find?_eq_some hcalling)
      obtain ⟨path, hpath⟩ := Index.leads_value (Index.ofGraph graph) subterm
      exact ⟨rfl, Ne.symm hne, ⟨hknown, hpath.contains hknown⟩, hsubterm, hvalue⟩
  · cases hpair

/-- An action is armed by a split or, to step into, by a pair. -/
theorem isArmed_iff {plan : Plan} {action : Action} :
    plan.isArmed action = true ↔
      (∃ split, plan.split? action = some split) ∨
        ∃ pair, action = .stepInto ∧ plan.stepInto = some pair := by
  cases action <;> simp [isArmed, split?, Option.isSome_iff_exists]

/-! ## Well-formed graphs -/

section WellFormed

variable (hgraph : graph.WellFormed) (h : view.Grown (Index.ofGraph graph))
  (hfollows : view.Follows (Index.ofGraph graph))

include hgraph h hfollows

/-- On a well-formed graph a split that lands succeeds. -/
theorem fits_of_split? {action : Action}
    (hsplit : (make (Index.ofGraph graph) view selected).split? action = some split) :
    split.Fits (Index.ofGraph graph) view selected := by
  obtain ⟨hlink, hincident, hlands⟩ := lands_of_split? h hsplit
  have hinside : (Index.ofGraph graph).Inside split.replacing.source split.replacing.target
      split.destination := by
    rcases hlands with hinside | ⟨hhidden, hnext⟩
    · exact hinside
    · obtain ⟨next, hnext', hrest⟩ :=
        Relation.TransGen.head'_iff.mp (h.transGen_of_showsLink hgraph hfollows hlink)
      obtain rfl := Option.some.inj (hnext.symm.trans hnext')
      rcases Relation.reflTransGen_iff_eq_or_transGen.mp hrest with heq | hrest
      · rw [← heq, (h.shows_ends hlink).2] at hhidden
        cases hhidden
      · exact hgraph.inside_iff.mpr ⟨.single hnext, hrest⟩
  exact ⟨hlink, hincident, hinside, Index.contains_of_inside hinside,
    h.hidden_of_inside hgraph hfollows hlink hinside⟩

/-- What is armed succeeds, and shows what the plan says. -/
theorem apply_eq_ok_of_isArmed {action : Action}
    (harmed : (make (Index.ofGraph graph) view selected).isArmed action = true) :
    ∃ change, (make (Index.ofGraph graph) view selected).apply (Index.ofGraph graph) view action =
        .ok (change, view.record change) ∧
      change.nodesAdded = (make (Index.ofGraph graph) view selected).revealed action := by
  rcases isArmed_iff.mp harmed with ⟨split, hsplit⟩ | ⟨pair, rfl, hpair⟩
  · obtain ⟨hlink, -, -, hknown, hhidden⟩ := fits_of_split? hgraph h hfollows hsplit
    refine ⟨View.splitting (Index.ofGraph graph) split.destination split.replacing, ?_, ?_⟩
    · exact View.apply_eq_ok_iff.mpr (.inl ⟨split, hsplit,
        View.split_eq_ok_iff.mpr ⟨⟨hknown, hhidden, hlink⟩, rfl, rfl⟩⟩)
    · cases action <;> simp_all [revealed, split?]
  · obtain ⟨-, hne, hknown, hhidden⟩ := fits_of_stepInto hpair
    refine ⟨View.pairing (Index.ofGraph graph) pair.subterm pair.value, ?_, ?_⟩
    · exact View.apply_eq_ok_iff.mpr (.inr ⟨pair, rfl, hpair,
        View.pair_eq_ok_iff.mpr ⟨⟨hne, ⟨hknown.1, hhidden.1⟩, hknown.2, hhidden.2⟩, rfl, rfl⟩⟩)
    · simp [revealed, hpair]

/-- The changes that plans lead to follow the steps. -/
theorem follows_of_apply {action : Action} {change : Change} {later : View}
    (happly : (make (Index.ofGraph graph) view selected).apply (Index.ofGraph graph) view action =
      .ok (change, later)) : change.Follows (Index.ofGraph graph) := by
  rcases View.apply_eq_ok_iff.mp happly with ⟨split, hsplit, hmade⟩ | ⟨pair, -, hpair, hmade⟩
  · obtain ⟨-, rfl, -⟩ := View.split_eq_ok_iff.mp hmade
    exact (fits_of_split? hgraph h hfollows hsplit).inside
  · obtain ⟨-, rfl, -⟩ := View.pair_eq_ok_iff.mp hmade
    have hfits := fits_of_stepInto hpair
    exact ⟨hfits.value_eq, hfits.ne.symm⟩

end WellFormed

end Plan

end ReductionStepper
