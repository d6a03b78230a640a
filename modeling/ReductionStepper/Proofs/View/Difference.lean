import Mathlib.Data.List.Nodup
import ReductionStepper.Proofs.View.Growth

/-!
# Recorded differences

A view takes a change as a whole or not at all. What it refuses it refuses for the first of its
conditions that fails; what it takes it records, and the record is the exact difference between what
was shown before and what is shown after.
-/

namespace ReductionStepper

/-- A change is the difference between two views: no shown term is lost, the added terms and links
are the new ones, each once, and the removed link is the one that is gone. -/
structure Change.Between (change : Change) (before after : View) : Prop where
  shows_of_shows : ∀ id, before.shows id = true → after.shows id = true
  nodup_nodesAdded : change.nodesAdded.Nodup
  mem_nodesAdded_iff : ∀ id,
    id ∈ change.nodesAdded ↔ after.shows id = true ∧ before.shows id = false
  nodup_linksAdded : change.linksAdded.Nodup
  mem_linksAdded_iff : ∀ link,
    link ∈ change.linksAdded ↔ after.showsLink link = true ∧ before.showsLink link = false
  linkRemoved_iff : ∀ link,
    change.linkRemoved = some link ↔
      before.showsLink link = true ∧ after.showsLink link = false

namespace View

variable {graph : Graph} {index : Index} {view : View} {change : Change} {id : TermId}
  {error : ViewError}

/-! ## Recorded changes -/

/-- No term is added twice. -/
theorem Admits.nodup_nodesAdded (h : view.Admits index change) : change.nodesAdded.Nodup := by
  cases h with
  | split => exact List.nodup_singleton _
  | pair hne => exact List.nodup_cons.mpr ⟨by simpa using hne, List.nodup_singleton _⟩

namespace Grown

/-- No link is added twice: of the two links of a split only the second starts at the new term. -/
theorem nodup_linksAdded (h : Grown index view) (hchange : view.Admits index change) :
    change.linksAdded.Nodup := by
  cases hchange with
  | @split node replacing _ hhidden hlink =>
    refine List.nodup_cons.mpr ⟨?_, List.nodup_singleton _⟩
    rw [List.mem_singleton]
    intro hsame
    obtain hsource : replacing.source = node := congrArg Link.source hsame
    have hshown := (h.shows_ends hlink).1
    rw [hsource, hhidden] at hshown
    cases hshown
  | pair => exact List.nodup_singleton _

/-- A recorded change is the difference that it makes. -/
theorem between_record (h : Grown index view) (hchange : view.Admits index change) :
    change.Between view (view.record change) where
  shows_of_shows _ hshown := shows_record.mpr (.inr hshown)
  nodup_nodesAdded := hchange.nodup_nodesAdded
  mem_nodesAdded_iff id := by
    rw [shows_record]
    constructor
    · exact fun hadded => ⟨.inl hadded, hchange.hidden hadded⟩
    · rintro ⟨hadded | hshown, hhidden⟩
      · exact hadded
      · rw [hshown] at hhidden
        cases hhidden
  nodup_linksAdded := h.nodup_linksAdded hchange
  mem_linksAdded_iff link := by
    rw [showsLink_record]
    constructor
    · exact fun hadded => ⟨.inl hadded, h.not_showsLink_of_linksAdded hchange hadded⟩
    · rintro ⟨hadded | ⟨-, hshown⟩, hhidden⟩
      · exact hadded
      · rw [hshown] at hhidden
        cases hhidden
  linkRemoved_iff link := by
    rw [← Bool.not_eq_true, showsLink_record]
    constructor
    · intro hremoved
      have hshown := hchange.showsLink_of_linkRemoved hremoved
      refine ⟨hshown, ?_⟩
      rintro (hadded | ⟨hkept, -⟩)
      · rw [h.not_showsLink_of_linksAdded hchange hadded] at hshown
        cases hshown
      · exact hkept hremoved
    · rintro ⟨hshown, hgone⟩
      by_contra hkept
      exact hgone (.inr ⟨hkept, hshown⟩)

end Grown

/-! ## Attempts -/

/-- How an attempt to change a view ends: with an error, and the view is as it was; or with a
change, the only one that is recorded in addition, which is the difference between the two views. -/
def Settles {ε : Type} (view : View) (result : Except ε (Change × View)) (after : View) : Prop :=
  (∃ error, result = .error error) ∧ after = view ∨
    ∃ change, result = .ok (change, after) ∧ after.root = view.root ∧
      after.initial = view.initial ∧ after.history = change :: view.history ∧
      change.Between view after

private theorem Grown.settles {ε : Type} {result : Except ε (Change × View)} (h : Grown index view)
    (hresult : ∀ change later, result = .ok (change, later) →
      view.Admits index change ∧ later = view.record change) :
    view.Settles result (view.settled result) := by
  cases result with
  | error error => exact .inl ⟨⟨error, rfl⟩, rfl⟩
  | ok made =>
    obtain ⟨change, later⟩ := made
    obtain ⟨hchange, rfl⟩ := hresult change later rfl
    exact .inr ⟨change, rfl, rfl, rfl, rfl, h.between_record hchange⟩

/-! ## First faults -/

/-- A term of the graph that a view does not show. -/
def Hides (view : View) (graph : Graph) (id : TermId) : Prop :=
  id ∈ graph.ids ∧ view.shows id = false

/-- Why a term is not hidden in a view. -/
inductive HiddenFault (graph : Graph) (view : View) (id : TermId) : ViewError → Prop where
  | unknownTerm (hunknown : id ∉ graph.ids) : HiddenFault graph view id (.unknownTerm id)
  | alreadyVisible (hknown : id ∈ graph.ids) (hshown : view.shows id = true) :
      HiddenFault graph view id (.alreadyVisible id)

/-- The first condition of a split that fails: a hidden term, and then a shown link. -/
inductive SplitFault (graph : Graph) (view : View) (node : TermId) (replacing : Link) :
    ViewError → Prop where
  | node {error : ViewError} (hnode : HiddenFault graph view node error) :
      SplitFault graph view node replacing error
  | missingLink (hnode : view.Hides graph node) (hlink : view.showsLink replacing = false) :
      SplitFault graph view node replacing (.missingLink replacing.source replacing.target)

/-- The first condition of a pair that fails: two terms, the first hidden, and then the second. -/
inductive PairFault (graph : Graph) (view : View) (subterm value : TermId) :
    ViewError → Prop where
  | degeneratePair (hsame : subterm = value) :
      PairFault graph view subterm value (.degeneratePair subterm)
  | subterm {error : ViewError} (hne : subterm ≠ value)
      (hsubterm : HiddenFault graph view subterm error) : PairFault graph view subterm value error
  | value {error : ViewError} (hne : subterm ≠ value) (hsubterm : view.Hides graph subterm)
      (hvalue : HiddenFault graph view value error) : PairFault graph view subterm value error

private theorem hiddenError?_eq_none_iff_hides :
    view.hiddenError? (Index.ofGraph graph) id = none ↔ view.Hides graph id := by
  rw [hiddenError?_eq_none_iff, Index.contains_ofGraph]
  rfl

private theorem hiddenError?_eq_some_iff :
    view.hiddenError? (Index.ofGraph graph) id = some error ↔ HiddenFault graph view id error := by
  have hcontains := Index.contains_ofGraph graph id
  constructor
  · intro h
    unfold hiddenError? at h
    split at h
    · next hunknown =>
      cases h
      exact .unknownTerm (by simpa [← hcontains] using hunknown)
    · next hknown =>
      split at h
      · next hshown =>
        cases h
        exact .alreadyVisible (by simpa [← hcontains] using hknown) hshown
      · cases h
  · intro h
    cases h with
    | unknownTerm hunknown => simp [hiddenError?, mt hcontains.mp hunknown]
    | alreadyVisible hknown hshown => simp [hiddenError?, hcontains.mpr hknown, hshown]

/-- A split is refused for its first fault. -/
theorem split_eq_error_iff_fault {node : TermId} {replacing : Link} :
    view.split (Index.ofGraph graph) node replacing = .error error ↔
      SplitFault graph view node replacing error := by
  have hrefused : view.split (Index.ofGraph graph) node replacing = .error error ↔
      view.splitError? (Index.ofGraph graph) node replacing = some error := by
    rw [split]
    split <;> simp_all
  rw [hrefused, splitError?, Option.or_eq_some_iff, hiddenError?_eq_none_iff_hides,
    hiddenError?_eq_some_iff]
  constructor
  · rintro (hnode | ⟨hnode, hlink⟩)
    · exact .node hnode
    · split at hlink
      · cases hlink
      · next hmissing =>
        cases hlink
        exact .missingLink hnode (Bool.eq_false_iff.mpr hmissing)
  · intro h
    cases h with
    | node hnode => exact .inl hnode
    | missingLink hnode hlink => exact .inr ⟨hnode, by simp [hlink]⟩

/-- A pair is refused for its first fault. -/
theorem pair_eq_error_iff_fault {subterm value : TermId} :
    view.pair (Index.ofGraph graph) subterm value = .error error ↔
      PairFault graph view subterm value error := by
  have hrefused : view.pair (Index.ofGraph graph) subterm value = .error error ↔
      view.pairError? (Index.ofGraph graph) subterm value = some error := by
    rw [pair]
    split <;> simp_all
  rw [hrefused, pairError?]
  constructor
  · intro h
    split at h
    · next hsame =>
      cases h
      exact .degeneratePair hsame
    · next hne =>
      rw [Option.or_eq_some_iff, hiddenError?_eq_none_iff_hides, hiddenError?_eq_some_iff,
        hiddenError?_eq_some_iff] at h
      rcases h with hsubterm | ⟨hsubterm, hvalue⟩
      · exact .subterm hne hsubterm
      · exact .value hne hsubterm hvalue
  · intro h
    cases h with
    | degeneratePair hsame => rw [if_pos hsame]
    | subterm hne hsubterm =>
      rw [if_neg hne, hiddenError?_eq_some_iff.mpr hsubterm, Option.some_or]
    | value hne hsubterm hvalue =>
      rw [if_neg hne, hiddenError?_eq_none_iff_hides.mpr hsubterm, Option.none_or,
        hiddenError?_eq_some_iff.mpr hvalue]

/-- A term has a fault exactly if it is not hidden. -/
theorem exists_hiddenFault_iff :
    (∃ error, HiddenFault graph view id error) ↔ id ∉ graph.ids ∨ view.shows id = true := by
  constructor
  · rintro ⟨_, h⟩
    cases h with
    | unknownTerm hunknown => exact .inl hunknown
    | alreadyVisible _ hshown => exact .inr hshown
  · intro h
    by_cases hknown : id ∈ graph.ids
    · exact ⟨_, .alreadyVisible hknown (h.resolve_left (not_not_intro hknown))⟩
    · exact ⟨_, .unknownTerm hknown⟩

private theorem hides_iff_not_hiddenFault :
    view.Hides graph id ↔ ¬∃ error, HiddenFault graph view id error := by
  rw [exists_hiddenFault_iff, not_or, Decidable.not_not, Bool.not_eq_true]
  rfl

private theorem exists_splitFault_iff {node : TermId} {replacing : Link} :
    (∃ error, SplitFault graph view node replacing error) ↔
      node ∉ graph.ids ∨ view.shows node = true ∨ view.showsLink replacing = false := by
  rw [← or_assoc, ← exists_hiddenFault_iff]
  constructor
  · rintro ⟨error, h⟩
    cases h with
    | node hnode => exact .inl ⟨error, hnode⟩
    | missingLink _ hlink => exact .inr hlink
  · intro h
    by_cases hnode : ∃ error, HiddenFault graph view node error
    · exact hnode.imp fun _ => .node
    · exact ⟨_, .missingLink (hides_iff_not_hiddenFault.mpr hnode) (h.resolve_left hnode)⟩

private theorem exists_pairFault_iff {subterm value : TermId} :
    (∃ error, PairFault graph view subterm value error) ↔
      subterm = value ∨ (subterm ∉ graph.ids ∨ view.shows subterm = true) ∨
        value ∉ graph.ids ∨ view.shows value = true := by
  rw [← exists_hiddenFault_iff, ← exists_hiddenFault_iff]
  constructor
  · rintro ⟨error, h⟩
    cases h with
    | degeneratePair hsame => exact .inl hsame
    | subterm _ hsubterm => exact .inr (.inl ⟨error, hsubterm⟩)
    | value _ _ hvalue => exact .inr (.inr ⟨error, hvalue⟩)
  · intro h
    by_cases hsame : subterm = value
    · exact ⟨_, .degeneratePair hsame⟩
    · by_cases hsubterm : ∃ error, HiddenFault graph view subterm error
      · exact hsubterm.imp fun _ => .subterm hsame
      · exact ((h.resolve_left hsame).resolve_left hsubterm).imp fun _ =>
          .value hsame (hides_iff_not_hiddenFault.mpr hsubterm)

/-- Whatever was done to a view, and whatever view a plan was made for: a split, a pair or an action
is refused and changes nothing, or the view records one change more, which is the difference that it
makes. A split is refused exactly if its term is unknown or shown or its link is not shown, a pair
exactly if its terms are one term or one of them is unknown or shown; the first of these conditions
gives the error. -/
theorem changes_are_differences (graph : Graph) (commands : List Command) :
    let index := Index.ofGraph graph
    let view := (View.start index).run index commands
    (∀ node replacing,
      view.Settles (view.split index node replacing) (view.obey index (.split node replacing)) ∧
        ((∃ error, view.split index node replacing = .error error) ↔
          node ∉ graph.ids ∨ view.shows node = true ∨ view.showsLink replacing = false) ∧
        ∀ error, view.split index node replacing = .error error ↔
          SplitFault graph view node replacing error) ∧
      (∀ subterm value,
        view.Settles (view.pair index subterm value) (view.obey index (.pair subterm value)) ∧
          ((∃ error, view.pair index subterm value = .error error) ↔
            subterm = value ∨ (subterm ∉ graph.ids ∨ view.shows subterm = true) ∨
              value ∉ graph.ids ∨ view.shows value = true) ∧
          ∀ error, view.pair index subterm value = .error error ↔
            PairFault graph view subterm value error) ∧
      ∀ (plan : Plan) (action : Action),
        view.Settles (plan.apply index view action) (view.obey index (.apply plan action)) := by
  intro index view
  have hview : Grown index view := Grown.start.run commands
  refine ⟨fun node replacing => ⟨hview.settles fun _ _ => admits_of_split, ?_,
    fun _ => split_eq_error_iff_fault⟩, fun subterm value =>
    ⟨hview.settles fun _ _ => admits_of_pair, ?_, fun _ => pair_eq_error_iff_fault⟩,
    fun plan action => hview.settles fun _ _ => admits_of_apply⟩
  · rw [← exists_splitFault_iff]
    exact exists_congr fun _ => split_eq_error_iff_fault
  · rw [← exists_pairFault_iff]
    exact exists_congr fun _ => pair_eq_error_iff_fault

end View

end ReductionStepper
