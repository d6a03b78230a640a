import ReductionStepper.Proofs.Session.Moves

/-!
# What a view refuses

On any graph, a plan splits shown links only, by terms of the graph, and arms a pair only if it can
be shown. Four of the rules look whether the term they land on is hidden. Stepping back and jumping
forward do not look at the term right beside the selected one, and where the chains of a graph
overlap that term may be shown already. Then, and only then, the view refuses what is armed.
-/

namespace ReductionStepper

namespace Plan

variable {graph : Graph} {view : View} {selected id : TermId} {split : Split} {action : Action}
  {error : ViewError}

/-! ## Shown destinations -/

/-- A scan forward stops right where it starts or at a hidden term. -/
theorem eq_or_hidden_of_firstStop? {source target : TermId} {hops : List Edge}
    (hleads : (Index.ofGraph graph).Leads source hops target)
    (h : firstStop? view hops = some id) : id = source ∨ view.shows id = false := by
  induction hleads with
  | refl => cases h
  | @step source target hop later hstep _ ih =>
    rw [firstStop?] at h
    split at h
    · cases h
    · next htarget =>
      have hhidden : view.shows hop.target = false := Bool.eq_false_iff.mpr htarget
      split at h
      · rw [← Option.some.inj h]
        exact .inl (Index.source_of_step? hstep)
      · right
        split at h
        · rw [← Option.some.inj h]
          exact hhidden
        · rcases ih h with rfl | hlater
          · exact hhidden
          · exact hlater

private theorem hidden_of_stepForward?
    (hsplit : stepForward? (Index.ofGraph graph) view selected = some split) :
    view.shows split.destination = false :=
  (stepForward?_eq_some_iff.mp hsplit).2.1

private theorem hidden_of_jumpBackward?
    (hsplit : jumpBackward? (Index.ofGraph graph) view selected = some split) :
    view.shows split.destination = false := by
  obtain ⟨link, -, htaken⟩ := Option.bind_eq_some_iff.mp hsplit
  obtain ⟨destination, hcall, htaken⟩ := Option.bind_eq_some_iff.mp htaken
  cases htaken
  obtain ⟨hop, -, rfl, hhidden⟩ := exists_of_lastCall? hcall
  exact hhidden

private theorem hidden_of_stepOver?
    (hsplit : stepOver? (Index.ofGraph graph) view selected = some split) :
    view.shows split.destination = false := by
  obtain ⟨link, -, htaken⟩ := Option.bind_eq_some_iff.mp hsplit
  obtain ⟨subterm, -, htaken⟩ := Option.bind_eq_some_iff.mp htaken
  obtain ⟨destination, -, htaken⟩ := Option.bind_eq_some_iff.mp htaken
  split at htaken
  · cases htaken
  · next hhidden =>
    cases htaken
    exact Bool.eq_false_iff.mpr hhidden

section Rules

variable (h : view.Grown (Index.ofGraph graph))

include h

/-- A step back lands on the term that steps to the selected one. -/
theorem next_of_stepBackward?
    (hsplit : stepBackward? (Index.ofGraph graph) view selected = some split) :
    (Index.ofGraph graph).Next split.destination selected := by
  obtain ⟨link, hsole, htaken⟩ := Option.bind_eq_some_iff.mp hsplit
  obtain ⟨-, rfl⟩ := h.laidOut.soleIncoming?_eq_some_iff.mp hsole
  dsimp only at htaken
  split at htaken
  · cases htaken
  · obtain ⟨last, hlast, htaken⟩ := Option.bind_eq_some_iff.mp htaken
    cases htaken
    obtain ⟨before, hpath⟩ := List.getLast?_eq_some_iff.mp hlast
    have hleads : (Index.ofGraph graph).Leads link.source (before ++ [last]) link.target :=
      hpath ▸ (Index.arrives_path (by simp [hpath])).leads
    obtain ⟨hstep, hrest⟩ := Index.Leads.cons_iff.mp hleads.of_append_cons.2
    rw [Index.Next, Index.next?, hstep, Option.map_some, Index.Leads.nil_iff.mp hrest]

/-- A jump forward lands on the term that the selected one steps to or on a hidden one. -/
theorem next_or_hidden_of_jumpForward?
    (hsplit : jumpForward? (Index.ofGraph graph) view selected = some split) :
    (Index.ofGraph graph).Next selected split.destination ∨
      view.shows split.destination = false := by
  obtain ⟨link, hsole, htaken⟩ := Option.bind_eq_some_iff.mp hsplit
  obtain ⟨-, rfl⟩ := h.laidOut.soleOutgoing?_eq_some_iff.mp hsole
  split at htaken
  · cases htaken
  · cases htaken
  · next first later _ hpath =>
    have hleads : (Index.ofGraph graph).Leads link.source (first :: later) link.target :=
      hpath ▸ (Index.arrives_path (by simp [hpath])).leads
    obtain ⟨hstep, hlater⟩ := Index.Leads.cons_iff.mp hleads
    have hnext : (Index.ofGraph graph).Next link.source first.target := by
      rw [Index.Next, Index.next?, hstep, Option.map_some]
    split at htaken
    · cases htaken
      exact .inl hnext
    · obtain ⟨destination, hstop, htaken⟩ := Option.bind_eq_some_iff.mp htaken
      cases htaken
      rcases eq_or_hidden_of_firstStop? hlater hstop with rfl | hhidden
      · exact .inl hnext
      · exact .inr hhidden

/-- A plan lands on a shown term only right beside the selected one, stepping back or jumping
forward. -/
theorem beside_of_shows
    (hsplit : (make (Index.ofGraph graph) view selected).split? action = some split)
    (hshown : view.shows split.destination = true) :
    action = .stepBackward ∧ (Index.ofGraph graph).Next split.destination selected ∨
      action = .jumpForward ∧ (Index.ofGraph graph).Next selected split.destination := by
  have hvisible : view.shows split.destination ≠ false := by simp [hshown]
  unfold make at hsplit
  split at hsplit
  · cases action with
    | stepForward => exact absurd (hidden_of_stepForward? hsplit) hvisible
    | stepBackward => exact .inl ⟨rfl, next_of_stepBackward? h hsplit⟩
    | jumpForward =>
      exact .inr ⟨rfl, (next_or_hidden_of_jumpForward? h hsplit).resolve_right hvisible⟩
    | jumpBackward => exact absurd (hidden_of_jumpBackward? hsplit) hvisible
    | stepInto => cases hsplit
    | stepOver => exact absurd (hidden_of_stepOver? hsplit) hvisible
  · cases action <;> cases hsplit

end Rules

/-! ## Refusals -/

private theorem ofView_eq_error_iff {α : Type} {result : Except ViewError α} :
    NavigationError.ofView result = .error (.refused error) ↔ result = .error error := by
  cases result <;> simp [NavigationError.ofView]

/-- A plan is refused where the view refuses its split for the action, or its pair to step into. -/
theorem apply_eq_refused_iff {plan : Plan} {index : Index} :
    plan.apply index view action = .error (.refused error) ↔
      (∃ split, plan.split? action = some split ∧
        view.split index split.destination split.replacing = .error error) ∨
      ∃ pair, action = .stepInto ∧ plan.stepInto = some pair ∧
        view.pair index pair.subterm pair.value = .error error := by
  unfold apply
  split
  · split
    · next hnone => simp [split?, hnone]
    · next pair hpair => simp [split?, hpair, ofView_eq_error_iff]
  · next hinto =>
    have hinto : action ≠ .stepInto := hinto
    split
    · next hnone => simp [hnone, hinto]
    · next split hsplit => simp [hsplit, hinto, ofView_eq_error_iff]

/-- A view refuses to split a shown link by a term of the graph exactly if the term is shown. -/
theorem split_eq_error_iff {index : Index} {link : Link} (hknown : index.contains id = true)
    (hlink : view.showsLink link = true) :
    view.split index id link = .error error ↔
      view.shows id = true ∧ error = .alreadyVisible id := by
  cases hshown : view.shows id <;>
    simp [View.split, View.splitError?, View.hiddenError?, hknown, hlink, hshown, eq_comm]

/-- Of what a plan arms, a view refuses exactly the splits by a term that is shown. -/
theorem apply_make_eq_refused_iff (h : view.Grown (Index.ofGraph graph)) :
    (make (Index.ofGraph graph) view selected).apply (Index.ofGraph graph) view action =
        .error (.refused error) ↔
      ∃ split, (make (Index.ofGraph graph) view selected).split? action = some split ∧
        view.shows split.destination = true ∧ error = .alreadyVisible split.destination := by
  rw [apply_eq_refused_iff]
  constructor
  · rintro (⟨split, hsplit, hrefused⟩ | ⟨pair, -, hpair, hrefused⟩)
    · have hlands := lands_of_split? h hsplit
      rw [split_eq_error_iff (known_of_lands hlands) hlands.showsLink] at hrefused
      exact ⟨split, hsplit, hrefused⟩
    · have hfits := fits_of_stepInto hpair
      have hmade : view.pair (Index.ofGraph graph) pair.subterm pair.value = .ok _ :=
        View.pair_eq_ok_iff.mpr ⟨⟨hfits.ne, ⟨hfits.known.1, hfits.hidden.1⟩, hfits.known.2,
          hfits.hidden.2⟩, rfl, rfl⟩
      rw [hmade] at hrefused
      cases hrefused
  · rintro ⟨split, hsplit, hrefused⟩
    have hlands := lands_of_split? h hsplit
    exact .inl ⟨split, hsplit,
      (split_eq_error_iff (known_of_lands hlands) hlands.showsLink).mpr hrefused⟩

end Plan

namespace Session

variable {session later : Session} {selection : Selection} {action : Action} {error : ViewError}

/-- What is planned in a session is planned for its selection. -/
theorem plan_of_selection (h : session.selection = some selection) :
    session.plan = selection.plan := by
  rw [plan, h]
  rfl

/-- An action is refused where the plan of the selection is, and the session stays as it is. -/
theorem perform_eq_refused_iff :
    session.perform action = (.error (.refused error), later) ↔
      later = session ∧ ∃ selection, session.selection = some selection ∧
        selection.plan.apply session.index session.view action = .error (.refused error) := by
  unfold perform
  split
  · next hnone => simp [hnone]
  · next selection hselected =>
    split
    · next hrefused => simp [hselected, hrefused, and_comm, eq_comm]
    · next happly => simp [hselected, happly]

/-- Whatever was done in a session, on any graph: the view refuses an action exactly if a split is
armed for it whose destination is shown already. That term is right beside the selected one then,
before it for a step back and behind it for a jump forward, and the session stays as it is. -/
theorem refused_iff_destination_shown (graph : Graph) (commands : List Command) (action : Action)
    (error : ViewError) (later : Session) :
    let index := Index.ofGraph graph
    let session := ((start graph).run commands).2
    session.perform action = (.error (.refused error), later) ↔
      later = session ∧ ∃ id split, session.selected? = some id ∧
        session.plan.split? action = some split ∧ session.view.shows split.destination = true ∧
        error = .alreadyVisible split.destination ∧
        (action = .stepBackward ∧ index.Next split.destination id ∨
          action = .jumpForward ∧ index.Next id split.destination) := by
  intro index session
  have hcoherent : session.Coherent graph := (Coherent.start graph).run commands
  rw [perform_eq_refused_iff, hcoherent.index_eq]
  refine and_congr_right fun _ => ?_
  constructor
  · rintro ⟨selection, hselected, hrefused⟩
    rw [hcoherent.plan_eq hselected, Plan.apply_make_eq_refused_iff hcoherent.grown] at hrefused
    obtain ⟨split, hsplit, hshown, herror⟩ := hrefused
    refine ⟨selection.term, split, by rw [selected?, hselected]; rfl, ?_, hshown, herror, ?_⟩
    · rw [plan_of_selection hselected, hcoherent.plan_eq hselected]
      exact hsplit
    · exact Plan.beside_of_shows hcoherent.grown hsplit hshown
  · rintro ⟨id, split, hid, hsplit, hshown, herror, -⟩
    obtain ⟨selection, hselected, -⟩ := Option.map_eq_some_iff.mp hid
    rw [plan_of_selection hselected, hcoherent.plan_eq hselected] at hsplit
    refine ⟨selection, hselected, ?_⟩
    rw [hcoherent.plan_eq hselected, Plan.apply_make_eq_refused_iff hcoherent.grown]
    exact ⟨split, hsplit, hshown, herror⟩

end Session

/-- An evaluation whose last term `m` takes one step more. The last term before `m` is a subterm of
the root, and its value lies behind `m`. -/
def Graph.overrun : Graph :=
  let id (text : String) (h : text ≠ "") : TermId := ⟨text, h⟩
  let k := id "k" (by decide)
  let a := id "a" (by decide)
  let b := id "b" (by decide)
  let m := id "m" (by decide)
  let n := id "n" (by decide)
  { terms := [k, a, b, m, n].map fun id => ⟨id, id.text, none⟩
    edges :=
      [⟨k, a, "StepsTo"⟩, ⟨a, b, "StepsTo"⟩, ⟨b, m, "StepsTo CallStep"⟩, ⟨m, n, "StepsTo"⟩,
        ⟨k, b, "SubTerm"⟩]
    root := k
    ending := .value m
    nodup_ids := by decide
    root_mem := by decide
    ending_mem := by decide
    ends_mem := by decide }

/-- Stepping into the call at the root shows the term before the last one. Back from the last one a
step is armed even so, and it is refused. -/
theorem Session.refused_overrun :
    let k : TermId := ⟨"k", by decide⟩
    let b : TermId := ⟨"b", by decide⟩
    let m : TermId := ⟨"m", by decide⟩
    let session := ((start Graph.overrun).run [.select k, .perform .stepInto, .select m]).2
    session.plan.isArmed .stepBackward = true ∧
      session.plan.destination? .stepBackward = some b ∧ session.view.shows b = true ∧
      (session.perform .stepBackward).1 = .error (.refused (.alreadyVisible b)) := by
  decide +kernel

end ReductionStepper
