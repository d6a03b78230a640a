import ReductionStepper.Proofs.Stepper.Check
import ReductionStepper.Proofs.Workbench.Delivery

/-!
# The cursor

The cursor is kept apart from the session and outlives the selection, the changes of the view and
the session itself. `Points` says what it may point at: a shown term of the session, and the
selected one if a term is selected. All inputs keep it so. Hence a key that selects a term always
finds a shown one.
-/

namespace ReductionStepper

open Screen (Theme)

/-! ## Sessions -/

namespace Session

variable {graph : Graph} {session : Session} {id : TermId}

/-- The chart lists exactly the shown terms. -/
theorem Coherent.mem_order (h : session.Coherent graph) :
    id ∈ Chart.order session ↔ session.view.shows id = true :=
  (h.grown.laidOut.shows_iff id).symm

/-- The chart lists a term at least. -/
theorem Coherent.order_ne_nil (h : session.Coherent graph) : Chart.order session ≠ [] := by
  obtain ⟨first, later, hchains, -⟩ := h.grown.chains_eq_cons
  rw [Chart.order, hchains, List.flatMap_cons, Chain.nodes, List.cons_append]
  exact List.cons_ne_nil _ _

/-- An action that succeeds drops the selection and hides nothing; one that fails changes
nothing. -/
theorem perform_spec (session : Session) (action : Action) :
    (∃ change view,
      session.perform action = (.ok change, { session with view, selection := none }) ∧
        ∀ id, session.view.shows id = true → view.shows id = true) ∨
      ∃ error, session.perform action = (.error error, session) := by
  cases hselected : session.selection with
  | none => exact .inr ⟨.nothingSelected, by simp only [perform, hselected]⟩
  | some selection =>
    cases happly : selection.plan.apply session.index session.view action with
    | error error => exact .inr ⟨error, by simp only [perform, hselected, happly]⟩
    | ok made =>
      obtain ⟨change, view⟩ := made
      obtain ⟨-, rfl⟩ := View.admits_of_apply happly
      refine .inl ⟨change, _, perform_of_apply hselected happly, ?_⟩
      intro id hshown
      exact View.shows_record.mpr (.inr hshown)

/-- Undoing drops the selection if there was a change to undo; otherwise it changes nothing. -/
theorem undo_spec (session : Session) :
    (∃ change view, session.undo = (some change, { session with view, selection := none })) ∨
      session.undo = (none, session) := by
  unfold undo
  split
  · exact .inr rfl
  · exact .inl ⟨_, _, rfl⟩

end Session

namespace Stepper

/-! ## What the cursor may point at -/

/-- A cursor that fits the session, if there is one: it points at a shown term, and at the selected
one if a term is selected. -/
inductive Points : Option TermId → Option Session → Prop where
  | unloaded : Points none none
  | loaded {cursor : Option TermId} {graph : Graph} {session : Session}
      (hcoherent : session.Coherent graph)
      (hshown : ∀ id, cursor = some id → session.view.shows id = true)
      (hselected : ∀ id, session.selected? = some id → cursor = some id) :
      Points cursor (some session)

variable {stepper : Stepper} {session later : Session} {cursor : Option TermId} {id : TermId}
  {key : Key}

/-- The cursor of a stepper fits its session. -/
def Pointed (stepper : Stepper) : Prop := Points stepper.cursor stepper.session?

/-- With a session, the cursor is on a shown term if on any, and on the selected one if there is
one. -/
theorem Points.of_loaded (h : Points cursor (some session)) :
    (∃ graph, session.Coherent graph) ∧ (∀ id, cursor = some id → session.view.shows id = true) ∧
      ∀ id, session.selected? = some id → cursor = some id := by
  cases h with
  | loaded hcoherent hshown hselected => exact ⟨⟨_, hcoherent⟩, hshown, hselected⟩

/-- With nothing selected, a cursor on a shown term fits. -/
theorem Points.of_free {graph : Graph} (hcoherent : session.Coherent graph)
    (hshown : ∀ id, cursor = some id → session.view.shows id = true)
    (hfree : session.selected? = none) : Points cursor (some session) := by
  refine .loaded hcoherent hshown ?_
  intro id hid
  rw [hfree] at hid
  cases hid

/-- With nothing selected, no cursor is needed. -/
theorem Points.of_dropped {graph : Graph} (hcoherent : session.Coherent graph)
    (hfree : session.selected? = none) : Points none (some session) := by
  refine .of_free hcoherent ?_ hfree
  intro id hid
  cases hid

/-! ## Selecting keys -/

/-- The keys that select a term. -/
def selectingKeys : List Key :=
  [.enter, .up, .down, .home, .last, .char 'j', .char 'k', .char 'g', .char 'G']

/-- Selecting a shown term succeeds and puts the cursor there. -/
theorem select_of_shows (hsession : stepper.session? = some session)
    (hshown : session.view.shows id = true) :
    stepper.select id =
      { stepper.withSession { session with selection := some (session.selectionOf id) } with
        cursor := some id } := by
  rw [select, hsession]
  simp only [Session.select_of_shows hshown]

/-- Selects a term, if there is one. -/
def selectFrom (stepper : Stepper) : Option TermId → Stepper
  | none => stepper
  | some id => stepper.select id

/-- The position in the order to which moving forward goes. -/
def nextPosition (stepper : Stepper) : Nat :=
  match stepper.current?.bind (stepper.order.idxOf? ·) with
  | none => 0
  | some position => min (position + 1) (stepper.order.length - 1)

/-- The position in the order to which moving backward goes. -/
def previousPosition (stepper : Stepper) : Nat :=
  match stepper.current?.bind (stepper.order.idxOf? ·) with
  | none => stepper.order.length - 1
  | some position => position - 1

/-- The term that a selecting key goes to. -/
def goal? (stepper : Stepper) : Key → Option TermId
  | .enter => stepper.cursor.or stepper.order.head?
  | .down | .char 'j' => stepper.order[stepper.nextPosition]?
  | .up | .char 'k' => stepper.order[stepper.previousPosition]?
  | .home | .char 'g' => stepper.order.head?
  | .last | .char 'G' => stepper.order.getLast?
  | _ => none

/-- A selecting key selects the term that it goes to, if there is one. -/
theorem press_of_mem_selectingKeys (hkey : key ∈ selectingKeys) (hhelp : stepper.help = none) :
    stepper.press key = stepper.selectFrom (stepper.goal? key) := by
  simp only [selectingKeys, List.mem_cons, List.not_mem_nil, or_false] at hkey
  rw [press, hhelp]
  rcases hkey with rfl | rfl | rfl | rfl | rfl | rfl | rfl | rfl | rfl
  · rw [pressOutside, reselect, goal?]
    cases stepper.cursor <;> rfl
  all_goals rfl

/-- Without a session there is nothing to go to but the cursor. -/
theorem goal?_of_session?_eq_none (hsession : stepper.session? = none)
    (hcursor : stepper.cursor = none) : stepper.goal? key = none := by
  have horder : stepper.order = [] := by rw [order, hsession]
  unfold goal?
  split <;> simp [horder, hcursor]

private theorem nextPosition_lt (hne : stepper.order ≠ []) :
    stepper.nextPosition < stepper.order.length := by
  have hpos := List.length_pos_iff.mpr hne
  unfold nextPosition
  split <;> omega

private theorem previousPosition_lt (hne : stepper.order ≠ []) :
    stepper.previousPosition < stepper.order.length := by
  have hpos := List.length_pos_iff.mpr hne
  unfold previousPosition
  split
  · omega
  · next position hposition =>
    obtain ⟨id, -, hfound⟩ := Option.bind_eq_some_iff.mp hposition
    obtain ⟨hlt, -⟩ := List.idxOf?_eq_some_iff.mp hfound
    omega

/-- A selecting key goes to the term under the cursor or to one in the order of the chart. -/
theorem exists_goal? (hkey : key ∈ selectingKeys) (hne : stepper.order ≠ []) :
    ∃ id, stepper.goal? key = some id ∧ (stepper.cursor = some id ∨ id ∈ stepper.order) := by
  have hat : ∀ {position : Nat}, position < stepper.order.length →
      ∃ id, stepper.order[position]? = some id ∧ (stepper.cursor = some id ∨ id ∈ stepper.order) :=
    fun hlt => ⟨_, List.getElem?_eq_getElem hlt, .inr (List.getElem_mem hlt)⟩
  have hnext := hat (nextPosition_lt hne)
  have hprevious := hat (previousPosition_lt hne)
  have hfirst : ∃ id, stepper.order.head? = some id ∧
      (stepper.cursor = some id ∨ id ∈ stepper.order) :=
    ⟨_, List.head?_eq_some_head hne, .inr (List.head_mem hne)⟩
  have hlast : ∃ id, stepper.order.getLast? = some id ∧
      (stepper.cursor = some id ∨ id ∈ stepper.order) :=
    ⟨_, List.getLast?_eq_some_getLast hne, .inr (List.getLast_mem hne)⟩
  have henter : ∃ id, stepper.goal? .enter = some id ∧
      (stepper.cursor = some id ∨ id ∈ stepper.order) := by
    cases hcursor : stepper.cursor with
    | none => simpa [goal?, hcursor] using hfirst
    | some id => exact ⟨id, by simp [goal?, hcursor], .inl rfl⟩
  simp only [selectingKeys, List.mem_cons, List.not_mem_nil, or_false] at hkey
  rcases hkey with rfl | rfl | rfl | rfl | rfl | rfl | rfl | rfl | rfl
  · exact henter
  · exact hprevious
  · exact hnext
  · exact hfirst
  · exact hlast
  · exact hnext
  · exact hprevious
  · exact hfirst
  · exact hlast

/-! ## Inputs keep the cursor pointed -/

namespace Pointed

variable (h : stepper.Pointed)

include h

/-- Selecting a shown term. -/
theorem select (hsession : stepper.session? = some session)
    (hshown : session.view.shows id = true) : (stepper.select id).Pointed := by
  rw [Pointed, hsession] at h
  obtain ⟨⟨graph, hcoherent⟩, -, -⟩ := h.of_loaded
  rw [select_of_shows hsession hshown]
  refine .loaded (hcoherent.of_moves (.select hshown)) ?_ ?_
  · rintro _ ⟨⟩
    exact hshown
  · rintro _ ⟨⟩
    rfl

/-- With a session a selecting key selects a shown term; without one it does nothing. -/
theorem press_selecting (hkey : key ∈ selectingKeys) (hhelp : stepper.help = none) :
    (∃ session id, stepper.session? = some session ∧ session.view.shows id = true ∧
      stepper.press key = stepper.select id) ∨
      stepper.session? = none ∧ stepper.press key = stepper := by
  rw [press_of_mem_selectingKeys hkey hhelp]
  rw [Pointed] at h
  cases hsession : stepper.session? with
  | none =>
    rw [hsession] at h
    cases hcursor : stepper.cursor with
    | none =>
      rw [goal?_of_session?_eq_none hsession hcursor]
      exact .inr ⟨rfl, rfl⟩
    | some id =>
      rw [hcursor] at h
      cases h
  | some session =>
    rw [hsession] at h
    obtain ⟨⟨graph, hcoherent⟩, hshown, -⟩ := h.of_loaded
    have horder : stepper.order = Chart.order session := by rw [order, hsession]
    obtain ⟨id, hgoal, hid⟩ := exists_goal? hkey (horder ▸ hcoherent.order_ne_nil)
    refine .inl ⟨session, id, rfl, ?_, by rw [hgoal, selectFrom]⟩
    rcases hid with hid | hid
    · exact hshown id hid
    · exact hcoherent.mem_order.mp (horder ▸ hid)

private theorem perform (action : Action) : (stepper.perform action).Pointed := by
  unfold Stepper.perform
  split
  · exact h
  · next session hsession =>
    rw [Pointed, hsession] at h
    obtain ⟨⟨graph, hcoherent⟩, hshown, hselected⟩ := h.of_loaded
    rcases session.perform_spec action with ⟨change, view, hperform, hgrows⟩ | ⟨error, hperform⟩
    · have hlater : ({ session with view, selection := none } : Session).Coherent graph := by
        have hobey := hcoherent.of_moves (session.moves_obey (.perform action))
        rwa [Session.obey, hperform] at hobey
      rw [hperform]
      exact .of_free hlater (fun id hid => hgrows id (hshown id hid)) rfl
    · rw [hperform]
      exact .loaded hcoherent hshown hselected

/-- Undoing drops a cursor that is hidden by it. -/
theorem undo : stepper.undo.Pointed := by
  unfold Stepper.undo
  split
  · exact h
  · next session hsession =>
    rw [Pointed, hsession] at h
    obtain ⟨⟨graph, hcoherent⟩, hshown, hselected⟩ := h.of_loaded
    have hlater := hcoherent.of_moves (session.moves_obey .undo)
    rw [Session.obey] at hlater
    have hcursor : ∀ {view : View} {id : TermId},
        stepper.cursor.filter view.shows = some id ↔
          stepper.cursor = some id ∧ view.shows id = true := Option.filter_eq_some_iff
    rcases session.undo_spec with ⟨change, view, hundo⟩ | hundo
    · rw [hundo] at hlater ⊢
      exact .of_free hlater (fun id hid => (hcursor.mp hid).2) rfl
    · rw [hundo]
      refine .loaded hcoherent (fun id hid => (hcursor.mp hid).2) ?_
      intro id hid
      exact hcursor.mpr ⟨hselected id hid, hshown id (hselected id hid)⟩

/-- Resetting drops the cursor. -/
theorem reset : stepper.reset.Pointed := by
  unfold Stepper.reset
  split
  · exact h
  · next session hsession =>
    rw [Pointed, hsession] at h
    obtain ⟨⟨graph, hcoherent⟩, -, -⟩ := h.of_loaded
    exact .of_dropped (hcoherent.of_moves .reset) rfl

/-- Dropping the selection keeps the cursor. -/
theorem deselect : stepper.deselect.Pointed := by
  have hmap : stepper.deselect.session? = stepper.session?.map Session.deselect := rfl
  rw [Pointed] at h ⊢
  rw [hmap]
  cases hsession : stepper.session? with
  | none =>
    rw [hsession] at h
    exact h
  | some session =>
    rw [hsession] at h
    obtain ⟨⟨graph, hcoherent⟩, hshown, -⟩ := h.of_loaded
    exact .of_free (hcoherent.of_moves .deselect) hshown rfl

private theorem pressInHelp (scroll : UInt16) (key : Key) :
    (stepper.pressInHelp scroll key).Pointed := by
  cases key with
  | char c =>
    unfold Stepper.pressInHelp
    dsimp only
    split_ifs <;> exact h
  | _ => exact h

private theorem queueCheck : stepper.queueCheck.Pointed := by
  unfold Stepper.queueCheck
  split <;> exact h

/-- Whatever key is pressed. -/
theorem press (key : Key) : (stepper.press key).Pointed := by
  cases hhelp : stepper.help with
  | some scroll =>
    rw [Stepper.press, hhelp]
    exact h.pressInHelp scroll key
  | none =>
    by_cases hkey : key ∈ selectingKeys
    · rcases h.press_selecting hkey hhelp with ⟨session, id, hsession, hshown, hpress⟩ | ⟨-, hpress⟩
      · rw [hpress]
        exact h.select hsession hshown
      · rw [hpress]
        exact h
    · rw [Stepper.press, hhelp]
      cases key with
      | char c =>
        dsimp only [pressOutside]
        unfold pressChar
        split_ifs with hquit hhelp hnext hprevious hfirst hlast
        · exact h
        · exact h
        · exact absurd (hnext ▸ by decide) hkey
        · exact absurd (hprevious ▸ by decide) hkey
        · exact absurd (hfirst ▸ by decide) hkey
        · exact absurd (hlast ▸ by decide) hkey
        · exact h.undo
        · exact h.reset
        · exact h.queueCheck
        · split
          · exact h
          · exact h.perform _
      | escape => exact h.deselect
      | other => exact h
      | enter | up | down | home | last => exact absurd (by decide) hkey

/-- A result leaves session and cursor alone or brings a fresh session and drops the cursor. -/
theorem deliver (ticket : Ticket) (result : CheckResult) :
    (stepper.deliver ticket result).2.Pointed := by
  have hreceives := stepper.bench.receives_finishCheck ticket result
  unfold Stepper.deliver
  split
  · next bench hfinish =>
    rw [hfinish] at hreceives
    rcases hreceives.session_eq_or_start with ⟨hne, -⟩ | ⟨-, graph, hsession⟩
    · exact absurd rfl hne
    · show Points none bench.session
      rw [hsession]
      exact .of_dropped (.start graph) rfl
  · next delivery bench hdelivery hfinish =>
    rw [hfinish] at hreceives
    show Points stepper.cursor bench.session
    rw [hreceives.session_eq hdelivery]
    exact h

private theorem receive (input : Input) : (stepper.receive input).Pointed := by
  cases input with
  | key key => exact h.press key
  | take => exact h
  | deliver ticket result => exact h.deliver ticket result

/-- Inputs keep the cursor pointed. -/
theorem run (inputs : List Input) : (stepper.run inputs).Pointed := by
  induction inputs generalizing stepper with
  | nil => exact h
  | cons input inputs ih => exact ih (h.receive input)

end Pointed

/-- A stepper for any workbench on which nothing is selected starts with a fitting cursor. -/
theorem pointed_start {bench : Workbench} (hbench : bench.Coherent)
    (hfree : ∀ session, bench.session = some session → session.selected? = none) (theme : Theme)
    (canCheck : Bool) : (start bench theme canCheck).Pointed := by
  show Points none bench.session
  cases hsession : bench.session with
  | none => exact .unloaded
  | some session =>
    obtain ⟨graph, hcoherent⟩ := hbench session hsession
    exact .of_dropped hcoherent (hfree session hsession)

/-- Selecting a shown term says nothing. -/
theorem toast_select (hsession : stepper.session? = some session)
    (hshown : session.view.shows id = true) : (stepper.select id).toast = stepper.toast := by
  rw [select_of_shows hsession hshown]
  rfl

/-- No key says anything while the help is shown. -/
theorem toast_pressInHelp (scroll : UInt16) :
    (stepper.pressInHelp scroll key).toast = stepper.toast := by
  cases key with
  | char c =>
    simp only [pressInHelp]
    split_ifs <;> rfl
  | _ => rfl

/-- Whatever a stepper is given, from a workbench on which nothing is selected: the cursor points at
a shown term of the session, and at the selected one if a term is selected. Hence selecting never
fails: a key that selects a term says nothing, and if there is a session and the help is hidden, it
leaves a shown term selected and the view as it is. -/
theorem selecting_finds_shown_term {program function : String} {before : List Workbench.Input}
    (hfree : ∀ session, ((Workbench.start program function).run before).session = some session →
      session.selected? = none) (theme : Theme) (canCheck : Bool) (inputs : List Input) :
    let stepper := (start ((Workbench.start program function).run before) theme canCheck).run inputs
    (∀ id, stepper.cursor = some id →
      ∃ session, stepper.session? = some session ∧ session.view.shows id = true) ∧
      (∀ session id, stepper.session? = some session → session.selected? = some id →
        stepper.cursor = some id) ∧
      ∀ key ∈ selectingKeys,
        (stepper.press key).toast = stepper.toast ∧
          (stepper.help = none → ∀ session, stepper.session? = some session →
            ∃ later id, (stepper.press key).session? = some later ∧ later.view = session.view ∧
              later.selected? = some id ∧ later.view.shows id = true) := by
  intro stepper
  have hbench := (Workbench.Coherent.start program function).run before
  have hpointed : stepper.Pointed := (pointed_start hbench hfree theme canCheck).run inputs
  refine ⟨?_, ?_, ?_⟩
  · intro id hid
    rw [Pointed, hid] at hpointed
    cases hsession : stepper.session? with
    | none =>
      rw [hsession] at hpointed
      cases hpointed
    | some session =>
      rw [hsession] at hpointed
      exact ⟨session, rfl, hpointed.of_loaded.2.1 id rfl⟩
  · intro session id hsession hid
    rw [Pointed, hsession] at hpointed
    exact hpointed.of_loaded.2.2 id hid
  · intro key hkey
    cases hhelp : stepper.help with
    | some scroll =>
      rw [press, hhelp]
      refine ⟨toast_pressInHelp scroll, ?_⟩
      intro hhidden
      cases hhidden
    | none =>
      rcases hpointed.press_selecting hkey hhelp with
        ⟨session, id, hsession, hshown, hpress⟩ | ⟨hnone, hpress⟩
      · rw [hpress]
        refine ⟨toast_select hsession hshown, ?_⟩
        intro _ other hother
        obtain rfl := Option.some.inj (hsession.symm.trans hother)
        rw [select_of_shows hsession hshown]
        exact ⟨_, id, rfl, rfl, rfl, hshown⟩
      · rw [hpress]
        refine ⟨rfl, ?_⟩
        intro _ session hsession
        rw [hnone] at hsession
        cases hsession

/-- The cursor follows the selection to a term that a step forward has revealed. Undoing hides that
term and drops the cursor, and the next key that selects a term finds a shown one. -/
theorem selecting_finds_shown_term_undone :
    let name (text : String) : Reply.Name := .text text
    let reply : Reply := .value [⟨name "r", "", none⟩, ⟨name "s", "", none⟩, ⟨name "v", "", none⟩]
      [⟨name "r", name "s", "StepsTo"⟩, ⟨name "s", name "v", "StepsTo"⟩] (name "r") (name "v")
    let before : List Workbench.Input := [.beginCheck, .finishCheck ⟨1⟩ (.ok reply)]
    let bench := (Workbench.start "" "main").run before
    let revealing : List Input := [.key (.char 'g'), .key (.char 'f'), .key (.char 'j')]
    let revealed := (start bench ⟨none⟩ true).run revealing
    let undone := (start bench ⟨none⟩ true).run (revealing ++ [.key (.char 'u')])
    (∀ session, bench.session = some session → session.selected? = none) ∧
      revealed.cursor.map TermId.text = some "s" ∧ undone.cursor = none ∧
      undone.session?.isSome = true ∧ (undone.press .enter).toast = some "Undid last action" ∧
      ∃ later id, (undone.press .enter).session? = some later ∧
        later.selected? = some id ∧ later.view.shows id = true := by
  intro name reply before bench revealing revealed undone
  have hselected : bench.session.bind Session.selected? = none := by decide +kernel
  have hfree : ∀ session, bench.session = some session → session.selected? = none := by
    intro session hsession
    rw [hsession] at hselected
    exact hselected
  have hloaded : undone.session?.isSome = true := by decide +kernel
  have htoast : undone.toast = some "Undid last action" := by decide +kernel
  obtain ⟨-, -, hselects⟩ :=
    selecting_finds_shown_term hfree ⟨none⟩ true (revealing ++ [.key (.char 'u')])
  obtain ⟨hquiet, hfinds⟩ := hselects .enter (by decide)
  obtain ⟨session, hsession⟩ := Option.isSome_iff_exists.mp hloaded
  obtain ⟨later, id, hlater, -, hid, hshown⟩ := hfinds (by decide +kernel) session hsession
  exact ⟨hfree, by decide +kernel, by decide +kernel, hloaded, hquiet.trans htoast, later, id,
    hlater, hid, hshown⟩

end Stepper

end ReductionStepper
