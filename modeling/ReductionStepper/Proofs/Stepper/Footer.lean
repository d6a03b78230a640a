import ReductionStepper.Proofs.Evaluator.Listing
import ReductionStepper.Proofs.Session.Selecting
import ReductionStepper.Proofs.Stepper.Check
import ReductionStepper.Proofs.Text.Line
import ReductionStepper.Proofs.Workbench.Delivery
import ReductionStepper.Stepper.Panel

/-!
# The footer

The footer greys out keys without an effect. It goes by what was planned when a term was selected
and by whether there is a history, while a key goes through the session and the guards of the view;
on well-formed graphs the two agree in every state that a stepper gets into.
-/

namespace ReductionStepper

open Screen (Line Run Style Theme)

/-! ## What is armed and what can be undone -/

namespace Session

variable {session : Session} {action : Action}

/-- An action that is not armed changes nothing. -/
theorem perform_of_not_isArmed (h : session.plan.isArmed action = false) :
    (session.perform action).2 = session := by
  cases hselected : session.selection with
  | none => rw [perform, hselected]
  | some selection =>
    cases happly : selection.plan.apply session.index session.view action with
    | error error => simp only [perform, hselected, happly]
    | ok made =>
      have harmed : session.plan.isArmed action = true := by
        rw [plan, hselected, Option.map_some, Option.getD_some, Plan.isArmed_iff]
        rcases View.apply_eq_ok_iff.mp happly with ⟨split, hsplit, -⟩ | ⟨pair, hinto, hpair, -⟩
        · exact .inl ⟨split, hsplit⟩
        · exact .inr ⟨pair, hinto, hpair⟩
      rw [h] at harmed
      cases harmed

/-- On a well-formed graph an action that is armed changes what is shown. -/
theorem Sound.shown_perform_ne (hsound : session.Sound) (h : session.plan.isArmed action = true) :
    (session.perform action).2.view.shown ≠ session.view.shown := by
  obtain ⟨graph, hgraph, hcoherent, hfollows⟩ := hsound
  cases hselected : session.selection with
  | none =>
    rw [plan, hselected] at h
    cases action <;> cases h
  | some selection =>
    rw [plan, hselected, Option.map_some, Option.getD_some, hcoherent.plan_eq hselected] at h
    obtain ⟨change, happly, -⟩ := Plan.apply_eq_ok_of_isArmed hgraph hcoherent.grown hfollows h
    have hsize := (View.admits_of_apply happly).1.size_lt
    rw [← hcoherent.plan_eq hselected, ← hcoherent.index_eq] at happly
    rw [perform_of_apply hselected happly]
    intro hsame
    rw [← hsame] at hsize
    exact Nat.lt_irrefl _ hsize

/-- Undoing changes what is shown if there is a change to undo. -/
theorem Coherent.shown_undo_ne {graph : Graph} (hcoherent : session.Coherent graph)
    (h : session.canUndo = true) : session.undo.2.view.shown ≠ session.view.shown := by
  cases hundo : session.view.undo? with
  | none =>
    rw [View.undo?] at hundo
    split at hundo
    · next hnone => simp [canUndo, View.canUndo, hnone] at h
    · cases hundo
  | some made =>
    obtain ⟨-, hchange, hrecord⟩ := hcoherent.grown.of_undo? hundo
    have hsize := hchange.size_lt
    rw [← hrecord] at hsize
    rw [undo, hundo]
    intro hsame
    rw [← hsame] at hsize
    exact Nat.lt_irrefl _ hsize

end Session

namespace Stepper

variable {stepper : Stepper} {session : Session} {compact enabled : Bool} {action : Action}
  {key : Key}

/-! ## What the footer draws -/

/-- Whether the footer has a key in the style of enabled or of disabled keys. -/
def Draws (stepper : Stepper) (compact : Bool) (key : Char) (enabled : Bool) : Prop :=
  (⟨String.singleton key, keyStyle enabled⟩ : Run) ∈ stepper.footer compact

/-- The entries of the footer in order. -/
def footerEntries (stepper : Stepper) (compact : Bool) : List FooterEntry :=
  stepper.actionEntries ++ stepper.undoEntry ::
    ((if compact then [] else [stepper.resetEntry, stepper.checkEntry]) ++ generalEntries)

private theorem keyStyle_inj {other : Bool} :
    keyStyle enabled = keyStyle other ↔ enabled = other := by
  cases enabled <;> cases other <;> decide

private theorem keyStyle_ne_labelStyle (enabled : Bool) : keyStyle enabled ≠ labelStyle := by
  cases enabled <;> decide

private theorem keyStyle_ne_plain (enabled : Bool) : keyStyle enabled ≠ .plain := by
  cases enabled <;> decide

/-- What is not the separator stands in one of the parts. -/
theorem mem_intercalate_separator {run : Run} {parts : List Line} (hrun : run ≠ separator) :
    run ∈ [separator].intercalate parts ↔ ∃ part ∈ parts, run ∈ part :=
  Text.mem_intercalate_iff (by simpa using hrun)

/-- A key is drawn in the runs of its entry. -/
theorem mem_runs {entry : FooterEntry} {text : String} :
    (⟨text, keyStyle enabled⟩ : Run) ∈ entry.runs ↔
      text = String.singleton entry.key ∧ enabled = entry.enabled := by
  simp [FooterEntry.runs, keyStyle_ne_labelStyle, keyStyle_inj]

private theorem mem_compactActions {text : String} :
    (⟨text, keyStyle enabled⟩ : Run) ∈ stepper.compactActions ↔
      ∃ entry ∈ stepper.actionEntries,
        text = String.singleton entry.key ∧ enabled = entry.enabled := by
  simp [compactActions, keyStyle_ne_labelStyle, keyStyle_inj, @eq_comm _ text,
    @eq_comm _ enabled]

/-- A key is drawn in one of the parts; separators and the message are in other styles. -/
theorem mem_footer {text : String} :
    (⟨text, keyStyle enabled⟩ : Run) ∈ stepper.footer compact ↔
      ∃ part ∈ stepper.footerParts compact, (⟨text, keyStyle enabled⟩ : Run) ∈ part := by
  have hseparator : (⟨text, keyStyle enabled⟩ : Run) ≠ separator := by
    intro heq
    exact keyStyle_ne_labelStyle enabled (Run.mk.inj heq).2
  rw [footer, List.mem_append, mem_intercalate_separator hseparator]
  cases stepper.toast <;> simp [separator, keyStyle_ne_labelStyle, keyStyle_ne_plain]

/-- The keys in the footer are those of its entries. -/
theorem mem_footer_iff {text : String} :
    (⟨text, keyStyle enabled⟩ : Run) ∈ stepper.footer compact ↔
      ∃ entry ∈ stepper.footerEntries compact,
        text = String.singleton entry.key ∧ enabled = entry.enabled := by
  rw [mem_footer]
  cases compact <;>
    simp [footerParts, footerEntries, mem_compactActions, mem_runs, or_and_right, exists_or]

/-- No key has two entries. -/
theorem nodup_keys (stepper : Stepper) (compact : Bool) :
    ((stepper.footerEntries compact).map FooterEntry.key).Nodup := by
  cases compact with
  | true => exact (by decide : "fbnpiou?q".toList.Nodup)
  | false => exact (by decide : "fbnpiouRc?q".toList.Nodup)

/-- A key is drawn as its entry says. -/
theorem draws_iff {entry : FooterEntry} (hentry : entry ∈ stepper.footerEntries compact) :
    stepper.Draws compact entry.key enabled ↔ entry.enabled = enabled := by
  rw [Draws, mem_footer_iff]
  constructor
  · rintro ⟨other, hother, hkey, rfl⟩
    have hkey := String.singleton_inj.mp hkey
    rw [List.inj_on_of_nodup_map (stepper.nodup_keys compact) hentry hother hkey]
  · rintro rfl
    exact ⟨entry, hentry, rfl, rfl⟩

/-! ## What keys do to the session -/

private theorem session?_select (stepper : Stepper) (id : TermId) :
    (stepper.select id).session? = stepper.session?.map fun session => (session.select id).2 := by
  unfold select
  split
  · next hsession => rw [hsession, Option.map_none]
  · next session hsession =>
    rw [hsession, Option.map_some]
    split <;> next hselect => rw [hselect]; rfl

private theorem session?_perform (stepper : Stepper) (action : Action) :
    (stepper.perform action).session? =
      stepper.session?.map fun session => (session.perform action).2 := by
  unfold perform
  split
  · next hsession => rw [hsession, Option.map_none]; exact hsession
  · next session hsession =>
    rw [hsession, Option.map_some]
    split <;> next hperform => rw [hperform]; rfl

private theorem session?_undo (stepper : Stepper) :
    stepper.undo.session? = stepper.session?.map fun session => session.undo.2 := by
  unfold undo
  split
  · next hsession => rw [hsession, Option.map_none]
  · next session hsession => rw [hsession]; rfl

private theorem session?_reset (stepper : Stepper) :
    stepper.reset.session? = stepper.session?.map Session.reset := by
  unfold reset
  split
  · next hsession => rw [hsession, Option.map_none]
  · next session hsession => rw [hsession]; rfl

private theorem session?_queueCheck (stepper : Stepper) :
    stepper.queueCheck.session? = stepper.session? := by
  unfold queueCheck
  split <;> rfl

private theorem session?_pressInHelp (stepper : Stepper) (scroll : UInt16) (key : Key) :
    (stepper.pressInHelp scroll key).session? = stepper.session? := by
  cases key with
  | char c =>
    unfold pressInHelp
    dsimp only
    split_ifs <;> rfl
  | _ => rfl

/-- The session of a stepper, if it has one, is sound. -/
def Sound (stepper : Stepper) : Prop :=
  ∀ session, stepper.session? = some session → session.Sound

namespace Sound

variable (h : stepper.Sound)

include h

/-- What happens to the session is a run of commands. -/
theorem of_commands {later : Stepper} (commands : List Session.Command)
    (hlater : later.session? = stepper.session?.map fun session => (session.run commands).2) :
    later.Sound := by
  intro session hsession
  obtain ⟨before, hbefore, rfl⟩ := Option.map_eq_some_iff.mp (hlater.symm.trans hsession)
  exact (h before hbefore).run commands

/-- Selecting the term that a key moves to, if there is one. -/
theorem selectFrom (id? : Option TermId) :
    (match id? with | none => stepper | some id => stepper.select id).Sound := by
  cases id? with
  | none => exact h
  | some id => exact h.of_commands [.select id] (stepper.session?_select id)

private theorem reselect : stepper.reselect.Sound := by
  unfold Stepper.reselect
  split
  · exact h.selectFrom _
  · exact h.selectFrom (some _)

private theorem pressChar (c : Char) : (stepper.pressChar c).Sound := by
  unfold Stepper.pressChar
  split_ifs
  · exact h
  · exact h
  · exact h.selectFrom _
  · exact h.selectFrom _
  · exact h.selectFrom _
  · exact h.selectFrom _
  · exact h.of_commands [.undo] stepper.session?_undo
  · exact h.of_commands [.reset] stepper.session?_reset
  · exact h.of_commands [] (stepper.session?_queueCheck.trans Option.map_id'.symm)
  · split
    · exact h
    · exact h.of_commands [.perform _] (stepper.session?_perform _)

/-- Whatever key is pressed. -/
theorem press (key : Key) : (stepper.press key).Sound := by
  unfold Stepper.press
  split
  · exact h.of_commands [] ((stepper.session?_pressInHelp _ key).trans Option.map_id'.symm)
  · cases key with
    | char c => exact h.pressChar c
    | escape => exact h.of_commands [.deselect] rfl
    | enter => exact h.reselect
    | up | down | home | last => exact h.selectFrom _
    | other => exact h

/-- Whatever is received, as long as results bring well-formed graphs only. -/
theorem receive {input : Input}
    (hinput : ∀ ticket result, input = .deliver ticket result → result.WellFormed) :
    (stepper.receive input).Sound := by
  cases input with
  | key key => exact h.press key
  | take => exact h
  | deliver ticket result =>
    have hbench : (stepper.bench.finishCheck ticket result).2.Sound :=
      Workbench.Sound.finishCheck h ticket (hinput ticket result rfl)
    rwa [← (stepper.deliver_spec ticket result).2.1] at hbench

private theorem run {inputs : List Input}
    (hinputs : ∀ ticket result, .deliver ticket result ∈ inputs → result.WellFormed) :
    (stepper.run inputs).Sound := by
  induction inputs generalizing stepper with
  | nil => exact h
  | cons input inputs ih =>
    rw [run_cons]
    refine ih (h.receive ?_) fun ticket result hmem =>
      hinputs ticket result (List.mem_cons_of_mem _ hmem)
    rintro ticket result rfl
    exact hinputs ticket result List.mem_cons_self

end Sound

/-! ## What the footer tells -/

/-- What is shown of the graph. -/
def picture? (stepper : Stepper) : Option Picture :=
  stepper.session?.map fun session => session.view.shown

/-- The footer tells whether a key has an effect: it draws the key as enabled if it has, and as
disabled if not. -/
def Tells (stepper : Stepper) (compact : Bool) (key : Char) (effect : Prop) : Prop :=
  (stepper.Draws compact key true ↔ effect) ∧ (stepper.Draws compact key false ↔ ¬ effect)

private theorem tells_of_entry {entry : FooterEntry} {effect : Prop}
    (hentry : entry ∈ stepper.footerEntries compact) (heffect : entry.enabled = true ↔ effect) :
    stepper.Tells compact entry.key effect := by
  refine ⟨(draws_iff hentry).trans heffect, (draws_iff hentry).trans ?_⟩
  rw [← heffect, Bool.not_eq_true]

private theorem press_action (hhelp : stepper.help = none) (action : Action) :
    stepper.press (.char action.key) = stepper.perform action := by
  rw [press, hhelp]
  cases action <;> rfl

/-- The key of an action that is not armed leaves the session as it is. -/
theorem session?_perform_of_not_isArmed (h : stepper.isArmed action = false) :
    (stepper.perform action).session? = stepper.session? := by
  rw [session?_perform]
  cases hsession : stepper.session? with
  | none => rfl
  | some session =>
    rw [isArmed, hsession] at h
    exact congrArg some (Session.perform_of_not_isArmed h)

/-- An action is armed exactly if its key changes what is shown. -/
theorem Sound.isArmed_iff (h : stepper.Sound) :
    stepper.isArmed action = true ↔ (stepper.perform action).picture? ≠ stepper.picture? := by
  constructor
  · intro harmed
    rw [picture?, picture?, session?_perform]
    cases hsession : stepper.session? with
    | none => simp [isArmed, hsession] at harmed
    | some session =>
      rw [isArmed, hsession] at harmed
      simpa using (h session hsession).shown_perform_ne harmed
  · intro hchanges
    by_contra harmed
    rw [Bool.not_eq_true] at harmed
    exact hchanges (by rw [picture?, picture?, session?_perform_of_not_isArmed harmed])

/-- Undoing leaves the session as it is if there is nothing to undo. -/
theorem session?_undo_of_not_enabled (h : stepper.undoEntry.enabled = false) :
    stepper.undo.session? = stepper.session? := by
  rw [session?_undo]
  rw [undoEntry] at h
  cases hsession : stepper.session? with
  | none => rfl
  | some session =>
    have hnone : session.view.history = [] := by
      simpa [hsession, Session.canUndo, View.canUndo] using h
    rw [Option.map_some, Session.undo_of_history_eq_nil hnone]

/-- There is a change to undo exactly if undoing changes what is shown. -/
theorem Sound.canUndo_iff (h : stepper.Sound) :
    stepper.undoEntry.enabled = true ↔ stepper.undo.picture? ≠ stepper.picture? := by
  constructor
  · intro hcan
    rw [undoEntry] at hcan
    rw [picture?, picture?, session?_undo]
    cases hsession : stepper.session? with
    | none => simp [hsession] at hcan
    | some session =>
      rw [hsession] at hcan
      obtain ⟨graph, -, hcoherent, -⟩ := h session hsession
      simpa using hcoherent.shown_undo_ne hcan
  · intro hchanges
    by_contra hcannot
    rw [Bool.not_eq_true] at hcannot
    exact hchanges (by rw [picture?, picture?, session?_undo_of_not_enabled hcannot])

/-- A check is asked for: a new ticket is issued and waits, with the program as it is. -/
def Asks (stepper later : Stepper) : Prop :=
  later.bench.tracker = stepper.bench.tracker.issue.2 ∧
    later.pending = some (stepper.bench.tracker.issue.1,
      ⟨stepper.bench.program, stepper.bench.function⟩)

private theorem canCheck_iff_asks : stepper.canCheck = true ↔ stepper.Asks stepper.queueCheck := by
  cases hcan : stepper.canCheck with
  | true => simp [queueCheck, hcan, Asks, Workbench.beginCheck]
  | false =>
    simp only [queueCheck, hcan, Bool.false_eq_true, if_false, false_iff]
    rintro ⟨htracker, -⟩
    have hlatest := congrArg Tracker.latest htracker
    simp [say, Tracker.issue] at hlatest

/-- Whatever a stepper was given before, with the help hidden and as long as all graphs were
well-formed: both footers draw the key of an action as enabled exactly if pressing it changes what
is shown, and pressing it while it is drawn as disabled leaves the session as it is; they draw
undoing in the same way; and the full footer draws checking as enabled exactly if it asks for a
check. -/
theorem footer_tells_effects {program function : String} {before : List Workbench.Input}
    {inputs : List Input}
    (hbefore : ∀ ticket result, .finishCheck ticket result ∈ before → result.WellFormed)
    (hinputs : ∀ ticket result, .deliver ticket result ∈ inputs → result.WellFormed)
    (theme : Theme) (canCheck : Bool)
    (hhelp : ((start ((Workbench.start program function).run before) theme canCheck).run
      inputs).help = none) :
    let stepper := (start ((Workbench.start program function).run before) theme canCheck).run inputs
    (∀ (compact : Bool) (action : Action),
      stepper.Tells compact action.key
          ((stepper.press (.char action.key)).picture? ≠ stepper.picture?) ∧
        (stepper.Draws compact action.key false →
          (stepper.press (.char action.key)).session? = stepper.session?)) ∧
      (∀ compact,
        stepper.Tells compact 'u' ((stepper.press (.char 'u')).picture? ≠ stepper.picture?) ∧
          (stepper.Draws compact 'u' false →
            (stepper.press (.char 'u')).session? = stepper.session?)) ∧
      stepper.Tells false 'c' (stepper.Asks (stepper.press (.char 'c'))) := by
  intro stepper
  have hbench : ((Workbench.start program function).run before).Sound :=
    (Workbench.Sound.start program function).run hbefore
  have hstart : (start ((Workbench.start program function).run before) theme canCheck).Sound :=
    hbench
  have hsound : stepper.Sound := hstart.run hinputs
  refine ⟨fun compact action => ?_, fun compact => ?_, ?_⟩
  · have hentry : ⟨actionLabel action, action.key, stepper.isArmed action⟩ ∈
        stepper.footerEntries compact := by
      refine List.mem_append_left _ (List.mem_map.mpr ⟨action, ?_, rfl⟩)
      cases action <;> decide
    rw [press_action hhelp]
    refine ⟨tells_of_entry hentry hsound.isArmed_iff, fun hdrawn => ?_⟩
    exact session?_perform_of_not_isArmed ((draws_iff hentry).mp hdrawn)
  · have hpress : stepper.press (.char 'u') = stepper.undo := by
      rw [press, hhelp]
      rfl
    have hentry : stepper.undoEntry ∈ stepper.footerEntries compact :=
      List.mem_append_right _ List.mem_cons_self
    rw [hpress]
    refine ⟨tells_of_entry hentry hsound.canUndo_iff, fun hdrawn => ?_⟩
    exact session?_undo_of_not_enabled ((draws_iff hentry).mp hdrawn)
  · have hpress : stepper.press (.char 'c') = stepper.queueCheck := by
      rw [press, hhelp]
      rfl
    rw [hpress]
    have hentry : stepper.checkEntry ∈ stepper.footerEntries false := by simp [footerEntries]
    exact tells_of_entry hentry canCheck_iff_asks

/-- On the root of a graph that was checked twice, a step forward is drawn as enabled and shows a
term, while a step back is drawn as disabled. -/
theorem footer_tells_effects_nestedCall :
    let result : CheckResult := .ok (.listing Graph.nestedCall)
    let before : List Workbench.Input := [.beginCheck, .finishCheck ⟨1⟩ result]
    let inputs : List Input :=
      [.key (.char 'c'), .take, .deliver ⟨2⟩ result, .key (.char 'g')]
    let stepper := (start ((Workbench.start "" "main").run before) ⟨none⟩ true).run inputs
    (∀ ticket result, .finishCheck ticket result ∈ before → result.WellFormed) ∧
      (∀ ticket result, .deliver ticket result ∈ inputs → result.WellFormed) ∧
      stepper.help = none ∧
      stepper.Draws true 'f' true ∧ (stepper.press (.char 'f')).picture? ≠ stepper.picture? ∧
      stepper.Draws true 'b' false ∧ (stepper.press (.char 'b')).session? = stepper.session? ∧
      stepper.Draws false 'c' true ∧ stepper.Asks (stepper.press (.char 'c')) := by
  intro result before inputs stepper
  have hresult : result.WellFormed := CheckResult.wellFormed_listing Graph.wellFormed_nestedCall
  have hbefore : ∀ ticket result, .finishCheck ticket result ∈ before → result.WellFormed := by
    intro ticket other hmem
    obtain ⟨-, rfl⟩ : ticket = ⟨1⟩ ∧ other = result := by simpa [before] using hmem
    exact hresult
  have hinputs : ∀ ticket result, .deliver ticket result ∈ inputs → result.WellFormed := by
    intro ticket other hmem
    obtain ⟨-, rfl⟩ : ticket = ⟨2⟩ ∧ other = result := by simpa [inputs] using hmem
    exact hresult
  have hhelp : stepper.help = none := by decide +kernel
  obtain ⟨hactions, -, hcheck⟩ := footer_tells_effects hbefore hinputs ⟨none⟩ true hhelp
  have hforward : stepper.Draws true 'f' true := by
    unfold Draws
    decide +kernel
  have hbackward : stepper.Draws true 'b' false := by
    unfold Draws
    decide +kernel
  have hentry : stepper.checkEntry ∈ stepper.footerEntries false := by simp [footerEntries]
  have hasks : stepper.Draws false 'c' true := (draws_iff hentry).mpr (by decide +kernel)
  exact ⟨hbefore, hinputs, hhelp, hforward, (hactions true .stepForward).1.1.mp hforward, hbackward,
    (hactions true .stepBackward).2 hbackward, hasks, hcheck.1.mp hasks⟩

end Stepper

end ReductionStepper
