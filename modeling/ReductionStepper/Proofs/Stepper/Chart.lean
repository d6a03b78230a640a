import ReductionStepper.Proofs.Chart.Lines
import ReductionStepper.Proofs.Screen.Palette
import ReductionStepper.Proofs.Stepper.Cursor
import ReductionStepper.Stepper.Panel

/-!
# The chart on the screen

The chart knows the number of every term's row; the panel cuts the chart's text into lines and
styles them by these numbers. On every session the two agree: the lines are the rows.
-/

namespace ReductionStepper

open Screen (Color Palette Setting Style Theme)

/-! ## Lines of a session's chart -/

namespace Chart

/-- A line for a shown link, between the rows of its two ends. -/
def Connects (session : Session) (place : Nat) (line : String) : Prop :=
  ∃ link above, session.view.showsLink link = true ∧ place = above + 1 ∧
    rowOf? session link.source = some above ∧ rowOf? session link.target = some (above + 2) ∧
    line = linkText session.index link

/-- An empty line between the last term of a chain and the head of the next one. -/
def Separates (session : Session) (place : Nat) (line : String) : Prop :=
  ∃ earlier chain next later above, session.view.chains = earlier ++ chain :: next :: later ∧
    place = above + 1 ∧ rowOf? session chain.last = some above ∧
    rowOf? session next.head = some (above + 2) ∧ line = ""

end Chart

namespace Session.Coherent

variable {graph : Graph} {session : Session} {id : TermId} {place : Nat}
  (h : session.Coherent graph)

include h

private theorem nodup_order : (Chart.order session).Nodup := h.grown.laidOut.nodup

/-- Rows are recorded exactly for the shown terms. -/
theorem isSome_rowOf?_iff :
    (Chart.rowOf? session id).isSome = true ↔ session.view.shows id = true :=
  Chart.isSome_rowOf?_iff.trans h.mem_order

private theorem rowOf?_eq_some_iff :
    Chart.rowOf? session id = some place ↔ (Chart.rows session)[place]? = some (.term id) :=
  Chart.rowOf?_eq_some_iff h.nodup_order

/-- A row is recorded for one term at most. -/
theorem eq_of_rowOf?_eq {other : TermId} (hid : Chart.rowOf? session id = some place)
    (hother : Chart.rowOf? session other = some place) : id = other := by
  rw [h.rowOf?_eq_some_iff] at hid hother
  exact ChartRow.term.inj (Option.some.inj (hid.symm.trans hother))

private theorem shows_of_selected?_eq (hid : session.selected? = some id) :
    session.view.shows id = true := by
  obtain ⟨selection, hselection, rfl⟩ := Option.map_eq_some_iff.mp hid
  exact (h.planned selection hselection).1

/-- The line at the row of a term is that term's. -/
theorem line_of_rowOf?_eq {options : ChartOptions} (hid : Chart.rowOf? session id = some place) :
    (Chart.lines session options)[place]? = some (Chart.termText session options id) := by
  rw [Chart.lines, List.getElem?_map, h.rowOf?_eq_some_iff.mp hid]
  rfl

/-- A line at no term's row is the line of a link or stands between two chains. -/
theorem connects_or_separates {options : ChartOptions} {line : String}
    (hline : (Chart.lines session options)[place]? = some line)
    (hno : ∀ id, Chart.rowOf? session id ≠ some place) :
    Chart.Connects session place line ∨ Chart.Separates session place line := by
  rw [Chart.lines, List.getElem?_map, Option.map_eq_some_iff] at hline
  obtain ⟨row, hrow, rfl⟩ := hline
  cases row with
  | term id => exact absurd (h.rowOf?_eq_some_iff.mpr hrow) (hno id)
  | link link =>
    obtain ⟨above, rfl, hsource, htarget⟩ := Chart.between_of_link h.grown.laidOut.joined hrow
    have hshown : session.view.showsLink link = true :=
      (h.grown.laidOut.showsLink_iff link).mpr
        (Chart.mem_rowsOf_link.mp (List.mem_of_getElem? hrow))
    exact .inl ⟨link, above, hshown, rfl, h.rowOf?_eq_some_iff.mpr hsource,
      h.rowOf?_eq_some_iff.mpr htarget, rfl⟩
  | gap =>
    obtain ⟨earlier, chain, next, later, hchains, above, rfl, hlast, hhead⟩ :=
      Chart.between_of_gap hrow
    exact .inr ⟨earlier, chain, next, later, above, hchains, rfl, h.rowOf?_eq_some_iff.mpr hlast,
      h.rowOf?_eq_some_iff.mpr hhead, rfl⟩

end Session.Coherent

/-! ## Styles of a theme -/

namespace Screen

namespace Theme

variable {theme : Theme}

private theorem bold_base (theme : Theme) : theme.base.bold = false := by
  unfold base
  split <;> rfl

private theorem reversed_base (theme : Theme) : theme.base.reversed = false := by
  unfold base
  split <;> rfl

/-- The text of a theme from the environment is never dark grey. -/
theorem foreground_base_ne {setting : Setting} (h : ofSetting setting = .ok theme) :
    theme.base.foreground ≠ some .darkGray := by
  have hdefault : (⟨none⟩ : Theme).base.foreground ≠ some .darkGray := by decide
  cases setting with
  | unset =>
    cases h
    exact hdefault
  | notUnicode => cases h
  | text value =>
    obtain ⟨_ | palette⟩ := theme
    · exact hdefault
    · obtain ⟨-, parts, -, hgives⟩ := ofSetting_eq_some_iff.mp h
      cases hgives with
      | cons hforeground _ =>
        obtain ⟨red, green, blue, hforeground⟩ := hforeground.exists_rgb
        show some palette.foreground ≠ _
        rw [hforeground]
        simp

/-- The four styles of a row are different in a theme from the environment. -/
theorem nodup_rowStyles {setting : Setting} (h : ofSetting setting = .ok theme) :
    [theme.selection, theme.base.bolded, theme.base, theme.dim].Nodup := by
  have hselection (style : Style) (hstyle : style.reversed = false) : theme.selection ≠ style := by
    rintro rfl
    cases hstyle
  have hbolded (style : Style) (hstyle : style.bold = false) : theme.base.bolded ≠ style := by
    rintro rfl
    cases hstyle
  have hbase : theme.base ≠ theme.dim :=
    fun hsame => foreground_base_ne h (congrArg Style.foreground hsame)
  simp only [List.nodup_cons, List.mem_cons, List.not_mem_nil, or_false, not_or, not_false_eq_true,
    List.nodup_nil, and_true]
  exact ⟨⟨hselection _ theme.reversed_base, hselection _ theme.reversed_base,
    hselection _ theme.reversed_base⟩,
    ⟨hbolded _ theme.bold_base, hbolded _ theme.bold_base⟩, hbase⟩

end Theme

end Screen

/-! ## Lines of the panel -/

namespace Stepper

variable {graph : Graph} {session : Session} {stepper : Stepper}

/-- The style of a line tells what stands there: the selected term, another term under the cursor,
or no term at all. -/
theorem rowStyle_spec (hcoherent : session.Coherent graph)
    (hstyles : [stepper.theme.selection, stepper.theme.base.bolded, stepper.theme.base,
      stepper.theme.dim].Nodup) (place : Nat) :
    (stepper.rowStyle session place = stepper.theme.selection ↔
      ∃ id, session.selected? = some id ∧ Chart.rowOf? session id = some place) ∧
    (stepper.rowStyle session place = stepper.theme.base.bolded ↔
      ∃ id, stepper.cursor = some id ∧ session.selected? ≠ some id ∧
        Chart.rowOf? session id = some place) ∧
    (stepper.rowStyle session place = stepper.theme.dim ↔
      ∀ id, Chart.rowOf? session id ≠ some place) := by
  simp only [List.nodup_cons, List.mem_cons, List.not_mem_nil, or_false, not_or, not_false_eq_true,
    List.nodup_nil, and_true] at hstyles
  obtain ⟨⟨hbolded, hbase, hdim⟩, ⟨hbolded_base, hbolded_dim⟩, hbase_dim⟩ := hstyles
  unfold rowStyle
  dsimp only
  split
  · next hselected =>
    obtain ⟨id, hid, hrow⟩ := Option.bind_eq_some_iff.mp hselected
    refine ⟨iff_of_true rfl ⟨id, hid, hrow⟩, iff_of_false hbolded ?_,
      iff_of_false hdim fun hno => hno id hrow⟩
    rintro ⟨other, -, hother, hsame⟩
    rw [hcoherent.eq_of_rowOf?_eq hrow hsame] at hid
    exact hother hid
  · next hselected =>
    have hfree : ¬ ∃ id, session.selected? = some id ∧ Chart.rowOf? session id = some place :=
      fun hid => hselected (Option.bind_eq_some_iff.mpr hid)
    split
    · next hcursor =>
      obtain ⟨id, hid, hrow⟩ := Option.bind_eq_some_iff.mp hcursor
      have hother : session.selected? ≠ some id := fun hsame => hfree ⟨id, hsame, hrow⟩
      exact ⟨iff_of_false (Ne.symm hbolded) hfree, iff_of_true rfl ⟨id, hid, hother, hrow⟩,
        iff_of_false hbolded_dim fun hno => hno id hrow⟩
    · next hcursor =>
      have haway : ¬ ∃ id, stepper.cursor = some id ∧ session.selected? ≠ some id ∧
          Chart.rowOf? session id = some place :=
        fun ⟨id, hid, _, hrow⟩ => hcursor (Option.bind_eq_some_iff.mpr ⟨id, hid, hrow⟩)
      split
      · next hterm =>
        obtain ⟨id, -, hrow⟩ := List.any_eq_true.mp hterm
        exact ⟨iff_of_false (Ne.symm hbase) hfree, iff_of_false (Ne.symm hbolded_base) haway,
          iff_of_false hbase_dim fun hno => hno id (of_decide_eq_true hrow)⟩
      · next hterm =>
        refine ⟨iff_of_false (Ne.symm hdim) hfree, iff_of_false (Ne.symm hbolded_dim) haway,
          iff_of_true rfl fun id hrow => hterm (List.any_eq_true.mpr ⟨id, ?_, decide_eq_true hrow⟩)⟩
        rw [← Chart.isSome_rowOf?_iff, hrow]
        rfl

/-- The chart of every session, without ids and at any width. The order holds every shown term
once, as the chains do; exactly the shown terms have a row, the selected one among them, and the
rows go down along the order. Cutting the text at its line feeds gives every term's own line at its
row, with the mark before it exactly if the term is selected; every other line is that of a link or
the empty one between two chains. So in the panel the selected term's line stands out, that of
another term under the cursor is bold, and exactly the lines without a term stand back. -/
theorem lines_match_recorded_rows (graph : Graph) (commands : List Session.Command) (width : Nat) :
    let session := ((Session.start graph).run commands).2
    let options : ChartOptions := { width }
    let lines := ((Chart.text session options).toList.splitOn '\n').map String.ofList
    (Chart.order session = session.view.chains.flatMap Chain.nodes ∧
      (Chart.order session).Nodup ∧
      (∀ id, id ∈ Chart.order session ↔ session.view.shows id = true) ∧
      (∀ id, (Chart.rowOf? session id).isSome = true ↔ session.view.shows id = true) ∧
      (∀ id, session.selected? = some id → session.view.shows id = true) ∧
      (Chart.order session).Pairwise fun id next =>
        ∃ place below, Chart.rowOf? session id = some place ∧
          Chart.rowOf? session next = some below ∧ place < below) ∧
    (∀ id place, Chart.rowOf? session id = some place →
      lines[place]? = some (Chart.termText session options id) ∧
        (Chart.selectedMark.toList <+: (Chart.termText session options id).toList ↔
          session.selected? = some id)) ∧
    (∀ place line, lines[place]? = some line → (∀ id, Chart.rowOf? session id ≠ some place) →
      Chart.Connects session place line ∨ Chart.Separates session place line) ∧
    ∀ (stepper : Stepper) (setting : Setting), stepper.session? = some session →
      Theme.ofSetting setting = .ok stepper.theme →
      ∃ style : Nat → Style,
        stepper.chartLines width = lines.mapIdx (fun place line => [⟨line, style place⟩]) ∧
        ∀ place,
          (style place = stepper.theme.selection ↔
            ∃ id, session.selected? = some id ∧ Chart.rowOf? session id = some place) ∧
          (style place = stepper.theme.base.bolded ↔
            ∃ id, stepper.cursor = some id ∧ session.selected? ≠ some id ∧
              Chart.rowOf? session id = some place) ∧
          (style place = stepper.theme.dim ↔ ∀ id, Chart.rowOf? session id ≠ some place) := by
  intro session options lines
  have hcoherent : session.Coherent graph := (Session.Coherent.start graph).run commands
  have hchains : session.view.chains ≠ [] := hcoherent.grown.chains_ne_nil
  have hlines : lines = Chart.lines session options := Chart.map_splitOn_text rfl hchains
  refine ⟨⟨rfl, hcoherent.nodup_order, fun id => hcoherent.mem_order,
    fun id => hcoherent.isSome_rowOf?_iff, fun id => hcoherent.shows_of_selected?_eq,
    Chart.pairwise_rowOf? hcoherent.nodup_order⟩, ?_, ?_, ?_⟩
  · intro id place hrow
    rw [hlines]
    exact ⟨hcoherent.line_of_rowOf?_eq hrow, Chart.selectedMark_isPrefix_iff⟩
  · intro place line hline
    rw [hlines] at hline
    exact hcoherent.connects_or_separates hline
  · intro stepper setting hsession htheme
    refine ⟨stepper.rowStyle session, ?_,
      rowStyle_spec hcoherent (Theme.nodup_rowStyles htheme)⟩
    rw [chartLines, hsession, hlines, ← Chart.lines_text rfl hchains]

/-- After stepping into the call and selecting its first term, that term's line follows the empty
one between the chains, and it stands out. -/
theorem lines_match_recorded_rows_nestedCall :
    let r : TermId := ⟨"r", by decide⟩
    let f : TermId := ⟨"f", by decide⟩
    let commands : List Session.Command := [.select r, .perform .stepInto, .select f]
    let session := ((Session.start Graph.nestedCall).run commands).2
    let stepper := (start (Workbench.start "" "main") {} false).withSession session
    (Chart.rows session)[3]? = some .gap ∧ Chart.rowOf? session f = some 4 ∧
      (stepper.chartLines 0)[4]? = some [⟨"▶ f", stepper.theme.selection⟩] := by
  intro r f commands session stepper
  have hrow : Chart.rowOf? session f = some 4 := by decide +kernel
  have hselected : session.selected? = some f := by decide +kernel
  have htext : Chart.termText session {} f = "▶ f" := by decide +kernel
  obtain ⟨-, hterm, -, hpanel⟩ := lines_match_recorded_rows Graph.nestedCall commands 0
  obtain ⟨style, hlines, hstyle⟩ := hpanel stepper .unset rfl rfl
  have hline := (hterm f 4 hrow).1
  refine ⟨by decide +kernel, hrow, ?_⟩
  rw [hlines, List.getElem?_mapIdx, hline, Option.map_some, htext,
    (hstyle 4).1.mpr ⟨f, hselected, hrow⟩]

end Stepper

end ReductionStepper
