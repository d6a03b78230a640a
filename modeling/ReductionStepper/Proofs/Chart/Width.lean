import ReductionStepper.Proofs.Chart.Lines
import ReductionStepper.Proofs.Graph.WellFormed
import ReductionStepper.Proofs.Session.Moves

/-!
# The width of a chart

A limit shortens the label of a term to what it leaves beside the mark, never the mark. So the row
of a term keeps to the limit as far as the mark does, and it ends in an ellipsis as long as there is
room for one. The row of a link is not shortened at all: it keeps to the limits that it fits in.
-/

namespace ReductionStepper

/-! ## Cutting a text -/

namespace Text

variable {width : Nat} {text : String}

private theorem shorten_of_le (h : text.length ≤ width) : shorten width text = text := by
  rw [shorten, if_pos h]
  split
  · next hzero =>
    rw [hzero, Nat.le_zero, String.length_eq_zero_iff] at h
    exact h.symm
  · rfl

private theorem shorten_of_lt (hpos : 0 < width) (h : width < text.length) :
    shorten width text = String.ofList (text.toList.take (width - 1) ++ [ellipsis]) := by
  rw [shorten, if_neg (Nat.ne_of_gt hpos), if_neg (Nat.not_le_of_lt h)]

/-- A text is cut to exactly the limit. -/
theorem length_shorten (width : Nat) (text : String) :
    (shorten width text).length = min width text.length := by
  rcases Nat.lt_or_ge width text.length with hlt | hle
  · rcases Nat.eq_zero_or_pos width with rfl | hpos
    · simp [shorten]
    · rw [shorten_of_lt hpos hlt, String.length_ofList, List.length_append, List.length_take,
        List.length_singleton, String.length_toList]
      omega
  · rw [shorten_of_le hle, Nat.min_eq_right hle]

end Text

namespace Chart

variable {session : Session} {width : Nat} {mark : String} {row : ChartRow}

/-! ## Rows under a limit -/

/-- The mark of a term's row, with nothing behind it. -/
def IsMark (text : String) : Prop := text = selectedMark ∨ text = margin

/-- What a limit makes of a line: nothing if the line keeps to it, else the front of the line with
an ellipsis, of exactly the limit's length, or its bare mark if there is no room behind it. -/
structure Shortened (width : Nat) (full line : String) : Prop where
  within : line.length ≤ width ∨ IsMark line
  whole : full.length ≤ width → line = full
  cut : width < full.length → 2 < width → line.length = width ∧
    ∃ front, front <+: full.toList ∧ line = String.ofList (front ++ [Text.ellipsis])
  bare : width < full.length → width ≤ 2 → IsMark line ∧ line.toList <+: full.toList

private theorem IsMark.length_eq (h : IsMark mark) : mark.length = 2 := by
  rcases h with rfl | rfl
  · rfl
  · rfl

/-- Shortening what stands behind a mark to the room that is left shortens the line. -/
theorem IsMark.shortened (hmark : IsMark mark) (width : Nat) (label : String) :
    Shortened width (mark ++ label) (mark ++ Text.shorten (width - mark.length) label) := by
  have hfull : (mark ++ label).length = 2 + label.length := by
    rw [String.length_append, hmark.length_eq]
  have hline : (mark ++ Text.shorten (width - mark.length) label).length =
      2 + min (width - 2) label.length := by
    rw [String.length_append, Text.length_shorten, hmark.length_eq]
  have hempty (hroom : min (width - 2) label.length = 0) :
      mark ++ Text.shorten (width - mark.length) label = mark := by
    have hnone : Text.shorten (width - mark.length) label = "" := by
      rw [← String.length_eq_zero_iff, Text.length_shorten, hmark.length_eq, hroom]
    rw [hnone, String.append_empty]
  refine ⟨?_, fun hle => ?_, fun hlt hroom => ⟨by omega, ?_⟩, fun _ hnarrow => ?_⟩
  · rcases Nat.lt_or_ge width 2 with hnarrow | hwide
    · rw [hempty (by omega)]
      exact .inr hmark
    · exact .inl (by omega)
  · rw [Text.shorten_of_le (by rw [hmark.length_eq]; omega)]
  · have hpos : 0 < width - mark.length := by
      rw [hmark.length_eq]
      omega
    refine ⟨mark.toList ++ label.toList.take (width - mark.length - 1), ?_, ?_⟩
    · rw [String.toList_append]
      exact (List.prefix_append_right_inj _).mpr (List.take_prefix _ _)
    · have hmarked (rest : List Char) :
          mark ++ String.ofList rest = String.ofList (mark.toList ++ rest) := by
        rw [String.ofList_append, String.ofList_toList]
      rw [Text.shorten_of_lt hpos (by rw [hmark.length_eq]; omega), hmarked, List.append_assoc]
  · rw [hempty (by omega), String.toList_append]
    exact ⟨hmark, List.prefix_append _ _⟩

/-- The row of a term, shortened from its row without a limit. -/
theorem shortened_termText (hwidth : 1 ≤ width) (id : TermId) :
    Shortened width (termText session {} id) (termText session { width } id) := by
  have hpos : width ≠ 0 := Nat.ne_of_gt hwidth
  simp only [termText, if_neg hpos, if_true]
  refine IsMark.shortened ?_ width _
  split
  · exact .inl rfl
  · exact .inr rfl

/-- The row between two chains is empty at any width. -/
theorem shortened_empty (width : Nat) : Shortened width "" "" where
  within := .inl (Nat.zero_le _)
  whole _ := rfl
  cut hlt := absurd hlt (Nat.not_lt_zero _)
  bare hlt := absurd hlt (Nat.not_lt_zero _)

private theorem shortened_rowText (hwidth : 1 ≤ width) (hlink : ∀ link, row ≠ .link link) :
    Shortened width (rowText session {} row) (rowText session { width } row) := by
  cases row with
  | term id => exact shortened_termText hwidth id
  | link link => exact absurd rfl (hlink link)
  | gap => exact shortened_empty width

/-! ## Rows of links -/

/-- The characters in the row of a link: the margin and one sign, and behind the sign for several
steps their number or an ellipsis. -/
def linkWidth (index : Index) (link : Link) : Nat :=
  match link.weight with
  | .single => 3
  | .multi =>
    match (index.path link.source link.target).length with
    | 0 => 5
    | hops => 10 + (Nat.repr hops).length

private theorem length_linkText (index : Index) (link : Link) :
    (linkText index link).length = linkWidth index link := by
  cases hweight : link.weight with
  | single =>
    simp only [linkText, linkWidth, hweight]
    decide
  | multi =>
    cases hsteps : (index.path link.source link.target).length with
    | zero =>
      simp only [linkText, linkWidth, hweight, hsteps]
      decide
    | succ before =>
      have hfront : (margin ++ "┃ ").length = 4 := by decide
      have hback : " steps".length = 6 := by decide
      have htext : linkText index link = margin ++ "┃ " ++ Nat.repr (before + 1) ++ " steps" := by
        simp only [linkText, hweight, hsteps, String.append_assoc]
        rfl
      rw [htext, String.length_append, String.length_append, hfront, hback]
      simp only [linkWidth, hweight, hsteps]
      omega

/-! ## Rows that keep to a limit -/

/-- A line keeps to a limit if it has at most that many characters, and ends in an ellipsis if it
has more without the limit. -/
def KeepsLimit (width : Nat) (full line : String) : Prop :=
  line.length ≤ width ∧ (width < full.length → line.toList.getLast? = some Text.ellipsis)

private theorem IsMark.getLast?_ne (h : IsMark mark) :
    mark.toList.getLast? ≠ some Text.ellipsis := by
  rcases h with rfl | rfl
  · decide
  · decide

/-- A shortened line keeps to a limit of three or more, and to any other one that it fits in. -/
theorem Shortened.keepsLimit_iff {full line : String} (h : Shortened width full line) :
    KeepsLimit width full line ↔ full.length ≤ width ∨ 2 < width := by
  rcases Nat.lt_or_ge width full.length with hlt | hle
  · rcases Nat.lt_or_ge 2 width with hroom | hnarrow
    · obtain ⟨hlength, front, -, hfront⟩ := h.cut hlt hroom
      refine iff_of_true ⟨Nat.le_of_eq hlength, fun _ => ?_⟩ (.inr hroom)
      rw [hfront, String.toList_ofList, List.getLast?_concat]
    · obtain ⟨hmark, -⟩ := h.bare hlt hnarrow
      exact iff_of_false (fun hkeeps => hmark.getLast?_ne (hkeeps.2 hlt)) (by omega)
  · rw [h.whole hle]
    exact iff_of_true ⟨hle, fun hlt => absurd hle (Nat.not_le_of_lt hlt)⟩ (.inl hle)

/-- A line that is as it is without a limit keeps to the limits that it fits in. -/
theorem keepsLimit_self_iff {line : String} : KeepsLimit width line line ↔ line.length ≤ width :=
  ⟨And.left, fun hle => ⟨hle, fun hlt => absurd hle (Nat.not_le_of_lt hlt)⟩⟩

/-- A row of a term keeps to any limit that leaves room for an ellipsis, a row of a link to none
that it does not fit in. -/
theorem keepsLimit_rowText_iff (hwidth : 1 ≤ width) :
    KeepsLimit width (rowText session {} row) (rowText session { width } row) ↔
      (rowText session {} row).length ≤ width ∨ 2 < width ∧ ∀ link, row ≠ .link link := by
  by_cases hlink : ∀ link, row ≠ .link link
  · rw [(shortened_rowText hwidth hlink).keepsLimit_iff, and_iff_left hlink]
  · rw [not_forall_not] at hlink
    obtain ⟨link, rfl⟩ := hlink
    rw [rowText, rowText, keepsLimit_self_iff, or_iff_left]
    exact fun hroom => hroom.2 link rfl

/-! ## Lines of the text -/

/-- The lines of a chart's text at a width, without ids: its pieces between the line feeds. -/
def linesAt (session : Session) (width : Nat) : List String :=
  ((text session { width }).toList.splitOn '\n').map String.ofList

/-- Every line of a chart against the line at the same place of the chart without a limit. Limits
have no bearing on the line of a link, whose length comes from the number of its steps. Any other
line has at most the characters that the limit gives, with the mark counted, or it is a bare mark:
if it is too long without the limit, it is cut to the limit and ends in the ellipsis, and at a limit
of one or two, which leaves nothing behind the mark, it is its mark. So a line that is too long
without a limit keeps to it exactly if the limit is at least three and the line is not of a link. -/
theorem keepsLimit_line_iff (graph : Graph) (commands : List Session.Command) (width : Nat)
    (hwidth : 1 ≤ width) :
    let session := ((Session.start graph).run commands).2
    (linesAt session width).length = (rows session).length ∧
      (linesAt session 0).length = (rows session).length ∧
      ∀ (place : Nat) (row : ChartRow) (line full : String), (rows session)[place]? = some row →
        (linesAt session width)[place]? = some line →
        (linesAt session 0)[place]? = some full →
        (∀ link, row = .link link →
          line = full ∧ full.length = linkWidth (Index.ofGraph graph) link) ∧
        ((∀ link, row ≠ .link link) → Shortened width full line) ∧
        (KeepsLimit width full line ↔
          full.length ≤ width ∨ 2 < width ∧ ∀ link, row ≠ .link link) := by
  intro session
  have hcoherent : session.Coherent graph := (Session.Coherent.start graph).run commands
  have hlines (width : Nat) :
      linesAt session width = (rows session).map (rowText session { width }) :=
    map_splitOn_text rfl hcoherent.grown.chains_ne_nil
  refine ⟨by rw [hlines, List.length_map], by rw [hlines, List.length_map], ?_⟩
  intro place row line full hrow hline hfull
  rw [hlines, List.getElem?_map, hrow, Option.map_some, Option.some.injEq] at hline hfull
  subst hline hfull
  refine ⟨?_, shortened_rowText hwidth, keepsLimit_rowText_iff hwidth⟩
  rintro link rfl
  exact ⟨rfl, by rw [rowText, length_linkText, hcoherent.index_eq]⟩

/-- The last term is selected: the mark of the value is cut off its line, but the line of the link
above it stays as long as it is. -/
theorem keepsLimit_line_iff_nestedCall :
    let r : TermId := ⟨"r", by decide⟩
    let v : TermId := ⟨"v", by decide⟩
    let session := ((Session.start Graph.nestedCall).run [.select v]).2
    linesAt session 0 = ["  r", "  ┃ 4 steps", "▶ v  ✓"] ∧
      linesAt session 5 = ["  r", "  ┃ 4 steps", "▶ v …"] ∧
      linkWidth (Index.ofGraph Graph.nestedCall) ⟨r, v, .multi⟩ = 11 ∧
      ¬ KeepsLimit 5 "  ┃ 4 steps" "  ┃ 4 steps" ∧ KeepsLimit 5 "▶ v  ✓" "▶ v …" := by
  intro r v session
  have hfull : linesAt session 0 = ["  r", "  ┃ 4 steps", "▶ v  ✓"] := by decide +kernel
  have hlines : linesAt session 5 = ["  r", "  ┃ 4 steps", "▶ v …"] := by decide +kernel
  have hlink : (rows session)[1]? = some (.link ⟨r, v, .multi⟩) := by decide +kernel
  have hlast : (rows session)[2]? = some (.term v) := by decide +kernel
  have hrows := (keepsLimit_line_iff Graph.nestedCall [.select v] 5 (by decide)).2.2
  obtain ⟨hkept, -, hlinkKeeps⟩ :=
    hrows 1 _ "  ┃ 4 steps" "  ┃ 4 steps" hlink (hlines ▸ rfl) (hfull ▸ rfl)
  obtain ⟨-, -, hlastKeeps⟩ := hrows 2 _ "▶ v …" "▶ v  ✓" hlast (hlines ▸ rfl) (hfull ▸ rfl)
  have hlength : "  ┃ 4 steps".length = 11 := by decide
  refine ⟨hfull, hlines, (hkept _ rfl).2 ▸ hlength, fun hkeeps => ?_, hlastKeeps.mpr (.inr ?_)⟩
  · rcases hlinkKeeps.mp hkeeps with hfits | ⟨-, hnone⟩
    · rw [hlength] at hfits
      omega
    · exact hnone _ rfl
  · exact ⟨by decide, fun link hsame => by cases hsame⟩

/-- At a limit of eight the line of the first link has eleven characters. -/
theorem overlong_link_nestedCall :
    ¬ ∀ (graph : Graph) (commands : List Session.Command) (width : Nat), 1 ≤ width →
      let session := ((Session.start graph).run commands).2
      ∀ (place : Nat) (line full : String), (linesAt session width)[place]? = some line →
        (linesAt session 0)[place]? = some full → KeepsLimit width full line := by
  intro hall
  have hline (width : Nat) (h : width = 8 ∨ width = 0) :
      (linesAt ((Session.start Graph.nestedCall).run []).2 width)[1]? = some "  ┃ 4 steps" := by
    rcases h with rfl | rfl
    · decide +kernel
    · decide +kernel
  have hkeeps := hall Graph.nestedCall [] 8 (by decide) 1 _ _ (hline 8 (.inl rfl))
    (hline 0 (.inr rfl))
  have hlength : "  ┃ 4 steps".length = 11 := by decide
  rw [keepsLimit_self_iff, hlength] at hkeeps
  omega

end Chart

end ReductionStepper
