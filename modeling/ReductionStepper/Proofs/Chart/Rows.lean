import ReductionStepper.Chart
import ReductionStepper.Proofs.View.Layout

/-!
# The rows of a chart

The rows of the terms come in the order of the chains, each term in one row. Between two of these
rows stands either the link that leads from the one term to the other or the gap between two chains.
-/

namespace ReductionStepper

/-- The term of a row, if it is the row of a term. -/
def ChartRow.term? : ChartRow → Option TermId
  | .term id => some id
  | _ => none

@[simp] private theorem ChartRow.term?_eq_some_iff {row : ChartRow} {id : TermId} :
    row.term? = some id ↔ row = .term id := by
  cases row <;> simp [term?]

namespace Chart

variable {chains later : List Chain} {chain : Chain} {session : Session} {id : TermId} {link : Link}
  {place : Nat}

/-- The rows of the terms of a chart are those of the terms of its chains. -/
theorem mem_rowsOf_term :
    ChartRow.term id ∈ rowsOf chains ↔ id ∈ chains.flatMap Chain.nodes := by
  induction chains using rowsOf.induct with
  | case1 => simp [rowsOf]
  | case2 chain => simp [rowsOf, chainRows, linkRows, Chain.nodes, @eq_comm _ id]
  | case3 chain later hlater ih =>
    simp [rowsOf, chainRows, linkRows, Chain.nodes, ih, @eq_comm _ id]

/-- The rows of the links of a chart are those of the links of its chains. -/
theorem mem_rowsOf_link :
    ChartRow.link link ∈ rowsOf chains ↔ link ∈ chains.flatMap Chain.links := by
  induction chains using rowsOf.induct with
  | case1 => simp [rowsOf]
  | case2 chain => simp [rowsOf, chainRows, linkRows]
  | case3 chain later hlater ih => simp [rowsOf, chainRows, linkRows, ih]

/-! ## Rows of terms -/

private theorem filterMap_chainRows (chain : Chain) :
    (chainRows chain).filterMap ChartRow.term? = chain.nodes := by
  obtain ⟨head, links⟩ := chain
  have hlinks : (linkRows links).filterMap ChartRow.term? = links.map Link.target := by
    induction links with
    | nil => rfl
    | cons link links ih =>
      rw [List.map_cons, ← ih]
      rfl
  rw [Chain.nodes, ← hlinks]
  rfl

/-- The terms of the rows are the terms of the chains, in their order. -/
theorem filterMap_rowsOf (chains : List Chain) :
    (rowsOf chains).filterMap ChartRow.term? = chains.flatMap Chain.nodes := by
  induction chains using rowsOf.induct with
  | case1 => rfl
  | case2 chain => simp [rowsOf, filterMap_chainRows]
  | case3 chain later hlater ih =>
    rw [rowsOf, List.filterMap_append, filterMap_chainRows, List.flatMap_cons, ← ih]
    · rfl
    · exact hlater

/-- No two rows are of the same term, if no term stands twice in the order. -/
theorem eq_of_term_eq (hnodup : (order session).Nodup) {other : Nat}
    (h : (rows session)[place]? = some (.term id))
    (hother : (rows session)[other]? = some (.term id)) : place = other := by
  have hrows : ((rows session).filterMap ChartRow.term?).Pairwise (· ≠ ·) := by
    rw [rows, filterMap_rowsOf]
    exact hnodup
  rw [List.pairwise_filterMap, List.pairwise_iff_getElem] at hrows
  obtain ⟨hplace, hterm⟩ := List.getElem?_eq_some_iff.mp h
  obtain ⟨hplace', hterm'⟩ := List.getElem?_eq_some_iff.mp hother
  rcases Nat.lt_trichotomy place other with hlt | heq | hgt
  · exact absurd rfl (hrows place other hplace hplace' hlt id (by rw [hterm]; rfl) id
      (by rw [hterm']; rfl))
  · exact heq
  · exact absurd rfl (hrows other place hplace' hplace hgt id (by rw [hterm']; rfl) id
      (by rw [hterm]; rfl))

/-- The number that is recorded for a term is that of its row. -/
theorem rowOf?_eq_some_iff (hnodup : (order session).Nodup) :
    rowOf? session id = some place ↔ (rows session)[place]? = some (.term id) := by
  rw [rowOf?, List.findIdx?_eq_some_iff_getElem]
  constructor
  · rintro ⟨hplace, hterm, -⟩
    rw [List.getElem?_eq_getElem hplace, of_decide_eq_true hterm]
  · intro h
    obtain ⟨hplace, hterm⟩ := List.getElem?_eq_some_iff.mp h
    refine ⟨hplace, decide_eq_true hterm, fun earlier hearlier hsame => ?_⟩
    have hfound : (rows session)[earlier]? = some (.term id) := by
      rw [List.getElem?_eq_getElem (Nat.lt_trans hearlier hplace), of_decide_eq_true hsame]
    exact absurd (eq_of_term_eq hnodup hfound h) (Nat.ne_of_lt hearlier)

/-- A row is recorded exactly for the terms in the order. -/
theorem isSome_rowOf?_iff : (rowOf? session id).isSome = true ↔ id ∈ order session := by
  rw [rowOf?, List.findIdx?_isSome, List.any_eq_true, order, ← mem_rowsOf_term]
  simp only [decide_eq_true_eq, exists_eq_right, rows]

/-- Along the order the rows go down the chart. -/
theorem pairwise_rowOf? (hnodup : (order session).Nodup) :
    (order session).Pairwise fun id next =>
      ∃ place below, rowOf? session id = some place ∧ rowOf? session next = some below ∧
        place < below := by
  rw [order, ← filterMap_rowsOf, List.pairwise_filterMap, List.pairwise_iff_getElem]
  intro place below hplace hbelow hlt id hid next hnext
  rw [ChartRow.term?_eq_some_iff] at hid hnext
  refine ⟨place, below, (rowOf?_eq_some_iff hnodup).mpr ?_, (rowOf?_eq_some_iff hnodup).mpr ?_, hlt⟩
  · rw [rows, List.getElem?_eq_getElem hplace, hid]
  · rw [rows, List.getElem?_eq_getElem hbelow, hnext]

/-! ## Rows between terms -/

/-- The last row of a chain is that of its last term. -/
theorem chainRows_eq_append (chain : Chain) :
    ∃ above, chainRows chain = above ++ [.term chain.last] := by
  obtain ⟨head, links⟩ := chain
  rcases List.eq_nil_or_concat links with rfl | ⟨links, link, rfl⟩
  · exact ⟨[], rfl⟩
  · refine ⟨.term head :: linkRows links ++ [.link link], ?_⟩
    simp [chainRows, linkRows, Chain.last, Chain.nodes]

/-- The first row of chains is that of the first head. -/
theorem rowsOf_eq_cons (chain : Chain) (later : List Chain) :
    ∃ below, rowsOf (chain :: later) = .term chain.head :: below := by
  cases later with
  | nil => exact ⟨_, rfl⟩
  | cons next later => exact ⟨_, rfl⟩

private theorem getElem?_append_eq_some_iff {α : Type} {front back : List α} {a : α} :
    (front ++ back)[place]? = some a ↔
      front[place]? = some a ∨ ∃ rest, place = front.length + rest ∧ back[rest]? = some a := by
  rw [List.getElem?_append]
  constructor
  · intro h
    split at h
    · exact .inl h
    · next hle => exact .inr ⟨place - front.length, by omega, h⟩
  · rintro (h | ⟨rest, rfl, h⟩)
    · rw [if_pos (List.getElem?_eq_some_iff.mp h).1, h]
    · rw [if_neg (by omega), Nat.add_sub_cancel_left, h]

/-- The rows right above and right below a row are those of the given terms. -/
def Between (rows : List ChartRow) (place : Nat) (upper lower : TermId) : Prop :=
  ∃ above, place = above + 1 ∧ rows[above]? = some (.term upper) ∧
    rows[above + 2]? = some (.term lower)

namespace Between

variable {rows : List ChartRow} {upper lower : TermId} (h : Between rows place upper lower)

include h

/-- Rows further down change nothing. -/
theorem append_right (back : List ChartRow) : Between (rows ++ back) place upper lower := by
  obtain ⟨above, rfl, hupper, hlower⟩ := h
  exact ⟨above, rfl, getElem?_append_eq_some_iff.mpr (.inl hupper),
    getElem?_append_eq_some_iff.mpr (.inl hlower)⟩

/-- Rows further up shift the row. -/
theorem append_left (front : List ChartRow) :
    Between (front ++ rows) (front.length + place) upper lower := by
  obtain ⟨above, rfl, hupper, hlower⟩ := h
  exact ⟨front.length + above, rfl, getElem?_append_eq_some_iff.mpr (.inr ⟨above, rfl, hupper⟩),
    getElem?_append_eq_some_iff.mpr (.inr ⟨above + 2, rfl, hlower⟩)⟩

end Between

/-- In the rows of joined links, the row of a link stands between those of its two ends. -/
theorem between_of_linkRows {source target : TermId} {links : List Link}
    (hjoined : Link.Joined source links target)
    (h : (ChartRow.term source :: linkRows links)[place]? = some (.link link)) :
    Between (.term source :: linkRows links) place link.source link.target := by
  induction links generalizing source place with
  | nil =>
    match place, h with
    | 0, h => cases h
    | place + 1, h => cases h
  | cons first links ih =>
    obtain ⟨rfl, hjoined⟩ := hjoined
    match place, h with
    | 0, h => cases h
    | 1, h =>
      cases h
      exact ⟨0, rfl, rfl, rfl⟩
    | place + 2, h =>
      have hrest := (ih hjoined h).append_left [.term first.source, .link first]
      rwa [Nat.add_comm] at hrest

/-- The row of a link stands between the rows of its two ends. -/
theorem between_of_link (hjoined : ∀ chain ∈ chains, chain.Joined)
    (h : (rowsOf chains)[place]? = some (.link link)) :
    Between (rowsOf chains) place link.source link.target := by
  induction chains using rowsOf.induct generalizing place with
  | case1 => cases h
  | case2 chain => exact between_of_linkRows (hjoined chain (by simp)) h
  | case3 chain later hlater ih =>
    obtain ⟨hchain, hjoined⟩ := List.forall_mem_cons.mp hjoined
    rw [rowsOf.eq_3 _ _ hlater] at h ⊢
    rcases getElem?_append_eq_some_iff.mp h with hin | ⟨rest, rfl, hbehind⟩
    · exact (between_of_linkRows hchain hin).append_right _
    · match rest, hbehind with
      | 0, hbehind => cases hbehind
      | rest + 1, hbehind =>
        have hrest := ((ih hjoined hbehind).append_left [.gap]).append_left (chainRows chain)
        rwa [List.length_singleton, Nat.add_comm 1 rest] at hrest

private theorem gap_not_mem_chainRows (chain : Chain) : ChartRow.gap ∉ chainRows chain := by
  simp [chainRows, linkRows]

/-- A gap stands between the last term of a chain and the head of the next one. -/
theorem between_of_gap (h : (rowsOf chains)[place]? = some .gap) :
    ∃ earlier chain next later, chains = earlier ++ chain :: next :: later ∧
      Between (rowsOf chains) place chain.last next.head := by
  induction chains using rowsOf.induct generalizing place with
  | case1 => cases h
  | case2 chain => exact absurd (List.mem_of_getElem? h) (gap_not_mem_chainRows chain)
  | case3 chain later hlater ih =>
    obtain ⟨next, later, rfl⟩ := List.exists_cons_of_ne_nil hlater
    rw [rowsOf.eq_3 _ _ hlater] at h ⊢
    rcases getElem?_append_eq_some_iff.mp h with hin | ⟨rest, rfl, hbehind⟩
    · exact absurd (List.mem_of_getElem? hin) (gap_not_mem_chainRows chain)
    · match rest, hbehind with
      | 0, _ =>
        obtain ⟨above, habove⟩ := chainRows_eq_append chain
        obtain ⟨below, hbelow⟩ := rowsOf_eq_cons next later
        refine ⟨[], chain, next, later, rfl, above.length, ?_⟩
        simp [habove, hbelow]
      | rest + 1, hbehind =>
        obtain ⟨earlier, chain', next', later', hchains, hbetween⟩ := ih hbehind
        have hrest := (hbetween.append_left [.gap]).append_left (chainRows chain)
        rw [List.length_singleton, Nat.add_comm 1 rest] at hrest
        exact ⟨chain :: earlier, chain', next', later', by rw [hchains]; rfl, hrest⟩

end Chart

end ReductionStepper
