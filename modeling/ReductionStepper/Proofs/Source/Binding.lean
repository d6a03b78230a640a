import ReductionStepper.Proofs.Text.Word
import ReductionStepper.Source.Binding

/-!
# Bindings in a program

`Binds` says what a top-level binding is, and `Lets` where one stands in a program. A `let` can
stand inside an earlier binding only as the name that is bound there: `Counts` says which ones do
not stand inside a binding that counts itself.
-/

namespace ReductionStepper.Source

/-! ## Bindings -/

/-- White space, one character at least. -/
def Gap (gap : List Char) : Prop := gap ≠ [] ∧ ∀ c ∈ gap, Text.isBlank c = true

/-- A text starts with a name, which is taken as long as it goes. -/
structure Named (text name rest : List Char) : Prop where
  text_eq : text = name ++ rest
  starts : ∃ c cs, name = c :: cs ∧ startsName c = true ∧ ∀ d ∈ cs, continuesName d = true
  longest : ∀ c, rest.head? = some c → continuesName c = false

/-- A text starts with `rec`, white space and a name. -/
def Recursive (text name rest : List Char) : Prop :=
  ∃ gap tail, text = ['r', 'e', 'c'] ++ (gap ++ tail) ∧ Gap gap ∧ Named tail name rest

/-- A text starts with a binding: `let`, white space and a name. A `rec` before the name is passed
over wherever white space and a name follow it. -/
def Binds (text name rest : List Char) : Prop :=
  ∃ gap tail, text = ['l', 'e', 't'] ++ (gap ++ tail) ∧ Gap gap ∧
    (Recursive tail name rest ∨ Named tail name rest ∧ ¬∃ name rest, Recursive tail name rest)

variable {text name name' rest rest' tail keyword gap : List Char} {c : Char}

private theorem not_blank_of_continuesName (h : continuesName c = true) :
    Text.isBlank c = false := by
  have hblanks : Text.blanks.any continuesName = false := by decide
  rw [Bool.eq_false_iff]
  intro hblank
  exact List.any_eq_false.mp hblanks c (List.contains_iff_mem.mp hblank) h

private theorem continuesName_of_startsName (h : startsName c = true) : continuesName c = true := by
  simp only [startsName, continuesName, Char.isAlphanum, Bool.or_eq_true] at h ⊢
  exact .inl (h.imp .inl id)

namespace Named

private theorem continuesName (h : Named text name rest) : ∀ c ∈ name, continuesName c = true := by
  obtain ⟨c, cs, rfl, hc, hcs⟩ := h.starts
  exact List.forall_mem_cons.mpr ⟨continuesName_of_startsName hc, hcs⟩

private theorem not_blank (h : Named text name rest) : ∀ c ∈ name, Text.isBlank c = false :=
  fun c hc => not_blank_of_continuesName (h.continuesName c hc)

private theorem not_blank_head? (h : Named text name rest) :
    ∀ c, text.head? = some c → Text.isBlank c = false := by
  obtain ⟨first, cs, rfl, -⟩ := h.starts
  rw [h.text_eq]
  rintro _ ⟨⟩
  exact h.not_blank first List.mem_cons_self

end Named

/-- A name is read as far as it goes. -/
theorem name?_eq_some_iff : name? text = some (name, rest) ↔ Named text name rest := by
  constructor
  · intro h
    cases text with
    | nil => cases h
    | cons c cs =>
      rw [name?] at h
      split at h
      · next hc =>
        obtain ⟨rfl, rfl⟩ := Prod.mk.inj (Option.some.inj h)
        obtain ⟨htext, hcs, hstop⟩ := Text.longestRun_iff.mp ⟨rfl, rfl⟩
        exact ⟨congrArg (c :: ·) htext, ⟨c, _, rfl, hc, hcs⟩, hstop⟩
      · cases h
  · rintro ⟨rfl, ⟨c, cs, rfl, hc, hcs⟩, hstop⟩
    obtain ⟨hrun, hrest⟩ := Text.longestRun_iff.mpr ⟨rfl, hcs, hstop⟩
    rw [List.cons_append, name?, if_pos hc, ← hrun, ← hrest]

/-- A text starts with one name at most. -/
theorem Named.unique (h : Named text name rest) (h' : Named text name' rest') :
    name = name' ∧ rest = rest' := by
  rw [← name?_eq_some_iff] at h h'
  rw [h] at h'
  cases h'
  exact ⟨rfl, rfl⟩

/-- Behind a keyword white space is read as far as it goes. -/
theorem afterKeyword?_eq_some_iff :
    afterKeyword? keyword text = some tail ↔
      ∃ gap, text = keyword ++ (gap ++ tail) ∧ Gap gap ∧
        ∀ c, tail.head? = some c → Text.isBlank c = false := by
  simp only [afterKeyword?, Option.ite_none_right_eq_some, Option.some.injEq, Bool.and_eq_true,
    List.isPrefixOf_iff_prefix]
  constructor
  · rintro ⟨⟨⟨behind, rfl⟩, hblank⟩, rfl⟩
    rw [List.drop_left] at hblank ⊢
    obtain ⟨htext, hgap, hstop⟩ := Text.longestRun_iff.mp ⟨rfl, rfl⟩
    refine ⟨behind.takeWhile Text.isBlank, congrArg (keyword ++ ·) htext, ⟨?_, hgap⟩, hstop⟩
    cases behind with
    | nil => simp at hblank
    | cons c cs => simpa using hblank
  · rintro ⟨gap, rfl, ⟨hne, hgap⟩, hstop⟩
    obtain ⟨c, cs, rfl⟩ := List.exists_cons_of_ne_nil hne
    rw [List.drop_left]
    refine ⟨⟨List.prefix_append _ _, ?_⟩, (Text.longestRun_iff.mpr ⟨rfl, hgap, hstop⟩).2.symm⟩
    simpa using hgap c List.mem_cons_self

private theorem bind_afterKeyword?_eq_some_iff :
    (afterKeyword? ['r', 'e', 'c'] text).bind name? = some (name, rest) ↔
      Recursive text name rest := by
  simp only [Option.bind_eq_some_iff, name?_eq_some_iff, afterKeyword?_eq_some_iff]
  constructor
  · rintro ⟨tail, ⟨gap, rfl, hgap, -⟩, hname⟩
    exact ⟨gap, tail, rfl, hgap, hname⟩
  · rintro ⟨gap, tail, rfl, hgap, hname⟩
    exact ⟨tail, ⟨gap, rfl, hgap, hname.not_blank_head?⟩, hname⟩

private theorem bind_afterKeyword?_eq_none_iff :
    (afterKeyword? ['r', 'e', 'c'] text).bind name? = none ↔
      ¬∃ name rest, Recursive text name rest := by
  simp only [Option.eq_none_iff_forall_ne_some, Prod.forall, ne_eq, bind_afterKeyword?_eq_some_iff,
    not_exists]

/-- A binding is read with its name. -/
theorem binding?_eq_some_iff : binding? text = some (name, rest) ↔ Binds text name rest := by
  have hread : binding? text = some (name, rest) ↔ ∃ tail,
      afterKeyword? ['l', 'e', 't'] text = some tail ∧
        (((afterKeyword? ['r', 'e', 'c'] tail).bind name?).or (name? tail)) = some (name, rest) :=
    Option.bind_eq_some_iff
  simp only [hread, Option.or_eq_some_iff, bind_afterKeyword?_eq_some_iff,
    bind_afterKeyword?_eq_none_iff, name?_eq_some_iff, afterKeyword?_eq_some_iff]
  constructor
  · rintro ⟨tail, ⟨gap, rfl, hgap, -⟩, hname⟩
    exact ⟨gap, tail, rfl, hgap, hname.imp_right And.symm⟩
  · rintro ⟨gap, tail, rfl, hgap, hname⟩
    refine ⟨tail, ⟨gap, rfl, hgap, ?_⟩, hname.imp_right And.symm⟩
    rcases hname with ⟨-, -, rfl, -⟩ | ⟨hname, -⟩
    · rintro _ ⟨⟩
      decide
    · exact hname.not_blank_head?

/-- Behind a binding the text is shorter. -/
theorem Binds.length_lt (h : Binds text name rest) : rest.length < text.length := by
  obtain ⟨gap, tail, rfl, -, ⟨gap', tail', rfl, -, hname⟩ | ⟨hname, -⟩⟩ := h
  all_goals
    rw [hname.text_eq]
    simp only [List.length_append, List.length_cons]
    omega

/-! ## Bindings of a program -/

/-- Behind `before`, at the start of a line, a binding stands in the text. -/
structure Lets (text before name rest : List Char) : Prop where
  lineStart : ∀ c ∈ before.getLast?, c = '\n'
  binds : ∃ tail, text = before ++ tail ∧ Binds tail name rest

/-- The place behind `before` lies inside the binding that stands behind `earlier` and ahead of
`rest`. -/
def Inside (text earlier rest before : List Char) : Prop :=
  earlier.length < before.length ∧ before.length + rest.length < text.length

/-- Whether a `let` counts: it does, unless it stands inside a binding whose own `let` counts. -/
inductive Counts (text : List Char) : List Char → Bool → Prop where
  | alone {before name rest : List Char} (hlet : Lets text before name rest)
      (halone : ∀ earlier name rest, Lets text earlier name rest →
        ¬Inside text earlier rest before) : Counts text before true
  | inside {earlier before name name' rest rest' : List Char} {counts : Bool}
      (hearlier : Lets text earlier name' rest') (hcounts : Counts text earlier counts)
      (hlet : Lets text before name rest) (hinside : Inside text earlier rest' before) :
      Counts text before (!counts)

variable {before before' earlier earlier' middle more body : List Char}
  {counts counts' : Bool}

private theorem of_getLast?_append {p : Char → Prop} (h : ∀ c ∈ (middle ++ more).getLast?, p c) :
    ∀ c ∈ more.getLast?, p c := by
  intro c hc
  refine h c ?_
  rw [List.getLast?_append, Option.mem_def.mp hc]
  rfl

private theorem exists_of_keyword (hkeyword : keyword.any Text.isBlank = false)
    (hgap : Gap gap) (htext : keyword ++ (gap ++ body) = middle ++ tail) (hne : middle ≠ [])
    (hlast : ∀ c ∈ middle.getLast?, Text.isBlank c = true)
    (hhead : ∀ c ∈ tail.head?, Text.isBlank c = false) :
    ∃ more, middle = (keyword ++ gap) ++ more ∧ body = more ++ tail := by
  rcases List.append_eq_append_iff.mp htext with ⟨behind, rfl, hbehind⟩ | ⟨behind, rfl, -⟩
  · rcases List.append_eq_append_iff.mp hbehind with ⟨more, rfl, rfl⟩ | ⟨cut, rfl, rfl⟩
    · exact ⟨more, (List.append_assoc _ _ _).symm, rfl⟩
    · cases cut with
      | nil => exact ⟨[], by simp, rfl⟩
      | cons c cut =>
        have hblank := hgap.2 c (by simp)
        rw [hhead c rfl] at hblank
        cases hblank
  · have hblank := hlast _ (List.getLast?_eq_some_getLast hne)
    exact absurd hblank
      (List.any_eq_false.mp hkeyword _ (List.mem_append_left _ (List.getLast_mem hne)))

private theorem eq_nil_of_named (hname : Named (more ++ tail) name rest)
    (hlast : ∀ c ∈ more.getLast?, Text.isBlank c = true) (hlength : rest.length < tail.length) :
    more = [] := by
  rcases List.append_eq_append_iff.mp hname.text_eq with ⟨behind, hbehind, -⟩ | ⟨behind, -, hrest⟩
  · by_contra hne
    have hblank := hlast _ (List.getLast?_eq_some_getLast hne)
    have hmem : more.getLast hne ∈ name :=
      hbehind ▸ List.mem_append_left _ (List.getLast_mem hne)
    rw [hname.not_blank _ hmem] at hblank
    cases hblank
  · rw [hrest, List.length_append] at hlength
    omega

private theorem named_let (hgap : Gap gap) :
    Named (['l', 'e', 't'] ++ (gap ++ tail)) ['l', 'e', 't'] (gap ++ tail) := by
  obtain ⟨c, cs, rfl⟩ := List.exists_cons_of_ne_nil hgap.1
  refine ⟨rfl, ⟨'l', ['e', 't'], rfl, by decide, List.all_eq_true.mp (by decide)⟩, ?_⟩
  rintro _ ⟨⟩
  rw [Bool.eq_false_iff]
  intro hname
  have hblank := hgap.2 c List.mem_cons_self
  rw [not_blank_of_continuesName hname] at hblank
  cases hblank

namespace Lets

/-- A place holds one binding at most. -/
theorem unique (h : Lets text before name rest) (h' : Lets text before' name' rest')
    (hlength : before.length = before'.length) :
    before = before' ∧ name = name' ∧ rest = rest' := by
  obtain ⟨tail, htext, hbinds⟩ := h.binds
  obtain ⟨tail', htext', hbinds'⟩ := h'.binds
  obtain ⟨hbefore, htail⟩ := List.append_inj (htext.symm.trans htext') hlength
  rw [← binding?_eq_some_iff] at hbinds hbinds'
  rw [htail, hbinds'] at hbinds
  cases hbinds
  exact ⟨hbefore, rfl, rfl⟩

/-- Where a `let` stands inside an earlier binding, it is the name that is bound there. -/
theorem eq_let_of_inside (hearlier : Lets text earlier name' rest')
    (hlet : Lets text before name rest) (hinside : Inside text earlier rest' before) :
    name' = ['l', 'e', 't'] ∧ before.length + 3 + rest'.length = text.length := by
  obtain ⟨_, htext, gap', body, rfl, hgap', hbound⟩ := hearlier.binds
  obtain ⟨_, rfl, gap, behind, rfl, hgap, -⟩ := hlet.binds
  have hlength := hinside.2
  rw [List.length_append] at hlength
  rcases List.append_eq_append_iff.mp htext with ⟨c, rfl, -⟩ | ⟨middle, rfl, hmiddle⟩
  · have hlt := hinside.1
    rw [List.length_append] at hlt
    omega
  have hne : middle ≠ [] := by
    rintro rfl
    exact absurd hinside.1 (by simp)
  have hlast : ∀ c ∈ middle.getLast?, Text.isBlank c = true := by
    intro c hc
    rw [of_getLast?_append hlet.lineStart c hc]
    decide
  have hhead : ∀ c ∈ (['l', 'e', 't'] ++ (gap ++ behind)).head?, Text.isBlank c = false := by
    rintro _ ⟨⟩
    decide
  obtain ⟨more, rfl, rfl⟩ := exists_of_keyword (by decide) hgap' hmiddle hne hlast hhead
  -- the cut in the earlier binding is right ahead of the name, with or without a `rec`
  have hname : Named (['l', 'e', 't'] ++ (gap ++ behind)) name' rest' := by
    rcases hbound with ⟨gap₂, body, hbody, hgap₂, hname⟩ | ⟨hname, -⟩
    · have hmore : more ≠ [] := by
        rintro rfl
        cases hbody
      obtain ⟨more', rfl, rfl⟩ :=
        exists_of_keyword (by decide) hgap₂ hbody.symm hmore (of_getLast?_append hlast) hhead
      have hlast' := of_getLast?_append (of_getLast?_append hlast)
      have hmore' := eq_nil_of_named hname hlast' (by omega)
      rwa [hmore', List.nil_append] at hname
    · have hmore := eq_nil_of_named hname (of_getLast?_append hlast) (by omega)
      rwa [hmore, List.nil_append] at hname
  obtain ⟨rfl, rfl⟩ := hname.unique (named_let hgap)
  refine ⟨rfl, ?_⟩
  simp only [List.length_append, List.length_cons, List.length_nil]
  omega

/-- A `let` stands inside one binding at most. -/
theorem eq_of_inside (h : Lets text earlier name rest) (h' : Lets text earlier' name' rest')
    {bound behind : List Char} (hlet : Lets text before bound behind)
    (hinside : Inside text earlier rest before) (hinside' : Inside text earlier' rest' before) :
    earlier = earlier' := by
  obtain ⟨-, hlength⟩ := h.eq_let_of_inside hlet hinside
  obtain ⟨-, hlength'⟩ := h'.eq_let_of_inside hlet hinside'
  have hstart := hinside.1
  have hstart' := hinside'.1
  -- of two different ones the later would stand inside the earlier, with the `let` behind both
  rcases Nat.lt_trichotomy earlier.length earlier'.length with hlt | heq | hgt
  · have hbetween := (h.eq_let_of_inside h' ⟨hlt, by omega⟩).2
    omega
  · exact (h.unique h' heq).1
  · have hbetween := (h'.eq_let_of_inside h ⟨hgt, by omega⟩).2
    omega

/-- Every `let` counts or does not. -/
theorem exists_counts (h : Lets text before name rest) : ∃ counts, Counts text before counts := by
  induction hlength : before.length using Nat.strong_induction_on generalizing before name rest with
  | _ length ih =>
    by_cases hinside : ∃ earlier name' rest', Lets text earlier name' rest' ∧
        Inside text earlier rest' before
    · obtain ⟨earlier, name', rest', hearlier, hinside⟩ := hinside
      obtain ⟨counts, hcounts⟩ := ih earlier.length (hlength ▸ hinside.1) hearlier rfl
      exact ⟨_, .inside hearlier hcounts h hinside⟩
    · exact ⟨true, .alone h fun earlier name' rest' hearlier hholds =>
        hinside ⟨earlier, name', rest', hearlier, hholds⟩⟩

end Lets

namespace Counts

/-- No `let` both counts and does not. -/
theorem unique (h : Counts text before counts) (h' : Counts text before counts') :
    counts = counts' := by
  induction h generalizing counts' with
  | alone _ halone =>
    cases h' with
    | alone => rfl
    | inside hearlier _ _ hinside => exact absurd hinside (halone _ _ _ hearlier)
  | inside hearlier _ hlet hinside ih =>
    cases h' with
    | alone _ halone => exact absurd hinside (halone _ _ _ hearlier)
    | inside hearlier' hcounts' _ hinside' =>
      obtain rfl := hearlier.eq_of_inside hearlier' hlet hinside hinside'
      rw [ih hcounts']

/-- Only a `let` counts. -/
theorem exists_lets (h : Counts text before counts) : ∃ name rest, Lets text before name rest := by
  cases h with
  | alone hlet => exact ⟨_, _, hlet⟩
  | inside _ _ hlet => exact ⟨_, _, hlet⟩

/-- A `let` that does not count stands inside a binding that does. -/
theorem exists_of_false (h : Counts text before false) :
    ∃ earlier name rest, Lets text earlier name rest ∧ Counts text earlier true ∧
      Inside text earlier rest before := by
  generalize hfalse : false = value at h
  cases h with
  | alone => cases hfalse
  | @inside _ _ _ _ _ _ counts hearlier hcounts _ hinside =>
    obtain rfl : counts = true := by simpa using hfalse.symm
    exact ⟨_, _, _, hearlier, hcounts, hinside⟩

/-- Inside a binding that counts no `let` does. -/
theorem not_of_inside (hearlier : Lets text earlier name rest) (hcounts : Counts text earlier true)
    (hinside : Inside text earlier rest before) : ¬Counts text before true := by
  intro h
  obtain ⟨name, rest, hlet⟩ := h.exists_lets
  cases h.unique (.inside hearlier hcounts hlet hinside)

end Counts

end ReductionStepper.Source
