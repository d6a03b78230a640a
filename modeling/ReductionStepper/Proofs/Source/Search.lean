import ReductionStepper.Proofs.Source.Binding

/-!
# The last binding of a program

The search goes on behind each binding that it found. So it passes over a `let` only inside an
earlier binding, and it finds the last one that counts.
-/

namespace ReductionStepper.Source

variable {text name rest before earlier cs found : List Char} {counts : Bool} {skip : Nat}
  {atLineStart : Bool}

/-! ## What the search knows -/

/-- The name that the last `let` that counts binds, of those from a place on; `found` if there is
none. -/
inductive LastFrom (text : List Char) (place : Nat) (found : List Char) : List Char → Prop where
  | last {before name rest : List Char} (hlet : Lets text before name rest)
      (hcounts : Counts text before true) (hplace : place ≤ before.length)
      (hlast : ∀ later name rest, Lets text later name rest → Counts text later true →
        later.length ≤ before.length) : LastFrom text place found name
  | none (hnone : ∀ later name rest, Lets text later name rest → Counts text later true →
      later.length < place) : LastFrom text place found found

/-- What the search knows at a place with `skip` characters to pass over: the bindings found so far
end with these, and if there are any the last of them does so right there. -/
structure Searched (text before : List Char) (skip : Nat) : Prop where
  ended : ∀ earlier name rest, Lets text earlier name rest → Counts text earlier true →
    earlier.length < before.length → text.length ≤ before.length + skip + rest.length
  reached : skip ≠ 0 → ∃ earlier name rest, Lets text earlier name rest ∧
    Counts text earlier true ∧ earlier.length < before.length ∧
    before.length + skip + rest.length = text.length

private theorem Lets.eq_of_length_eq (h : Lets text earlier name rest) (htext : text = before ++ cs)
    (hlength : earlier.length = before.length) : earlier = before := by
  obtain ⟨tail, htail, -⟩ := h.binds
  exact (List.append_inj (htail.symm.trans htext) hlength).1

/-- Where no `let` counts, the last one from there on is the last one from the next place on. -/
theorem LastFrom.of_next {c : Char} {result : List Char} (htext : text = before ++ c :: cs)
    (hnone : ¬Counts text before true) (h : LastFrom text (before ++ [c]).length found result) :
    LastFrom text before.length found result := by
  rw [List.length_append, List.length_singleton] at h
  cases h with
  | last hlet hcounts hplace hlast => exact .last hlet hcounts (Nat.le_of_succ_le hplace) hlast
  | none hlater =>
    refine .none fun later name rest hlet hcounts => ?_
    refine Nat.lt_of_le_of_ne (Nat.le_of_lt_succ (hlater later name rest hlet hcounts)) ?_
    intro hlength
    exact hnone (hlet.eq_of_length_eq htext hlength ▸ hcounts)

/-- Where a `let` counts, its name is the last one unless another one is from the next place on. -/
theorem LastFrom.of_next_of_counts {c : Char} {result : List Char}
    (hlet : Lets text before name rest) (hcounts : Counts text before true)
    (h : LastFrom text (before ++ [c]).length name result) :
    LastFrom text before.length found result := by
  rw [List.length_append, List.length_singleton] at h
  cases h with
  | last hlet hcounts hplace hlast => exact .last hlet hcounts (Nat.le_of_succ_le hplace) hlast
  | none hlater =>
    exact .last hlet hcounts le_rfl fun later name rest hlet hcounts =>
      Nat.le_of_lt_succ (hlater later name rest hlet hcounts)

namespace Searched

/-- Where no `let` counts, nothing more is known at the next place. -/
theorem next {c : Char} {later : Nat} (h : Searched text before skip)
    (htext : text = before ++ c :: cs) (hnone : ¬Counts text before true)
    (hskip : skip = later + 1 ∨ skip = 0 ∧ later = 0) :
    Searched text (before ++ [c]) later where
  ended earlier name rest hlet hcounts hlt := by
    have hne : earlier.length ≠ before.length := by
      intro hlength
      exact hnone (hlet.eq_of_length_eq htext hlength ▸ hcounts)
    rw [List.length_append, List.length_singleton] at hlt ⊢
    have hended := h.ended earlier name rest hlet hcounts (by omega)
    omega
  reached hne := by
    obtain ⟨earlier, name, rest, hlet, hcounts, hlt, hlength⟩ := h.reached (by omega)
    refine ⟨earlier, name, rest, hlet, hcounts, ?_, ?_⟩
    · rw [List.length_append]
      omega
    · rw [List.length_append, List.length_singleton]
      omega

/-- A `let` behind all bindings found counts. -/
theorem counts_of_lets (h : Searched text before 0) (hlet : Lets text before name rest) :
    Counts text before true := by
  obtain ⟨counts, hcounts⟩ := hlet.exists_counts
  cases counts with
  | true => exact hcounts
  | false =>
    obtain ⟨earlier, name', rest', hearlier, hfound, hlt, hinside⟩ := hcounts.exists_of_false
    have hended := h.ended earlier name' rest' hearlier hfound hlt
    omega

/-- Inside a binding that was found no `let` counts. -/
theorem not_counts (h : Searched text before (skip + 1)) : ¬Counts text before true := by
  obtain ⟨earlier, name, rest, hlet, hcounts, hlt, hlength⟩ := h.reached (Nat.succ_ne_zero skip)
  exact Counts.not_of_inside hlet hcounts ⟨hlt, by omega⟩

/-- Where a binding is found, the rest of it is to be passed over. -/
theorem next_of_lets {c : Char} (h : Searched text before 0) (htext : text = before ++ c :: cs)
    (hlet : Lets text before name rest) :
    Searched text (before ++ [c]) (cs.length - rest.length) := by
  have hlength : text.length = before.length + (cs.length + 1) := by
    rw [htext, List.length_append, List.length_cons]
  have hrest : rest.length ≤ cs.length := by
    obtain ⟨tail, htail, hbinds⟩ := hlet.binds
    obtain rfl := List.append_cancel_left (htext.symm.trans htail)
    exact Nat.le_of_lt_succ hbinds.length_lt
  have hplace : (before ++ [c]).length = before.length + 1 := by simp
  constructor
  · intro earlier name' rest' hearlier hcounts hlt
    by_cases heq : earlier.length = before.length
    · obtain ⟨-, -, rfl⟩ := hearlier.unique hlet heq
      omega
    · have hended := h.ended earlier name' rest' hearlier hcounts (by omega)
      omega
  · exact fun _ => ⟨before, name, rest, hlet, h.counts_of_lets hlet, by omega, by omega⟩

end Searched

/-! ## The search -/

private theorem lineStart_next (before : List Char) (c : Char) :
    (decide (c = '\n') = true) ↔ ∀ d ∈ (before ++ [c]).getLast?, d = '\n' := by
  simp

/-- From every place on the search finds the last `let` that counts. -/
theorem lastFrom_lastBinding (htext : text = before ++ cs)
    (hstart : atLineStart = true ↔ ∀ c ∈ before.getLast?, c = '\n')
    (hsearched : Searched text before skip) :
    LastFrom text before.length found (lastBinding found skip atLineStart cs) := by
  fun_induction lastBinding found skip atLineStart cs generalizing before with
  | case1 found skip atLineStart =>
    refine .none fun later name rest hlet _ => ?_
    obtain ⟨tail, htail, hbinds⟩ := hlet.binds
    have hlt := hbinds.length_lt
    have hlength := congrArg List.length (htail.symm.trans htext)
    simp only [List.length_append, List.length_nil] at hlength
    omega
  | case2 found skip atLineStart c cs ih =>
    have hnone := hsearched.not_counts
    exact .of_next htext hnone
      (ih (by simp [htext]) (lineStart_next before c) (hsearched.next htext hnone (.inl rfl)))
  | case3 found atLineStart c cs name rest hfound ih =>
    have hlet : Lets text before name rest := by
      split at hfound
      · next hline => exact ⟨hstart.mp hline, c :: cs, htext, binding?_eq_some_iff.mp hfound⟩
      · cases hfound
    have hcounts := hsearched.counts_of_lets hlet
    have hlater :=
      ih (by simp [htext]) (lineStart_next before c) (hsearched.next_of_lets htext hlet)
    exact .of_next_of_counts hlet hcounts hlater
  | case4 found atLineStart c cs hmissed ih =>
    have hnone : ¬Counts text before true := by
      intro hcounts
      obtain ⟨name, rest, hline, tail, htail, hbinds⟩ := hcounts.exists_lets
      obtain rfl := List.append_cancel_left (htext.symm.trans htail)
      rw [if_pos (hstart.mpr hline), binding?_eq_some_iff.mpr hbinds] at hmissed
      cases hmissed
    have hnext := hsearched.next htext hnone (.inr ⟨rfl, rfl⟩)
    exact .of_next htext hnone (ih (by simp [htext]) (lineStart_next before c) hnext)

/-- The search over a whole program. -/
theorem lastFrom_lastBound (program : String) :
    LastFrom program.toList 0 fallbackName.toList (lastBound program).toList := by
  rw [lastBound, String.toList_ofList]
  have htext : program.toList = [] ++ program.toList := rfl
  have hsearched : Searched program.toList [] 0 :=
    ⟨fun _ _ _ _ _ hlt => absurd hlt (Nat.not_lt_zero _), fun hne => absurd rfl hne⟩
  have hstart : true = true ↔ ∀ c ∈ ([] : List Char).getLast?, c = '\n' := by simp
  exact lastFrom_lastBinding htext hstart hsearched

private theorem LastFrom.eq_name {result : List Char} (h : LastFrom text 0 found result)
    (hlet : Lets text before name rest) (hcounts : Counts text before true)
    (hlast : ∀ later name rest, Lets text later name rest → Counts text later true →
      later.length ≤ before.length) : result = name := by
  cases h with
  | last hlet' hcounts' _ hlast' =>
    have hlength := Nat.le_antisymm (hlast _ _ _ hlet' hcounts') (hlast' _ _ _ hlet hcounts)
    exact (hlet'.unique hlet hlength).2.1
  | none hnone => exact absurd (hnone _ _ _ hlet hcounts) (Nat.not_lt_zero _)

/-- If the last `let` of a program counts, the name found is its name, and else `let`. -/
theorem lastBound_eq_of_last {program : String} (hlet : Lets program.toList before name rest)
    (hlast : ∀ later name rest, Lets program.toList later name rest →
      later.length ≤ before.length) (hcounts : Counts program.toList before counts) :
    lastBound program = if counts then String.ofList name else "let" := by
  have hfound := lastFrom_lastBound program
  cases counts with
  | true =>
    have hname := hfound.eq_name hlet hcounts fun later name rest hlater _ =>
      hlast later name rest hlater
    rw [if_pos rfl, ← hname, String.ofList_toList]
  | false =>
    obtain ⟨earlier, name', rest', hearlier, hfirst, hinside⟩ := hcounts.exists_of_false
    obtain ⟨rfl, -⟩ := hearlier.eq_let_of_inside hlet hinside
    -- nothing that counts stands between the two
    have hname := hfound.eq_name hearlier hfirst fun later name rest hlater hcounts' => by
      by_contra hlt
      have hle := hlast later name rest hlater
      have hlt' := hinside.2
      exact Counts.not_of_inside hearlier hfirst ⟨by omega, by omega⟩ hcounts'
    rw [if_neg Bool.false_ne_true]
    exact String.toList_inj.mp (hname.trans (by decide))

/-- The name found is the one that the last `let` at the start of a line binds, unless that `let`
stands inside an earlier binding. There it is the name that is bound, and it counts exactly if the
earlier `let` does not; if it does not count, the name found is `let`. In a program without a `let`
at the start of a line, the name is `main`. -/
theorem lastBound_of_last_let (program : String) :
    let text := program.toList
    ((∀ before name rest, ¬Lets text before name rest) → lastBound program = "main") ∧
      ∀ before name rest, Lets text before name rest →
        (∀ later name rest, Lets text later name rest → later.length ≤ before.length) →
        ((∀ earlier name rest, Lets text earlier name rest → ¬Inside text earlier rest before) →
          lastBound program = String.ofList name) ∧
        (∀ earlier name rest, Lets text earlier name rest → Inside text earlier rest before →
          name = ['l', 'e', 't'] ∧ before.length + 3 + rest.length = text.length) ∧
        ∃ counts, (∀ other, Counts text before other ↔ other = counts) ∧
          lastBound program = if counts then String.ofList name else "let" := by
  intro text
  have hfound : LastFrom text 0 fallbackName.toList (lastBound program).toList :=
    lastFrom_lastBound program
  refine ⟨fun hnone => ?_, fun before name rest hlet hlast => ?_⟩
  · generalize hresult : (lastBound program).toList = result at hfound
    cases hfound with
    | last hlet => exact absurd hlet (hnone _ _ _)
    | none => exact String.toList_inj.mp hresult
  · obtain ⟨counts, hcounts⟩ := hlet.exists_counts
    refine ⟨fun halone => lastBound_eq_of_last hlet hlast (.alone hlet halone),
      fun _ _ _ hearlier => hearlier.eq_let_of_inside hlet, counts, fun other => ?_,
      lastBound_eq_of_last hlet hlast hcounts⟩
    exact ⟨fun h => h.unique hcounts, fun h => h ▸ hcounts⟩

private theorem lets_letNamedLet :
    let text := "let\nlet x = 1;;".toList
    Lets text [] ['l', 'e', 't'] " x = 1;;".toList ∧
      Lets text ['l', 'e', 't', '\n'] ['x'] " = 1;;".toList ∧
      ∀ later name rest, Lets text later name rest → later.length ≤ 4 := by
  intro text
  have hlines : ∀ place ≤ text.length,
      ((text.take place).getLast?.all (· = '\n')) = true → place ≤ 4 := by decide +kernel
  refine ⟨⟨by simp, text, rfl, binding?_eq_some_iff.mp (by decide +kernel)⟩,
    ⟨by simp, text.drop 4, by decide +kernel, binding?_eq_some_iff.mp (by decide +kernel)⟩, ?_⟩
  intro later name rest hlet
  obtain ⟨tail, htail, -⟩ := hlet.binds
  have hlater : text.take later.length = later := by rw [htail, List.take_left]
  refine hlines later.length ?_ ?_
  · rw [htail, List.length_append]
    omega
  · rw [hlater, Option.all_eq_true]
    exact fun c hc => decide_eq_true (hlet.lineStart c hc)

/-- The second `let` is the last one at the start of a line and binds `x`, but it does not count:
the first one, which stands inside no binding, counts. -/
theorem lastBound_of_last_let_letNamedLet :
    let program := "let\nlet x = 1;;"
    Lets program.toList ['l', 'e', 't', '\n'] ['x'] " = 1;;".toList ∧
      (∀ later name rest, Lets program.toList later name rest → later.length ≤ 4) ∧
      Counts program.toList ['l', 'e', 't', '\n'] false ∧ lastBound program = "let" := by
  intro program
  obtain ⟨-, hlet, hlast⟩ := lets_letNamedLet
  obtain ⟨-, -, counts, hcounts, hname⟩ := (lastBound_of_last_let program).2 _ _ _ hlet hlast
  have hfound : lastBound program = "let" := by decide +kernel
  have hfalse : counts = false := by
    cases counts with
    | true => exact absurd (hfound.symm.trans hname) (by decide)
    | false => rfl
  exact ⟨hlet, hlast, (hcounts false).mpr hfalse.symm, hfound⟩

/-- The name found is not always the one that the last `let` at the start of a line binds. -/
theorem lastBound_ne_name_of_last_let :
    ¬∀ (program : String) (before name rest : List Char), Lets program.toList before name rest →
      (∀ later name rest, Lets program.toList later name rest → later.length ≤ before.length) →
      lastBound program = String.ofList name := by
  intro hclaim
  obtain ⟨-, hlet, hlast⟩ := lets_letNamedLet
  have hname := hclaim "let\nlet x = 1;;" _ _ _ hlet hlast
  exact absurd hname (by decide +kernel)

end ReductionStepper.Source
