import Mathlib.Data.List.Nodup
import Mathlib.Logic.Relation
import ReductionStepper.Graph.Walk
import ReductionStepper.Proofs.Graph.Scan

/-!
# Step paths

`Leads` says that following the first step of every term from `source` goes over `path` to `target`.
`Arrives` is the part of it that a walk finds: it meets the target at its last step only. The steps
of a path that arrives leave distinct terms, so there are no more of them than the graph has edges,
and the bound of a walk never cuts it off.
-/

namespace ReductionStepper

namespace Index

/-- One term steps to the other. -/
def Next (index : Index) (source target : TermId) : Prop := index.next? source = some target

/-- A term steps to one term at most. -/
theorem rightUnique_next (index : Index) : Relator.RightUnique index.Next := by
  intro source target other htarget hother
  exact Option.some.inj (htarget.symm.trans hother)

/-- The first steps from `source` go over `path` to `target`. -/
inductive Leads (index : Index) : TermId → List Edge → TermId → Prop where
  | refl (id : TermId) : Leads index id [] id
  | step {source target : TermId} {first : Edge} {later : List Edge}
      (hfirst : index.step? source = some first) (hlater : Leads index first.target later target) :
      Leads index source (first :: later) target

/-- The first steps from `source` go over `path` to `target`, which they meet at the end only. -/
inductive Arrives (index : Index) : TermId → List Edge → TermId → Prop where
  | last {source target : TermId} {only : Edge}
      (honly : index.step? source = some only) (htarget : only.target = target) :
      Arrives index source [only] target
  | step {source target : TermId} {first : Edge} {later : List Edge}
      (hfirst : index.step? source = some first) (hne : first.target ≠ target)
      (hlater : Arrives index first.target later target) :
      Arrives index source (first :: later) target

variable {index : Index} {source middle target : TermId} {path later : List Edge}

namespace Leads

/-- No steps lead from a term to itself only. -/
@[simp] theorem nil_iff : Leads index source [] target ↔ source = target := by
  constructor
  · rintro ⟨⟩
    rfl
  · rintro rfl
    exact refl source

/-- Steps lead on from the target of the first one, which is the step that counts. -/
@[simp] theorem cons_iff {first : Edge} :
    Leads index source (first :: later) target ↔
      index.step? source = some first ∧ Leads index first.target later target := by
  constructor
  · rintro ⟨⟩
    exact ⟨‹_›, ‹_›⟩
  · rintro ⟨hfirst, hlater⟩
    exact step hfirst hlater

/-- Steps behind each other meet at a term in the middle. -/
theorem append_iff :
    Leads index source (path ++ later) target ↔
      ∃ middle, Leads index source path middle ∧ Leads index middle later target := by
  induction path generalizing source with
  | nil => simp
  | cons first path ih => simp [ih, and_assoc]

/-- Paths one after the other. -/
theorem trans (h : Leads index source path middle) (hlater : Leads index middle later target) :
    Leads index source (path ++ later) target :=
  append_iff.mpr ⟨middle, h, hlater⟩

/-- Of two paths from a term the longer one goes on where the shorter one ends. -/
theorem exists_append (h : Leads index source path middle)
    (hlonger : Leads index source later target) (hlength : path.length ≤ later.length) :
    ∃ rest, later = path ++ rest ∧ Leads index middle rest target := by
  induction h generalizing later with
  | refl id => exact ⟨later, rfl, hlonger⟩
  | @step source middle first path hfirst _ ih =>
    cases hlonger with
    | refl => simp at hlength
    | @step _ _ first' later hfirst' hlater =>
      obtain rfl : first = first' := Option.some.inj (hfirst.symm.trans hfirst')
      obtain ⟨rest, rfl, hrest⟩ := ih hlater (by simpa using hlength)
      exact ⟨rest, rfl, hrest⟩

/-- A path from a term without a step is empty. -/
theorem eq_nil_of_next?_eq_none (h : Leads index source path target)
    (hnone : index.next? source = none) : path = [] := by
  cases h with
  | refl => rfl
  | step hfirst => simp [next?, hfirst] at hnone

/-- A term that some steps lead to is reached by stepping. -/
theorem transGen (h : Leads index source path target) (hne : path ≠ []) :
    Relation.TransGen index.Next source target := by
  induction h with
  | refl => exact absurd rfl hne
  | @step source target first later hfirst hlater ih =>
    have hnext : index.Next source first.target := by simp [Next, next?, hfirst]
    cases later with
    | nil =>
      obtain rfl := nil_iff.mp hlater
      exact .single hnext
    | cons => exact .head hnext (ih (by simp))

/-- A term that steps lead to is the first one or reached by stepping. -/
theorem reflTransGen (h : Leads index source path target) :
    Relation.ReflTransGen index.Next source target := by
  by_cases hne : path = []
  · subst hne
    rw [nil_iff.mp h]
  · exact (h.transGen hne).to_reflTransGen

/-- Whatever stepping reaches is reached over a path. -/
theorem of_reflTransGen (h : Relation.ReflTransGen index.Next source target) :
    ∃ path, Leads index source path target := by
  induction h using Relation.ReflTransGen.head_induction_on with
  | refl => exact ⟨[], refl target⟩
  | head hnext _ ih =>
    obtain ⟨path, hpath⟩ := ih
    obtain ⟨first, hfirst, rfl⟩ := Option.map_eq_some_iff.mp hnext
    exact ⟨first :: path, step hfirst hpath⟩

/-- Whatever stepping at least once reaches is reached over a path that is not empty. -/
theorem of_transGen (h : Relation.TransGen index.Next source target) :
    ∃ path, path ≠ [] ∧ Leads index source path target := by
  obtain ⟨middle, hnext, hrest⟩ := Relation.TransGen.head'_iff.mp h
  obtain ⟨later, hlater⟩ := of_reflTransGen hrest
  obtain ⟨first, hfirst, rfl⟩ := Option.map_eq_some_iff.mp hnext
  exact ⟨first :: later, by simp, .step hfirst hlater⟩

/-- A path that is not empty starts with one that arrives. -/
theorem exists_arrives (h : Leads index source path target) (hne : path ≠ []) :
    ∃ found rest, path = found ++ rest ∧ Arrives index source found target := by
  induction h with
  | refl => exact absurd rfl hne
  | @step source target first later hfirst hlater ih =>
    by_cases htarget : first.target = target
    · exact ⟨[first], later, rfl, .last hfirst htarget⟩
    · have hne : later ≠ [] := by
        rintro rfl
        exact htarget (nil_iff.mp hlater)
      obtain ⟨found, rest, rfl, hfound⟩ := ih hne
      exact ⟨first :: found, rest, rfl, .step hfirst htarget hfound⟩

end Leads

namespace Arrives

/-- It takes a step to arrive. -/
theorem ne_nil (h : Arrives index source path target) : path ≠ [] := by
  cases h <;> simp

/-- The steps that arrive at a term lead to it. -/
theorem leads (h : Arrives index source path target) : Leads index source path target := by
  induction h with
  | last honly htarget => exact .step honly (htarget ▸ .refl _)
  | step hfirst _ _ ih => exact .step hfirst ih

/-- No path that is not empty is shorter than one that arrives. -/
theorem length_le (h : Arrives index source path target) (hlater : Leads index source later target)
    (hne : later ≠ []) : path.length ≤ later.length := by
  induction h generalizing later with
  | last => exact List.length_pos_iff.mpr hne
  | @step source target first path hfirst htarget _ ih =>
    cases hlater with
    | refl => exact absurd rfl hne
    | @step _ _ first' later hfirst' hlater =>
      obtain rfl : first = first' := Option.some.inj (hfirst.symm.trans hfirst')
      have hne : later ≠ [] := by
        rintro rfl
        exact htarget (Leads.nil_iff.mp hlater)
      simpa using ih hlater hne

end Arrives

/-! ## Walks -/

/-- A walk finds exactly the path that arrives, if the bound admits its length. -/
theorem walkWithin_eq_arrived_iff {bound : Nat} :
    index.walkWithin target bound source = .arrived path ↔
      Arrives index source path target ∧ path.length ≤ bound := by
  induction bound generalizing source path with
  | zero =>
    simp only [walkWithin, reduceCtorEq, Nat.le_zero_eq, List.length_eq_zero_iff, false_iff]
    exact fun h => h.1.ne_nil h.2
  | succ bound ih =>
    cases hstep : index.step? source with
    | none =>
      simp only [walkWithin, hstep, reduceCtorEq, false_iff]
      rintro ⟨⟨h, _⟩ | ⟨h, _, _⟩, _⟩ <;> simp [hstep] at h
    | some first =>
      by_cases htarget : first.target = target
      · simp only [walkWithin, hstep, htarget, if_true, Walk.arrived.injEq]
        constructor
        · rintro rfl
          exact ⟨.last hstep htarget, by simp⟩
        · rintro ⟨h | ⟨h, hne, _⟩, _⟩
          · rw [hstep] at h
            cases h
            rfl
          · rw [hstep] at h
            cases h
            exact absurd htarget hne
      · simp only [walkWithin, hstep, htarget, if_false]
        constructor
        · intro h
          cases hwalk : index.walkWithin target bound first.target with
          | arrived later =>
            rw [hwalk] at h
            cases h
            obtain ⟨hlater, hlength⟩ := ih.mp hwalk
            exact ⟨.step hstep htarget hlater, by simpa using hlength⟩
          | blocked => rw [hwalk] at h; cases h
          | endless => rw [hwalk] at h; cases h
        · rintro ⟨⟨h, hlast⟩ | ⟨h, _, hlater⟩, hlength⟩
          · rw [hstep] at h
            cases h
            exact absurd hlast htarget
          · rw [hstep] at h
            cases h
            rw [ih.mpr ⟨hlater, by simpa using hlength⟩, Walk.after]

section Bound

variable {graph : Graph}

/-- Steps that lead to a term are edges of the graph. -/
theorem Leads.subset_edges (h : Leads (ofGraph graph) source path target) :
    path ⊆ graph.edges := by
  induction h with
  | refl => simp
  | step hfirst _ ih =>
    exact List.cons_subset.mpr ⟨(mem_outgoing.mp (step?_mem hfirst)).1, ih⟩

/-- The index knows whatever a path from a term that it knows leads to. -/
theorem Leads.contains (h : Leads (ofGraph graph) source path target)
    (hsource : (ofGraph graph).contains source = true) :
    (ofGraph graph).contains target = true := by
  induction h with
  | refl => exact hsource
  | step hfirst _ ih => exact ih (contains_target_of_mem_outgoing (step?_mem hfirst))

/-- A path starts anew at the source of each of its steps. -/
theorem Leads.of_append_cons {step : Edge}
    (h : Leads (ofGraph graph) source (path ++ step :: later) target) :
    Leads (ofGraph graph) source path step.source ∧
      Leads (ofGraph graph) step.source (step :: later) target := by
  obtain ⟨middle, hpath, hrest⟩ := append_iff.mp h
  have hmiddle : step.source = middle := source_of_step? (cons_iff.mp hrest).1
  exact ⟨hmiddle ▸ hpath, hmiddle ▸ hrest⟩

/-- The steps of a path that arrives leave distinct terms. -/
theorem Arrives.nodup_sources (h : Arrives (ofGraph graph) source path target) :
    (path.map Edge.source).Nodup := by
  induction h with
  | last => simp
  | @step source target first later hfirst hne hlater ih =>
    refine List.nodup_cons.mpr ⟨?_, ih⟩
    intro hmem
    obtain ⟨step, hstep, hsource⟩ := List.mem_map.mp hmem
    obtain ⟨before, after, rfl⟩ := List.append_of_mem hstep
    -- the rest from the repeated term would be a shorter path to the target
    have hrest := hlater.leads.of_append_cons.2
    rw [hsource, source_of_step? hfirst] at hrest
    have hle := (Arrives.step hfirst hne hlater).length_le hrest (by simp)
    simp at hle
    omega

/-- Distinct sources bound the length of a path by the number of edges. -/
theorem Leads.length_le_of_nodup (h : Leads (ofGraph graph) source path target)
    (hnodup : (path.map Edge.source).Nodup) : path.length ≤ graph.edges.length :=
  (List.Nodup.of_map _ hnodup).length_le_of_subset h.subset_edges

/-- A walk arrives over exactly the path that arrives, if there is one. -/
theorem walk_eq_arrived_iff :
    (ofGraph graph).walk source target = .arrived path ↔
      Arrives (ofGraph graph) source path target := by
  rw [walk, walkWithin_eq_arrived_iff, and_iff_left_iff_imp]
  intro h
  exact Nat.le_succ_of_le (h.leads.length_le_of_nodup h.nodup_sources)

/-- The steps from one term to another are exactly the path that arrives, if there is one. -/
theorem path_eq_iff (hne : path ≠ []) :
    (ofGraph graph).path source target = path ↔ Arrives (ofGraph graph) source path target := by
  rw [← walk_eq_arrived_iff, Index.path]
  cases (ofGraph graph).walk source target with
  | arrived found => rw [Walk.path, Walk.arrived.injEq]
  | blocked => simp [Walk.path, hne.symm]
  | endless => simp [Walk.path, hne.symm]

end Bound

/-! ## Chains -/

/-- Following a chain ends exactly at the last term of a path within the bound. -/
theorem settleWithin_eq_ended_iff {bound : Nat} :
    index.settleWithin bound source = .ended target ↔
      ∃ path, Leads index source path target ∧ index.next? target = none ∧
        path.length < bound := by
  induction bound generalizing source with
  | zero => simp [settleWithin]
  | succ bound ih =>
    cases hstep : index.step? source with
    | none =>
      simp only [settleWithin, next?, hstep, Option.map_none, Settling.ended.injEq]
      constructor
      · rintro rfl
        exact ⟨[], .refl _, by simp [hstep], by simp⟩
      · rintro ⟨path, hpath, -, -⟩
        obtain rfl := hpath.eq_nil_of_next?_eq_none (by simp [next?, hstep])
        exact Leads.nil_iff.mp hpath
    | some first =>
      simp only [settleWithin, next?, hstep, Option.map_some, ih]
      constructor
      · rintro ⟨path, hpath, hnone, hlength⟩
        exact ⟨first :: path, .step hstep hpath, hnone, by simpa using hlength⟩
      · rintro ⟨path, hpath, hnone, hlength⟩
        cases hpath with
        | refl => simp [hstep] at hnone
        | @step _ _ first' later hfirst hlater =>
          obtain rfl : first = first' := Option.some.inj (hstep.symm.trans hfirst)
          exact ⟨later, hlater, hnone, by simpa using hlength⟩

/-- The term after a number of steps, if the chain from a term is so long. -/
def stepped? (index : Index) : Nat → TermId → Option TermId
  | 0, id => some id
  | count + 1, id => (index.next? id).bind (stepped? index count)

/-- The term after a number of steps is the one that a path of so many steps leads to. -/
theorem stepped?_eq_some_iff {count : Nat} :
    index.stepped? count source = some target ↔
      ∃ path, Leads index source path target ∧ path.length = count := by
  induction count generalizing source with
  | zero => simp [stepped?]
  | succ count ih =>
    simp only [stepped?, next?, Option.bind_eq_some_iff, Option.map_eq_some_iff, ih]
    constructor
    · rintro ⟨_, ⟨first, hfirst, rfl⟩, path, hpath, rfl⟩
      exact ⟨first :: path, .step hfirst hpath, rfl⟩
    · rintro ⟨_, ⟨⟩ | ⟨hfirst, hlater⟩, hlength⟩
      · cases hlength
      · exact ⟨_, ⟨_, hfirst, rfl⟩, _, hlater, by simpa using hlength⟩

/-- A chain is not seen to end within a number of steps exactly if it goes on for as many. -/
theorem settleWithin_eq_unsettled_iff {bound : Nat} :
    index.settleWithin bound source = .unsettled target ↔
      index.stepped? bound source = some target := by
  induction bound generalizing source with
  | zero => simp [settleWithin, stepped?]
  | succ bound ih =>
    cases hnext : index.next? source with
    | none => simp [settleWithin, stepped?, hnext]
    | some next => simp [settleWithin, stepped?, hnext, ih]

/-- A path leads from every term to its value, whether its chain ends or not. -/
theorem leads_value (index : Index) (id : TermId) :
    ∃ path, Leads index id path (index.value id) := by
  cases h : index.settle id with
  | ended target =>
    obtain ⟨path, hpath, -, -⟩ := settleWithin_eq_ended_iff.mp h
    exact ⟨path, by rwa [value, h]⟩
  | unsettled target =>
    obtain ⟨path, hpath, -⟩ := stepped?_eq_some_iff.mp (settleWithin_eq_unsettled_iff.mp h)
    exact ⟨path, by rwa [value, h]⟩

end Index

end ReductionStepper
