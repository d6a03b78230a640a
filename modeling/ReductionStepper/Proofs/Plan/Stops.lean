import Mathlib.Data.List.Induction
import ReductionStepper.Proofs.Plan.Armed

/-!
# Where the scans stop

Hop `i` of a path leads from the term at position `i` to the one at `i + 1`. In these positions a
jump forward stops before the first call or behind the first return, where only the first hop is let
pass as a call and taken as a return without a look; a jump backward stops where the last call
starts that ends before the selected term; a step over stops at the first term with the value of the
reduced subterm. Each rule arms exactly the term at its stop, and nothing where there is none.
-/

namespace ReductionStepper

namespace Index

variable {graph : Graph} {source target : TermId} {path : List Edge}

/-- A hop ends at the position after its own. -/
theorem getElem?_pathTerms_succ (path : List Edge) (i : Nat) :
    (pathTerms path)[i + 1]? = path[i]?.map Edge.target := by
  cases path with
  | nil => rfl
  | cons first later => rw [pathTerms, List.getElem?_cons_succ, List.getElem?_map]

/-- The terms along a path that arrives are those that its hops start from, and its end. -/
theorem Arrives.pathTerms_eq_append (h : Arrives (ofGraph graph) source path target) :
    pathTerms path = path.map Edge.source ++ [target] := by
  induction h with
  | last _ htarget => rw [← htarget]; rfl
  | @step source target first later _ _ hlater ih =>
    have hterms := hlater.leads.pathTerms_eq hlater.ne_nil
    rw [pathTerms, List.map_cons, List.map_cons, List.cons_append, ← ih, hterms]

/-- A hop starts at its own position. -/
theorem Arrives.getElem?_pathTerms (h : Arrives (ofGraph graph) source path target) {i : Nat}
    (hi : i < path.length) : (pathTerms path)[i]? = path[i]?.map Edge.source := by
  rw [h.pathTerms_eq_append, List.getElem?_append_left (by simpa using hi), List.getElem?_map]

/-- The terms along the path between two different terms are distinct. -/
theorem nodup_pathTerms_of_ne (hne : source ≠ target) :
    (pathTerms ((ofGraph graph).path source target)).Nodup := by
  by_cases hnil : (ofGraph graph).path source target = []
  · simp [hnil, pathTerms]
  · have harrives := arrives_path hnil
    rw [harrives.pathTerms_eq_append, List.nodup_append]
    refine ⟨harrives.nodup_sources, List.nodup_singleton target, ?_⟩
    intro id hid last hlast heq
    obtain ⟨hop, hhop, rfl⟩ := List.mem_map.mp hid
    obtain rfl := List.mem_singleton.mp hlast
    obtain ⟨before, after, hpath⟩ := List.append_of_mem hhop
    by_cases hbefore : before = []
    · rw [hpath, hbefore] at harrives
      have hfirst := (Leads.cons_iff.mp harrives.leads).1
      exact hne ((source_of_step? hfirst).symm.trans heq)
    · exact (inside_source hpath hbefore).2.2 heq

end Index

namespace Plan

/-! ## Stops -/

/-- Whether the hop at a position of a path carries a tag. -/
def hopHas (path : List Edge) (tag : Tag) (i : Nat) : Bool := path[i]?.any (·.has tag)

/-- Whether the term at a position along a path is shown. -/
def showsAt (view : View) (path : List Edge) (i : Nat) : Bool :=
  (Index.pathTerms path)[i]?.any view.shows

/-- Where a jump forward along a path stops. -/
inductive ForwardStop (view : View) (path : List Edge) : Nat → Prop where
  /-- Behind a first hop that returns, if it is not the only one. -/
  | behindFirst (hlength : 2 ≤ path.length) (hreturn : hopHas path .returnStep 0 = true) :
      ForwardStop view path 1
  /-- Before a call or behind a return, the first of either kind after the first hop. -/
  | onward {i j : Nat} (hfirst : hopHas path .returnStep 0 = false)
      (hpositive : 1 ≤ i) (hi : i < path.length)
      (hearlier : ∀ h, 1 ≤ h → h < i →
        hopHas path .callStep h = false ∧ hopHas path .returnStep h = false)
      (hhidden : ∀ m, 2 ≤ m → m ≤ i + 1 → showsAt view path m = false)
      (hstop : hopHas path .callStep i = true ∧ j = i ∨
        hopHas path .returnStep i = true ∧ hopHas path .callStep i = false ∧ j = i + 1) :
      ForwardStop view path j

/-- Where a jump backward along a path stops: where its last call starts, the last hop left aside,
if no term from there on to the start of the last hop is shown. -/
structure BackwardStop (view : View) (path : List Edge) (i : Nat) : Prop where
  bound : i + 2 ≤ path.length
  call : hopHas path .callStep i = true
  last : ∀ h, i < h → h + 2 ≤ path.length → hopHas path .callStep h = false
  hidden : ∀ m, i ≤ m → m + 2 ≤ path.length → showsAt view path m = false

/-- The step to `next` reduces a subterm: it leaves there what the subterm itself steps to. -/
def Reduced (index : Index) (next subterm : TermId) : Prop :=
  ∃ reduct, index.next? subterm = some reduct ∧ reduct ∈ index.subterms next

/-- The first subterm of `source` that the step to `next` reduces. -/
def FirstReduced (index : Index) (source next subterm : TermId) : Prop :=
  ∃ earlier later, index.subterms source = earlier ++ subterm :: later ∧
    Reduced index next subterm ∧ ∀ other ∈ earlier, ¬ Reduced index next other

/-- The term at a position along a path has a subterm. -/
def HasSubtermAt (index : Index) (path : List Edge) (subterm : TermId) (i : Nat) : Prop :=
  ∃ parent, (Index.pathTerms path)[i]? = some parent ∧ subterm ∈ index.subterms parent

/-- Where a step over along a path from `source` stops: at the first term that has the value of the
first reduced subterm, if it is hidden. -/
def OverStop (index : Index) (view : View) (source : TermId) (path : List Edge) (j : Nat) : Prop :=
  ∃ next subterm, (Index.pathTerms path)[1]? = some next ∧ FirstReduced index source next subterm ∧
    HasSubtermAt index path (index.value subterm) j ∧
    (∀ i < j, ¬ HasSubtermAt index path (index.value subterm) i) ∧
    showsAt view path j = false

section Positions

variable {view : View} {first hop : Edge} {later hops : List Edge} {tag : Tag} {id : TermId}

@[simp] private theorem hopHas_cons_zero : hopHas (hop :: later) tag 0 = hop.has tag := rfl

@[simp] private theorem hopHas_cons_succ (i : Nat) :
    hopHas (hop :: later) tag (i + 1) = hopHas later tag i := rfl

private theorem showsAt_succ (path : List Edge) (i : Nat) :
    showsAt view path (i + 1) = path[i]?.any (view.shows ·.target) := by
  rw [showsAt, Index.getElem?_pathTerms_succ, Option.any_map]

/-- A scan forward stops at the first call or return, if no hop up to there ends at a shown term. -/
theorem firstStop?_eq_some_iff :
    firstStop? view hops = some id ↔
      ∃ i, (∀ h < i, hopHas hops .callStep h = false ∧ hopHas hops .returnStep h = false) ∧
        (∀ m < i + 1, hops[m]?.any (view.shows ·.target) = false) ∧
        (hopHas hops .callStep i = true ∧ hops[i]?.map Edge.source = some id ∨
          hopHas hops .returnStep i = true ∧ hopHas hops .callStep i = false ∧
            hops[i]?.map Edge.target = some id) := by
  induction hops with
  | nil => simp [firstStop?, hopHas]
  | cons hop later ih =>
    rw [firstStop?, ← Nat.or_exists_add_one]
    simp only [Nat.forall_lt_succ_left, hopHas_cons_zero, hopHas_cons_succ,
      List.getElem?_cons_zero, List.getElem?_cons_succ, Option.any_some, Option.map_some,
      Option.some.injEq]
    cases hshown : view.shows hop.target with
    | true => simp
    | false =>
      cases hcall : hop.has .callStep with
      | true => simp
      | false =>
        cases hreturn : hop.has .returnStep with
        | true => simp
        | false =>
          simp only [Bool.false_eq_true, if_false, ih, Nat.forall_lt_succ_left, Nat.not_lt_zero,
            IsEmpty.forall_iff, implies_true, and_self, false_and, true_and, or_self, and_false,
            false_or, Option.map_eq_some_iff]

private theorem lt_length_of_hopHas {path : List Edge} {i : Nat} (h : hopHas path tag i = true) :
    i < path.length := by
  by_contra hlength
  rw [hopHas, List.getElem?_eq_none (Nat.le_of_not_lt hlength)] at h
  cases h

private theorem any_getElem?_append_singleton (p : Edge → Bool) (hops : List Edge)
    (hp : p hop = false) (i : Nat) : (hops ++ [hop])[i]?.any p = hops[i]?.any p := by
  by_cases hi : i < hops.length
  · rw [List.getElem?_append_left hi]
  · have hle := Nat.le_of_not_lt hi
    rw [List.getElem?_append_right hle, List.getElem?_eq_none hle]
    cases i - hops.length <;> simp [hp]

/-- A scan backward stops at the last call, if no hop from there on starts at a shown term. -/
theorem lastCall?_reverse_eq_some_iff :
    lastCall? view hops.reverse = some id ↔
      ∃ i, hopHas hops .callStep i = true ∧ (∀ h, i < h → hopHas hops .callStep h = false) ∧
        (∀ m, i ≤ m → hops[m]?.any (view.shows ·.source) = false) ∧
        hops[i]?.map Edge.source = some id := by
  induction hops using List.reverseRecOn with
  | nil => simp [lastCall?, hopHas]
  | append_singleton hops hop ih =>
    rw [List.reverse_append, List.reverse_singleton, List.singleton_append, lastCall?]
    have hlast : (hops ++ [hop])[hops.length]? = some hop := List.getElem?_concat_length
    have hbound {i : Nat} (hi : hopHas (hops ++ [hop]) .callStep i = true) : i ≤ hops.length := by
      have hlt := lt_length_of_hopHas hi
      rw [List.length_append, List.length_singleton] at hlt
      exact Nat.le_of_lt_succ hlt
    cases hshown : view.shows hop.source with
    | true =>
      simp only [if_true, reduceCtorEq, false_iff]
      rintro ⟨i, hcall, -, hhidden, -⟩
      have hsource := hhidden hops.length (hbound hcall)
      rw [hlast, Option.any_some, hshown] at hsource
      cases hsource
    | false =>
      rw [if_neg Bool.false_ne_true]
      cases hcall : hop.has .callStep with
      | true =>
        rw [if_pos rfl, Option.some.injEq]
        constructor
        · rintro rfl
          refine ⟨hops.length, ?_, ?_, ?_, ?_⟩
          · rw [hopHas, hlast, Option.any_some, hcall]
          · intro h hlt
            by_contra hother
            exact Nat.not_le_of_gt hlt (hbound (eq_true_of_ne_false hother))
          · intro m hle
            rw [any_getElem?_append_singleton (view.shows ·.source) hops hshown,
              List.getElem?_eq_none hle, Option.any_none]
          · rw [hlast, Option.map_some]
        · rintro ⟨i, hi, hothers, -, hterm⟩
          have hi : i = hops.length := by
            by_contra hne
            have hother := hothers hops.length (Nat.lt_of_le_of_ne (hbound hi) hne)
            rw [hopHas, hlast, Option.any_some, hcall] at hother
            cases hother
          rw [hi, hlast] at hterm
          exact Option.some.inj hterm
      | false =>
        rw [if_neg Bool.false_ne_true, ih]
        simp only [hopHas, any_getElem?_append_singleton (·.has .callStep) hops hcall,
          any_getElem?_append_singleton (view.shows ·.source) hops hshown]
        refine exists_congr fun i => and_congr_right fun hi => ?_
        rw [List.getElem?_append_left (lt_length_of_hopHas hi)]

end Positions

section Paths

variable {graph : Graph} {index : Index} {view : View} {source target id subterm : TermId}
  {first : Edge} {later path : List Edge}

/-! ## Jumps forward -/

/-- The term that a jump forward along a path lands on. -/
def forwardStop? (view : View) : List Edge → Option TermId
  | [] => none
  | [_] => none
  | first :: later => if first.has .returnStep then some first.target else firstStop? view later

private theorem ForwardStop.two_le_length {j : Nat} (h : ForwardStop view path j) :
    2 ≤ path.length := by
  cases h with
  | behindFirst hlength => exact hlength
  | onward _ hpositive hi => omega

/-- A first hop that returns is the stop, unless it is the only hop. -/
theorem forwardStop_cons_iff_of_return (hreturn : first.has .returnStep = true) {j : Nat} :
    ForwardStop view (first :: later) j ↔ later ≠ [] ∧ j = 1 := by
  constructor
  · intro hstop
    have hlength := hstop.two_le_length
    cases hstop with
    | behindFirst =>
      refine ⟨?_, rfl⟩
      rintro rfl
      simp at hlength
    | onward hfirst =>
      rw [hopHas_cons_zero, hreturn] at hfirst
      cases hfirst
  · rintro ⟨hne, rfl⟩
    refine .behindFirst ?_ hreturn
    have hpositive := List.length_pos_iff.mpr hne
    rw [List.length_cons]
    omega

/-- Behind a first hop that does not return the stop is found among the later hops. -/
theorem forwardStop_cons_iff (hreturn : first.has .returnStep = false) {j : Nat} :
    ForwardStop view (first :: later) j ↔
      ∃ i, (∀ h < i, hopHas later .callStep h = false ∧ hopHas later .returnStep h = false) ∧
        (∀ m < i + 1, later[m]?.any (view.shows ·.target) = false) ∧
        (hopHas later .callStep i = true ∧ j = i + 1 ∨
          hopHas later .returnStep i = true ∧ hopHas later .callStep i = false ∧ j = i + 2) := by
  constructor
  · intro hstop
    cases hstop with
    | behindFirst _ hfirst =>
      rw [hopHas_cons_zero, hreturn] at hfirst
      cases hfirst
    | @onward i _ _ hpositive hi hearlier hhidden hstop =>
      obtain ⟨i, rfl⟩ := Nat.exists_eq_add_of_le' hpositive
      refine ⟨i, ?_, ?_, hstop⟩
      · intro h hlt
        exact hearlier (h + 1) (Nat.le_add_left 1 h) (Nat.succ_lt_succ hlt)
      · intro m hm
        have hterm := hhidden (m + 2) (by omega) (by omega)
        rwa [showsAt_succ] at hterm
  · rintro ⟨i, hearlier, hhidden, hstop⟩
    have hi : i < later.length := by
      rcases hstop with ⟨hcall, -⟩ | ⟨hbehind, -⟩
      · exact lt_length_of_hopHas hcall
      · exact lt_length_of_hopHas hbehind
    refine .onward hreturn (Nat.le_add_left 1 i) (Nat.succ_lt_succ hi) ?_ ?_ hstop
    · intro h hpositive hlt
      obtain ⟨h, rfl⟩ := Nat.exists_eq_add_of_le' hpositive
      exact hearlier h (Nat.lt_of_succ_lt_succ hlt)
    · intro m htwo hle
      obtain ⟨m, rfl⟩ := Nat.exists_eq_add_of_le' htwo
      rw [showsAt_succ]
      exact hhidden m (by omega)

/-- A jump forward from the start of a path finds the term at the stop. -/
theorem exists_forwardStop_iff
    (harrives : (Index.ofGraph graph).Arrives source (first :: later) target) :
    (∃ j, ForwardStop view (first :: later) j ∧
        (Index.pathTerms (first :: later))[j]? = some id) ↔
      later ≠ [] ∧
        (if first.has .returnStep then some first.target else firstStop? view later) = some id := by
  have hbefore {i : Nat} (hcall : hopHas later .callStep i = true) :
      (Index.pathTerms (first :: later))[i + 1]? = later[i]?.map Edge.source :=
    harrives.getElem?_pathTerms (Nat.succ_lt_succ (lt_length_of_hopHas hcall))
  have hbehind (i : Nat) :
      (Index.pathTerms (first :: later))[i + 2]? = later[i]?.map Edge.target :=
    Index.getElem?_pathTerms_succ (first :: later) (i + 1)
  cases hreturn : first.has .returnStep with
  | true =>
    simp only [forwardStop_cons_iff_of_return hreturn, if_true]
    constructor
    · rintro ⟨j, ⟨hne, rfl⟩, hterm⟩
      exact ⟨hne, hterm⟩
    · rintro ⟨hne, hterm⟩
      exact ⟨1, ⟨hne, rfl⟩, hterm⟩
  | false =>
    simp only [forwardStop_cons_iff hreturn, Bool.false_eq_true, if_false, firstStop?_eq_some_iff]
    constructor
    · rintro ⟨j, ⟨i, hearlier, hhidden, ⟨hcall, rfl⟩ | ⟨hreturns, hcall, rfl⟩⟩, hterm⟩
      · rw [hbefore hcall] at hterm
        refine ⟨?_, i, hearlier, hhidden, .inl ⟨hcall, hterm⟩⟩
        exact List.ne_nil_of_length_pos (Nat.zero_lt_of_lt (lt_length_of_hopHas hcall))
      · rw [hbehind] at hterm
        refine ⟨?_, i, hearlier, hhidden, .inr ⟨hreturns, hcall, hterm⟩⟩
        exact List.ne_nil_of_length_pos (Nat.zero_lt_of_lt (lt_length_of_hopHas hreturns))
    · rintro ⟨-, i, hearlier, hhidden, ⟨hcall, hterm⟩ | ⟨hreturns, hcall, hterm⟩⟩
      · exact ⟨i + 1, ⟨i, hearlier, hhidden, .inl ⟨hcall, rfl⟩⟩, (hbefore hcall).trans hterm⟩
      · exact ⟨i + 2, ⟨i, hearlier, hhidden, .inr ⟨hreturns, hcall, rfl⟩⟩, (hbehind i).trans hterm⟩

/-- A jump forward lands on the term at the stop. -/
theorem forwardStop?_path_eq_some_iff :
    forwardStop? view ((Index.ofGraph graph).path source target) = some id ↔
      ∃ j, ForwardStop view ((Index.ofGraph graph).path source target) j ∧
        (Index.pathTerms ((Index.ofGraph graph).path source target))[j]? = some id := by
  cases hpath : (Index.ofGraph graph).path source target with
  | nil =>
    simp only [forwardStop?, reduceCtorEq, false_iff]
    rintro ⟨j, hstop, -⟩
    exact absurd hstop.two_le_length (by simp)
  | cons first later =>
    have harrives := Index.arrives_path (by rw [hpath]; exact List.cons_ne_nil first later)
    rw [hpath] at harrives
    rw [exists_forwardStop_iff harrives]
    cases later with
    | nil => simp [forwardStop?]
    | cons second rest => simp [forwardStop?]

/-! ## Jumps backward -/

private theorem any_getElem?_dropLast (p : Edge → Bool) (path : List Edge) (i : Nat) :
    path.dropLast[i]?.any p = (decide (i + 2 ≤ path.length) && path[i]?.any p) := by
  rw [List.getElem?_dropLast]
  grind

private theorem showsAt_of_lt (harrives : (Index.ofGraph graph).Arrives source path target)
    {i : Nat} (hi : i < path.length) :
    showsAt view path i = path[i]?.any (view.shows ·.source) := by
  rw [showsAt, harrives.getElem?_pathTerms hi, Option.any_map]

/-- A jump backward lands on the term at the stop. -/
theorem lastCall?_path_eq_some_iff :
    lastCall? view ((Index.ofGraph graph).path source target).dropLast.reverse = some id ↔
      ∃ i, BackwardStop view ((Index.ofGraph graph).path source target) i ∧
        (Index.pathTerms ((Index.ofGraph graph).path source target))[i]? = some id := by
  by_cases hnil : (Index.ofGraph graph).path source target = []
  · rw [hnil]
    simp only [List.dropLast_nil, List.reverse_nil, lastCall?, reduceCtorEq, false_iff]
    rintro ⟨i, hstop, -⟩
    exact absurd hstop.bound (by simp)
  · have harrives := Index.arrives_path hnil
    generalize (Index.ofGraph graph).path source target = path at harrives
    rw [lastCall?_reverse_eq_some_iff]
    simp only [hopHas, any_getElem?_dropLast, Bool.and_eq_true, Bool.and_eq_false_iff,
      decide_eq_true_eq, decide_eq_false_iff_not]
    refine exists_congr fun i => ?_
    constructor
    · rintro ⟨⟨hbound, hcall⟩, hothers, hhidden, hterm⟩
      refine ⟨⟨hbound, hcall, ?_, ?_⟩, ?_⟩
      · intro h hlt hle
        exact (hothers h hlt).resolve_left (not_not_intro hle)
      · intro m hle hbound
        rw [showsAt_of_lt harrives (by omega)]
        exact (hhidden m hle).resolve_left (not_not_intro hbound)
      · rwa [List.getElem?_dropLast, if_pos (by omega),
          ← harrives.getElem?_pathTerms (by omega)] at hterm
    · rintro ⟨⟨hbound, hcall, hothers, hhidden⟩, hterm⟩
      refine ⟨⟨hbound, hcall⟩, ?_, ?_, ?_⟩
      · intro h hlt
        exact Classical.or_iff_not_imp_left.mpr fun hle => hothers h hlt (not_not.mp hle)
      · intro m hle
        refine Classical.or_iff_not_imp_left.mpr fun hbound => ?_
        have hbound := not_not.mp hbound
        rw [← showsAt_of_lt harrives (by omega)]
        exact hhidden m hle hbound
      · rwa [List.getElem?_dropLast, if_pos (by omega), ← harrives.getElem?_pathTerms (by omega)]

/-! ## Steps over -/

/-- The term that a step over along the path between two terms lands on. -/
def overStop? (index : Index) (view : View) (source target : TermId) : Option TermId := do
  let subterm ← index.activeSubterm? source target
  let destination ← (Index.pathTerms (index.path source target)).find?
    (index.parents (index.value subterm)).contains
  if view.shows destination then none else some destination

private theorem activeSubterm?_eq_bind (source target : TermId) :
    index.activeSubterm? source target =
      (index.path source target).head?.bind fun first =>
        (index.subterms source).find? fun subterm =>
          (index.next? subterm).any fun reduct => (index.parents reduct).contains first.target := by
  rw [Index.activeSubterm?]
  refine congrArg _ (funext fun first => congrArg (List.find? · _) (funext fun subterm => ?_))
  cases index.next? subterm <;> rfl

private theorem any_contains_parents_iff {next : TermId} :
    ((Index.ofGraph graph).next? subterm).any
        (fun reduct => ((Index.ofGraph graph).parents reduct).contains next) = true ↔
      Reduced (Index.ofGraph graph) next subterm := by
  simp only [Option.any_eq_true, List.contains_iff_mem, ← Index.mem_subterms_iff_mem_parents]
  rfl

/-- The active subterm is the first one that the first step reduces. -/
theorem activeSubterm?_eq_some_iff :
    (Index.ofGraph graph).activeSubterm? source target = some subterm ↔
      ∃ next, (Index.pathTerms ((Index.ofGraph graph).path source target))[1]? = some next ∧
        FirstReduced (Index.ofGraph graph) source next subterm := by
  rw [activeSubterm?_eq_bind, Index.getElem?_pathTerms_succ, ← List.head?_eq_getElem?]
  cases ((Index.ofGraph graph).path source target).head? with
  | none => simp
  | some first =>
    rw [Option.bind_some, List.find?_eq_some_iff_append]
    simp only [Bool.not_eq_true', ← Bool.not_eq_true, any_contains_parents_iff, Option.map_some,
      Option.some.injEq, exists_eq_left', FirstReduced]
    constructor
    · rintro ⟨hreduced, earlier, later, hsubterms, hearlier⟩
      exact ⟨earlier, later, hsubterms, hreduced, hearlier⟩
    · rintro ⟨earlier, later, hsubterms, hreduced, hearlier⟩
      exact ⟨hreduced, earlier, later, hsubterms, hearlier⟩

/-- The first term along a path with a subterm is the one at the first position that has it. -/
theorem find?_contains_parents_iff :
    (Index.pathTerms path).find? ((Index.ofGraph graph).parents subterm).contains = some id ↔
      ∃ j, HasSubtermAt (Index.ofGraph graph) path subterm j ∧
        (∀ i < j, ¬ HasSubtermAt (Index.ofGraph graph) path subterm i) ∧
        (Index.pathTerms path)[j]? = some id := by
  simp only [List.find?_eq_some_iff_getElem, List.contains_iff_mem,
    ← Index.mem_subterms_iff_mem_parents, Bool.not_eq_true', ← Bool.not_eq_true, HasSubtermAt]
  constructor
  · rintro ⟨hmem, j, hj, rfl, hearlier⟩
    refine ⟨j, ⟨_, List.getElem?_eq_getElem hj, hmem⟩, ?_, List.getElem?_eq_getElem hj⟩
    rintro i hi ⟨parent, hparent, hsubterm⟩
    rw [List.getElem?_eq_getElem (Nat.lt_trans hi hj)] at hparent
    rw [← Option.some.inj hparent] at hsubterm
    exact hearlier i hi hsubterm
  · rintro ⟨j, ⟨parent, hparent, hsubterm⟩, hearlier, hterm⟩
    obtain ⟨hj, hget⟩ := List.getElem?_eq_some_iff.mp hterm
    rw [hterm] at hparent
    rw [← Option.some.inj hparent] at hsubterm
    refine ⟨hsubterm, j, hj, hget, ?_⟩
    intro i hi hmem
    exact hearlier i hi ⟨_, List.getElem?_eq_getElem (Nat.lt_trans hi hj), hmem⟩

/-- A step over lands on the term at the stop. -/
theorem overStop?_eq_some_iff :
    overStop? (Index.ofGraph graph) view source target = some id ↔
      ∃ j, OverStop (Index.ofGraph graph) view source
          ((Index.ofGraph graph).path source target) j ∧
        (Index.pathTerms ((Index.ofGraph graph).path source target))[j]? = some id := by
  constructor
  · intro h
    obtain ⟨subterm, hactive, h⟩ := Option.bind_eq_some_iff.mp h
    obtain ⟨destination, hfound, h⟩ := Option.bind_eq_some_iff.mp h
    split at h
    · cases h
    · next hhidden =>
      cases h
      obtain ⟨next, hnext, hreduced⟩ := activeSubterm?_eq_some_iff.mp hactive
      obtain ⟨j, hsubterm, hearlier, hterm⟩ := find?_contains_parents_iff.mp hfound
      refine ⟨j, ⟨next, subterm, hnext, hreduced, hsubterm, hearlier, ?_⟩, hterm⟩
      rw [showsAt, hterm, Option.any_some]
      exact Bool.eq_false_iff.mpr hhidden
  · rintro ⟨j, ⟨next, subterm, hnext, hreduced, hsubterm, hearlier, hhidden⟩, hterm⟩
    rw [showsAt, hterm, Option.any_some] at hhidden
    rw [overStop?, activeSubterm?_eq_some_iff.mpr ⟨next, hnext, hreduced⟩]
    simp only [Option.bind_eq_bind, Option.bind_some,
      find?_contains_parents_iff.mpr ⟨j, hsubterm, hearlier, hterm⟩, hhidden,
      Bool.false_eq_true, if_false]

end Paths

/-! ## Rules -/

section Rules

variable {index : Index} {view : View} {selected : TermId} {split : Split}

private theorem jumpForward?_eq_bind :
    jumpForward? index view selected =
      (view.soleOutgoing? selected).bind fun link =>
        (forwardStop? view (index.path link.source link.target)).map (Split.mk · link) := by
  rw [jumpForward?]
  refine congrArg _ (funext fun link => ?_)
  cases index.path link.source link.target with
  | nil => rfl
  | cons first later =>
    cases later with
    | nil => rfl
    | cons second rest =>
      simp only [forwardStop?]
      split
      · rfl
      · cases firstStop? view (second :: rest) <;> rfl

private theorem jumpBackward?_eq_bind :
    jumpBackward? index view selected =
      (view.soleIncoming? selected).bind fun link =>
        (lastCall? view (index.path link.source link.target).dropLast.reverse).map
          (Split.mk · link) := by
  rw [jumpBackward?]
  refine congrArg _ (funext fun link => ?_)
  dsimp only
  cases lastCall? view (index.path link.source link.target).dropLast.reverse <;> rfl

private theorem stepOver?_eq_bind :
    stepOver? index view selected =
      (view.soleOutgoing? selected).bind fun link =>
        (overStop? index view link.source link.target).map (Split.mk · link) := by
  rw [stepOver?]
  refine congrArg _ (funext fun link => ?_)
  rw [overStop?]
  dsimp only
  cases index.activeSubterm? link.source link.target with
  | none => rfl
  | some subterm =>
    simp only [Option.bind_eq_bind, Option.bind_some]
    cases (Index.pathTerms (index.path link.source link.target)).find?
      (index.parents (index.value subterm)).contains with
    | none => rfl
    | some destination =>
      simp only [Option.bind_some]
      split <;> rfl

private theorem bind_map_mk_eq_some_iff {sole : Option Link} {stop? : Link → Option TermId} :
    (sole.bind fun link => (stop? link).map (Split.mk · link)) = some split ↔
      sole = some split.replacing ∧ stop? split.replacing = some split.destination := by
  constructor
  · intro h
    obtain ⟨link, hsole, hfound⟩ := Option.bind_eq_some_iff.mp h
    obtain ⟨destination, hstop, rfl⟩ := Option.map_eq_some_iff.mp hfound
    exact ⟨hsole, hstop⟩
  · rintro ⟨hsole, hstop⟩
    rw [hsole, Option.bind_some, hstop, Option.map_some]

/-- In a view of any run the terms behind a shown link are distinct, whatever graph the view was
built on. -/
theorem nodup_pathTerms_of_showsLink (graph other : Graph) (commands : List View.Command)
    {link : Link}
    (hlink : ((View.start (Index.ofGraph other)).run (Index.ofGraph other) commands).showsLink
      link = true) :
    (Index.pathTerms ((Index.ofGraph graph).path link.source link.target)).Nodup := by
  have hstart : View.Grown (Index.ofGraph other) (View.start (Index.ofGraph other)) := .start
  have hview := hstart.run commands
  apply Index.nodup_pathTerms_of_ne
  intro heq
  exact hview.laidOut.not_transGen_linked link.source (.single ⟨link, hlink, rfl, heq.symm⟩)

end Rules

/-- A jump forward, a jump backward and a step over arm exactly the term at their stop on the path
behind the only link that leaves or enters the selected term, and nothing if there is no such link
or no stop. In a view of any run no other position of the path has that term. -/
theorem scans_land_at_stops (graph : Graph) (view : View) (selected : TermId) (split : Split) :
    let index := Index.ofGraph graph
    let path := index.path split.replacing.source split.replacing.target
    let LandsAt (Stop : Nat → Prop) : Prop :=
      ∃ j, Stop j ∧ (Index.pathTerms path)[j]? = some split.destination
    (jumpForward? index view selected = some split ↔
        view.soleOutgoing? selected = some split.replacing ∧ LandsAt (ForwardStop view path)) ∧
      (jumpBackward? index view selected = some split ↔
        view.soleIncoming? selected = some split.replacing ∧ LandsAt (BackwardStop view path)) ∧
      (stepOver? index view selected = some split ↔
        view.soleOutgoing? selected = some split.replacing ∧
          LandsAt (OverStop index view split.replacing.source path)) ∧
      ∀ (other : Graph) (commands : List View.Command),
        ((View.start (Index.ofGraph other)).run (Index.ofGraph other) commands).showsLink
          split.replacing = true → (Index.pathTerms path).Nodup := by
  intro index path LandsAt
  refine ⟨?_, ?_, ?_, fun other commands => nodup_pathTerms_of_showsLink graph other commands⟩
  · rw [jumpForward?_eq_bind, bind_map_mk_eq_some_iff, forwardStop?_path_eq_some_iff]
  · rw [jumpBackward?_eq_bind, bind_map_mk_eq_some_iff, lastCall?_path_eq_some_iff]
  · rw [stepOver?_eq_bind, bind_map_mk_eq_some_iff, overStop?_eq_some_iff]

end Plan

end ReductionStepper
