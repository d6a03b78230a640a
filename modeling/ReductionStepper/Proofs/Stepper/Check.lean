import Mathlib.Tactic.SplitIfs
import ReductionStepper.Proofs.Workbench.Ticket
import ReductionStepper.Stepper

/-!
# Checks along a run

A stepper asks for checks, hands them out and takes their results, in any order and next to all
other keys. Of each run this notes the tickets issued, those handed out and those whose result was
applied; `Accounts` ties them to the state of the stepper, and all inputs keep it. So only the
result of the newest check counts, only once, and that check is not lost while its result is
awaited.
-/

namespace ReductionStepper

namespace Stepper

variable {stepper : Stepper} {input : Input} {inputs others : List Input} {key : Key}
  {ticket : Ticket} {result : CheckResult} {given taken used : List Ticket}

/-! ## Notes on a run -/

/-- What is noted along a run, in order. A note is on an input and the stepper that receives it. -/
def along {α : Type} (note : Stepper → Input → Option α) : Stepper → List Input → List α
  | _, [] => []
  | stepper, input :: later =>
    (note stepper input).toList ++ along note (stepper.receive input) later

/-- The ticket of the check that an input starts. -/
def issues? (stepper : Stepper) : Input → Option Ticket
  | .key key =>
    if key = .char 'c' ∧ stepper.help = none ∧ stepper.canCheck = true then
      some stepper.bench.beginCheck.1.1
    else none
  | _ => none

/-- The ticket of the check that an input hands out. -/
def hands? (stepper : Stepper) : Input → Option Ticket
  | .take => stepper.takePending.1.map Prod.fst
  | _ => none

/-- The ticket of the result that an input applies. -/
def applies? (stepper : Stepper) : Input → Option Ticket
  | .deliver ticket result =>
    if (stepper.deliver ticket result).1 = .stale then none else some ticket
  | _ => none

/-- The input, unless it delivers a stale result. -/
def heeds? (stepper : Stepper) : Input → Option Input
  | .deliver ticket result =>
    if (stepper.deliver ticket result).1 = .stale then none else some (.deliver ticket result)
  | input => some input

/-- The tickets issued in a run, oldest first. -/
def issued (stepper : Stepper) (inputs : List Input) : List Ticket := along issues? stepper inputs

/-- The tickets handed out in a run, oldest first. -/
def handed (stepper : Stepper) (inputs : List Input) : List Ticket := along hands? stepper inputs

/-- The tickets whose result was applied in a run, oldest first. -/
def applied (stepper : Stepper) (inputs : List Input) : List Ticket := along applies? stepper inputs

/-- The inputs of a run without the deliveries of stale results. -/
def heeded (stepper : Stepper) (inputs : List Input) : List Input := along heeds? stepper inputs

/-- Whenever a result is delivered in a run, its ticket was issued before: in the run or, as
`hasIssued_run` says, before it. -/
def DeliversIssued : Stepper → List Input → Prop
  | _, [] => True
  | stepper, input :: later =>
    (∀ ticket result, input = .deliver ticket result → stepper.bench.tracker.HasIssued ticket) ∧
      DeliversIssued (stepper.receive input) later

/-- A run starts with its first input. -/
theorem run_cons : stepper.run (input :: inputs) = (stepper.receive input).run inputs := rfl

private theorem along_append {α : Type} (note : Stepper → Input → Option α) (stepper : Stepper) :
    along note stepper (inputs ++ others) =
      along note stepper inputs ++ along note (stepper.run inputs) others := by
  induction inputs generalizing stepper with
  | nil => rfl
  | cons input inputs ih => rw [List.cons_append, along, along, ih, List.append_assoc, run_cons]

private theorem deliversIssued_append :
    stepper.DeliversIssued (inputs ++ others) ↔
      stepper.DeliversIssued inputs ∧ (stepper.run inputs).DeliversIssued others := by
  induction inputs generalizing stepper with
  | nil => simp [DeliversIssued, run]
  | cons input inputs ih =>
    rw [List.cons_append, DeliversIssued, DeliversIssued, ih, and_assoc, run_cons]

/-! ## Keys -/

/-- Both steppers are at the same point with their checks. -/
structure SameChecks (stepper later : Stepper) : Prop where
  tracker : later.bench.tracker = stepper.bench.tracker
  pending : later.pending = stepper.pending

namespace SameChecks

private theorem refl (stepper : Stepper) : SameChecks stepper stepper := ⟨rfl, rfl⟩

private theorem select (stepper : Stepper) (id : TermId) :
    SameChecks stepper (stepper.select id) := by
  unfold Stepper.select
  split
  · exact .refl stepper
  · split <;> exact ⟨rfl, rfl⟩

/-- Selecting the term that a key moves to, if there is one. -/
theorem selectFrom (stepper : Stepper) (id? : Option TermId) :
    SameChecks stepper (match id? with | none => stepper | some id => stepper.select id) := by
  cases id? with
  | none => exact .refl stepper
  | some id => exact .select stepper id

private theorem selectNext (stepper : Stepper) : SameChecks stepper stepper.selectNext :=
  .selectFrom stepper _

private theorem selectPrevious (stepper : Stepper) : SameChecks stepper stepper.selectPrevious :=
  .selectFrom stepper _

private theorem selectFirst (stepper : Stepper) : SameChecks stepper stepper.selectFirst :=
  .selectFrom stepper _

private theorem selectLast (stepper : Stepper) : SameChecks stepper stepper.selectLast :=
  .selectFrom stepper _

private theorem reselect (stepper : Stepper) : SameChecks stepper stepper.reselect := by
  unfold Stepper.reselect
  split
  · exact .selectFirst stepper
  · exact .select stepper _

private theorem perform (stepper : Stepper) (action : Action) :
    SameChecks stepper (stepper.perform action) := by
  unfold Stepper.perform
  split
  · exact ⟨rfl, rfl⟩
  · split <;> exact ⟨rfl, rfl⟩

private theorem undo (stepper : Stepper) : SameChecks stepper stepper.undo := by
  unfold Stepper.undo
  split
  · exact .refl stepper
  · exact ⟨rfl, rfl⟩

private theorem reset (stepper : Stepper) : SameChecks stepper stepper.reset := by
  unfold Stepper.reset
  split
  · exact .refl stepper
  · exact ⟨rfl, rfl⟩

private theorem deselect (stepper : Stepper) : SameChecks stepper stepper.deselect := ⟨rfl, rfl⟩

private theorem pressInHelp (stepper : Stepper) (scroll : UInt16) (key : Key) :
    SameChecks stepper (stepper.pressInHelp scroll key) := by
  cases key with
  | char c =>
    unfold Stepper.pressInHelp
    dsimp only
    split_ifs <;> exact ⟨rfl, rfl⟩
  | _ => exact ⟨rfl, rfl⟩

/-- A character that is not a `c` that asks for a check. -/
theorem pressChar {c : Char} (h : c = 'c' → stepper.canCheck = false) :
    SameChecks stepper (stepper.pressChar c) := by
  unfold Stepper.pressChar
  split_ifs with hquit hhelp hnext hprevious hfirst hlast hundo hreset hcheck
  · exact ⟨rfl, rfl⟩
  · exact ⟨rfl, rfl⟩
  · exact .selectNext stepper
  · exact .selectPrevious stepper
  · exact .selectFirst stepper
  · exact .selectLast stepper
  · exact .undo stepper
  · exact .reset stepper
  · rw [queueCheck, h hcheck]
    exact ⟨rfl, rfl⟩
  · split
    · exact .refl stepper
    · exact .perform stepper _

/-- A key that starts no check. -/
theorem press (h : stepper.issues? (.key key) = none) : SameChecks stepper (stepper.press key) := by
  unfold Stepper.press
  split
  · exact .pressInHelp stepper _ key
  · next hhelp =>
    cases key with
    | char c =>
      apply pressChar
      intro hcheck
      simpa [issues?, hcheck, hhelp] using h
    | escape => exact .deselect stepper
    | enter => exact .reselect stepper
    | up => exact .selectPrevious stepper
    | down => exact .selectNext stepper
    | home => exact .selectFirst stepper
    | last => exact .selectLast stepper
    | other => exact .refl stepper

end SameChecks

/-- A key that starts a check. -/
theorem press_of_issues (h : stepper.issues? (.key key) = some ticket) :
    ticket = stepper.bench.tracker.issue.1 ∧
      (stepper.press key).bench.tracker = stepper.bench.tracker.issue.2 ∧
      (stepper.press key).pending.map Prod.fst = some ticket := by
  simp only [issues?] at h
  split at h
  · next hkey =>
    obtain ⟨rfl, hhelp, hcheck⟩ := hkey
    have hpress : stepper.press (.char 'c') = stepper.queueCheck := by
      rw [press, hhelp]
      rfl
    rw [hpress, queueCheck, hcheck, ← Option.some.inj h]
    exact ⟨rfl, rfl, rfl⟩
  · cases h

/-! ## Results -/

/-- Delivering lets the workbench take the result, and keeps the check that waits. -/
theorem deliver_spec (stepper : Stepper) (ticket : Ticket) (result : CheckResult) :
    (stepper.deliver ticket result).1 = (stepper.bench.finishCheck ticket result).1 ∧
      (stepper.deliver ticket result).2.bench = (stepper.bench.finishCheck ticket result).2 ∧
      (stepper.deliver ticket result).2.pending = stepper.pending := by
  unfold deliver
  split <;> next heq => exact ⟨by rw [heq], by rw [heq], rfl⟩

private theorem deliver_eq_stale_iff :
    (stepper.deliver ticket result).1 = .stale ↔
      (stepper.bench.tracker.settle ticket).1 = false := by
  rw [(stepper.deliver_spec ticket result).1, Workbench.finishCheck_eq_stale_iff]

private theorem tracker_deliver :
    (stepper.deliver ticket result).2.bench.tracker = (stepper.bench.tracker.settle ticket).2 := by
  rw [(stepper.deliver_spec ticket result).2.1, Workbench.tracker_finishCheck]

/-- A stale result changes nothing at all. -/
theorem deliver_of_stale (h : (stepper.deliver ticket result).1 = .stale) :
    (stepper.deliver ticket result).2 = stepper := by
  have hsettle := deliver_eq_stale_iff.mp h
  rw [deliver, Workbench.finishCheck_of_not_settle hsettle]

/-- So a run can do without the stale results. -/
theorem run_heeded (stepper : Stepper) (inputs : List Input) :
    stepper.run (stepper.heeded inputs) = stepper.run inputs := by
  induction inputs generalizing stepper with
  | nil => rfl
  | cons input inputs ih =>
    rw [run_cons, ← ih, heeded, along]
    cases input with
    | key key => rfl
    | take => rfl
    | deliver ticket result =>
      by_cases hstale : (stepper.deliver ticket result).1 = .stale
      · have hskips : stepper.heeds? (.deliver ticket result) = none := if_pos hstale
        rw [hskips, receive, deliver_of_stale hstale]
        rfl
      · have hkeeps : stepper.heeds? (.deliver ticket result) = some (.deliver ticket result) :=
          if_neg hstale
        rw [hkeeps]
        rfl

/-! ## Accounts -/

/-- What a stepper knows of the tickets issued, handed out and applied, oldest first. -/
structure Accounts (stepper : Stepper) (given taken used : List Ticket) : Prop where
  tracker : stepper.bench.tracker.Accounts given used
  kept : ∀ ticket, given.getLast? = some ticket → ticket ∉ used →
    stepper.pending.map Prod.fst = some ticket ∨ ticket ∈ taken

/-- As many numbers are used up as tickets are issued. -/
theorem toNat_latest_receive (stepper : Stepper) (input : Input)
    (h : stepper.bench.tracker.latest.toNat + (stepper.issues? input).toList.length < UInt64.size) :
    (stepper.receive input).bench.tracker.latest.toNat =
      stepper.bench.tracker.latest.toNat + (stepper.issues? input).toList.length := by
  cases input with
  | key key =>
    cases hissues : stepper.issues? (.key key) with
    | none => rw [receive, (SameChecks.press hissues).tracker]; rfl
    | some ticket =>
      rw [hissues] at h
      rw [receive, (press_of_issues hissues).2.1, Tracker.toNat_latest_issue h]
      rfl
  | take => rfl
  | deliver ticket result =>
    rw [receive, tracker_deliver, Tracker.latest_settle]
    rfl

/-- The tickets issued are those issued before and the one that the input issues. -/
theorem hasIssued_receive
    (h : stepper.bench.tracker.latest.toNat + (stepper.issues? input).toList.length < UInt64.size) :
    (stepper.receive input).bench.tracker.HasIssued ticket ↔
      stepper.bench.tracker.HasIssued ticket ∨ ticket ∈ (stepper.issues? input).toList := by
  cases hissues : stepper.issues? input with
  | none =>
    have hlatest := stepper.toNat_latest_receive input h
    rw [hissues] at hlatest
    simp [Tracker.HasIssued, UInt64.toNat_inj.mp hlatest]
  | some fresh =>
    cases input with
    | key key =>
      rw [hissues] at h
      obtain ⟨rfl, htracker, -⟩ := press_of_issues hissues
      rw [receive, htracker, Tracker.hasIssued_issue h, Option.toList_some, List.mem_singleton]
    | take => cases hissues
    | deliver ticket result => cases hissues

/-- The tickets issued after a run are those issued before and those issued in it. -/
theorem hasIssued_run
    (h : stepper.bench.tracker.latest.toNat + (stepper.issued inputs).length < UInt64.size) :
    (stepper.run inputs).bench.tracker.HasIssued ticket ↔
      stepper.bench.tracker.HasIssued ticket ∨ ticket ∈ stepper.issued inputs := by
  induction inputs generalizing stepper with
  | nil => simp [issued, along, run]
  | cons input inputs ih =>
    rw [issued, along, List.length_append] at h
    have hlatest := stepper.toNat_latest_receive input (by omega)
    rw [run_cons, ih (by rw [hlatest, Nat.add_assoc]; exact h), hasIssued_receive (by omega),
      issued, issued, along, List.mem_append, or_assoc]

namespace Accounts

/-- An account can be opened whenever no check is under way. -/
theorem idle (h : stepper.bench.inFlight = false) : stepper.Accounts [] [] [] where
  tracker := .idle h
  kept := nofun

variable (h : stepper.Accounts given taken used)

include h

/-- A key may start a check. -/
theorem press (hroom : stepper.bench.tracker.latest.toNat +
      (stepper.issues? (.key key)).toList.length < UInt64.size) :
    (stepper.press key).Accounts (given ++ (stepper.issues? (.key key)).toList) taken used := by
  cases hissues : stepper.issues? (.key key) with
  | none =>
    have hsame := SameChecks.press hissues
    rw [Option.toList_none, List.append_nil]
    refine ⟨?_, ?_⟩
    · rw [hsame.tracker]
      exact h.tracker
    · rw [hsame.pending]
      exact h.kept
  | some ticket =>
    rw [hissues] at hroom
    obtain ⟨rfl, htracker, hpending⟩ := press_of_issues hissues
    refine ⟨?_, ?_⟩
    · rw [htracker]
      exact h.tracker.issue hroom
    -- the new check takes the place of one that waits, but that one no longer is the newest
    · intro newest hnewest _
      rw [Option.toList_some, List.getLast?_concat] at hnewest
      exact .inl (hpending.trans hnewest)

/-- The check that waits may be handed out. -/
theorem takePending :
    stepper.takePending.2.Accounts given (taken ++ (stepper.hands? .take).toList) used where
  tracker := h.tracker
  kept := by
    intro ticket hnewest hunused
    right
    rcases h.kept ticket hnewest hunused with hpending | htaken
    · have hhands : stepper.hands? .take = some ticket := hpending
      rw [hhands]
      exact List.mem_append_right taken List.mem_cons_self
    · exact List.mem_append_left _ htaken

/-- A result is not stale exactly if its ticket is the newest one and was not used before. -/
theorem deliver_ne_stale_iff (hissued : stepper.bench.tracker.HasIssued ticket) :
    (stepper.deliver ticket result).1 ≠ .stale ↔ given.getLast? = some ticket ∧ ticket ∉ used := by
  rw [Ne, deliver_eq_stale_iff, Bool.not_eq_false, h.tracker.settle_eq_true_iff hissued]

/-- A result may be applied. -/
theorem deliver (result : CheckResult) (hissued : stepper.bench.tracker.HasIssued ticket) :
    (stepper.deliver ticket result).2.Accounts given taken
      (used ++ (stepper.applies? (.deliver ticket result)).toList) := by
  by_cases hstale : (stepper.deliver ticket result).1 = .stale
  · have happlies : stepper.applies? (.deliver ticket result) = none := if_pos hstale
    rw [happlies, deliver_of_stale hstale, Option.toList_none, List.append_nil]
    exact h
  · have happlies : stepper.applies? (.deliver ticket result) = some ticket := if_neg hstale
    have hsettle : (stepper.bench.tracker.settle ticket).1 = true := by
      rwa [deliver_eq_stale_iff, Bool.not_eq_false] at hstale
    rw [happlies]
    refine ⟨?_, ?_⟩
    · rw [tracker_deliver]
      exact h.tracker.settle hissued hsettle
    · intro newest hnewest hunused
      rw [(stepper.deliver_spec ticket result).2.2]
      exact h.kept newest hnewest fun hused => hunused (List.mem_append_left _ hused)

/-- Accounts are kept by every input; each adds to one of the three lists at most. -/
theorem receive
    (hissued : ∀ ticket result, input = .deliver ticket result →
      stepper.bench.tracker.HasIssued ticket)
    (hroom : stepper.bench.tracker.latest.toNat + (stepper.issues? input).toList.length <
      UInt64.size) :
    (stepper.receive input).Accounts (given ++ (stepper.issues? input).toList)
      (taken ++ (stepper.hands? input).toList) (used ++ (stepper.applies? input).toList) := by
  cases input with
  | key key =>
    have hpress := h.press hroom
    rwa [← List.append_nil taken, ← List.append_nil used] at hpress
  | take =>
    have htake := h.takePending
    rwa [← List.append_nil given, ← List.append_nil used] at htake
  | deliver ticket result =>
    have hdeliver := h.deliver result (hissued ticket result rfl)
    rwa [← List.append_nil given, ← List.append_nil taken] at hdeliver

/-- Accounts are kept along every run. -/
theorem run (hdelivers : stepper.DeliversIssued inputs)
    (hroom : stepper.bench.tracker.latest.toNat + (stepper.issued inputs).length < UInt64.size) :
    (stepper.run inputs).Accounts (given ++ stepper.issued inputs) (taken ++ stepper.handed inputs)
      (used ++ stepper.applied inputs) := by
  induction inputs generalizing stepper given taken used with
  | nil =>
    rw [issued, handed, applied, along, along, along, List.append_nil, List.append_nil,
      List.append_nil]
    exact h
  | cons input inputs ih =>
    rw [issued, along, List.length_append] at hroom
    -- what the first input issues uses up its share of the numbers that are left
    have hstep := h.receive hdelivers.1 (by omega)
    have hlatest := stepper.toNat_latest_receive input (by omega)
    rw [issued, handed, applied, along, along, along, ← List.append_assoc, ← List.append_assoc,
      ← List.append_assoc, run_cons]
    apply ih hstep hdelivers.2
    rw [hlatest, Nat.add_assoc]
    exact hroom

end Accounts

/-- Whatever a stepper without a check under way is given, as long as results come for tickets that
were issued and tickets do not run out of numbers: a result is applied exactly if its ticket is the
newest one and no result was applied for it yet; results are applied in the order of their tickets;
stale results might as well not have come; a check is under way exactly if the newest ticket of the
run has no result yet; and then that check still waits to be taken or was handed out. -/
theorem only_newest_check_counts (hidle : stepper.bench.inFlight = false)
    (hdelivers : stepper.DeliversIssued inputs)
    (hroom : stepper.bench.tracker.latest.toNat + (stepper.issued inputs).length < UInt64.size) :
    (∀ before ticket result after, inputs = before ++ .deliver ticket result :: after →
      (((stepper.run before).deliver ticket result).1 ≠ .stale ↔
        (stepper.issued before).getLast? = some ticket ∧ ticket ∉ stepper.applied before)) ∧
      (stepper.applied inputs).Pairwise (·.generation < ·.generation) ∧
      stepper.run (stepper.heeded inputs) = stepper.run inputs ∧
      ((stepper.run inputs).bench.inFlight = true ↔
        ∃ ticket, (stepper.issued inputs).getLast? = some ticket ∧
          ticket ∉ stepper.applied inputs) ∧
      ((stepper.run inputs).bench.inFlight = true →
        ∃ ticket, (stepper.issued inputs).getLast? = some ticket ∧
          ((stepper.run inputs).pending.map Prod.fst = some ticket ∨
            ticket ∈ stepper.handed inputs)) := by
  have haccounts := (Accounts.idle hidle).run hdelivers hroom
  refine ⟨?_, haccounts.tracker.increasing, stepper.run_heeded inputs,
    haccounts.tracker.inFlight_iff, ?_⟩
  · rintro before ticket result after rfl
    rw [deliversIssued_append] at hdelivers
    rw [issued, along_append, List.length_append] at hroom
    have hbefore : stepper.bench.tracker.latest.toNat + (stepper.issued before).length <
        UInt64.size := by
      rw [issued]
      omega
    exact ((Accounts.idle hidle).run hdelivers.1 hbefore).deliver_ne_stale_iff
      (hdelivers.2.1 ticket result rfl)
  · intro hflight
    obtain ⟨ticket, hnewest, hunused⟩ := haccounts.tracker.inFlight_iff.mp hflight
    exact ⟨ticket, hnewest, haccounts.kept ticket hnewest hunused⟩

/-- Of two checks under way the result of the older one comes first and is stale; that of the newer
one is applied, when it comes for the first time. -/
theorem only_newest_check_counts_overlapping :
    let stepper := start (.start "" "main") ⟨none⟩ true
    let first : Ticket := ⟨1⟩
    let second : Ticket := ⟨2⟩
    let result : CheckResult := .error .timedOut
    let before : List Input :=
      [.key (.char 'c'), .take, .key (.char 'c'), .take, .deliver first result]
    let inputs : List Input := before ++ [.deliver second result, .deliver second result]
    stepper.bench.inFlight = false ∧ stepper.DeliversIssued inputs ∧
      stepper.issued inputs = [first, second] ∧ stepper.applied inputs = [second] ∧
      (stepper.heeded inputs).length = 5 ∧
      stepper.run (stepper.heeded inputs) = stepper.run inputs ∧
      ((stepper.run before).deliver second result).1 ≠ .stale ∧
      (stepper.run inputs).bench.inFlight ≠ true := by
  intro stepper first second result before inputs
  have hidle : stepper.bench.inFlight = false := rfl
  have hdelivers : stepper.DeliversIssued inputs := by
    refine ⟨nofun, nofun, nofun, nofun, ?_, ?_, ?_, trivial⟩ <;>
      · rintro ticket result ⟨⟩
        decide
  have hissued : stepper.issued inputs = [first, second] := rfl
  have happlied : stepper.applied inputs = [second] := rfl
  have hroom : stepper.bench.tracker.latest.toNat + (stepper.issued inputs).length <
      UInt64.size := by
    decide
  obtain ⟨hcounts, -, hheeded, hflight, -⟩ := only_newest_check_counts hidle hdelivers hroom
  refine ⟨hidle, hdelivers, hissued, happlied, rfl, hheeded, ?_, ?_⟩
  · exact (hcounts before second result [.deliver second result] rfl).mpr ⟨rfl, by decide⟩
  · rw [ne_eq, hflight, hissued, happlied]
    decide

end Stepper

end ReductionStepper
