import ReductionStepper.Workbench

/-!
# Tickets

Checks overlap, and their results come late, twice or in any order. A tracker remembers of all that
one number and one bit. `Tracker.Accounts` says that this is enough: of the tickets issued and those
applied, the tracker knows the newest ticket and whether it still waits for its result. Issuing and
settling keep this, and settling succeeds exactly with the newest ticket, if it was not applied.
-/

namespace ReductionStepper

namespace Tracker

variable {tracker : Tracker} {ticket : Ticket} {issued applied : List Ticket}

/-- Whether a ticket was issued. Tickets are numbered from one up to the newest. -/
def HasIssued (tracker : Tracker) (ticket : Ticket) : Prop :=
  0 < ticket.generation ∧ ticket.generation ≤ tracker.latest

instance (tracker : Tracker) (ticket : Ticket) : Decidable (tracker.HasIssued ticket) :=
  inferInstanceAs (Decidable (_ ∧ _))

/-- A check is under way if one was issued and the newest is not settled. -/
theorem inFlight_eq_true_iff :
    tracker.inFlight = true ↔ 0 < tracker.latest ∧ tracker.settled = false := by
  simp [inFlight]

/-- A result is taken exactly if it is that of the newest check and the first one for it. -/
theorem settle_eq_true_iff :
    (tracker.settle ticket).1 = true ↔
      ticket.generation = tracker.latest ∧ tracker.settled = false := by
  unfold settle
  split <;> simp_all [isCurrent]

/-- A ticket that counts settles the tracker. -/
theorem settle_of_true (h : (tracker.settle ticket).1 = true) :
    (tracker.settle ticket).2 = { tracker with settled := true } := by
  unfold settle at h ⊢
  split at h
  · next hcounts => rw [if_pos hcounts]
  · cases h

/-- A ticket that does not count changes nothing. -/
theorem settle_of_false (h : (tracker.settle ticket).1 = false) :
    (tracker.settle ticket).2 = tracker := by
  unfold settle at h ⊢
  split at h
  · cases h
  · next hcounts => rw [if_neg hcounts]

/-- Settling issues no check. -/
theorem latest_settle : (tracker.settle ticket).2.latest = tracker.latest := by
  unfold settle
  split <;> rfl

/-- The next number is one more, as long as there is one. -/
theorem toNat_latest_issue (h : tracker.latest.toNat + 1 < UInt64.size) :
    tracker.issue.2.latest.toNat = tracker.latest.toNat + 1 := by
  rw [issue, UInt64.toNat_add, UInt64.toNat_one, Nat.mod_eq_of_lt h]

/-- Issuing adds one ticket to those issued. -/
theorem hasIssued_issue (h : tracker.latest.toNat + 1 < UInt64.size) :
    tracker.issue.2.HasIssued ticket ↔ tracker.HasIssued ticket ∨ ticket = tracker.issue.1 := by
  have hlatest := toNat_latest_issue h
  have hnumber : ticket = tracker.issue.1 ↔ ticket.generation = tracker.issue.2.latest := by
    cases ticket
    simp [issue]
  rw [hnumber, HasIssued, HasIssued]
  simp only [UInt64.le_iff_toNat_le, UInt64.lt_iff_toNat_lt, ← UInt64.toNat_inj, hlatest,
    UInt64.toNat_zero]
  omega

/-- What a tracker knows of the tickets issued and of those applied, oldest first. -/
structure Accounts (tracker : Tracker) (issued applied : List Ticket) : Prop where
  newest : ∀ ticket, issued.getLast? = some ticket → ticket.generation = tracker.latest
  inFlight_iff : tracker.inFlight = true ↔
    ∃ ticket, issued.getLast? = some ticket ∧ ticket ∉ applied
  le_latest : ∀ ticket ∈ applied, ticket.generation ≤ tracker.latest
  increasing : applied.Pairwise (·.generation < ·.generation)

namespace Accounts

/-- An account can be opened whenever no check is under way. -/
theorem idle (h : tracker.inFlight = false) : tracker.Accounts [] [] where
  newest := by simp
  inFlight_iff := by simp [h]
  le_latest := by simp
  increasing := .nil

variable (h : tracker.Accounts issued applied)

include h

/-- The newest ticket is the one with the newest number. -/
theorem eq_of_generation_eq {newest : Ticket} (hnewest : issued.getLast? = some newest)
    (hticket : ticket.generation = tracker.latest) : ticket = newest := by
  have hsame := h.newest newest hnewest
  cases ticket
  cases newest
  congr
  exact hticket.trans hsame.symm

/-- Issuing a ticket. -/
theorem issue (hroom : tracker.latest.toNat + 1 < UInt64.size) :
    tracker.issue.2.Accounts (issued ++ [tracker.issue.1]) applied := by
  have hlatest := toNat_latest_issue hroom
  have hlater : ∀ ticket ∈ applied, ticket.generation < tracker.issue.2.latest := by
    intro ticket hticket
    have hle := UInt64.le_iff_toNat_le.mp (h.le_latest ticket hticket)
    rw [UInt64.lt_iff_toNat_lt, hlatest]
    omega
  have hfresh : tracker.issue.1 ∉ applied := fun hmem => UInt64.lt_irrefl _ (hlater _ hmem)
  refine ⟨?_, ?_, ?_, h.increasing⟩
  · intro ticket hticket
    rw [List.getLast?_concat] at hticket
    rw [← Option.some.inj hticket]
    rfl
  · rw [inFlight_eq_true_iff, List.getLast?_concat]
    have hpositive : 0 < tracker.issue.2.latest := by
      rw [UInt64.lt_iff_toNat_lt, hlatest]
      exact Nat.succ_pos _
    exact iff_of_true ⟨hpositive, rfl⟩ ⟨tracker.issue.1, rfl, hfresh⟩
  · intro ticket hticket
    exact UInt64.le_of_lt (hlater ticket hticket)

/-- A ticket counts exactly if it is the newest one and was not applied. -/
theorem settle_eq_true_iff (hissued : tracker.HasIssued ticket) :
    (tracker.settle ticket).1 = true ↔ issued.getLast? = some ticket ∧ ticket ∉ applied := by
  rw [Tracker.settle_eq_true_iff]
  constructor
  · rintro ⟨hgeneration, hsettled⟩
    have hflight : tracker.inFlight = true :=
      inFlight_eq_true_iff.mpr ⟨hgeneration ▸ hissued.1, hsettled⟩
    obtain ⟨newest, hnewest, hwaiting⟩ := h.inFlight_iff.mp hflight
    rw [h.eq_of_generation_eq hnewest hgeneration]
    exact ⟨hnewest, hwaiting⟩
  · intro hnewest
    have hflight := h.inFlight_iff.mpr ⟨ticket, hnewest⟩
    exact ⟨h.newest ticket hnewest.1, (inFlight_eq_true_iff.mp hflight).2⟩

/-- Settling with a ticket that counts. -/
theorem settle (hissued : tracker.HasIssued ticket) (hsettled : (tracker.settle ticket).1 = true) :
    (tracker.settle ticket).2.Accounts issued (applied ++ [ticket]) := by
  obtain ⟨hnewest, hwaiting⟩ := (h.settle_eq_true_iff hissued).mp hsettled
  have hgeneration := h.newest ticket hnewest
  rw [settle_of_true hsettled]
  refine ⟨h.newest, ?_, ?_, ?_⟩
  · rw [inFlight_eq_true_iff, hnewest]
    simp
  · intro other hother
    rcases List.mem_append.mp hother with hother | hother
    · exact h.le_latest other hother
    · rw [List.mem_singleton.mp hother, hgeneration]
      exact UInt64.le_refl _
  · refine List.pairwise_append.mpr ⟨h.increasing, List.pairwise_singleton _ _, ?_⟩
    intro other hother _ hlast
    rw [List.mem_singleton.mp hlast, hgeneration]
    refine UInt64.lt_of_le_of_ne (h.le_latest other hother) ?_
    intro heq
    rw [h.eq_of_generation_eq hnewest heq] at hother
    exact hwaiting hother

end Accounts

end Tracker

/-! ## Results -/

namespace Workbench

variable {bench : Workbench} {ticket : Ticket} {result : CheckResult}

/-- A result that counts is not stale, and taking it leaves the tracker alone. -/
theorem takeResult_spec (bench : Workbench) (result : CheckResult) :
    (bench.takeResult result).1 ≠ .stale ∧ (bench.takeResult result).2.tracker = bench.tracker := by
  unfold takeResult
  split
  · exact ⟨nofun, rfl⟩
  · split
    · exact ⟨nofun, rfl⟩
    · unfold takeOutcome
      split <;> exact ⟨nofun, rfl⟩

/-- A result is taken if its ticket counts. -/
theorem finishCheck_of_settle (h : (bench.tracker.settle ticket).1 = true) :
    bench.finishCheck ticket result =
      takeResult { bench with tracker := (bench.tracker.settle ticket).2 } result := by
  unfold finishCheck
  exact if_pos h

/-- A result whose ticket does not count is dropped. -/
theorem finishCheck_of_not_settle (h : (bench.tracker.settle ticket).1 = false) :
    bench.finishCheck ticket result = (.stale, bench) := by
  unfold finishCheck
  exact if_neg (Bool.eq_false_iff.mp h)

/-- A result is stale exactly if its ticket does not count. -/
theorem finishCheck_eq_stale_iff :
    (bench.finishCheck ticket result).1 = .stale ↔ (bench.tracker.settle ticket).1 = false := by
  cases hsettle : (bench.tracker.settle ticket).1 with
  | true =>
    rw [finishCheck_of_settle hsettle]
    exact iff_of_false (takeResult_spec _ result).1 nofun
  | false =>
    rw [finishCheck_of_not_settle hsettle]
    exact iff_of_true rfl rfl

/-- Whatever a result says, the tracker is settled with its ticket. -/
theorem tracker_finishCheck :
    (bench.finishCheck ticket result).2.tracker = (bench.tracker.settle ticket).2 := by
  cases hsettle : (bench.tracker.settle ticket).1 with
  | true =>
    rw [finishCheck_of_settle hsettle]
    exact (takeResult_spec _ result).2
  | false =>
    rw [finishCheck_of_not_settle hsettle, Tracker.settle_of_false hsettle]

end Workbench

end ReductionStepper
