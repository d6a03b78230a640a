import ReductionStepper.Proofs.Session.Moves
import ReductionStepper.Proofs.Workbench.Ticket

/-!
# What the result of a check does

A result can fail at three stages: it was not the newest check's, it holds no reply, or its reply
has no outcome. `Receives` says once what each of them and each outcome does to a workbench. Along
every run no notice is shown while a check is under way: starting a check clears it, and what sets
a notice settles the check.
-/

namespace ReductionStepper

/-- A result that brings a well-formed graph, if it brings one. -/
def CheckResult.WellFormed (result : CheckResult) : Prop :=
  ∀ reply graph diagnostics, result = .ok reply →
    reply.outcome = .ok (.evaluated graph diagnostics) → graph.WellFormed

namespace Workbench

variable {bench : Workbench} {ticket : Ticket} {result : CheckResult}

/-- The workbench whose newest check has its result. -/
def settled (bench : Workbench) : Workbench :=
  { bench with tracker := { bench.tracker with settled := true } }

/-- What becomes of a result that is given to a workbench with a ticket. -/
inductive Receives (bench : Workbench) (ticket : Ticket) :
    CheckResult → Delivery → Workbench → Prop where
  | stale {result : CheckResult} (hdrops : (bench.tracker.settle ticket).1 = false) :
      Receives bench ticket result .stale bench
  | noReply {error : CheckError} (hcounts : (bench.tracker.settle ticket).1 = true) :
      Receives bench ticket (.error error) .failed
        { bench.settled with
          notice := some ⟨.error, s!"Something went wrong: {error.message}"⟩ }
  | noOutcome {reply : Reply} {error : ReplyError}
      (hcounts : (bench.tracker.settle ticket).1 = true) (hreply : reply.outcome = .error error) :
      Receives bench ticket (.ok reply) .failed
        { bench.settled with
          notice := some ⟨.error, s!"Something went wrong: {error.message}"⟩ }
  | timedOut {reply : Reply} {input : String}
      (hcounts : (bench.tracker.settle ticket).1 = true)
      (hreply : reply.outcome = .ok (.timedOut input)) :
      Receives bench ticket (.ok reply) .timedOut
        { bench.settled with notice := some ⟨.warning, s!"Timed out on input: {input}"⟩ }
  | parseError {reply : Reply} {message : String} {diagnostic : Source.Diagnostic}
      (hcounts : (bench.tracker.settle ticket).1 = true)
      (hreply : reply.outcome = .ok (.parseError message diagnostic)) :
      Receives bench ticket (.ok reply) .parseError
        { bench.settled with
          diagnostics := [diagnostic]
          notice := some ⟨.error, s!"Parse error: {message}"⟩ }
  | session {reply : Reply} {graph : Graph} {diagnostics : List Source.Diagnostic}
      (hcounts : (bench.tracker.settle ticket).1 = true)
      (hreply : reply.outcome = .ok (.evaluated graph diagnostics)) :
      Receives bench ticket (.ok reply) .session
        { bench.settled with session := some (Session.start graph), diagnostics }

/-- Every result does one of these. -/
theorem receives_finishCheck (bench : Workbench) (ticket : Ticket) (result : CheckResult) :
    bench.Receives ticket result (bench.finishCheck ticket result).1
      (bench.finishCheck ticket result).2 := by
  cases hsettle : (bench.tracker.settle ticket).1 with
  | false =>
    rw [finishCheck_of_not_settle hsettle]
    exact .stale hsettle
  | true =>
    rw [finishCheck_of_settle hsettle, Tracker.settle_of_true hsettle]
    cases result with
    | error error => exact .noReply hsettle
    | ok reply =>
      cases hreply : reply.outcome with
      | error error =>
        rw [takeResult, hreply]
        exact .noOutcome hsettle hreply
      | ok outcome =>
        rw [takeResult, hreply]
        cases outcome with
        | evaluated graph diagnostics => exact .session hsettle hreply
        | timedOut input => exact .timedOut hsettle hreply
        | parseError message diagnostic => exact .parseError hsettle hreply

namespace Receives

variable {delivery : Delivery} {later : Workbench}
  (h : bench.Receives ticket result delivery later)

include h

private theorem eq_of_stale (hdelivery : delivery = .stale) : later = bench := by
  cases h with
  | stale => rfl
  | _ => cases hdelivery

/-- The session is kept or is a fresh one on some graph. -/
theorem session_eq_or_start :
    delivery ≠ .session ∧ later.session = bench.session ∨
      delivery = .session ∧ ∃ graph, later.session = some (Session.start graph) := by
  cases h with
  | session => exact .inr ⟨rfl, _, rfl⟩
  | _ => exact .inl ⟨nofun, rfl⟩

/-- A result that gives no session leaves the session as it is. -/
theorem session_eq (hdelivery : delivery ≠ .session) : later.session = bench.session := by
  rcases h.session_eq_or_start with ⟨-, hsession⟩ | ⟨hsession, -⟩
  · exact hsession
  · exact absurd hsession hdelivery

/-- Well-formed results bring sessions on well-formed graphs only. -/
theorem session_eq_or_wellFormed (hresult : result.WellFormed) :
    later.session = bench.session ∨
      ∃ graph, graph.WellFormed ∧ later.session = some (Session.start graph) := by
  cases h with
  | session _ hreply => exact .inr ⟨_, hresult _ _ _ rfl hreply, rfl⟩
  | _ => exact .inl rfl

/-- A result is dropped, or the newest check has its result from then on. -/
theorem eq_or_settled : later = bench ∨ later.tracker.settled = true := by
  cases h with
  | stale => exact .inl rfl
  | _ => exact .inr rfl

private theorem of_failed_or_timedOut (hdelivery : delivery = .failed ∨ delivery = .timedOut) :
    later.diagnostics = bench.diagnostics ∧ later.notice.isSome = true := by
  cases h with
  | noReply | noOutcome | timedOut => exact ⟨rfl, rfl⟩
  | stale | parseError | session => rcases hdelivery with hdelivery | hdelivery <;> cases hdelivery

private theorem of_parseError (hdelivery : delivery = .parseError) :
    later.diagnostics.length = 1 ∧ later.notice.isSome = true := by
  cases h with
  | parseError => exact ⟨rfl, rfl⟩
  | _ => cases hdelivery

/-- A session comes of a ticket that counts and a reply with a graph. -/
theorem delivery_eq_session_iff :
    delivery = .session ↔ (bench.tracker.settle ticket).1 = true ∧
      ∃ reply graph diagnostics, result = .ok reply ∧
        reply.outcome = .ok (.evaluated graph diagnostics) := by
  constructor
  · rintro rfl
    cases h with
    | session hcounts hreply => exact ⟨hcounts, _, _, _, rfl, hreply⟩
  · rintro ⟨hsettle, reply, graph, diagnostics, rfl, hgraph⟩
    cases h with
    | stale hdrops =>
      rw [hdrops] at hsettle
      cases hsettle
    | session => rfl
    | noOutcome _ hreply | timedOut _ hreply | parseError _ hreply =>
      rw [hgraph] at hreply
      cases hreply

end Receives

/-! ## Sessions -/

/-- The session of a workbench, if it has one, is coherent on some graph. -/
def Coherent (bench : Workbench) : Prop :=
  ∀ session, bench.session = some session → ∃ graph, session.Coherent graph

namespace Coherent

/-- A workbench starts coherent. -/
theorem start (program function : String) : (Workbench.start program function).Coherent := by
  intro session hsession
  cases hsession

private theorem receive (h : bench.Coherent) (input : Input) : (bench.receive input).Coherent := by
  intro session hsession
  cases input with
  | beginCheck | clearNotice => exact h session hsession
  | finishCheck ticket result =>
    rcases (bench.receives_finishCheck ticket result).session_eq_or_start with
      ⟨-, hsame⟩ | ⟨-, graph, hfresh⟩
    · exact h session (hsame.symm.trans hsession)
    · obtain rfl := Option.some.inj (hfresh.symm.trans hsession)
      exact ⟨graph, .start graph⟩
  | command command =>
    obtain ⟨before, hbefore, rfl⟩ := Option.map_eq_some_iff.mp hsession
    obtain ⟨graph, hgraph⟩ := h before hbefore
    exact ⟨graph, hgraph.of_moves (before.moves_obey command)⟩

/-- Inputs keep a workbench coherent. -/
theorem run (h : bench.Coherent) (inputs : List Input) : (bench.run inputs).Coherent := by
  induction inputs generalizing bench with
  | nil => exact h
  | cons input inputs ih => exact ih (h.receive input)

end Coherent

/-- The session of a workbench, if it has one, is sound. -/
def Sound (bench : Workbench) : Prop := ∀ session, bench.session = some session → session.Sound

namespace Sound

/-- A workbench starts sound. -/
theorem start (program function : String) : (Workbench.start program function).Sound := by
  intro session hsession
  cases hsession

/-- The result of a check keeps a workbench sound, if its graph is well-formed. -/
theorem finishCheck (h : bench.Sound) (ticket : Ticket) (hresult : result.WellFormed) :
    (bench.finishCheck ticket result).2.Sound := by
  intro session hsession
  rcases (bench.receives_finishCheck ticket result).session_eq_or_wellFormed hresult with
    hsame | ⟨graph, hgraph, hfresh⟩
  · exact h session (hsame.symm.trans hsession)
  · obtain rfl := Option.some.inj (hfresh.symm.trans hsession)
    exact .start hgraph

private theorem receive (h : bench.Sound) {input : Input}
    (hinput : ∀ ticket result, input = .finishCheck ticket result → result.WellFormed) :
    (bench.receive input).Sound := by
  cases input with
  | beginCheck | clearNotice => exact h
  | finishCheck ticket result => exact h.finishCheck ticket (hinput ticket result rfl)
  | command command =>
    intro session hsession
    obtain ⟨before, hbefore, rfl⟩ := Option.map_eq_some_iff.mp hsession
    exact (h before hbefore).run [command]

/-- Inputs keep a workbench sound, if the graphs of all results are well-formed. -/
theorem run (h : bench.Sound) {inputs : List Input}
    (hinputs : ∀ ticket result, .finishCheck ticket result ∈ inputs → result.WellFormed) :
    (bench.run inputs).Sound := by
  induction inputs generalizing bench with
  | nil => exact h
  | cons input inputs ih =>
    refine ih (h.receive ?_) fun ticket result hmem =>
      hinputs ticket result (List.mem_cons_of_mem _ hmem)
    rintro ticket result rfl
    exact hinputs ticket result List.mem_cons_self

end Sound

/-! ## Notices -/

/-- No notice is shown before the newest check has its result. -/
def Quiet (bench : Workbench) : Prop := bench.tracker.settled = false → bench.notice = none

namespace Quiet

/-- A fresh session comes without a notice, as the check was under way until then. -/
theorem of_session {later : Workbench} (h : bench.Quiet)
    (hreceives : bench.Receives ticket result .session later) :
    ∃ reply graph, result = .ok reply ∧
      reply.outcome = .ok (.evaluated graph later.diagnostics) ∧
      later.session = some (Session.start graph) ∧ later.notice = none := by
  cases hreceives with
  | session hcounts hreply =>
    exact ⟨_, _, rfl, hreply, rfl, h (Tracker.settle_eq_true_iff.mp hcounts).2⟩

private theorem receive (h : bench.Quiet) (input : Input) : (bench.receive input).Quiet := by
  cases input with
  | beginCheck => exact fun _ => rfl
  | finishCheck ticket result =>
    rcases (bench.receives_finishCheck ticket result).eq_or_settled with hsame | hsettled
    · rw [Workbench.receive, hsame]
      exact h
    · intro hwaits
      cases hsettled.symm.trans hwaits
  | clearNotice => exact fun _ => rfl
  | command => exact h

private theorem run (h : bench.Quiet) (inputs : List Input) : (bench.run inputs).Quiet := by
  induction inputs generalizing bench with
  | nil => exact h
  | cons input inputs ih => exact ih (h.receive input)

end Quiet

/-- Whatever happened to a workbench and whatever ticket a result comes with: unless the result is a
new session, the session is kept; a stale result changes nothing; a failure and a timeout keep the
diagnostics and set a notice; a parse error sets one diagnostic and a notice; a new session is the
fresh one of the reply's graph, with the diagnostics of the reply and no notice. A new session comes
exactly of a ticket that counts and a reply with a graph. And while a check is under way, no notice
is shown. -/
theorem failures_keep_session (program function : String) (inputs : List Input) (ticket : Ticket)
    (result : CheckResult) :
    let bench := (start program function).run inputs
    let delivery := (bench.finishCheck ticket result).1
    let later := (bench.finishCheck ticket result).2
    (delivery ≠ .session → later.session = bench.session) ∧
      (delivery = .stale → later = bench) ∧
      (delivery = .failed ∨ delivery = .timedOut →
        later.diagnostics = bench.diagnostics ∧ later.notice.isSome = true) ∧
      (delivery = .parseError → later.diagnostics.length = 1 ∧ later.notice.isSome = true) ∧
      (delivery = .session → ∃ reply graph, result = .ok reply ∧
        reply.outcome = .ok (.evaluated graph later.diagnostics) ∧
        later.session = some (Session.start graph) ∧ later.notice = none) ∧
      (delivery = .session ↔ (bench.tracker.settle ticket).1 = true ∧
        ∃ reply graph diagnostics, result = .ok reply ∧
          reply.outcome = .ok (.evaluated graph diagnostics)) ∧
      (bench.inFlight = true → bench.notice = none) := by
  intro bench delivery later
  have hquiet : bench.Quiet := Quiet.run (fun _ => rfl) inputs
  have hreceives : bench.Receives ticket result delivery later :=
    bench.receives_finishCheck ticket result
  refine ⟨hreceives.session_eq, hreceives.eq_of_stale, hreceives.of_failed_or_timedOut,
    hreceives.of_parseError, ?_, hreceives.delivery_eq_session_iff, ?_⟩
  · intro hdelivery
    rw [hdelivery] at hreceives
    exact hquiet.of_session hreceives
  · intro hflight
    exact hquiet (Tracker.inFlight_eq_true_iff.mp hflight).2

end Workbench

end ReductionStepper
