import ReductionStepper.Proofs.Evaluator.Acceptance
import ReductionStepper.Proofs.Source.Diagnostic
import ReductionStepper.Proofs.Workbench.Delivery
import ReductionStepper.Workbench

/-!
# Places in a report

Replies count lines and columns from one, diagnostics from zero, and a report from one again. A
workbench has its diagnostics from one reply, the last one that brought a session or a parse error
(`diagnostics_run`). So the place in a report is the one that this reply gives, and counting from
one again stays within the numbers of 32 bits.
-/

namespace ReductionStepper

open Source (Diagnostic errorPosition? fromZero toNat_fromZero_lt toNat_fromZero_add_one)

/-! ## What a reply complains of -/

namespace Reply

/-- A place, counted from one, and what a reply has to say about it. A reply that counts from zero
is taken to mean the first line or column. -/
inductive Complains : Reply → Nat → Nat → String → Prop where
  /-- About the term that got stuck, where its node is. -/
  | stuck {reply : Reply} {sketch : Sketch} {reason : String} {span : Source.Span}
      (hsketch : reply.sketch? = some sketch) (hreason : sketch.reason = some reason)
      (hspan : sketch.lastSpan? = some span) :
      Complains reply (max 1 span.startLine.toNat) (max 1 span.startColumn.toNat) reason
  /-- About a parse error whose message names a place. -/
  | named {error : String} {line column : UInt32}
      (hplace : errorPosition? error = some (line, column)) :
      Complains (.parseError error) (max 1 line.toNat) (max 1 column.toNat) "Parse error"
  | unnamed {error : String} (hplace : errorPosition? error = none) :
      Complains (.parseError error) 1 1 "Parse error"

/-- A diagnostic says what a reply complains of, with the place counted from zero. -/
def Explains (reply : Reply) (d : Diagnostic) : Prop :=
  ∃ line column : UInt32, d.range.start = ⟨fromZero line, fromZero column⟩ ∧
    reply.Complains (max 1 line.toNat) (max 1 column.toNat) d.message

variable {reply : Reply} {graph : Graph} {diagnostics : List Diagnostic} {d : Diagnostic}

private theorem explains_parseError (error : String) :
    (Reply.parseError error).Explains (Diagnostic.parseError error) := by
  cases hplace : errorPosition? error with
  | none =>
    exact ⟨0, 0, Diagnostic.start_parseError_of_eq_none hplace, .unnamed hplace⟩
  | some place =>
    obtain ⟨line, column⟩ := place
    exact ⟨line, column, Diagnostic.start_parseError hplace, .named hplace⟩

/-- The diagnostics of a graph are about the term that got stuck. -/
theorem explains_of_evaluated (h : reply.outcome = .ok (.evaluated graph diagnostics))
    (hd : d ∈ diagnostics) : reply.Explains d := by
  cases hsketch : reply.sketch? with
  | none => cases reply with
    | value | stuck => cases hsketch
    | timeout | parseError => cases h
  | some sketch =>
    obtain ⟨_, heq, -⟩ := evaluated_of_outcome_eq_ok hsketch h
    cases heq
    unfold Sketch.diagnostics at hd
    split at hd
    · next reason span hreason hspan =>
      obtain rfl := List.mem_singleton.mp hd
      exact ⟨span.startLine, span.startColumn, rfl, .stuck hsketch hreason hspan⟩
    · cases hd

/-- The diagnostic of a parse error is about the place that its message names. -/
theorem explains_of_parseError {message : String}
    (h : reply.outcome = .ok (.parseError message d)) : reply.Explains d := by
  obtain ⟨rfl, rfl⟩ := eq_parseError_of_outcome h
  exact explains_parseError message

end Reply

/-! ## Where diagnostics come from -/

namespace Workbench

variable {bench : Workbench} {input : Input}

/-- An input brings diagnostics if it is the reply to the newest check, and holds a graph or a parse
error. -/
inductive Brings (bench : Workbench) : Input → Reply → Prop where
  | intro {ticket : Ticket} {reply : Reply}
      (hdelivery : (bench.finishCheck ticket (.ok reply)).1 = .session ∨
        (bench.finishCheck ticket (.ok reply)).1 = .parseError) :
      Brings bench (.finishCheck ticket (.ok reply)) reply

/-- An input keeps the diagnostics or brings those of a reply. -/
theorem diagnostics_receive (bench : Workbench) (input : Input) :
    (bench.receive input).diagnostics = bench.diagnostics ∨
      ∃ reply, bench.Brings input reply ∧
        ∀ d ∈ (bench.receive input).diagnostics, reply.Explains d := by
  cases input with
  | beginCheck | clearNotice | command => exact .inl rfl
  | finishCheck ticket result =>
    rw [receive]
    have hreceives := bench.receives_finishCheck ticket result
    generalize hdelivery : (bench.finishCheck ticket result).1 = delivery at hreceives
    generalize (bench.finishCheck ticket result).2 = later at hreceives
    cases hreceives with
    | stale | noReply | noOutcome | timedOut => exact .inl rfl
    | parseError _ hreply =>
      refine .inr ⟨_, .intro (.inr hdelivery), ?_⟩
      intro d hd
      obtain rfl := List.mem_singleton.mp hd
      exact Reply.explains_of_parseError hreply
    | session _ hreply =>
      exact .inr ⟨_, .intro (.inl hdelivery), fun d => Reply.explains_of_evaluated hreply⟩

/-- After a run the diagnostics are those from before it or those of a reply in the run, which
nothing has changed since. -/
theorem diagnostics_run (bench : Workbench) (inputs : List Input) :
    (bench.run inputs).diagnostics = bench.diagnostics ∨
      ∃ before input after reply, inputs = before ++ input :: after ∧
        (bench.run before).Brings input reply ∧
        (bench.run inputs).diagnostics = ((bench.run before).receive input).diagnostics ∧
        ∀ d ∈ (bench.run inputs).diagnostics, reply.Explains d := by
  induction inputs generalizing bench with
  | nil => exact .inl rfl
  | cons first inputs ih =>
    rcases ih (bench.receive first) with hkept | ⟨before, input, after, reply, rfl, horigin⟩
    · rcases bench.diagnostics_receive first with hsame | ⟨reply, hbrings, hexplains⟩
      · exact .inl (hkept.trans hsame)
      · refine .inr ⟨[], first, inputs, reply, rfl, hbrings, hkept, ?_⟩
        intro d hd
        exact hexplains d (hkept ▸ hd)
    · exact .inr ⟨first :: before, input, after, reply, rfl, horigin⟩

end Workbench

/-! ## Lines of the report -/

namespace Report

/-- The line about a diagnostic gives the place that the reply complains of. -/
theorem diagnosticLine_of_explains {reply : Reply} {d : Diagnostic} (h : reply.Explains d) :
    ∃ line column, reply.Complains line column d.message ∧
      diagnosticLine d = line.repr ++ ":" ++ column.repr ++ ": error: " ++ d.message := by
  obtain ⟨line, column, hstart, hcomplains⟩ := h
  have hwords : ": error: " = ": " ++ (Diagnostic.severity ++ ": ") := by decide +kernel
  refine ⟨_, _, hcomplains, ?_⟩
  rw [diagnosticLine, hstart, toNat_fromZero_add_one, toNat_fromZero_add_one, hwords]
  simp only [String.append_assoc]

/-- Whatever happened to a workbench: the places of its diagnostics can be counted from one with 32
bits, and the report gives each of them as the reply did that brought the diagnostics it still
has, except that one stands for zero and for a place that was not named. -/
theorem report_tells_places (program function : String) (inputs : List Workbench.Input) :
    let run (inputs : List Workbench.Input) := (Workbench.start program function).run inputs
    ∀ d ∈ (run inputs).diagnostics,
      d.range.start.line.toNat < UInt32.size - 1 ∧ d.range.start.column.toNat < UInt32.size - 1 ∧
        ∃ before input after reply line column, inputs = before ++ input :: after ∧
          (run before).Brings input reply ∧
          (run inputs).diagnostics = ((run before).receive input).diagnostics ∧
          reply.Complains line column d.message ∧
          diagnosticLine d = line.repr ++ ":" ++ column.repr ++ ": error: " ++ d.message ∧
          diagnosticLine d ∈ parts (run inputs) := by
  intro run d hd
  rcases (Workbench.start program function).diagnostics_run inputs with
    hnone | ⟨before, input, after, reply, hsplit, hbrings, hkept, hexplains⟩
  · rw [hnone] at hd
    cases hd
  · obtain ⟨line, column, hcomplains, hline⟩ := diagnosticLine_of_explains (hexplains d hd)
    obtain ⟨_, _, hstart, -⟩ := hexplains d hd
    refine ⟨?_, ?_, before, input, after, reply, line, column, hsplit, hbrings, hkept, hcomplains,
      hline, ?_⟩
    · rw [hstart]
      exact toNat_fromZero_lt _
    · rw [hstart]
      exact toNat_fromZero_lt _
    · exact List.mem_append_left _ (List.mem_append_right _ (List.mem_map_of_mem hd))

/-- A term got stuck at a line zero and at the largest column. -/
theorem report_tells_places_extremes :
    let node : Reply.Node := ⟨.text "r", "1 + true", some ⟨0, 4294967295, 0, 4294967295⟩⟩
    let reply : Reply := .stuck [node] [] (.text "r") none (some (.text "r")) "expected a number"
    let inputs : List Workbench.Input := [.beginCheck, .finishCheck ⟨1⟩ (.ok reply)]
    let bench := (Workbench.start "1 + true" "main").run inputs
    ∃ d ∈ bench.diagnostics,
      d.range.start.column.toNat < UInt32.size - 1 ∧ diagnosticLine d ∈ parts bench ∧
        diagnosticLine d = "1:4294967295: error: expected a number" := by
  intro node reply inputs bench
  have hd : ⟨⟨⟨0, 4294967294⟩, ⟨0, 4294967295⟩⟩, "expected a number"⟩ ∈ bench.diagnostics := by
    decide +kernel
  obtain ⟨-, hcolumn, _, _, _, _, _, _, -, -, -, -, -, hline⟩ :=
    report_tells_places "1 + true" "main" inputs _ hd
  exact ⟨_, hd, hcolumn, hline, by decide +kernel⟩

end Report

end ReductionStepper
