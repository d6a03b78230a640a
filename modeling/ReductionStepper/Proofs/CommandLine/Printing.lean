import Mathlib
import ReductionStepper.CommandLine.Run
import ReductionStepper.Proofs.Evaluator.Acceptance
import ReductionStepper.Proofs.Workbench.Delivery

/-!
# Runs that print a saved reply

A run with a saved reply can fail at four stages: the program is not there, the file of the reply is
not there, its text is no reply, or the reply has no graph. `Loads` and `Concludes` say what the
first two come to, and nothing is printed then. From the third stage on a report is printed, and
what the workbench holds tells the last two from success: a fresh workbench that took a reply has
either a notice or a session.
-/

namespace ReductionStepper

/-- A text that is a reply with a graph and diagnostics. -/
def Evaluates (text : String) (graph : Graph) (diagnostics : List Source.Diagnostic) : Prop :=
  ∃ reply, Reply.decode text = .ok reply ∧ reply.outcome = .ok (.evaluated graph diagnostics)

private theorem CheckResult.ofText_eq_ok_iff {text : String} {reply : Reply} :
    ofText text = .ok reply ↔ Reply.decode text = .ok reply := by
  rw [ofText]
  cases Reply.decode text with
  | error => exact iff_of_false nofun nofun
  | ok => simp

private theorem evaluates_iff {text : String} {reply : Reply} {graph : Graph}
    {diagnostics : List Source.Diagnostic} (hresult : CheckResult.ofText text = .ok reply) :
    Evaluates text graph diagnostics ↔ reply.outcome = .ok (.evaluated graph diagnostics) := by
  simp [Evaluates, CheckResult.ofText_eq_ok_iff.mp hresult]

namespace CommandLine

variable {σ : Type} {world : World (StateM σ)} {state : σ}
  {files : String → Except FileError String} {options : Options} {path text : String}

/-- The files of a world, which reading leaves as they are. -/
def World.Serves (world : World (StateM σ)) (state : σ) (files : String → Except FileError String) :
    Prop :=
  ∀ path, (world.read path).run state = (files path, state)

/-- The world of a folder serves the files of the folder. -/
theorem Folder.serves_world (folder : Folder) (palette : Screen.Setting) :
    (Folder.world palette).Serves folder folder.read :=
  fun _ => rfl

/-! ## Loading -/

/-- What comes of loading the program that options name. -/
inductive Loads (files : String → Except FileError String) (options : Options) :
    Except RunError (String × String) → Prop where
  | sample {name : String} {sample : Sample} (hdemo : options.demo = some name)
      (hsample : Sample.find? name = some sample) :
      Loads files options (.ok (sample.source, sample.function))
  | unknownDemo {name : String} (hdemo : options.demo = some name)
      (hsample : Sample.find? name = none) :
      Loads files options (.error (.unknownDemo name))
  | file {path text : String} (hdemo : options.demo = none)
      (hprogram : options.program = some path) (hread : files path = .ok text) :
      Loads files options (.ok (text, Source.lastBound text))
  | unreadable {path : String} {error : FileError} (hdemo : options.demo = none)
      (hprogram : options.program = some path) (hread : files path = .error error) :
      Loads files options (.error (.unreadable path error))
  | unnamed (hdemo : options.demo = none) (hprogram : options.program = none) :
      Loads files options (.ok ("", Source.lastBound ""))

/-- Options load one thing only. -/
theorem Loads.unique {result other : Except RunError (String × String)}
    (h : Loads files options result) (h' : Loads files options other) : result = other := by
  cases h <;> cases h' <;> simp_all

private theorem run_readFile (hserves : world.Serves state files) (path : String) :
    (readFile world path).run state =
      ((files path).mapError (RunError.unreadable path), state) := by
  rw [readFile, StateT.run_bind, hserves path]
  cases files path <;> rfl

private theorem run_loadProgram (hserves : world.Serves state files) (options : Options) :
    ∃ result, (loadProgram world options).run state = (result, state) ∧
      Loads files options result := by
  unfold loadProgram
  split
  · next name hdemo =>
    split
    · next hsample => exact ⟨_, rfl, .unknownDemo hdemo hsample⟩
    · next sample hsample => exact ⟨_, rfl, .sample hdemo hsample⟩
  · next hdemo =>
    split
    · next hprogram => exact ⟨_, rfl, .unnamed hdemo hprogram⟩
    · next path hprogram =>
      rw [StateT.run_bind, run_readFile hserves]
      cases hread : files path with
      | error error => exact ⟨_, rfl, .unreadable hdemo hprogram hread⟩
      | ok text => exact ⟨_, rfl, .file hdemo hprogram hread⟩

/-- How a run ends that prints the reply of a file. -/
inductive Concludes (files : String → Except FileError String) (options : Options)
    (path : String) : Conclusion → Prop where
  | unloaded {error : RunError} (hprogram : Loads files options (.error error)) :
      Concludes files options path (.failed error)
  | unread {program function : String} {error : FileError}
      (hprogram : Loads files options (.ok (program, function)))
      (hread : files path = .error error) :
      Concludes files options path (.failed (.unreadable path error))
  | printed {program function text : String}
      (hprogram : Loads files options (.ok (program, function))) (hread : files path = .ok text) :
      Concludes files options path
        (printed (benchOfReply (Workbench.start program (options.function.getD function)) text))

private theorem run_runLoaded (hserves : world.Serves state files) (hprint : options.print = true)
    (hgraph : options.graph = some path) (bench : Workbench) :
    (runLoaded world options bench).run state =
      (match files path with
        | .error error => .failed (.unreadable path error)
        | .ok text => printed (benchOfReply bench text), state) := by
  rw [runLoaded, hgraph]
  simp only [StateT.run_bind, run_readFile hserves, hprint, if_true]
  cases files path <;> rfl

private theorem run_run {arguments : List String} (hserves : world.Serves state files)
    (harguments : Options.ofArguments? arguments = some options) (hprint : options.print = true)
    (hgraph : options.graph = some path) (hlog : options.logFile = none) :
    ∃ conclusion, (run world arguments).run state = (conclusion, state) ∧
      Concludes files options path conclusion := by
  obtain ⟨result, hresult, hloads⟩ := run_loadProgram hserves options
  simp only [run, harguments, runOptions, openLog, hlog, pure_bind, StateT.run_bind, hresult]
  cases result with
  | error error => exact ⟨_, rfl, .unloaded hloads⟩
  | ok loaded =>
    obtain ⟨program, function⟩ := loaded
    refine ⟨_, run_runLoaded hserves hprint hgraph _, ?_⟩
    cases hread : files path with
    | error error => exact .unread hloads hread
    | ok text => exact .printed hloads hread

/-! ## Reports -/

/-- The text of lines, each of which ends in a line feed. -/
def ofLines (lines : List String) : String := String.join (lines.map (· ++ "\n"))

/-- How a run ends that prints what a workbench holds after it took a text: with a notice and at
most the diagnostic of a parse error, or with the ending, the diagnostics and the chart of the
graph. -/
inductive Reports (bench : Workbench) (text : String) : Exit → Prop where
  | notice {notice : Notice} (hnotice : bench.notice = some notice)
      (hsession : bench.session = none) (hlength : bench.diagnostics.length ≤ 1)
      (hmessage : ∀ d ∈ bench.diagnostics, d.message = "Parse error")
      (hrefused : ∀ graph diagnostics, ¬Evaluates text graph diagnostics) :
      Reports bench text
        ⟨1, ofLines (notice.message :: bench.diagnostics.map Report.diagnosticLine),
          errorLine .noGraph⟩
  | session {graph : Graph} {session : Session} (hnotice : bench.notice = none)
      (hsession : bench.session = some session) (hstart : session = Session.start graph)
      (hevaluates : Evaluates text graph bench.diagnostics) :
      Reports bench text
        ⟨0, ofLines (Report.endingLine bench.function session ::
          bench.diagnostics.map Report.diagnosticLine ++ ["", Chart.text session {}]), ""⟩

private theorem Reports.code_eq_zero_iff {bench : Workbench} {exit : Exit}
    (h : Reports bench text exit) :
    exit.code = 0 ↔ ∃ graph diagnostics, Evaluates text graph diagnostics := by
  cases h with
  | notice _ _ _ _ hrefused =>
    exact iff_of_false nofun fun ⟨graph, diagnostics, h⟩ => hrefused graph diagnostics h
  | session _ _ _ hevaluates => exact iff_of_true rfl ⟨_, _, hevaluates⟩

private theorem Reports.code_eq {bench : Workbench} {exit : Exit} (h : Reports bench text exit) :
    exit.code = 0 ∨ exit.code = 1 := by
  cases h with
  | notice => exact .inr rfl
  | session => exact .inl rfl

/-- Without a session a report is the notice and the diagnostics. -/
theorem exit_printed_of_notice {bench : Workbench} {notice : Notice}
    (hnotice : bench.notice = some notice) (hsession : bench.session = none) :
    (printed bench).exit =
      ⟨1, ofLines (notice.message :: bench.diagnostics.map Report.diagnosticLine),
        errorLine .noGraph⟩ := by
  simp [printed, Report.text, Report.parts, hnotice, hsession, Conclusion.exit, ofLines]

/-- Without a notice a report is how the evaluation ended, the diagnostics and the chart. -/
theorem exit_printed_of_session {bench : Workbench} {session : Session}
    (hnotice : bench.notice = none) (hsession : bench.session = some session) :
    (printed bench).exit =
      ⟨0, ofLines (Report.endingLine bench.function session ::
        bench.diagnostics.map Report.diagnosticLine ++ ["", Chart.text session {}]), ""⟩ := by
  simp [printed, Report.text, Report.parts, hnotice, hsession, Conclusion.exit, ofLines]

/-- A fresh workbench that took a text is reported. Its check is the newest one, so the text
counts, and the workbench had neither a notice nor a session before. -/
theorem reports_benchOfReply (program function text : String) :
    let bench := benchOfReply (Workbench.start program function) text
    Reports bench text (printed bench).exit := by
  intro bench
  obtain ⟨delivery, hreceives⟩ : ∃ delivery,
      (Workbench.start program function).beginCheck.2.Receives
        (Workbench.start program function).beginCheck.1.1 (CheckResult.ofText text)
        delivery bench :=
    ⟨_, Workbench.receives_finishCheck _ _ _⟩
  generalize hresult : CheckResult.ofText text = result at hreceives
  generalize bench = later at hreceives
  cases hreceives with
  | stale hdrops => cases hdrops
  | noReply _ =>
    rw [exit_printed_of_notice rfl rfl]
    refine .notice rfl rfl (Nat.zero_le 1) nofun ?_
    rintro graph diagnostics ⟨reply, hreply, -⟩
    cases hresult.symm.trans (CheckResult.ofText_eq_ok_iff.mpr hreply)
  | noOutcome _ houtcome | timedOut _ houtcome =>
    rw [exit_printed_of_notice rfl rfl]
    exact .notice rfl rfl (Nat.zero_le 1) nofun (by simp [evaluates_iff hresult, houtcome])
  | parseError _ houtcome =>
    obtain ⟨-, rfl⟩ := Reply.eq_parseError_of_outcome houtcome
    rw [exit_printed_of_notice rfl rfl]
    refine .notice rfl rfl (Nat.le_refl 1) ?_ (by simp [evaluates_iff hresult, houtcome])
    intro d hd
    rw [List.mem_singleton.mp hd]
    rfl
  | session _ houtcome =>
    rw [exit_printed_of_session rfl rfl]
    exact .session rfl rfl rfl ((evaluates_iff hresult).mpr houtcome)

/-- Accepted arguments that ask for the printed report on a saved reply and for no log, in any world
whose files can be read: the world stays as it is. The code is zero exactly if the program can be
loaded, the file of the reply is there and its text is a reply with a graph, and one otherwise.
Nothing is printed unless both were read; then either the notice is printed, or the session. -/
theorem printed_run_exit (hserves : world.Serves state files) {arguments : List String}
    (harguments : Options.ofArguments? arguments = some options) (hprint : options.print = true)
    (hgraph : options.graph = some path) (hlog : options.logFile = none) :
    let finished := (run world arguments).run state
    let exit := finished.1.exit
    finished.2 = state ∧
      (exit.code = 0 ↔ (∃ loaded, Loads files options (.ok loaded)) ∧
        ∃ text, files path = .ok text ∧ ∃ graph diagnostics, Evaluates text graph diagnostics) ∧
      (exit.code = 0 ∨ exit.code = 1) ∧
      (exit.output = "" ∨ ∃ loaded text, Loads files options (.ok loaded) ∧ files path = .ok text) ∧
      ∀ program function text, Loads files options (.ok (program, function)) →
        files path = .ok text →
          Reports (benchOfReply (Workbench.start program (options.function.getD function)) text)
            text exit := by
  obtain ⟨conclusion, hrun, hconcludes⟩ := run_run hserves harguments hprint hgraph hlog
  rw [hrun]
  intro finished exit
  refine ⟨rfl, ?_⟩
  cases hconcludes with
  | unloaded hprogram =>
    have hmissing (loaded : String × String) : ¬Loads files options (.ok loaded) :=
      fun hloaded => nomatch hloaded.unique hprogram
    refine ⟨iff_of_false nofun fun h => ?_, .inr rfl, .inl rfl, fun _ _ _ hloaded => ?_⟩
    · exact h.1.elim hmissing
    · exact absurd hloaded (hmissing _)
  | unread _ hread =>
    have hmissing (text : String) : files path ≠ .ok text := by simp [hread]
    refine ⟨iff_of_false nofun fun h => ?_, .inr rfl, .inl rfl, fun _ _ text _ htext => ?_⟩
    · obtain ⟨-, text, htext, -⟩ := h
      exact hmissing text htext
    · exact absurd htext (hmissing text)
  | @printed program function text hprogram hread =>
    have hreports := reports_benchOfReply program (options.function.getD function) text
    refine ⟨?_, hreports.code_eq, .inr ⟨_, _, hprogram, hread⟩, ?_⟩
    · rw [hreports.code_eq_zero_iff, and_iff_right ⟨_, hprogram⟩]
      simp only [hread, Except.ok.injEq, exists_eq_left']
    · intro program' function' text' hprogram' hread'
      obtain ⟨rfl, rfl⟩ := Prod.mk.inj (Except.ok.inj (hprogram.unique hprogram'))
      obtain rfl := Except.ok.inj (hread.symm.trans hread')
      exact hreports

/-- A world with one file and without an evaluator. -/
def World.single (name text : String) : World (StateM Unit) where
  read path := return if path = name then .ok text else .error .notFound
  openToAppend _ := return .error .notFound
  check _ _ _ := return .error Address.unusable
  palette := .unset

/-- A reply with a graph of one term. -/
def oneTerm : String :=
  "\x7b\"result\": \"value\", \"root\": 1, \"value\": 1, \"edges\": [], " ++
    "\"nodes\": [\x7b\"id\": 1, \"label\": \"1\"\x7d]\x7d"

set_option maxRecDepth 4000 in
private theorem evaluates_oneTerm : ∃ graph diagnostics, Evaluates oneTerm graph diagnostics := by
  have hreply : Reply.decode oneTerm =
      .ok (.value [⟨.number 1, "1", none⟩] [] (.number 1) (.number 1)) := by cbv
  exact ⟨_, _, _, hreply, rfl⟩

/-- A reply of one term, read from a file and printed without a program: the run ends well. -/
theorem printed_run_exit_oneTerm :
    let world := World.single "reply.json" oneTerm
    let files := fun path => if path = "reply.json" then .ok oneTerm else .error .notFound
    let arguments := ["--graph", "reply.json", "--print"]
    let options : Options := { graph := some "reply.json", print := true }
    world.Serves () files ∧ Options.ofArguments? arguments = some options ∧
      ((run world arguments).run ()).1.exit.code = 0 := by
  intro world files arguments options
  have hserves : world.Serves () files := fun _ => rfl
  have harguments : Options.ofArguments? arguments = some options := by decide
  obtain ⟨-, hcode, -⟩ := printed_run_exit hserves harguments rfl rfl rfl
  exact ⟨hserves, harguments, hcode.mpr ⟨⟨_, .unnamed rfl rfl⟩, oneTerm, rfl, evaluates_oneTerm⟩⟩

end CommandLine

end ReductionStepper
