import LinearProgramming.Command.Response
import LinearProgramming.Proofs.Answers
import LinearProgramming.Proofs.Text.RoundTrip

/-!
What a session writes and how it ends. A piece of work is summed up by what it adds to
a transcript, whatever stands there already, so that pieces can be put together. For
the solve command this shows that its variants differ in their output alone: the code
at the end and the complaints depend on the file and the cap, but neither on the
format nor on whether tableaus are shown.
-/

namespace LinearProgramming

/-! ## What a piece of work writes -/

/-- The work ends in the same way and adds the same to every transcript. -/
def Session.Writes (work : Session Bool) (success : Bool) (text : String)
    (complaints : List Complaint) : Prop :=
  ∀ written : Transcript, work.run written =
    (success, ⟨written.output ++ text, written.complaints ++ complaints⟩)

namespace Session

variable {work : Session Bool} {success : Bool} {text : String} {complaints : List Complaint}

theorem writes_pure (success : Bool) : Writes (pure success) success "" [] := by
  intro written
  rw [String.append_empty, List.append_nil]
  rfl

theorem writes_fail (complaint : Complaint) : Writes (fail complaint) false "" [complaint] := by
  intro written
  rw [String.append_empty]
  rfl

/-- What is printed first stands in front. -/
theorem Writes.print (h : Writes work success text complaints) (first : String) :
    Writes (do Session.print first; work) success (first ++ text) complaints := by
  intro written
  change work.run ⟨written.output ++ first, written.complaints⟩ = _
  rw [h, String.append_assoc]

theorem Writes.ofSession (h : Writes work success text complaints) :
    Response.ofSession work = ⟨if success then 0 else 1, text, complaints⟩ := by
  have hrun := h {}
  rw [Response.ofSession, hrun]
  simp

end Session

/-! ## Reports -/

namespace Solution

/-- The code that a program ends with when this is its answer. -/
def exitCode (s : Solution Float) : Nat :=
  if s.isCertified then 0 else 1

theorem exitCode_eq_zero_iff (s : Solution Float) : s.exitCode = 0 ↔ s.isCertified = true := by
  cases h : s.isCertified <;> simp [exitCode, h]

theorem exitCode_eq_one {s : Solution Float} (h : s.exitCode ≠ 0) : s.exitCode = 1 :=
  if_neg (mt s.exitCode_eq_zero_iff.mpr h)

/-- A report is a success exactly if the solution is certified, whatever its status. -/
theorem exists_writes_report (s : Solution Float) :
    ∃ text, Session.Writes s.report s.isCertified text [] := by
  have hcertified : s.isCertified = (s.isOptimal && s.violations.isEmpty) := rfl
  have hoptimal : s.isOptimal = decide (s.status = .optimal) := rfl
  rw [report, hcertified, hoptimal]
  cases s.status with
  | optimal =>
    exact ⟨_, (((((Session.writes_pure _).print _).print _).print _).print _).print _⟩
  | unbounded => exact ⟨_, ((Session.writes_pure _).print _).print _⟩
  | iterationLimit => exact ⟨_, ((Session.writes_pure _).print _).print _⟩
  | error => exact ⟨_, ((Session.writes_pure _).print _).print _⟩

end Solution

namespace Solver

variable (s : Solver Float) {encode : Solution Float → String} {p : Problem Float}

/-- A defect is found on every path, and complained about once. -/
theorem writes_reportOn_of_defect {defect : Defect Float} (h : p.defect? = some defect)
    (showTableau : Bool) :
    Session.Writes (s.reportOn p showTableau) false "" [.invalidProblem defect] := by
  have hinitial : Tableau.ofProblem p = .error defect := by rw [Tableau.ofProblem, h]
  have hrun : s.run p = .error defect := by
    rw [Solver.run, hinitial]
    rfl
  cases showTableau with
  | false =>
    simp only [reportOn, hrun]
    exact Session.writes_fail _
  | true =>
    simp only [reportOn, hinitial]
    exact Session.writes_fail _

theorem writes_encodeAnswer_of_defect {defect : Defect Float} (h : p.defect? = some defect) :
    Session.Writes (s.encodeAnswer encode p) false "" [.invalidProblem defect] := by
  rw [encodeAnswer, s.solve_of_defect h]
  exact Session.writes_fail _

variable {s} {report : String}

/-- Without tableaus the output is an empty line and the report. -/
theorem writes_reportOn_false {run : Run Float} {success : Bool} (hrun : s.run p = .ok run)
    (hreport : Session.Writes (s.solutionOf p run).report success report []) :
    Session.Writes (s.reportOn p false) success (line "" ++ report) [] := by
  simp only [reportOn, hrun]
  exact hreport.print (line "")

/-- The first and the last tableau are shown in front of that. -/
theorem writes_reportOn_true {initial : Tableau Float} {run : Run Float} {success : Bool}
    (hinitial : Tableau.ofProblem p = .ok initial) (hrun : s.run p = .ok run)
    (hreport : Session.Writes (s.solutionOf p run).report success report []) :
    Session.Writes (s.reportOn p true) success (initial.block "Initial tableau" ++
      (run.final.block "Final tableau" ++ (line "" ++ report))) [] := by
  simp only [reportOn, hinitial, hrun]
  exact ((hreport.print (line "")).print _).print _

theorem writes_encodeAnswer {solution : Solution Float} (h : s.solve p = .ok solution) :
    Session.Writes (s.encodeAnswer encode p) solution.isCertified (line (encode solution)) [] := by
  rw [encodeAnswer, h]
  have hlast := (Session.writes_pure solution.isCertified).print (line (encode solution))
  rwa [String.append_empty] at hlast

end Solver

/-! ## What a file holds -/

namespace Host

variable {host : Host} {file : String}

theorem load_of_unreadable {reason : String} (h : host.readText file = .error reason) :
    host.load file = .error (.unreadableFile reason) := by
  rw [load, h]

theorem load_of_unparsable {text reason : String} (htext : host.readText file = .ok text)
    (h : host.decode text = .error reason) : host.load file = .error (.unparsableFile reason) := by
  simp only [load, htext, h]

theorem load_eq_ok_iff {p : Problem Float} : host.load file = .ok p ↔
    ∃ text, host.readText file = .ok text ∧ host.decode text = .ok p := by
  unfold load
  cases htext : host.readText file with
  | error reason => simp
  | ok text =>
    cases hproblem : host.decode text with
    | error reason => simp [hproblem]
    | ok q => simp [hproblem]

end Host

/-! ## The variants of one command -/

/-- The response to solving one file depends on whether tableaus are shown and on the
format. This is what all responses have in common and how their outputs differ, when
the solver is the one for the given cap. -/
structure Command.Agreement (host : Host) (file : String) (s : Solver Float)
    (response : Bool → String → Response) : Prop where
  exitCode_eq : ∀ showTableau format showTableau' format',
    (response showTableau format).exitCode = (response showTableau' format').exitCode
  errors_eq : ∀ showTableau format showTableau' format',
    (response showTableau format).errors = (response showTableau' format').errors
  /-- Success means that a problem was read, is valid, and has a certified answer. -/
  exitCode_eq_zero_iff : ∀ showTableau format, (response showTableau format).exitCode = 0 ↔
    ∃ text p solution, host.readText file = .ok text ∧ host.decode text = .ok p ∧ p.IsValid ∧
      s.solve p = .ok solution ∧ solution.isCertified = true
  exitCode_eq_one : ∀ showTableau format, (response showTableau format).exitCode ≠ 0 →
    (response showTableau format).exitCode = 1
  unreadable : ∀ reason, host.readText file = .error reason → ∀ showTableau format,
    (response showTableau format).output = "" ∧
      (response showTableau format).errors = "Error reading file: " ++ reason ++ "\n"
  unparsable : ∀ text reason, host.readText file = .ok text → host.decode text = .error reason →
    ∀ showTableau format, (response showTableau format).output = "" ∧
      (response showTableau format).errors = "Parse error: " ++ reason ++ "\n"
  invalid : ∀ text p defect, host.readText file = .ok text → host.decode text = .ok p →
    p.defect? = some defect → ∀ showTableau format, (response showTableau format).output = "" ∧
      (response showTableau format).errors = "Invalid problem: " ++ defect.message ++ "\n"
  valid : ∀ text p, host.readText file = .ok text → host.decode text = .ok p → p.IsValid →
    ∃ initial run solution, Tableau.ofProblem p = .ok initial ∧ s.run p = .ok run ∧
      s.solve p = .ok solution ∧
      (∀ showTableau format, (response showTableau format).errors = "") ∧
      (∀ format, format ≠ "json" →
        (response false format).output = "\n" ++ (Response.ofSession solution.report).output ∧
        (response true format).output =
          "\n>>>> Initial tableau\n" ++ initial.display ++ "\n" ++
          ("\n>>>> Final tableau\n" ++ run.final.display ++ "\n") ++
          (response false format).output) ∧
      ∀ showTableau, (response showTableau "json").output = host.encode solution ++ "\n"

/-- A block is an empty line, its heading and the table. -/
theorem Tableau.block_eq (t : Tableau Float) (heading : String) :
    t.block heading = "\n" ++ (">>>> " ++ heading ++ "\n") ++ (t.display ++ "\n") := by
  rw [block, line, line, line, String.empty_append, String.append_assoc]

/-- One complaint is one line. -/
theorem Response.errors_eq (exitCode : Nat) (output : String) (complaint : Complaint) :
    Response.errors ⟨exitCode, output, [complaint]⟩ = complaint.message ++ "\n" := by
  rw [errors, List.map_singleton, String.join_cons, String.join_nil, String.append_empty, line]

namespace Command

variable {host : Host} {file : String} {maxIterations : Option Nat}

/-- Without a problem every variant answers with one complaint. -/
theorem respond_of_load_error {complaint : Complaint} (h : host.load file = .error complaint)
    (maxIterations : Option Nat) (showTableau : Bool) (format : String) :
    (solve file showTableau maxIterations format).respond host = ⟨1, "", [complaint]⟩ := by
  rw [respond, workOn, h]
  exact (Session.writes_fail _).ofSession

theorem respond_of_load {p : Problem Float} (h : host.load file = .ok p) (showTableau : Bool)
    (format : String) : (solve file showTableau maxIterations format).respond host = .ofSession
      (if format = "json" then (solver maxIterations).encodeAnswer host.encode p
        else (solver maxIterations).reportOn p showTableau) := by
  rw [respond, workOn, h]

/-- A problem with a defect is complained about in the same way. -/
theorem respond_of_defect {p : Problem Float} {defect : Defect Float}
    (h : host.load file = .ok p) (hdefect : p.defect? = some defect) (showTableau : Bool)
    (format : String) : (solve file showTableau maxIterations format).respond host =
      ⟨1, "", [.invalidProblem defect]⟩ := by
  rw [respond_of_load h]
  split_ifs with hformat
  · exact ((solver maxIterations).writes_encodeAnswer_of_defect hdefect).ofSession
  · exact ((solver maxIterations).writes_reportOn_of_defect hdefect showTableau).ofSession

/-- The responses to a valid problem, by format and by whether tableaus are shown. -/
structure Answers (host : Host) (s : Solver Float) (p : Problem Float)
    (response : Bool → String → Response) (run : Run Float) (solution : Solution Float)
    (report : String) : Prop where
  run_eq : s.run p = .ok run
  solve_eq : s.solve p = .ok solution
  report_eq : Response.ofSession solution.report = ⟨solution.exitCode, report, []⟩
  json : ∀ showTableau, response showTableau "json" =
    ⟨solution.exitCode, line (host.encode solution), []⟩
  plain : ∀ format, format ≠ "json" → response false format =
    ⟨solution.exitCode, line "" ++ report, []⟩
  tableaus : ∀ format, format ≠ "json" → response true format =
    ⟨solution.exitCode, (Tableau.initial p).block "Initial tableau" ++
      (run.final.block "Final tableau" ++ (line "" ++ report)), []⟩

theorem exists_answers {p : Problem Float} (h : host.load file = .ok p) (hvalid : p.IsValid)
    (maxIterations : Option Nat) : ∃ run solution report,
      Answers host (solver maxIterations) p (fun showTableau format =>
        (solve file showTableau maxIterations format).respond host) run solution report := by
  have hrun := (solver maxIterations).run_eq hvalid
  have hsolve := (solver maxIterations).solve_eq hvalid
  generalize (Tableau.initial p).run (solver maxIterations).maxIterations = run at hrun hsolve
  obtain ⟨report, hreport⟩ := ((solver maxIterations).solutionOf p run).exists_writes_report
  refine ⟨run, _, report, hrun, hsolve, hreport.ofSession,
    fun showTableau => ?_, fun format hformat => ?_, fun format hformat => ?_⟩
  · rw [respond_of_load h, if_pos rfl]
    exact (Solver.writes_encodeAnswer hsolve).ofSession
  · rw [respond_of_load h, if_neg hformat]
    exact (Solver.writes_reportOn_false hrun hreport).ofSession
  · rw [respond_of_load h, if_neg hformat]
    exact (Solver.writes_reportOn_true hvalid.ofProblem hrun hreport).ofSession

/-- All of them end with the same code and have nothing to complain about. -/
theorem Answers.exists_eq {s : Solver Float} {p : Problem Float}
    {response : Bool → String → Response} {run : Run Float} {solution : Solution Float}
    {report : String} (h : Answers host s p response run solution report) (showTableau : Bool)
    (format : String) : ∃ output, response showTableau format = ⟨solution.exitCode, output, []⟩ := by
  by_cases hformat : format = "json"
  · exact ⟨_, hformat ▸ h.json showTableau⟩
  · cases showTableau with
    | false => exact ⟨_, h.plain format hformat⟩
    | true => exact ⟨_, h.tableaus format hformat⟩

/-- A certified answer to the problem in the file is what counts as a success. -/
def Succeeds (host : Host) (file : String) (s : Solver Float) : Prop :=
  ∃ p solution, host.load file = .ok p ∧ p.IsValid ∧ s.solve p = .ok solution ∧
    solution.isCertified = true

theorem succeeds_iff {s : Solver Float} : Succeeds host file s ↔
    ∃ text p solution, host.readText file = .ok text ∧ host.decode text = .ok p ∧ p.IsValid ∧
      s.solve p = .ok solution ∧ solution.isCertified = true := by
  constructor
  · rintro ⟨p, solution, hload, hanswer⟩
    obtain ⟨text, htext, hproblem⟩ := Host.load_eq_ok_iff.mp hload
    exact ⟨text, p, solution, htext, hproblem, hanswer⟩
  · rintro ⟨text, p, solution, htext, hproblem, hanswer⟩
    exact ⟨p, solution, Host.load_eq_ok_iff.mpr ⟨text, htext, hproblem⟩, hanswer⟩

/-- Whatever the file holds, the variants differ in their output alone. -/
theorem exists_common (host : Host) (file : String) (maxIterations : Option Nat) :
    ∃ exitCode complaints, (exitCode = 0 ↔ Succeeds host file (solver maxIterations)) ∧
      (exitCode ≠ 0 → exitCode = 1) ∧ ∀ showTableau format, ∃ output,
        (solve file showTableau maxIterations format).respond host =
          ⟨exitCode, output, complaints⟩ := by
  cases hload : host.load file with
  | error complaint =>
    refine ⟨1, [complaint], ⟨fun h => (nomatch h), ?_⟩, fun _ => rfl, fun showTableau format =>
      ⟨"", respond_of_load_error hload maxIterations showTableau format⟩⟩
    rintro ⟨p, solution, hproblem, -⟩
    cases hload.symm.trans hproblem
  | ok p =>
    cases hdefect : p.defect? with
    | some defect =>
      refine ⟨1, [.invalidProblem defect], ⟨fun h => (nomatch h), ?_⟩, fun _ => rfl,
        fun showTableau format => ⟨"", respond_of_defect hload hdefect showTableau format⟩⟩
      rintro ⟨q, solution, hproblem, hvalid, -⟩
      cases hload.symm.trans hproblem
      cases hdefect.symm.trans hvalid
    | none =>
      obtain ⟨run, solution, report, h⟩ := exists_answers hload hdefect maxIterations
      refine ⟨solution.exitCode, [], ?_, Solution.exitCode_eq_one, h.exists_eq⟩
      rw [solution.exitCode_eq_zero_iff]
      constructor
      · exact fun hcertified => ⟨p, solution, hload, hdefect, h.solve_eq, hcertified⟩
      · rintro ⟨q, solution', hproblem, -, hsolve, hcertified⟩
        cases hload.symm.trans hproblem
        cases h.solve_eq.symm.trans hsolve
        exact hcertified

/-- The variants of a solve command end with the same code and complain about the same,
and the code tells whether the answer is certified. A file that cannot be read, a text
that is no problem, and a problem that is not valid are complained about in one line; a
valid one is answered with the same solution in both formats, and showing tableaus only
adds them in front. -/
theorem solve_agreement (host : Host) (file : String) (maxIterations : Option Nat) :
    Agreement host file (solver maxIterations) fun showTableau format =>
      (solve file showTableau maxIterations format).respond host := by
  obtain ⟨exitCode, complaints, hzero, hone, hcommon⟩ := exists_common host file maxIterations
  constructor
  case exitCode_eq =>
    intro showTableau format showTableau' format'
    obtain ⟨_, hfirst⟩ := hcommon showTableau format
    obtain ⟨_, hsecond⟩ := hcommon showTableau' format'
    rw [hfirst, hsecond]
  case errors_eq =>
    intro showTableau format showTableau' format'
    obtain ⟨_, hfirst⟩ := hcommon showTableau format
    obtain ⟨_, hsecond⟩ := hcommon showTableau' format'
    rw [hfirst, hsecond]
    rfl
  case exitCode_eq_zero_iff =>
    intro showTableau format
    obtain ⟨_, hresponse⟩ := hcommon showTableau format
    rw [hresponse, hzero, succeeds_iff]
  case exitCode_eq_one =>
    intro showTableau format
    obtain ⟨_, hresponse⟩ := hcommon showTableau format
    rw [hresponse]
    exact hone
  case unreadable =>
    intro reason htext showTableau format
    rw [respond_of_load_error (Host.load_of_unreadable htext), Response.errors_eq]
    exact ⟨rfl, rfl⟩
  case unparsable =>
    intro text reason htext hproblem showTableau format
    rw [respond_of_load_error (Host.load_of_unparsable htext hproblem), Response.errors_eq]
    exact ⟨rfl, rfl⟩
  case invalid =>
    intro text p defect htext hproblem hdefect showTableau format
    have hload := Host.load_eq_ok_iff.mpr ⟨text, htext, hproblem⟩
    rw [respond_of_defect hload hdefect, Response.errors_eq]
    exact ⟨rfl, rfl⟩
  case valid =>
    intro text p htext hproblem hvalid
    have hload := Host.load_eq_ok_iff.mpr ⟨text, htext, hproblem⟩
    obtain ⟨run, solution, report, h⟩ := exists_answers hload hvalid maxIterations
    refine ⟨_, run, solution, hvalid.ofProblem, h.run_eq, h.solve_eq,
      fun showTableau format => ?_, fun format hformat => ⟨?_, ?_⟩, fun showTableau => ?_⟩
    · obtain ⟨_, hresponse⟩ := h.exists_eq showTableau format
      rw [hresponse]
      rfl
    · rw [h.plain format hformat, h.report_eq]
      rfl
    · rw [h.tableaus format hformat, h.plain format hformat]
      simp only [Tableau.block_eq, String.append_assoc]
      rfl
    · rw [h.json]
      rfl

/-- A problem whose second row is too short. -/
def ragged : Problem Float :=
  ⟨[[1, 2], [3]], [4, 5], [6, 7]⟩

/-- A directory with two problems. -/
def exampleFiles : String → Except String String
  | "first.json" => .ok (Json.Library.standard.compact (firstExample.toJson .standard))
  | "ragged.json" => .ok (Json.Library.standard.pretty (ragged.toJson .standard))
  | _ => .error "no such file"

def exampleHost : Host := .withJson Json.Library.standard exampleFiles

/-- The first example ends with code zero, however it is asked for; the ragged problem
and a missing file are complained about, and end with code one. -/
theorem solve_agreement_exampleFiles : ∀ showTableau format,
    ((solve "first.json" showTableau none format).respond exampleHost).exitCode = 0 ∧
    ((solve "ragged.json" showTableau none format).respond exampleHost).output = "" ∧
    ((solve "ragged.json" showTableau none format).respond exampleHost).errors =
      "Invalid problem: Constraint row 1 has 1 coefficients, expected 2\n" ∧
    ((solve "missing.json" showTableau none format).respond exampleHost).exitCode = 1 ∧
    ((solve "missing.json" showTableau none format).respond exampleHost).errors =
      "Error reading file: no such file\n" := by
  intro showTableau format
  have hvalues := Json.Library.standard_readsValues
  have hfloats := Json.Library.standard_readsFloats
  have hfirst : exampleHost.decode (Json.Library.standard.compact (firstExample.toJson .standard)) =
      .ok firstExample :=
    (Problem.readsBack_of_parse hvalues hfloats (hvalues.parse_compact _
      firstExample.builds_toJson)).exact (by decide)
  have hragged : exampleHost.decode (Json.Library.standard.pretty (ragged.toJson .standard)) =
      .ok ragged :=
    (Problem.readsBack_of_parse hvalues hfloats (hvalues.parse_pretty _
      ragged.builds_toJson)).exact (by decide)
  have hvalid : firstExample.IsValid := by decide +kernel
  have hcertified : ((solver none).solve firstExample).toOption.map (·.isCertified) =
      some true := by decide +kernel
  rw [(solver none).solve_eq hvalid] at hcertified
  have hdefect : ragged.defect? = some (.rowLength 1 2 1) := by rfl
  have hmessage : "Invalid problem: " ++ (Defect.rowLength 1 2 1 : Defect Float).message ++ "\n" =
      "Invalid problem: Constraint row 1 has 1 coefficients, expected 2\n" := by decide +kernel
  have hreason : "Error reading file: " ++ "no such file" ++ "\n" =
      "Error reading file: no such file\n" := by decide +kernel
  obtain ⟨houtput, hinvalid⟩ := (solve_agreement exampleHost "ragged.json" none).invalid
    _ ragged _ rfl hragged hdefect showTableau format
  have hmissing := solve_agreement exampleHost "missing.json" none
  refine ⟨?_, houtput, hinvalid.trans hmessage, ?_, ?_⟩
  · exact ((solve_agreement exampleHost "first.json" none).exitCode_eq_zero_iff showTableau
      format).mpr ⟨_, firstExample, _, rfl, hfirst, hvalid, (solver none).solve_eq hvalid,
        Option.some.inj hcertified⟩
  · refine hmissing.exitCode_eq_one showTableau format fun hzero => ?_
    obtain ⟨_, _, _, htext, -⟩ := (hmissing.exitCode_eq_zero_iff showTableau format).mp hzero
    cases htext
  · exact (hmissing.unreadable _ rfl showTableau format).2.trans hreason

end Command

end LinearProgramming
