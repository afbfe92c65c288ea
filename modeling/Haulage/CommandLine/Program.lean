/-
Module: Haulage.CommandLine.Program
Purpose: What the program does on a request.
Main exports: Outcome, SolveRequest.report, run
-/
import Haulage.CommandLine.Files
import Haulage.CommandLine.Request
import Haulage.Document.Reading
import Haulage.Document.Schema
import Haulage.Pass.Fill
import Haulage.Report.Text
import Haulage.Text.Lines

namespace Haulage

namespace CommandLine

/-- What the program leaves behind: its exit code and what it prints. -/
structure Outcome where
  exitCode : UInt8
  /-- The lines that are printed first. -/
  lines : List String
  /-- The document that is printed after them. -/
  document : Option Json
  /-- The lines that are printed as errors. -/
  errors : List String
deriving Inhabited

namespace Outcome

/-- All went well. -/
def success (lines : List String) (document : Option Json) : Outcome := ⟨0, lines, document, []⟩

/-- The text in which a cause stands below a reason. -/
def causeText (cause : String) : String :=
  "\n\nCaused by:\n" ++ String.intercalate "\n" ((cause.splitOn "\n").map ("    " ++ ·))

/-- The request failed, for a reason that may have a cause. -/
def failure (reason : String) (cause : Option String) : Outcome :=
  ⟨1, [], none, linesOf ("Error: " ++ reason ++ (cause.map causeText).getD "" ++ "\n")⟩

/-- A file could not be used.  One line says so, also where the name of the file has more. -/
def fileFailure (lines : List String) (reason : String) : Outcome :=
  ⟨1, lines, none, (linesOf ("Error: " ++ reason ++ "\n")).take 1⟩

/-- The arguments made no sense. -/
def misuse : Outcome :=
  ⟨2, [], none, ["usage: solve --input FILE [options] | schema [options]"]⟩

/-- The user asked for help. -/
def help : Outcome :=
  .success ["usage: solve --input FILE [options] | schema [options]"] none

/-- A computation had no answer. -/
def fault : Outcome := ⟨101, [], none, []⟩

end Outcome

/-- The parameters of a pass: those of the document, where the request does not say otherwise. -/
def SolveRequest.parameters (request : SolveRequest) (d : ProblemDocument Float) :
    Parameters Float :=
  let given := d.parameters.getD .standard
  { given with
    seed := request.seed.getD given.seed, threads := request.threads.getD given.threads }

/-- The report of a plan made in one pass. -/
def reportOfPass (p : Problem Float) (parameters : Parameters Float) :
    Except Failure (SolutionReport Float) := do
  let plan ← Plan.empty p
  match Fill.recreate p (.forProblem p parameters) (.start p plan) with
  | .ok _ fill => SolutionReport.ofPlan p fill.work.plan
  | .error e _ => .error e

/-- The report that a request asks for, or the outcome without one. -/
def SolveRequest.report (request : SolveRequest) (d : ProblemDocument Float) :
    Except Outcome (SolutionReport Float) :=
  match d.build with
  | .error (.problem (.fault _)) => .error .fault
  | .error e => .error (.failure e.context (e.cause?.map (·.message)))
  | .ok p =>
    match reportOfPass p (request.parameters d) with
    | .error (.fault _) => .error .fault
    | .error (.refused reason) => .error (.failure reason.message none)
    | .ok report => .ok report

variable {m : Type → Type} [Monad m]

/-- Reads the problem and reports a plan for it. -/
def solve (files : Files m) (request : SolveRequest) : m Outcome := do
  match ← files.read request.input with
  | .missing => return .fileFailure [] ("failed to open " ++ request.input)
  | .unreadable => return .fileFailure [] ("failed to parse " ++ request.input)
  | .text content =>
    match ProblemDocument.ofText? content with
    | none => return .fileFailure [] ("failed to parse " ++ request.input)
    | some d =>
      match request.report d with
      | .error outcome => return outcome
      | .ok report =>
        let lines := report.table.lines
        match request.output with
        | none => return .success lines (some report.toJson)
        | some path =>
          match ← files.write path report.toJson.pretty with
          | none => return .success lines none
          | some _ => return .fileFailure lines ("failed to create " ++ path)

/-- Prints or writes a schema.  Folders that are missing around the file are made. -/
def writeSchema (files : Files m) (output : Option String) (ofSolution : Bool) : m Outcome := do
  let schema := if ofSolution then solutionSchema else problemSchema
  match output with
  | none => return .success [] (some schema)
  | some path =>
    match ← files.makeFolders (Path.ofText path).folder with
    | some e => return .failure e.message none
    | none =>
      match ← files.write path schema.pretty with
      | some e => return .failure e.message none
      | none => return .success [] none

/-- Runs the program on its arguments. -/
def run (files : Files m) (args : List String) : m Outcome :=
  match Request.ofArguments args with
  | .error .help => return .help
  | .error .misuse => return .misuse
  | .ok (.solve request) => solve files request
  | .ok (.schema output ofSolution) => writeSchema files output ofSolution

end CommandLine

end Haulage
