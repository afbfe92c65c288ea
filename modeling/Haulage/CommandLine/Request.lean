/-
Module: Haulage.CommandLine.Request
Purpose: The requests that can be made on the command line.
Main exports: SolveRequest, Request, Request.ofArguments
-/
import Haulage.CommandLine.Arguments
import Haulage.Pass.Parameters
import Haulage.Text.Scan
import Haulage.Time.DurationText

namespace Haulage

namespace CommandLine

/-- A request to solve a problem. -/
structure SolveRequest where
  /-- The file with the problem. -/
  input : String
  /-- The file for the report, which is else printed. -/
  output : Option String
  seed : Option UInt64
  threads : Option Threads
  /-- The time after which the pass is to end. -/
  limit : Option Duration
deriving Repr, Inhabited

/-- A request. -/
inductive Request where
  | solve (request : SolveRequest)
  /-- Asks for a schema, to be printed or to be written to a file. -/
  | schema (output : Option String) (ofSolution : Bool)
deriving Repr, Inhabited

/-- The name of a file, which is not empty. -/
def fileName? (s : String) : Option String := if s.isEmpty then none else some s

/-- A seed. -/
def seed? (s : String) : Option UInt64 := (Scan.word? s.toList).map UInt64.ofNat

/-- A number of threads, where zero leaves it to the machine. -/
def threads? (s : String) : Option Threads :=
  (Scan.word? s.toList).map fun
    | 0 => .auto
    | 1 => .single
    | n => .multi n

/-- A limit of time, which is not negative. -/
def limit? (s : String) : Option Duration := (Duration.limitOfText s).toOption

/-- An option with a value that can be read in a certain way. -/
def optionWith {β : Type} (long : String) (short : Option Char) (read : String → Option β) :
    OptionName :=
  ⟨long, short, .value fun s => (read s).isSome⟩

/-- The option for more messages, which every command knows. -/
def debugOption : OptionName := ⟨"debug", some 'd', .flag⟩

/-- The options of the program itself. -/
def programOptions : List OptionName :=
  [debugOption, helpOption, ⟨"version", some 'V', .explain⟩]

/-- The options of a request to solve a problem. -/
def solveOptions : List OptionName :=
  [optionWith "input" (some 'i') fileName?, optionWith "output" (some 'o') fileName?,
    optionWith "seed" none seed?, optionWith "threads" (some 't') threads?,
    optionWith "timeout" none limit?, debugOption, helpOption]

/-- The options of a request for a schema. -/
def schemaOptions : List OptionName :=
  [optionWith "out" (some 'o') fileName?, ⟨"solution", none, .flag⟩, debugOption, helpOption]

/-- The request to solve a problem that some options make. -/
def solveRequest (given : List Occurrence) : Except Interruption SolveRequest := do
  let input ← valueOf given "input" fileName?
  let output ← valueOf given "output" fileName?
  let seed ← valueOf given "seed" seed?
  let threads ← valueOf given "threads" threads?
  let limit ← valueOf given "timeout" limit?
  match input with
  | some input => .ok ⟨input, output, seed, threads, limit⟩
  | none => .error .misuse

/-- Whether help can be asked for with these words behind the name of the command for it: with the
name of one command, or with none. -/
def isHelpTopic : List String → Bool
  | [] => true
  | [name] => ["solve", "schema", "help"].contains name
  | _ => false

/-- The request that some arguments make: options of the program, the name of a command, and the
options of the command. -/
def Request.ofArguments (args : List String) : Except Interruption Request := do
  let (_, rest) ← readLeading programOptions args
  match rest with
  | "solve" :: args => do .ok (.solve (← solveRequest (← readOptions solveOptions args)))
  | "schema" :: args => do
    let given ← readOptions schemaOptions args
    .ok (.schema (← valueOf given "out" fileName?) (isGiven given "solution"))
  | "help" :: topic => .error (if isHelpTopic topic then .help else .misuse)
  | _ => .error .misuse

end CommandLine

end Haulage
