/-
Module: Haulage.Main
Purpose: The command line program, on the files of the machine.
Main exports: main
-/
import Haulage.CommandLine.Program

namespace Haulage

namespace CommandLine

/-- Reads a file of the machine. -/
def readFile (path : String) : IO Reading := do
  match ← (IO.FS.Handle.mk path .read).toBaseIO with
  | .error _ => return .missing
  | .ok handle =>
    match ← handle.readToEnd.toBaseIO with
    | .error _ => return .unreadable
    | .ok content => return .text content

/-- What became of an attempt to write. -/
def written (attempt : IO Unit) : IO (Option WriteError) := do
  match ← attempt.toBaseIO with
  | .ok _ => return none
  | .error e => return some (.other (toString e))

/-- The files of the machine. -/
def machineFiles : Files IO where
  read := readFile
  write path content := written (IO.FS.writeFile path content)
  makeFolders path :=
    written (if path.parts.isEmpty then pure () else IO.FS.createDirAll path.text)

end CommandLine

end Haulage

open Haulage in
/-- Runs the program and prints what it leaves behind. -/
def main (args : List String) : IO UInt32 := do
  let outcome ← CommandLine.run CommandLine.machineFiles args
  outcome.lines.forM fun line => IO.println line
  if let some document := outcome.document then IO.println document.pretty
  outcome.errors.forM fun line => IO.eprintln line
  return outcome.exitCode.toUInt32
