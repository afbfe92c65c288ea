/-
Module: Haulage.Text.Lines
Purpose: The lines of a text.
Main exports: linesOf
-/

namespace Haulage

/-- A line without the carriage return at its end. -/
def withoutReturn (line : String) : String :=
  if line.endsWith "\r" then String.ofList line.toList.dropLast else line

/-- The lines between the line feeds of a text.  A carriage return in front of a line feed belongs
to it, and what follows the last line feed is a line only where something follows. -/
def linesOfParts : List String → List String
  | [] => []
  | [last] => if last.isEmpty then [] else [last]
  | line :: rest => withoutReturn line :: linesOfParts rest

/-- The lines of a text. -/
def linesOf (s : String) : List String := linesOfParts (s.splitOn "\n")

end Haulage
