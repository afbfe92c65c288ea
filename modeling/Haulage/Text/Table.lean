/-
Module: Haulage.Text.Table
Purpose: Tables drawn with characters.
Main exports: Table, Table.lines
-/
import Haulage.Text.Width

namespace Haulage

/-- A table: a head and the rows below it.  A cell may have several lines. -/
structure Table where
  head : List String
  rows : List (List String)
deriving Repr, Inhabited

namespace Table

/-- The lines of a cell. -/
def cellLines (cell : String) : List String := cell.splitOn "\n"

/-- The columns that the widest line of a cell takes up. -/
def cellWidth (cell : String) : Nat := ((cellLines cell).map columns).foldl max 0

/-- The width of every column of the table, which is that of its widest cell. -/
def widths (t : Table) : List Nat :=
  (List.range t.head.length).map fun i =>
    ((t.head :: t.rows).map fun row => cellWidth (row.getD i "")).foldl max 0

/-- A character repeated. -/
def repeated (c : Char) (n : Nat) : String := String.ofList (List.replicate n c)

/-- A text with a blank in front and with blanks behind it up to the width of its column, and one
more. -/
def aligned (width : Nat) (text : String) : String :=
  " " ++ text ++ repeated ' ' (width - columns text) ++ " "

/-- The lines of a row, as many as its highest cell has. -/
def rowLines (widths : List Nat) (row : List String) : List String :=
  let cells := row.map cellLines
  let height := (cells.map (·.length)).foldl max 0
  (List.range height).map fun i =>
    let parts := List.zipWith (fun width lines => aligned width (lines.getD i "")) widths cells
    "|" ++ String.intercalate "|" parts ++ "|"

/-- A line across the table: `fill` under the columns, `joint` where two of them meet. -/
def rule (widths : List Nat) (edge joint : String) (fill : Char) : String :=
  edge ++ String.intercalate joint (widths.map fun width => repeated fill (width + 2)) ++ edge

/-- The lines of a table.  A line of equal signs stands below the head, and thin lines stand
between the rows. -/
def lines (t : Table) : List String :=
  let widths := t.widths
  let border := rule widths "+" "+" '-'
  let between := rule widths "|" "+" '-'
  let body := (t.rows.map (rowLines widths)).intersperse [between]
  [border] ++ rowLines widths t.head ++ [rule widths "+" "=" '='] ++ body.flatten ++ [border]

end Table

end Haulage
