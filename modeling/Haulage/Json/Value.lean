/-
Module: Haulage.Json.Value
Purpose: JSON documents as values, and their text.
Main exports: Json, Json.isHeld, Json.compact, Json.pretty, Json.mapReals
-/
import Haulage.Decimal.Shortest

namespace Haulage

/-- A JSON value.  Whole numbers of 64 bits are kept apart from other numbers, and members of an
object stay in their order, also where a name is repeated. -/
inductive Json where
  | null
  | bool (b : Bool)
  | int (n : Int)
  | real (x : Float)
  | str (s : String)
  | arr (items : List Json)
  | obj (members : List (String × Json))
  /-- A value in correct writing that cannot be held: a number beyond all doubles, a text with half
  of a pair of surrogates, or what is nested too deep. -/
  | unheld
deriving Inhabited

namespace Json

mutual

/-- Whether a value is held with all its parts. -/
def isHeld : Json → Bool
  | .unheld => false
  | .arr items => areHeld items
  | .obj members => areMembersHeld members
  | .null | .bool _ | .int _ | .real _ | .str _ => true

/-- Whether all items are held. -/
def areHeld : List Json → Bool
  | [] => true
  | item :: rest => isHeld item && areHeld rest

/-- Whether all members are held. -/
def areMembersHeld : List (String × Json) → Bool
  | [] => true
  | (_, value) :: rest => isHeld value && areMembersHeld rest

end

/-- The digits of a number below 16. -/
def hexDigit (n : Nat) : Char := "0123456789abcdef".toList.getD n '0'

/-- A character within quotes. -/
def escapeChar (c : Char) : List Char :=
  if c = '"' then ['\\', '"']
  else if c = '\\' then ['\\', '\\']
  else if c = '\n' then ['\\', 'n']
  else if c = '\r' then ['\\', 'r']
  else if c = '\t' then ['\\', 't']
  else if c.toNat = 8 then ['\\', 'b']
  else if c.toNat = 12 then ['\\', 'f']
  else if c.toNat < 32 then
    ['\\', 'u', '0', '0', hexDigit (c.toNat / 16), hexDigit (c.toNat % 16)]
  else [c]

/-- A text within quotes. -/
def quoted (s : String) : String :=
  String.ofList ('"' :: s.toList.flatMap escapeChar ++ ['"'])

/-- A number in writing.  What is infinite or no number is written as null. -/
def realText (x : Float) : String := (shortestText? x).getD "null"

mutual

/-- The text of a value on one line. -/
def compact : Json → String
  | .null | .unheld => "null"
  | .bool b => if b then "true" else "false"
  | .int n => toString n
  | .real x => realText x
  | .str s => quoted s
  | .arr items => "[" ++ String.intercalate "," (compactItems items) ++ "]"
  | .obj members => "\x7b" ++ String.intercalate "," (compactMembers members) ++ "\x7d"

/-- The texts of some items. -/
def compactItems : List Json → List String
  | [] => []
  | item :: rest => compact item :: compactItems rest

/-- The texts of some members. -/
def compactMembers : List (String × Json) → List String
  | [] => []
  | (name, value) :: rest => (quoted name ++ ":" ++ compact value) :: compactMembers rest

end

/-- The blanks in front of a line at some depth. -/
def indent (depth : Nat) : String := String.ofList (List.replicate (2 * depth) ' ')

/-- Lines between brackets, each a step deeper than the brackets. -/
def block (opening closing : String) (depth : Nat) (lines : List String) : String :=
  if lines.isEmpty then opening ++ closing
  else
    opening ++ "\n" ++
      String.intercalate ",\n" (lines.map fun line => indent (depth + 1) ++ line) ++
      "\n" ++ indent depth ++ closing

mutual

/-- The text of a value with one item or member on a line. -/
def prettyAt (depth : Nat) : Json → String
  | .arr items => block "[" "]" depth (prettyItems (depth + 1) items)
  | .obj members => block "\x7b" "\x7d" depth (prettyMembers (depth + 1) members)
  | .null | .unheld => "null"
  | .bool b => if b then "true" else "false"
  | .int n => toString n
  | .real x => realText x
  | .str s => quoted s

/-- The texts of some items. -/
def prettyItems (depth : Nat) : List Json → List String
  | [] => []
  | item :: rest => prettyAt depth item :: prettyItems depth rest

/-- The texts of some members. -/
def prettyMembers (depth : Nat) : List (String × Json) → List String
  | [] => []
  | (name, value) :: rest =>
    (quoted name ++ ": " ++ prettyAt depth value) :: prettyMembers depth rest

end

/-- The text of a value with one item or member on a line. -/
def pretty (j : Json) : String := prettyAt 0 j

mutual

/-- The value in which every number with a point is replaced. -/
def mapReals (f : Float → Json) : Json → Json
  | .real x => f x
  | .arr items => .arr (mapItems f items)
  | .obj members => .obj (mapMembers f members)
  | .null => .null
  | .bool b => .bool b
  | .int n => .int n
  | .str s => .str s
  | .unheld => .unheld

/-- Some items in which every number with a point is replaced. -/
def mapItems (f : Float → Json) : List Json → List Json
  | [] => []
  | item :: rest => mapReals f item :: mapItems f rest

/-- Some members in which every number with a point is replaced. -/
def mapMembers (f : Float → Json) : List (String × Json) → List (String × Json)
  | [] => []
  | (name, value) :: rest => (name, mapReals f value) :: mapMembers f rest

end

end Json

end Haulage
