/-
Module: Haulage.Json.Record
Purpose: Reading records, lists and plain values out of a JSON value.
Main exports: Json.number?, Json.index?, Json.list?, Json.member, Json.record?, Json.Fields,
  Json.tagged?
-/
import Haulage.Json.Value

namespace Haulage

namespace Json

/-! ### Plain values -/

/-- A text. -/
def text? : Json → Option String
  | .str s => some s
  | _ => none

/-- A truth value. -/
def flag? : Json → Option Bool
  | .bool b => some b
  | _ => none

/-- A number, written with or without a point. -/
def number? : Json → Option Float
  | .int n => some (Float.ofInt n)
  | .real x => some x
  | _ => none

/-- A whole number from zero on, written without a point. -/
def index? : Json → Option Nat
  | .int n => if 0 ≤ n then some n.toNat else none
  | _ => none

/-- A list of values of one kind. -/
def list? {β : Type} (read : Json → Option β) : Json → Option (List β)
  | .arr items => items.mapM read
  | _ => none

/-- The members of an object; other values have none. -/
def members : Json → List (String × Json)
  | .obj members => members
  | _ => []

/-- A member of an object, which is null where it is missing. -/
def member (j : Json) (name : String) : Json := (j.members.lookup name).getD .null

/-- An object with one more member. -/
def withMember (j : Json) (name : String) (value : Json) : Json :=
  .obj (j.members ++ [(name, value)])

/-! ### Records

A record is an object with some known members, or an array with their values in order. -/

/-- How a record is written. -/
structure Layout where
  names : List String
  /-- Whether an object may have members beside the known ones. -/
  allowsOthers : Bool
  /-- The number of values that an array holds at least. -/
  least : Nat

namespace Layout

/-- A record with no members but the given ones. -/
def closed (names : List String) : Layout := ⟨names, false, names.length⟩

/-- A record in which further members are passed over. -/
def openEnded (names : List String) : Layout := ⟨names, true, names.length⟩

end Layout

/-- The known members that were found in a record. -/
abbrev Fields := List (String × Json)

/-- Whether no name occurs twice. -/
def namesDiffer (names : List String) : Bool :=
  match names with
  | [] => true
  | name :: rest => !rest.contains name && namesDiffer rest

/-- The members of a record.  A known member may stand once only. -/
def record? (layout : Layout) : Json → Option Fields
  | .obj members =>
    let known := members.filter fun m => layout.names.contains m.1
    if !layout.allowsOthers && known.length < members.length then none
    else if namesDiffer (known.map (·.1)) then some known
    else none
  | .arr items =>
    if layout.least ≤ items.length ∧ items.length ≤ layout.names.length then
      some (layout.names.zip items)
    else none
  | _ => none

namespace Fields

/-- A member that has to be there. -/
def required {β : Type} (fields : Fields) (name : String) (read : Json → Option β) : Option β :=
  (fields.lookup name).bind read

/-- A member that may be left out. -/
def orDefault {β : Type} (fields : Fields) (name : String) (default : β)
    (read : Json → Option β) : Option β :=
  match fields.lookup name with
  | none => some default
  | some value => read value

/-- A member that may be left out or null. -/
def optional {β : Type} (fields : Fields) (name : String) (read : Json → Option β) :
    Option (Option β) :=
  match fields.lookup name with
  | none | some .null => some none
  | some value => (read value).map some

end Fields

/-! ### Choices -/

/-- A choice between kinds of records.  The kind is a member of its own, or the first value of
an array; the rest is the record. -/
def tagged? (tag : String) : Json → Option (String × Json)
  | .obj members =>
    match members.filter (·.1 = tag) with
    | [(_, .str kind)] => some (kind, .obj (members.filter fun m => m.1 ≠ tag))
    | _ => none
  | .arr (.str kind :: items) => some (kind, .arr items)
  | _ => none

/-- A choice between names: a name, or an object with a name and what comes with it. -/
def variant? : Json → Option (String × Json)
  | .str name => some (name, .null)
  | .obj [(name, value)] => some (name, value)
  | _ => none

end Json

end Haulage
