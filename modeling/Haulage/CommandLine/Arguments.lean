/-
Module: Haulage.CommandLine.Arguments
Purpose: Reading options from the arguments of a command.
Main exports: OptionKind, OptionName, Occurrence, Interruption, readOptions, readLeading
-/

namespace Haulage

namespace CommandLine

/-!
Arguments are read one after the other, and the first that makes no sense ends the reading.  An
option that asks for an explanation ends it too, so such an option is answered only where all in
front of it makes sense, and whatever may follow it.
-/

/-- What an option is for. -/
inductive OptionKind where
  /-- Asks the program to explain itself, and for nothing else. -/
  | explain
  /-- Is given or not. -/
  | flag
  /-- Has a value behind it, one of those that are accepted. -/
  | value (accepts : String → Bool)

/-- An option that a command knows. -/
structure OptionName where
  long : String
  short : Option Char
  kind : OptionKind

/-- Whether a value follows an option. -/
def OptionName.takesValue (option : OptionName) : Bool :=
  match option.kind with
  | .value _ => true
  | _ => false

/-- An option that was given, with its value if it takes one. -/
structure Occurrence where
  name : String
  value : Option String
deriving DecidableEq, Repr, Inhabited

/-- Why the reading of arguments ends early. -/
inductive Interruption where
  /-- The user asks for help. -/
  | help
  /-- The arguments make no sense. -/
  | misuse
deriving DecidableEq, Repr, Inhabited

/-- The option under which every command explains itself. -/
def helpOption : OptionName := ⟨"help", some 'h', .explain⟩

/-- Whether an option was given. -/
def isGiven (given : List Occurrence) (name : String) : Bool := given.any (·.name = name)

/-- The options given so far and one more, which was not among them. -/
def note (given : List Occurrence) (option : OptionName) (value : String) :
    Except Interruption (List Occurrence) :=
  let once (value : Option String) : Except Interruption (List Occurrence) :=
    if isGiven given option.long then .error .misuse else .ok (given ++ [⟨option.long, value⟩])
  match option.kind with
  | .explain => .error .help
  | .flag => once none
  | .value accepts => if accepts value then once (some value) else .error .misuse

/-- Whether an argument is read as an option.  A lone dash is not. -/
def isOption (arg : String) : Bool := arg.startsWith "-" && arg != "-"

/-- What an argument says when it is an option, after those given before it. -/
inductive OptionArgument where
  /-- All options of the argument have their values. -/
  | complete (given : List Occurrence)
  /-- The last option waits for the next argument as its value. -/
  | awaiting (given : List Occurrence) (option : OptionName)

/-- Reads an option under its long name.  A value may follow an equals sign. -/
def readLong (options : List OptionName) (given : List Occurrence) (cs : List Char) :
    Except Interruption OptionArgument := do
  let name := String.ofList (cs.takeWhile (· ≠ '='))
  let attached := match cs.dropWhile (· ≠ '=') with
    | '=' :: value => some (String.ofList value)
    | _ => none
  match options.find? (·.long = name), attached with
  | none, _ => .error .misuse
  | some option, some value =>
    if option.takesValue then .ok (.complete (← note given option value)) else .error .misuse
  | some option, none =>
    if option.takesValue then .ok (.awaiting given option)
    else .ok (.complete (← note given option ""))

/-- Reads options under their short names.  What follows an option with a value is the value, with
or without an equals sign. -/
def readShort (options : List OptionName) (given : List Occurrence) :
    List Char → Except Interruption OptionArgument
  | [] => .ok (.complete given)
  | c :: cs => do
    match options.find? (·.short = some c) with
    | none => .error .misuse
    | some option =>
      if option.takesValue then
        match cs with
        | [] => .ok (.awaiting given option)
        | '=' :: value => .ok (.complete (← note given option (String.ofList value)))
        | value => .ok (.complete (← note given option (String.ofList value)))
      else readShort options (← note given option "") cs

/-- Reads an argument that is an option. -/
def readOption (options : List OptionName) (given : List Occurrence) (arg : String) :
    Except Interruption OptionArgument :=
  match arg.toList with
  | '-' :: '-' :: cs => readLong options given cs
  | '-' :: cs => readShort options given cs
  | _ => .error .misuse

/-- Reads the options in front of the first argument that is none, after those given before, and
gives what follows. -/
def readLeadingFrom (options : List OptionName) (given : List Occurrence) :
    List String → Except Interruption (List Occurrence × List String)
  | [] => .ok (given, [])
  | "--" :: rest => if rest.isEmpty then .ok (given, []) else .error .misuse
  | arg :: rest =>
    if !isOption arg then .ok (given, arg :: rest)
    else do
      match ← readOption options given arg with
      | .complete given => readLeadingFrom options given rest
      | .awaiting given option =>
        match rest with
        | [] => .error .misuse
        | value :: rest =>
          if isOption value then .error .misuse
          else readLeadingFrom options (← note given option value) rest

/-- Reads the options in front of the first argument that is none, and gives what follows. -/
def readLeading (options : List OptionName) (args : List String) :
    Except Interruption (List Occurrence × List String) :=
  readLeadingFrom options [] args

/-- Reads arguments that are all options. -/
def readOptions (options : List OptionName) (args : List String) :
    Except Interruption (List Occurrence) := do
  let (given, rest) ← readLeading options args
  if rest.isEmpty then .ok given else .error .misuse

/-- The value of an option, read in a certain way.  It may be missing, but not be wrong. -/
def valueOf {β : Type} (given : List Occurrence) (name : String) (read : String → Option β) :
    Except Interruption (Option β) :=
  match given.find? (·.name = name) with
  | none => .ok none
  | some o =>
    match o.value.bind read with
    | some value => .ok (some value)
    | none => .error .misuse

end CommandLine

end Haulage
