import FiniteDomain.Text.Decimal
import FiniteDomain.Word

/-!
# Command line arguments

Arguments are options, which start with a hyphen, and positional arguments, in any order. A double
hyphen ends the options. An option is a flag, or takes a value that follows it as the next argument
or after an equals sign. No option may be given twice.

* `Arguments.parse?`: sorts the arguments of a command.
-/

namespace FiniteDomain.Command

/-- The options that a command takes. -/
structure OptionNames where
  /-- Options without a value. -/
  flags : List String
  /-- Options with a value. -/
  valued : List String

/-- Arguments sorted by kind. -/
structure Arguments where
  /-- The flags that are set. -/
  flags : List String
  /-- The options that have a value, with it. -/
  values : List (String × String)
  /-- The positional arguments in order. -/
  positional : List String

namespace Arguments

/-- No arguments. -/
def empty : Arguments :=
  ⟨[], [], []⟩

/-- Sets a flag that is not set yet. -/
def addFlag? (a : Arguments) (name : String) : Option Arguments :=
  if a.flags.contains name then none else some { a with flags := a.flags ++ [name] }

/-- Gives a value to an option that has none yet. -/
def addValue? (a : Arguments) (name value : String) : Option Arguments :=
  if (a.values.lookup name).isSome then none
  else some { a with values := a.values ++ [(name, value)] }

/-- Adds a positional argument. -/
def addPositional (a : Arguments) (value : String) : Arguments :=
  { a with positional := a.positional ++ [value] }

/-- An argument that is read as an option: it starts with a hyphen and is not just a hyphen. -/
def isOption (argument : String) : Bool :=
  argument.toList.head? == some '-' && argument != "-"

/-- The name and the value of an option with an equals sign. -/
def splitValue? (argument : String) : Option (String × String) :=
  match argument.toList.dropWhile (· != '=') with
  | [] => none
  | _ :: value => some (String.ofList (argument.toList.takeWhile (· != '=')), String.ofList value)

/-- Sorts arguments, those sorted before being given; fails on an argument that the command does not
take. -/
def sort? (names : OptionNames) : List String → Arguments → Option Arguments
  | [], a => some a
  | argument :: rest, a =>
    if argument = "--" then some { a with positional := a.positional ++ rest }
    else if !isOption argument then sort? names rest (a.addPositional argument)
    else if names.flags.contains argument then do
      let a ← a.addFlag? argument
      sort? names rest a
    else if names.valued.contains argument then
      match rest with
      | value :: rest =>
        if isOption value then none
        else do
          let a ← a.addValue? argument value
          sort? names rest a
      | [] => none
    else
      match splitValue? argument with
      | some (name, value) =>
        if names.valued.contains name then do
          let a ← a.addValue? name value
          sort? names rest a
        else none
      | none => none

/-- Sorts the arguments of a command. -/
def parse? (names : OptionNames) (arguments : List String) : Option Arguments :=
  sort? names arguments empty

end Arguments

/-- A count given on the command line: digits with an optional plus sign, of a value that fits the
unsigned word. -/
def readCount? (s : String) : Option Nat := do
  let cs := match s.toList with
    | '+' :: rest => rest
    | cs => cs
  let (n, rest) ← Decimal.readDigits cs
  if rest.isEmpty then (Word.ofNat? n).map UInt64.toNat else none

end FiniteDomain.Command
