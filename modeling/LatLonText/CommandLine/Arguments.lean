/-
# Arguments of the command line

Arguments are read from left to right, and the first that cannot be read ends
the reading. What they ask for is put together afterwards: an explicit dimension
counts more than the one that comes with SQL Server text, wherever it stands,
and of two dimensions or digit counts the last one counts. Only the outcome is
checked.

Key definitions: `CommandLine.Arguments`, `CommandLine.Arguments.read`,
`CommandLine.Arguments.config`.
-/
import LatLonText.Config

namespace LatLonText.CommandLine

/-! ### Numbers -/

/-- Why an argument is not a number. -/
inductive NumberFault where
  | empty
  | invalidDigit
  | tooLarge
deriving DecidableEq

/-- The wording of a fault. -/
def NumberFault.message : NumberFault → String
  | empty => "cannot parse integer from empty string"
  | invalidDigit => "invalid digit found in string"
  | tooLarge => "number too large to fit in target type"

/-- Reads digits behind the number `n`, up to `limit`; the first fault from the left counts. -/
def readDigits (limit : Nat) : (n : Nat) → List Char → Except NumberFault Nat
  | n, [] => .ok n
  | n, c :: cs =>
    if !c.isDigit then .error .invalidDigit
    else
      let more := 10 * n + (c.toNat - 48)
      if limit < more then .error .tooLarge else readDigits limit more cs

/-- Reads a whole number up to `limit`, with or without a plus sign. -/
def readNumber (limit : Nat) : List Char → Except NumberFault Nat
  | [] => .error .empty
  | ['+'] => .error .invalidDigit
  | '+' :: cs => readDigits limit 0 cs
  | cs => readDigits limit 0 cs

/-! ### Arguments -/

/-- What the arguments ask for. -/
structure Arguments where
  dimension : Option UInt8
  digits : Option UInt32
  pretty : Bool
  sqlServer : Bool
deriving DecidableEq

/-- Why arguments are not accepted. -/
inductive ArgumentFault where
  /-- Help is asked for, or a value is missing. -/
  | usage
  | unknown (argument : String)
  | number (fault : NumberFault)
  | settings (fault : Error)
deriving DecidableEq

/-- How the program is called. -/
def usage : String :=
  "Usage: to_geography_wkt [--dim N] [--pretty] [--sql-server] [--digits N] < input.wkt"

/-- The wording of a fault. -/
def ArgumentFault.message : ArgumentFault → String
  | usage => CommandLine.usage
  | unknown argument => "unknown argument `" ++ argument ++ "`\n" ++ CommandLine.usage
  | number fault => fault.message
  | settings fault => fault.message

namespace Arguments

/-- No arguments. -/
def none : Arguments := ⟨Option.none, Option.none, false, false⟩

/-- Reads arguments on top of those read before. -/
def readOnto (a : Arguments) : List String → Except ArgumentFault Arguments
  | [] => .ok a
  | "--dim" :: value :: rest =>
    match readNumber 0xff value.toList with
    | .ok n => readOnto { a with dimension := some (UInt8.ofNat n) } rest
    | .error fault => .error (.number fault)
  | "--digits" :: value :: rest =>
    match readNumber 0xffffffff value.toList with
    | .ok n => readOnto { a with digits := some (UInt32.ofNat n) } rest
    | .error fault => .error (.number fault)
  | "--dim" :: [] => .error .usage
  | "--digits" :: [] => .error .usage
  | "--pretty" :: rest => readOnto { a with pretty := true } rest
  | "--sql-server" :: rest => readOnto { a with sqlServer := true } rest
  | "-h" :: _ => .error .usage
  | "--help" :: _ => .error .usage
  | other :: _ => .error (.unknown other)

/-- Reads all arguments. -/
def read (arguments : List String) : Except ArgumentFault Arguments :=
  readOnto none arguments

/-- The settings that the arguments ask for, in the order in which they are applied. -/
def settings (a : Arguments) : List Setting :=
  (if a.sqlServer then
      [.dimension Config.sqlServer.dimension, .dialect Config.sqlServer.dialect]
    else [])
    ++ (a.dimension.map Setting.dimension).toList
    ++ (a.digits.map fun n => Setting.precision (.fixed n)).toList
    ++ [.pretty a.pretty]

/-- The configuration that a list of arguments asks for. -/
def config (arguments : List String) : Except ArgumentFault Config := do
  let a ← read arguments
  (Settings.ofList a.settings).build.mapError .settings

end Arguments

end LatLonText.CommandLine
