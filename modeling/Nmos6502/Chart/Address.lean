import Nmos6502.Hex

/-!
# The address of the chart

The chart is made at an address that the user may give as text.  The text may carry any
number of `$`, then any number of `0x`, then a plus sign; the digits behind them are
hexadecimal, and there may be any number of them as long as the number fits.
-/

namespace Nmos6502.Chart

/-- Why the arguments are refused.  Only the first of these is found by looking at a text
that should be an address. -/
inductive UsageError
  /-- The text of the origin is not an address. -/
  | invalidAddress (text : String)
  /-- There is no such option. -/
  | unknownOption (text : String)
  /-- An argument that is not an option stands where none is expected. -/
  | strayArgument (text : String)
  /-- The origin has no value. -/
  | missingValue
  /-- The switch is given a value. -/
  | needlessValue (text : String)
  /-- An option is given twice. -/
  | repeated (name : String)
  deriving DecidableEq

/-- The error in words. -/
def UsageError.message : UsageError → String
  | invalidAddress text => "invalid hex address: " ++ text
  | unknownOption text => "unknown option: " ++ text
  | strayArgument text => "stray argument: " ++ text
  | missingValue => "missing value: --origin"
  | needlessValue text => "needless value: " ++ text
  | repeated name => "given twice: " ++ name

/-- Leaves out every mark `0x` at the beginning. -/
def dropMarks : List Char → List Char
  | '0' :: 'x' :: rest => dropMarks rest
  | rest => rest

/-- Leaves out a plus sign at the beginning. -/
def dropPlus : List Char → List Char
  | '+' :: rest => rest
  | rest => rest

/-- The digits of an address, behind any number of `$`, then any number of `0x`,
then perhaps a plus sign. -/
def addressDigits (text : String) : List Char :=
  dropPlus (dropMarks (text.toList.dropWhile (· == '$')))

/-- The address that a text stands for. -/
def parseAddress (text : String) : Except UsageError Word :=
  match Hex.toNatBelow? 0x10000 (addressDigits text) with
  | none => .error (.invalidAddress text)
  | some n => .ok (UInt16.ofNat n)

end Nmos6502.Chart
