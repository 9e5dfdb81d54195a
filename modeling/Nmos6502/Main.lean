import Nmos6502.Chart
import Nmos6502.Chart.Options

/-!
# The chart program

Prints the opcode chart, or refuses its arguments with exit code 2.  Notes and
refusals go to standard error, so standard output is the chart alone.
-/

open Nmos6502.Chart

def main (arguments : List String) : IO UInt32 := do
  match Options.ofArguments arguments with
  | .error e =>
      IO.eprintln e.message
      return 2
  | .ok options =>
      if options.debug then
        IO.eprintln ("chart at $" ++ Nmos6502.Hex.ofWord options.address)
      for line in lines options.address do
        IO.println line
      return 0
