import Nmos6502.Chart.Address

/-!
# Options of the chart

This is part of the outer layer of the program, beside `main`.  It stands in for a library that
reads arguments by a declaration of options, and *no* statement is made about it; texts of
addresses are handed on to `parseAddress`.

The program takes the address at which it makes the chart, `-o` or `--origin`, and a switch
`-d` or `--debug` that asks for notes.  Arguments are read from left to right and the first
fault decides.  A value in an argument of its own is looked at only when it is clear that the
argument behind it is an option too: before that, a stray or unknown argument behind it is the
fault.
-/

namespace Nmos6502.Chart

/-- What an argument, or a letter of one, says. -/
inductive Token
  | debug
  /-- The origin with its value in the same argument. -/
  | origin (text : String)
  /-- The origin, whose value is the next argument. -/
  | originAwaiting
  | word (text : String)
  | fault (e : UsageError)
  deriving DecidableEq

/-- Leaves out an equals sign at the beginning. -/
def dropEquals : List Char → List Char
  | '=' :: rest => rest
  | rest => rest

/-- The options of letters behind a single hyphen.  The value of the origin may
follow it at once. -/
def Token.ofLetters : List Char → List Token
  | [] => []
  | 'd' :: rest => .debug :: ofLetters rest
  | ['o'] => [.originAwaiting]
  | 'o' :: rest => [.origin (String.ofList (dropEquals rest))]
  | c :: _ => [.fault (.unknownOption (String.ofList ['-', c]))]

/-- The option of a name behind two hyphens, and of its value if it has one. -/
def Token.ofName (name : List Char) (value : Option (List Char)) : Token :=
  match String.ofList name, value with
  | "origin", some text => .origin (String.ofList text)
  | "origin", none => .originAwaiting
  | "debug", some text => .fault (.needlessValue (String.ofList text))
  | "debug", none => .debug
  | text, _ => .fault (.unknownOption text)

/-- The text behind the first equals sign. -/
def valueOf : List Char → Option (List Char)
  | [] => none
  | '=' :: rest => some rest
  | _ :: rest => valueOf rest

/-- The tokens of the arguments.  A double hyphen ends the options, and nothing may
follow it. -/
def Token.ofArguments : List String → List Token
  | [] => []
  | argument :: arguments =>
      match argument.toList with
      | ['-', '-'] =>
          match arguments with
          | [] => []
          | stray :: _ => [.fault (.strayArgument stray)]
      | '-' :: '-' :: rest =>
          ofName (rest.takeWhile (· != '=')) (valueOf rest) :: ofArguments arguments
      | '-' :: c :: letters => ofLetters (c :: letters) ++ ofArguments arguments
      | _ => .word argument :: ofArguments arguments

/-- What the arguments ask for. -/
structure Options where
  /-- The address that was given, if any was. -/
  origin : Option Word := none
  debug : Bool := false
  deriving DecidableEq

namespace Options

/-- The address at which the chart is made. -/
def address (options : Options) : Word := options.origin.getD 0x0400

/-- Takes the switch. -/
def withDebug (options : Options) : Except UsageError Options :=
  if options.debug then .error (.repeated "--debug") else .ok { options with debug := true }

/-- Takes the text of an origin. -/
def withOrigin (options : Options) (text : String) : Except UsageError Options :=
  if options.origin.isSome then .error (.repeated "--origin")
  else do
    let address ← parseAddress text
    .ok { options with origin := some address }

/-- Takes tokens in order. -/
def withTokens (options : Options) : List Token → Except UsageError Options
  | [] => .ok options
  | .debug :: rest => do (← options.withDebug).withTokens rest
  | .origin text :: rest => do (← options.withOrigin text).withTokens rest
  -- A value is read only if what follows could follow it.
  | .originAwaiting :: .word _ :: .word stray :: _ => .error (.strayArgument stray)
  | .originAwaiting :: .word _ :: .fault e :: _ => .error e
  | .originAwaiting :: .word text :: rest => do (← options.withOrigin text).withTokens rest
  | .originAwaiting :: .fault e :: _ => .error e
  | .originAwaiting :: _ => .error .missingValue
  | .word text :: _ => .error (.strayArgument text)
  | .fault e :: _ => .error e

/-- The options that arguments give. -/
def ofArguments (arguments : List String) : Except UsageError Options :=
  ({} : Options).withTokens (Token.ofArguments arguments)

end Options

end Nmos6502.Chart
