/-! The command line: what a list of arguments asks for. Each argument is classified on its own; the
first that asks for help or is not understood decides, and otherwise all of them together set up a
session. -/

namespace SchemeCore

structure Settings where
  prompt : String := "› "
  header : String := "welcome to the scheme interactive interpreter"
  footer : String := "farewell schemer"
  quiet : Bool := false
deriving DecidableEq, Repr

inductive Command where
  | help
  | session (settings : Settings)
deriving DecidableEq, Repr

namespace Command

inductive Rejection where
  | unknownOption (argument : String)
  | unexpectedArgument (argument : String)
deriving DecidableEq, Repr

def Rejection.message : Rejection → String
  | .unknownOption a => "unknown option: " ++ a
  | .unexpectedArgument a => "unexpected argument: " ++ a

inductive Argument where
  | prompt (text : String)
  | quiet
  | help
  | option
  | word
deriving DecidableEq, Repr

def promptText? (argument : String) : Option String :=
  ("--prompt=".toList.isPrefixOf? argument.toList).map String.ofList

def Argument.of (argument : String) : Argument :=
  match promptText? argument with
  | some text => .prompt text
  | none =>
    if argument = "--quiet" ∨ argument = "-q" then .quiet
    else if argument = "--help" ∨ argument = "-h" then .help
    else if argument.toList.head? = some '-' then .option
    else .word

def parseWith (settings : Settings) : List String → Except Rejection Command
  | [] => .ok (.session settings)
  | argument :: rest =>
    match Argument.of argument with
    | .prompt text => parseWith { settings with prompt := text } rest
    | .quiet => parseWith { settings with quiet := true } rest
    | .help => .ok .help
    | .option => .error (.unknownOption argument)
    | .word => .error (.unexpectedArgument argument)

def parse (arguments : List String) : Except Rejection Command := parseWith {} arguments

def usage : String :=
  "\n".intercalate
    ["Usage: scm [options]",
     "",
     "Options:",
     "  --prompt=<text>   Prompt shown before each read",
     "  -q, --quiet       No banner or prompt",
     "  -h, --help        Show this message",
     "",
     "Set RUST_LOG (e.g. RUST_LOG=scm=debug) for trace output."]

end Command

end SchemeCore
