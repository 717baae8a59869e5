import SchemeCore.Breakdown
import SchemeCore.Session
import SchemeCore.Session.Pipe

/-! One run of the program: from the words of its command line, the standard input and the state of
the standard output to what it writes on both outputs and its exit status. -/

namespace SchemeCore.Shell

structure Outcome where
  output : List UInt8
  errors : String
  status : Nat
deriving DecidableEq, Repr

def Outcome.broken (trace : Breakdown → Trace) (b : Breakdown) : Outcome :=
  ⟨[], (trace b).report b.message, 101⟩

def showUsage (full : Option String) (trace : Breakdown → Trace) : Outcome :=
  match full with
  | none => ⟨Utf8.encode (Command.usage ++ "\n"), "", 0⟩
  | some cause => .broken trace (.unprinted cause)

def rejected (r : Command.Rejection) : Outcome :=
  ⟨[], "error: " ++ r.message ++ "\n\n" ++ Command.usage ++ "\n", 1⟩

def session (s : Settings) (input : Session.Source) (full : Option String) :
    Session.Report Session.Pipe :=
  Session.run s (.start full) (input.buffered Session.Source.capacity)

/-- What is left in the buffer of the output when the program exits is lost. -/
def converse (s : Settings) (input : Session.Source) (full : Option String) : Outcome :=
  let report := session s input full
  match report.result with
  | .ok () => ⟨report.sink.delivered.toList, "", 0⟩
  | .error e => ⟨report.sink.delivered.toList, "REPL: " ++ e.message ++ "\n", 1⟩

/-- Run the program on its arguments; `full` is why the standard output takes nothing, if so. -/
def invoke (arguments : List String) (input : Session.Source) (full : Option String)
    (trace : Breakdown → Trace := fun _ => .ofUsage) : Outcome :=
  match Command.parse arguments with
  | .error r => rejected r
  | .ok .help => showUsage full trace
  | .ok (.session s) => converse s input full

def texts : List (List UInt8) → Except (List UInt8) (List String)
  | [] => .ok []
  | word :: words =>
    match Utf8.decode? word with
    | none => .error word
    | some text => (texts words).map (text :: ·)

/-- Start the program as the system does, with a command line whose first word is its name. -/
def start (words : List (List UInt8)) (input : Session.Source) (full : Option String)
    (trace : Breakdown → Trace) : Outcome :=
  match texts words with
  | .error word => .broken trace (.undecodable word)
  | .ok texts => invoke (texts.drop 1) input full trace

end SchemeCore.Shell
