import SchemeCore.Shell

/-! The program at a console. A session is played turn by turn, so that each prompt is shown before
its line is read; all it says and decides comes from the session itself. -/

namespace SchemeCore.Console

def cause (e : IO.Error) : String :=
  match e with
  | .resourceExhausted _ code details | .inappropriateType _ code details
  | .permissionDenied _ code details | .hardwareFault code details
  | .resourceVanished code details | .otherError code details =>
    details.capitalize ++ " (os error " ++ toString code ++ ")"
  | e => toString e

partial def nextLine (input : IO.FS.Stream) (taken : Array UInt8) : IO Session.Source := do
  let chunk ← (input.read 1).toBaseIO
  match chunk with
  | .error e => return [.data taken.toList, .fail (cause e)]
  | .ok bytes =>
    match bytes.data[0]? with
    | none => return [.data taken.toList]
    | some b =>
      if b = Session.lineFeed then return [.data (taken.push b).toList]
      else nextLine input (taken.push b)

def send (output : IO.FS.Stream) (texts : List String) : IO (Except Session.Failure Unit) := do
  for text in texts do
    match ← (output.putStr text *> output.flush).toBaseIO with
    | .ok () => pure ()
    | .error e => return .error (.print (cause e))
  return .ok ()

def fail (e : Session.Failure) : IO UInt32 := do
  IO.eprintln ("REPL: " ++ e.message)
  return 1

partial def converse (s : Settings) (input output : IO.FS.Stream) (due : List String) :
    IO UInt32 := do
  match ← send output due with
  | .error e => fail e
  | .ok () =>
    match Session.turn s (← nextLine input #[]) with
    | .reply texts _ => converse s input output texts
    | .broken cause _ => fail (.read cause)
    | .closing texts _ =>
      match ← send output texts with
      | .ok () => return 0
      | .error e => fail e

def perform (outcome : Shell.Outcome) : IO UInt32 := do
  let output ← IO.getStdout
  output.write ⟨outcome.output.toArray⟩
  output.flush
  IO.eprint outcome.errors
  return UInt32.ofNat outcome.status

def answer (arguments : List String) : IO UInt32 := do
  match ← (perform (Shell.invoke arguments [] none)).toBaseIO with
  | .ok status => return status
  | .error e => perform (Shell.invoke arguments [] (some (cause e)))

end SchemeCore.Console

open SchemeCore in
def main (arguments : List String) : IO UInt32 := do
  match Command.parse arguments with
  | .ok (.session s) =>
    Console.converse s (← IO.getStdin) (← IO.getStdout) (Session.opening s)
  | _ => Console.answer arguments
