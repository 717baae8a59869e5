import SchemeCore.Session
import SchemeCore.Session.Writer

/-! A session without its sink: the texts that it has to send one after another, each with what is
left of the source when its turn comes, and how the session ends once all of them are out. -/

namespace SchemeCore.Session

structure Sending where
  text : String
  rest : Source
deriving DecidableEq, Repr

structure Script where
  sendings : List Sending
  result : Except Failure Unit
  rest : Source

namespace Script

def prepend (texts : List String) (rest : Source) (t : Script) : Script :=
  { t with sendings := texts.map (⟨·, rest⟩) ++ t.sendings }

def ofTurns (s : Settings) (source : Source) : Script :=
  match _h : turn s source with
  | .broken cause rest => ⟨[], .error (.read cause), rest⟩
  | .closing texts rest => prepend texts rest ⟨[], .ok (), rest⟩
  | .reply texts rest => prepend texts rest (ofTurns s rest)
termination_by source.weight
decreasing_by exact weight_of_turn _h

def of (s : Settings) (source : Source) : Script := prepend (opening s) source (ofTurns s source)

def texts (t : Script) : List String := t.sendings.map (·.text)

def report {σ : Type} (t : Script) (sink : σ) : Report σ := ⟨t.result, sink, t.rest⟩

end Script

def perform {σ : Type} [Sink σ] (goOn : σ → Report σ) (sink : σ) : List Sending → Report σ
  | [] => goOn sink
  | sending :: more =>
    match Sink.send sink (Utf8.encode sending.text) with
    | (.ok (), sink) => perform goOn sink more
    | (.error cause, sink) => ⟨.error (.print cause), sink, sending.rest⟩

structure Log where
  sent : List (List UInt8)

instance : Sink Log where
  send log bytes := (.ok (), ⟨log.sent ++ [bytes]⟩)

/-! When a writer fails a session. -/

namespace Writer

def faultless (w : Writer) : Writer := { w with room := none, flushFailure := none }

def Overruns (w : Writer) (texts : List String) (n : Nat) : Prop :=
  ∃ room ∈ w.room, room < ((texts.take n).flatMap Utf8.encode).length

def FlushFails (w : Writer) (n : Nat) : Prop :=
  ∃ cause, w.flushFailure = some (w.flushes + n, cause)

def FailsAt (w : Writer) (texts : List String) (n : Nat) : Prop :=
  w.Overruns texts n ∨ w.FlushFails n

end Writer

def Shortage.cause : Shortage → String
  | .fails cause => cause
  | .takesNothing => "failed to write whole buffer"

end SchemeCore.Session
