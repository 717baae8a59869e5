import SchemeCore.Command
import SchemeCore.Session.Sink
import SchemeCore.Session.Source
import SchemeCore.Text.Utf8
import SchemeCore.Written

/-! A session shows a header and a prompt, then takes turns: it reads a line, makes of it the value
it stands for, shows that value and prompts again. At the end of input it shows a footer. It stops
at the first failure of its source or its sink. -/

namespace SchemeCore.Session

inductive Failure where
  | read (cause : String)
  | print (cause : String)
deriving DecidableEq, Repr

def Failure.message : Failure → String
  | .read cause => "encountered error while reading: " ++ cause
  | .print cause => "encountered error while printing: " ++ cause

def evaluate (line : String) : Object × Heap := Heap.empty.text line

def shown (value : Object × Heap) : String :=
  (value.2.displayed? Interner.empty value.1).getD ""

/-! The texts of a session, each of which is sent on its own. -/

def prompting (s : Settings) : List String := if s.quiet then [] else [s.prompt]

def opening (s : Settings) : List String :=
  (if s.quiet then [] else [s.header ++ "\n"]) ++ prompting s

def reply (s : Settings) (line : String) : List String :=
  [shown (evaluate line), "\n"] ++ prompting s

def closing (s : Settings) : List String := if s.quiet then [] else ["\n", s.footer ++ "\n"]

inductive Turn where
  | reply (texts : List String) (rest : Source)
  | closing (texts : List String) (rest : Source)
  | broken (cause : String) (rest : Source)
deriving DecidableEq, Repr

def turn (s : Settings) (source : Source) : Turn :=
  match source.readLine with
  | .line bytes rest => .reply (reply s (Utf8.decode (trimReturn bytes))) rest
  | .ended rest => .closing (closing s) rest
  | .failed cause rest => .broken cause rest

theorem weight_of_turn {s : Settings} {source rest : Source} {texts : List String}
    (h : turn s source = .reply texts rest) : rest.weight < source.weight := by
  unfold turn at h
  split at h
  · rename_i bytes left read
    cases h
    exact Source.weight_of_readLine read
  · cases h
  · cases h

section Running

variable {σ : Type} [Sink σ]

def play (sink : σ) : List String → Except String Unit × σ
  | [] => (.ok (), sink)
  | text :: texts =>
    match Sink.send sink (Utf8.encode text) with
    | (.ok (), sink) => play sink texts
    | failed => failed

structure Report (σ : Type) where
  result : Except Failure Unit
  sink : σ
  rest : Source

def Report.last (sink : σ) (texts : List String) (rest : Source) : Report σ :=
  match play sink texts with
  | (.ok (), sink) => ⟨.ok (), sink, rest⟩
  | (.error cause, sink) => ⟨.error (.print cause), sink, rest⟩

def converse (s : Settings) (sink : σ) (source : Source) : Report σ :=
  match _h : turn s source with
  | .broken cause rest => ⟨.error (.read cause), sink, rest⟩
  | .closing texts rest => .last sink texts rest
  | .reply texts rest =>
    match play sink texts with
    | (.ok (), sink) => converse s sink rest
    | (.error cause, sink) => ⟨.error (.print cause), sink, rest⟩
termination_by source.weight
decreasing_by exact weight_of_turn _h

def run (s : Settings) (sink : σ) (source : Source) : Report σ :=
  match play sink (opening s) with
  | (.ok (), sink) => converse s sink source
  | (.error cause, sink) => ⟨.error (.print cause), sink, source⟩

def farewell (s : Settings) (sink : σ) : Except Failure Unit × σ :=
  match play sink (closing s) with
  | (.ok (), sink) => (.ok (), sink)
  | (.error cause, sink) => (.error (.print cause), sink)

end Running

end SchemeCore.Session
