import SchemeCore.Session

/-! What a session comes to, told from the marks that its source offers one after another: bytes,
ends and failures, however they were cut into events. A line goes up to a line feed or to an end.
An end with no bytes before it ends the session, and so does a failure, which takes with it the
bytes of the line it falls into. -/

namespace SchemeCore.Session

inductive Mark where
  | byte (b : UInt8)
  | endMark
  | fail (cause : String)
deriving DecidableEq, Repr

def Mark.byte? : Mark → Option UInt8
  | .byte b => some b
  | _ => none

def Event.marks : Event → List Mark
  | .data bytes => bytes.map .byte
  | .interrupted => []
  | .endMark => [.endMark]
  | .fail cause => [.fail cause]

def Source.marks (source : Source) : List Mark := source.flatMap Event.marks

structure Transcript where
  lines : List (List UInt8)
  failure? : Option String
  rest : List Mark
deriving DecidableEq, Repr

namespace Transcript

def prepend (line : List UInt8) (t : Transcript) : Transcript := { t with lines := line :: t.lines }

/-- Go on with a line after the bytes taken so far, mark by mark. After the last mark there is an
end for ever. -/
def of (taken : List UInt8) : List Mark → Transcript
  | [] => ⟨if taken.isEmpty then [] else [taken], none, []⟩
  | .byte b :: rest => if b = lineFeed then (of [] rest).prepend taken else of (taken ++ [b]) rest
  | .endMark :: rest => if taken.isEmpty then ⟨[], none, rest⟩ else (of [] rest).prepend taken
  | .fail cause :: rest => ⟨[], some cause, rest⟩

def result (t : Transcript) : Except Failure Unit :=
  match t.failure? with
  | none => .ok ()
  | some cause => .error (.read cause)

def echo (line : List UInt8) : String := Utf8.decode (trimReturn line) ++ "\n"

def output (s : Settings) (t : Transcript) : String :=
  if s.quiet then String.join (t.lines.map echo)
  else
    s.header ++ "\n" ++ String.join (t.lines.map fun line => s.prompt ++ echo line) ++ s.prompt ++
      if t.failure?.isSome then "" else "\n" ++ s.footer ++ "\n"

def flushes (s : Settings) (t : Transcript) : Nat :=
  if s.quiet then 2 * t.lines.length
  else 3 * t.lines.length + if t.failure?.isSome then 2 else 4

end Transcript

end SchemeCore.Session
