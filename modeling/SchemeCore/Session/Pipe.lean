import SchemeCore.Session.Sink

/-! A pipe collects what it is sent in a buffer and hands it on to its device when it is flushed or
when the buffer is full. -/

namespace SchemeCore.Session

/-- A buffer before a device that takes everything or, being full, nothing. -/
structure Pipe where
  full : Option String
  buffered : Array UInt8
  delivered : Array UInt8
deriving DecidableEq, Repr

namespace Pipe

def capacity : Nat := 8192

def start (full : Option String) : Pipe := ⟨full, #[], #[]⟩

def deliver (p : Pipe) (bytes : Array UInt8) : Except String Unit × Pipe :=
  if bytes.isEmpty then (.ok (), p)
  else
    match p.full with
    | some cause => (.error cause, p)
    | none => (.ok (), { p with delivered := p.delivered ++ bytes })

def flush (p : Pipe) : Except String Unit × Pipe :=
  match p.deliver p.buffered with
  | (.ok (), p) => (.ok (), { p with buffered := #[] })
  | failed => failed

def write (p : Pipe) (bytes : List UInt8) : Except String Unit × Pipe :=
  if p.buffered.size + bytes.length ≤ capacity then
    (.ok (), { p with buffered := p.buffered ++ bytes })
  else
    match p.flush with
    | (.ok (), p) =>
      if bytes.length < capacity then (.ok (), { p with buffered := p.buffered ++ bytes })
      else p.deliver bytes.toArray
    | failed => failed

instance : Sink Pipe where
  send p bytes :=
    match p.write bytes with
    | (.ok (), p) => p.flush
    | failed => failed

end Pipe

end SchemeCore.Session
