/-! Text as UTF-8. Every text has one encoding; decoding takes any bytes and puts one replacement
character for each longest start of a character that does not go on as a character. The decoder
reads a byte at a time and remembers only the character it is in the middle of. -/

namespace SchemeCore.Utf8

def encode (text : String) : List UInt8 := text.toList.flatMap String.utf8EncodeChar

def replacement : Char := '\uFFFD'

/-- The rest of a character: how many bytes are missing, the least and the greatest byte that may
come next, and the bits read so far. -/
structure Partial where
  missing : Nat
  low : UInt8
  high : UInt8
  value : Nat
deriving DecidableEq, Repr

/-- What the first byte of a longer character promises. The second byte of some is restricted, so
that no character is encoded at more than its least length, none is a surrogate, and none lies
above the last code point. -/
def opening? (b : UInt8) : Option Partial :=
  if b < 0xC2 then none
  else if b < 0xE0 then some ⟨1, 0x80, 0xBF, b.toNat - 0xC0⟩
  else if b = 0xE0 then some ⟨2, 0xA0, 0xBF, 0⟩
  else if b = 0xED then some ⟨2, 0x80, 0x9F, 0xD⟩
  else if b < 0xF0 then some ⟨2, 0x80, 0xBF, b.toNat - 0xE0⟩
  else if b = 0xF0 then some ⟨3, 0x90, 0xBF, 0⟩
  else if b < 0xF4 then some ⟨3, 0x80, 0xBF, b.toNat - 0xF0⟩
  else if b = 0xF4 then some ⟨3, 0x80, 0x8F, 4⟩
  else none

structure Decoder where
  text : String
  pending : Option Partial

namespace Decoder

def start : Decoder := ⟨"", none⟩

def openWith (text : String) (b : UInt8) : Decoder :=
  if b < 0x80 then ⟨text.push (Char.ofNat b.toNat), none⟩
  else
    match opening? b with
    | some p => ⟨text, some p⟩
    | none => ⟨text.push replacement, none⟩

def feed (d : Decoder) (b : UInt8) : Decoder :=
  match d.pending with
  | none => openWith d.text b
  | some p =>
    if p.low ≤ b ∧ b ≤ p.high then
      let value := p.value * 64 + (b.toNat - 0x80)
      if p.missing = 1 then ⟨d.text.push (Char.ofNat value), none⟩
      else ⟨d.text, some ⟨p.missing - 1, 0x80, 0xBF, value⟩⟩
    else
      openWith (d.text.push replacement) b

def finish (d : Decoder) : String :=
  match d.pending with
  | none => d.text
  | some _ => d.text.push replacement

end Decoder

def decode (bytes : List UInt8) : String := (bytes.foldl Decoder.feed Decoder.start).finish

def decode? (bytes : List UInt8) : Option String :=
  let text := decode bytes
  if encode text = bytes then some text else none

end SchemeCore.Utf8
