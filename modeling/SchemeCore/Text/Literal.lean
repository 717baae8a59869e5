import SchemeCore.Text.Unprintable

/-! Literals of characters and strings. A string literal stands between quotes, with a backslash
before a quote or a backslash and before the letters for line feed, tab and carriage return. A
character literal uses a name for the blank and for the controls that have one. -/

namespace SchemeCore.Literal

def hex (n : Nat) : List Char := Nat.toDigits 16 n

def escaped (c : Char) : List Char :=
  match c with
  | '"' => ['\\', '"']
  | '\\' => ['\\', '\\']
  | '\n' => ['\\', 'n']
  | '\t' => ['\\', 't']
  | '\r' => ['\\', 'r']
  | c => [c]

def string (text : List Char) : List Char := '"' :: text.flatMap escaped ++ ['"']

def unescaped? : Char → Option Char
  | '"' => some '"'
  | '\\' => some '\\'
  | 'n' => some '\n'
  | 't' => some '\t'
  | 'r' => some '\r'
  | _ => none

def readOn? : List Char → Option (List Char × List Char)
  | [] => none
  | '"' :: rest => some ([], rest)
  | '\\' :: c :: rest => do
    let c ← unescaped? c
    let (text, rest) ← readOn? rest
    return (c :: text, rest)
  | c :: rest => do
    let (text, rest) ← readOn? rest
    return (c :: text, rest)

def readString? : List Char → Option (List Char × List Char)
  | '"' :: rest => readOn? rest
  | _ => none

def isControl (c : Char) : Bool := c.toNat < 0x20 || 0x7F ≤ c.toNat && c.toNat ≤ 0x9F

def characterName? (c : Char) : Option String :=
  match c.toNat with
  | 0x00 => some "null"
  | 0x07 => some "alarm"
  | 0x08 => some "backspace"
  | 0x09 => some "tab"
  | 0x0A => some "newline"
  | 0x0D => some "return"
  | 0x1B => some "escape"
  | 0x20 => some "space"
  | 0x7F => some "delete"
  | _ => none

def spelled (c : Char) : List Char :=
  match characterName? c with
  | some name => name.toList
  | none => if isControl c then 'x' :: hex c.toNat else [c]

def character (c : Char) : List Char := '#' :: '\\' :: spelled c

/-! Characters and bytes as they are inspected. -/

def inspected (c : Char) : List Char :=
  match c with
  | '\x00' => ['\\', '0']
  | '\t' => ['\\', 't']
  | '\r' => ['\\', 'r']
  | '\n' => ['\\', 'n']
  | '\'' => ['\\', '\'']
  | '\\' => ['\\', '\\']
  | c => if isUnprintable c then '\\' :: 'u' :: '\x7b' :: hex c.toNat ++ ['\x7d'] else [c]

def quoted (c : Char) : List Char := '\'' :: inspected c ++ ['\'']

def inspectedBytes : List UInt8 → List Char
  | [] => []
  | b :: rest =>
    match ByteArray.utf8DecodeChar? ⟨(b :: rest).toArray⟩ 0 with
    | some c =>
      (if c = '"' then ['\\', '"'] else inspected c) ++ inspectedBytes (rest.drop (c.utf8Size - 1))
    | none => '\\' :: 'x' :: (hex b.toNat).map Char.toUpper ++ inspectedBytes rest
termination_by bytes => bytes.length

end SchemeCore.Literal
