import SchemeCore.Written

/-! The tree that an object unfolds to when every cell is read as what it holds. The tree does not
tell which cells are shared, and an object whose cells lead back to themselves has none. A tree has
a written form of its own, told without a heap. -/

namespace SchemeCore

/-- The leaves are the objects without contents. -/
inductive Datum where
  | leaf (o : Object)
  | pair (car cdr : Datum)
  | string (chars : List Char)
  | vector (items : List Datum)
  | bytes (octets : List UInt8)

namespace Datum

def enclosed (items : List (List Char)) : List Char := [' '].intercalate items ++ [')']

def decimal (b : UInt8) : List Char := (toString b.toNat).toList

mutual

def text (table : Interner) : Datum → List Char
  | .leaf o => ((o.atom? table).getD "").toList
  | .pair car cdr => '(' :: (text table car ++ tail table cdr)
  | .string chars => Literal.string chars
  | .vector items => '#' :: '(' :: enclosed (items.map (text table))
  | .bytes octets => '#' :: 'u' :: '8' :: '(' :: enclosed (octets.map decimal)
termination_by d => (sizeOf d, 0)

def tail (table : Interner) : Datum → List Char
  | .leaf (.immediate .null) => [')']
  | .pair car cdr => ' ' :: (text table car ++ tail table cdr)
  | d => ' ' :: '.' :: ' ' :: (text table d ++ [')'])
termination_by d => (sizeOf d, 1)

end

inductive All (p : Object → Prop) : Datum → Prop
  | leaf {o : Object} (holds : p o) : All p (.leaf o)
  | pair {car cdr : Datum} (left : All p car) (right : All p cdr) : All p (.pair car cdr)
  | string {chars : List Char} : All p (.string chars)
  | vector {items : List Datum} (each : ∀ d ∈ items, All p d) : All p (.vector items)
  | bytes {octets : List UInt8} : All p (.bytes octets)

end Datum

/-! What is told apart by its text. Floating-point numbers are left out, as are ports; the text of a
symbol has to look like no number and no literal. -/

namespace Symbol

def isNameChar (c : Char) : Bool :=
  c.isAlphanum || ['-', '!', '?', '*', '<', '>', '=', '/'].contains c

def isWord : List Char → Bool
  | [] => false
  | c :: more => c.isAlpha && more.all isNameChar

end Symbol

def Object.IsPlain (table : Interner) : Object → Prop
  | .immediate _ | .fixnum _ | .character _ => True
  | .symbol s => ∃ name, s.text? table = some name ∧ Symbol.isWord name.toList = true
  | _ => False

abbrev Datum.IsPlain (table : Interner) (d : Datum) : Prop := d.All (·.IsPlain table)

namespace Heap

inductive Unfolds (h : Heap) : Object → Datum → Prop
  | leaf {o : Object} (bare : o.hasContents = false) : Unfolds h o (.leaf o)
  | pair {o x xs : Object} {car cdr : Datum} (found : h.pair? o = some (x, xs))
      (left : Unfolds h x car) (right : Unfolds h xs cdr) : Unfolds h o (.pair car cdr)
  | string {o : Object} {a : Addr} {chars : Array Char}
      (found : h.sequence? .string o = some (a, chars)) : Unfolds h o (.string chars.toList)
  | vector {o : Object} {a : Addr} {slots : Array Object} {items : List Datum}
      (found : h.sequence? .vector o = some (a, slots)) (size : slots.size = items.length)
      (each : ∀ n (hs : n < slots.size) (hi : n < items.length), Unfolds h slots[n] items[n]) :
      Unfolds h o (.vector items)
  | bytes {o : Object} {a : Addr} {bytes : Array UInt8}
      (found : h.sequence? .bytes o = some (a, bytes)) : Unfolds h o (.bytes bytes.toList)

end Heap

end SchemeCore
