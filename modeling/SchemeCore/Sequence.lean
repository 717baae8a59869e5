import SchemeCore.Heap

/-! Strings, vectors and byte-vectors are sequences of fixed length. They differ in what a slot holds
and in what a caller may store there: only byte-vectors refuse elements. Lengths and indices come
as signed words, so that negative ones are refused here like all others out of range. -/

namespace SchemeCore

inductive Sequence where
  | string
  | vector
  | bytes
deriving DecidableEq, Repr

namespace Sequence

abbrev Element : Sequence → Type
  | .string => Char
  | .vector => Object
  | .bytes => Int64

abbrev Slot : Sequence → Type
  | .string => Char
  | .vector => Object
  | .bytes => UInt8

def noun : Sequence → String
  | .string => "string"
  | .vector => "vector"
  | .bytes => "byte-vector"

def label : Sequence → String
  | .string => "str"
  | .vector => "vec"
  | .bytes => "bv"

def typeName : Sequence → String
  | .string => "string"
  | .vector => "vector"
  | .bytes => "bytevector"

def store : (k : Sequence) → k.Element → Except Condition k.Slot
  | .string, c => .ok c
  | .vector, o => .ok o
  | .bytes, n =>
    if 0 ≤ n ∧ n ≤ 255 then .ok (UInt8.ofNat n.toNatClampNeg) else .error (.badByte "byte" n)

def load : (k : Sequence) → k.Slot → k.Element
  | .string, c => c
  | .vector, o => o
  | .bytes, b => Int64.ofNat b.toNat

/-- An allocator that has every number of slots below a fixed one to give. -/
def ample (length : Nat) : Bool := length < Nat.pow 2 59

/-- A fresh sequence from an allocator, which has only some numbers of slots to give. The sign of the
length is checked first, then the element, then whether so many slots can be had. -/
def makeFrom (allocates : Nat → Bool) (k : Sequence) (length : Int64) (fill : k.Element) :
    Except Condition (Array k.Slot) :=
  if length < 0 then
    .error (.negativeLength length)
  else
    match k.store fill with
    | .error e => .error e
    | .ok slot =>
      if allocates length.toNatClampNeg then
        .ok (Array.replicate length.toNatClampNeg slot)
      else
        .error (.unallocatable length)

def index (k : Sequence) (i : Int64) (length : Nat) : Except Condition (Fin length) :=
  if h : 0 ≤ i ∧ i.toNatClampNeg < length then
    .ok ⟨i.toNatClampNeg, h.2⟩
  else
    .error (.badIndex k.noun i length)

def get (k : Sequence) (slots : Array k.Slot) (i : Int64) : Except Condition k.Element :=
  match k.index i slots.size with
  | .ok i => .ok (k.load slots[i])
  | .error e => .error e

def set (k : Sequence) (slots : Array k.Slot) (i : Int64) (value : k.Element) :
    Except Condition (Array k.Slot) :=
  match k.index i slots.size with
  | .error e => .error e
  | .ok i =>
    match k.store value with
    | .error e => .error e
    | .ok slot => .ok (slots.set i slot)

def fill (k : Sequence) (slots : Array k.Slot) (value : k.Element) :
    Except Condition (Array k.Slot) :=
  match k.store value with
  | .error e => .error e
  | .ok slot => .ok (Array.replicate slots.size slot)

def elements (k : Sequence) (slots : Array k.Slot) : List k.Element := slots.toList.map k.load

def object : Sequence → Addr → Object
  | .string => .string
  | .vector => .vector
  | .bytes => .bytes

@[simp] theorem object_address? (k : Sequence) (a : Addr) : (k.object a).address? = some a := by
  cases k <;> rfl

def cell : (k : Sequence) → Array k.Slot → Cell
  | .string => .string
  | .vector => .vector
  | .bytes => .bytes

def slots? : (k : Sequence) → Cell → Option (Array k.Slot)
  | .string, .string slots => some slots
  | .vector, .vector slots => some slots
  | .bytes, .bytes slots => some slots
  | _, _ => none

def address? : Sequence → Object → Option Addr
  | .string, .string a => some a
  | .vector, .vector a => some a
  | .bytes, .bytes a => some a
  | _, _ => none

@[simp] theorem address?_object (k : Sequence) (a : Addr) : k.address? (k.object a) = some a := by
  cases k <;> rfl

end Sequence

namespace Heap

def sequence (h : Heap) (k : Sequence) (slots : Array k.Slot) : Object × Heap :=
  let (a, h) := h.alloc (k.cell slots)
  (k.object a, h)

def text (h : Heap) (s : String) : Object × Heap := h.sequence .string s.toList.toArray

def makeSequence (h : Heap) (allocates : Nat → Bool) (k : Sequence) (length : Int64)
    (fill : k.Element) : Except Condition Object × Heap :=
  match k.makeFrom allocates length fill with
  | .ok slots => let (o, h) := h.sequence k slots; (.ok o, h)
  | .error e => (.error e, h)

def sequence? (h : Heap) (k : Sequence) (o : Object) : Option (Addr × Array k.Slot) := do
  let a ← k.address? o
  let slots ← k.slots? (← h.cell? a)
  return (a, slots)

def refAt (h : Heap) (k : Sequence) (o : Option Object) (i : Int64) : Except Condition k.Element :=
  match o.bind (h.sequence? k) with
  | some (_, slots) => k.get slots i
  | none => .error (.absent k.label)

def setAt (h : Heap) (k : Sequence) (o : Option Object) (i : Int64) (value : k.Element) :
    Except Condition Unit × Heap :=
  match o.bind (h.sequence? k) with
  | none => (.error (.absent k.label), h)
  | some (a, slots) =>
    match k.set slots i value with
    | .ok slots => (.ok (), h.write a (k.cell slots))
    | .error e => (.error e, h)

def expectSequence (h : Heap) (k : Sequence) (o : Object) :
    Except Condition (Addr × Array k.Slot) :=
  match h.sequence? k o with
  | some found => .ok found
  | none => .error (.wrongType k.typeName o.typeName)

def fill (h : Heap) (k : Sequence) (o : Object) (value : k.Element) :
    Except Condition Unit × Heap :=
  match h.expectSequence k o with
  | .error e => (.error e, h)
  | .ok (a, slots) =>
    match k.fill slots value with
    | .ok slots => (.ok (), h.write a (k.cell slots))
    | .error e => (.error e, h)

end Heap

end SchemeCore
