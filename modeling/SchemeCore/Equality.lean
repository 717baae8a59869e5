import SchemeCore.Sequence

/-! Structural equality. Identical objects are equal; pairs are equal when their cars and their cdrs
are, sequences of one kind when they have one length and equal slots. A chain of pairs is compared
in a loop along its cdrs, and a comparison stops wherever both sides have come to one cell. One
that never stops gives no verdict. -/

namespace SchemeCore.Heap

/-! The routines, each with the comparison of objects and the loop along chains that it calls. -/

section Routines

variable (h : Heap) (equal chains : Object → Object → Option Bool)

def partsEqual? (i j : Addr) : Option Bool :=
  match h.pair? (.pair i), h.pair? (.pair j) with
  | some (x, xs), some (y, ys) => do
    if ← equal x y then chains xs ys else some false
  | _, _ => some false

def pairsEqual? (i j : Addr) : Option Bool :=
  if i = j then some true else h.partsEqual? equal chains i j

def slotEqual? : (k : Sequence) → k.Slot → k.Slot → Option Bool
  | .string, c, d => some (c == d)
  | .vector, x, y => equal x y
  | .bytes, m, n => some (m == n)

def slotsEqual? (k : Sequence) : List k.Slot → List k.Slot → Option Bool
  | x :: xs, y :: ys => do
    if ← slotEqual? equal k x y then slotsEqual? k xs ys else some false
  | _, _ => some true

def sequencesEqual? (k : Sequence) (i j : Addr) : Option Bool :=
  if i = j then some true
  else
    match h.sequence? k (k.object i), h.sequence? k (k.object j) with
    | some (_, xs), some (_, ys) =>
      if xs.size = ys.size then slotsEqual? equal k xs.toList ys.toList else some false
    | _, _ => some false

def objectsEqual? (a b : Object) : Option Bool :=
  match a, b with
  | .pair i, .pair j => if i = j then some true else h.pairsEqual? equal chains i j
  | .string i, .string j => if i = j then some true else h.sequencesEqual? equal .string i j
  | .vector i, .vector j => if i = j then some true else h.sequencesEqual? equal .vector i j
  | .bytes i, .bytes j => if i = j then some true else h.sequencesEqual? equal .bytes i j
  | a, b => some (a.same b)

/-- One turn of the loop: two chains may go on, have come to a shared pair, or have ended. -/
def chainsEqual? (left right : Object) : Option Bool :=
  match left, right with
  | .pair i, .pair j => if i = j then some true else h.partsEqual? equal chains i j
  | left, right => h.objectsEqual? equal chains left right

end Routines

mutual

def equalWithin? (h : Heap) : Nat → Object → Object → Option Bool
  | 0 => fun _ _ => none
  | depth + 1 => h.objectsEqual? (h.equalWithin? depth) (h.chainsEqualWithin? depth)

def chainsEqualWithin? (h : Heap) : Nat → Object → Object → Option Bool
  | 0 => fun _ _ => none
  | depth + 1 => h.chainsEqual? (h.equalWithin? depth) (h.chainsEqualWithin? depth)

end

/-- A comparison that comes to the same two pairs or vectors again within itself never stops, so
that no deeper one need be tried. -/
def comparisonDepth (h : Heap) : Nat := (2 * h.size) * (2 * h.size) + 1

def equal? (h : Heap) (a b : Object) : Option Bool := h.equalWithin? h.comparisonDepth a b

/-- Compare what two compounds hold, which must be contents of one kind; ports hold none. -/
def contentsEqual? (h : Heap) (a b : Object) : Option (Option Bool) :=
  let equal := h.equalWithin? h.comparisonDepth
  let chains := h.chainsEqualWithin? h.comparisonDepth
  match a, b with
  | .pair i, .pair j => some (h.pairsEqual? equal chains i j)
  | .string i, .string j => some (h.sequencesEqual? equal .string i j)
  | .vector i, .vector j => some (h.sequencesEqual? equal .vector i j)
  | .bytes i, .bytes j => some (h.sequencesEqual? equal .bytes i j)
  | _, _ => none

end SchemeCore.Heap
