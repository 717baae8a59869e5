import SchemeCore.Operation

/-! Runs of operations and their record. A run starts at the empty heap and notes every operation
with its answer. The record alone tells what each location of each allocation should hold: the
value of the latest write to it that succeeded, and before any the value it was made with. -/

namespace SchemeCore

inductive Location where
  | car (a : Addr)
  | cdr (a : Addr)
  | slot (k : Sequence) (a : Addr) (i : Int64)
deriving DecidableEq, Repr

namespace Location

def address : Location → Addr
  | .car a | .cdr a | .slot _ a _ => a

def read : Location → Operation
  | .car a => .car (some (.pair a))
  | .cdr a => .cdr (some (.pair a))
  | .slot k a i => .refAt k (some (k.object a)) i

end Location

def Sequence.objects : (k : Sequence) → k.Element → List Object
  | .vector, o => [o]
  | _, _ => []

def Answer.objects : Answer → List Object
  | .object o => [o]
  | .element k e => k.objects e
  | _ => []

namespace Operation

def observes : Operation → Bool
  | .car _ | .cdr _ | .refAt .. | .same .. | .equal .. | .isList _ | .write _ => true
  | _ => false

def operands : Operation → List Object
  | .cons x y => [x, y]
  | .list items => items
  | .sequence k slots => (k.elements slots).flatMap k.objects
  | .make k _ value _ => k.objects value
  | .inputPort _ | .outputPort => []
  | .car o | .cdr o | .refAt _ o _ => o.toList
  | .setCar o value | .setCdr o value => o.toList ++ [value]
  | .setAt k o _ value => o.toList ++ k.objects value
  | .fill k o value => o :: k.objects value
  | .same a b | .equal a b => [a, b]
  | .isList o | .write o => [o]

def writes? : Operation → Location → Option Answer
  | .setCar o value, .car a => if o = some (.pair a) then some (.object value) else none
  | .setCdr o value, .cdr a => if o = some (.pair a) then some (.object value) else none
  | .setAt k o i value, .slot k' a j =>
    if k' = k ∧ o = some (k.object a) ∧ i = j then some (.element k value) else none
  | .fill k o value, .slot k' a _ =>
    if k' = k ∧ o = k.object a then some (.element k value) else none
  | _, _ => none

/-- What a list holds in the pair at `b` when its first pair is at `a` and all were made for it;
each pair comes right after its tail. -/
def pairOfList? : List Object → Addr → Addr → Option (Object × Object)
  | [], _, _ => none
  | item :: items, a, b =>
    if b = a then some (item, if items.isEmpty then .null else .pair (a - 1))
    else pairOfList? items (a - 1) b

def makes? : Operation → Object → Location → Option Answer
  | .cons x _, o, .car a => if o = .pair a then some (.object x) else none
  | .cons _ y, o, .cdr a => if o = .pair a then some (.object y) else none
  | .list items, .pair a, .car b => (pairOfList? items a b).map (.object ·.1)
  | .list items, .pair a, .cdr b => (pairOfList? items a b).map (.object ·.2)
  | .sequence k slots, o, .slot k' a i =>
    if k' = k ∧ o = k.object a then (k.get slots i).toOption.map (.element k) else none
  | .make k length value _, o, .slot k' a i =>
    if k' = k ∧ o = k.object a ∧ 0 ≤ i ∧ i < length then some (.element k value) else none
  | _, _, _ => none

def allocates : Operation → Object → List Object
  | .list items, .pair a => (List.range' (a + 1 - items.length) items.length).map .pair
  | .list _, _ => []
  | .cons .., o | .sequence .., o | .make .., o | .inputPort _, o | .outputPort, o => [o]
  | _, _ => []

def lengthMade? : Operation → Object → Sequence → Addr → Option Nat
  | .sequence k slots, o, k', a => if k' = k ∧ o = k.object a then some slots.size else none
  | .make k length _ _, o, k', a =>
    if k' = k ∧ o = k.object a then some length.toNatClampNeg else none
  | _, _, _, _ => none

end Operation

structure Step where
  operation : Operation
  answer : Except Condition Answer

namespace Step

def written? (s : Step) (ℓ : Location) : Option Answer :=
  match s.answer with
  | .ok _ => s.operation.writes? ℓ
  | .error _ => none

def made? (s : Step) (ℓ : Location) : Option Answer :=
  match s.answer with
  | .ok (.object o) => s.operation.makes? o ℓ
  | _ => none

def allocated (s : Step) : List Object :=
  match s.answer with
  | .ok (.object o) => s.operation.allocates o
  | _ => []

def lengthMade? (s : Step) (k : Sequence) (a : Addr) : Option Nat :=
  match s.answer with
  | .ok (.object o) => s.operation.lengthMade? o k a
  | _ => none

end Step

abbrev History := List Step

namespace History

def lastWrite? (history : History) (ℓ : Location) : Option Answer :=
  history.reverse.findSome? (·.written? ℓ)

def initial? (history : History) (ℓ : Location) : Option Answer :=
  history.findSome? (·.made? ℓ)

def length? (history : History) (k : Sequence) (a : Addr) : Option Nat :=
  history.findSome? (·.lengthMade? k a)

def allocations (history : History) : List Object := history.flatMap Step.allocated

/-- No operation was given a compound that had not been made before. -/
def Scoped (history : History) : Prop :=
  ∀ before s after, history = before ++ s :: after →
    ∀ o ∈ s.operation.operands, o.address?.isSome → o ∈ allocations before

end History

structure Run where
  history : History
  heap : Heap

namespace Run

def start : Run := ⟨[], Heap.empty⟩

def next (table : Interner) (r : Run) (op : Operation) : Run :=
  let (answer, heap) := op.apply table r.heap
  ⟨r.history ++ [⟨op, answer⟩], heap⟩

def of (table : Interner) (ops : List Operation) : Run := ops.foldl (next table) start

end Run

def Heap.length? (h : Heap) (k : Sequence) (a : Addr) : Option Nat :=
  (h.sequence? k (k.object a)).map (·.2.size)

end SchemeCore
