import SchemeCore.Reachable
import Mathlib.Data.Multiset.Filter

/-! Dropping by plain recursion. The handles of a list are given up from the first to the last, and
when one was the last handle to its cell, all that the cell held is dropped before the next. The
counts of a heap are exact when each is the number of handles that lead to the cell, from outside
the heap and from its cells, and no cell is kept without a handle. -/

namespace SchemeCore

def Cell.suits : Cell → Object → Bool
  | .pair .., .pair _ | .string _, .string _ | .vector _, .vector _ | .bytes _, .bytes _ => true
  | .inputPort _, .inputPort _ | .outputPort _, .outputPort _ => true
  | _, _ => false

namespace Heap

def contents (h : Heap) : List Object := h.cells.toList.flatMap Cell.items

def isLive (h : Heap) (a : Addr) : Bool := (h.cell? a).any (· != .freed)

/-- Whether an object needs no cell or leads to one of its kind. -/
def leads (h : Heap) (o : Object) : Bool :=
  match o.address? with
  | none => true
  | some a => (h.cell? a).any (·.suits o)

end Heap

namespace Counted

def surrender (s : Counted) (o : Object) : Counted × List Object :=
  match o.address? with
  | none => (s, [])
  | some a => ((s.giveUp a).1, (s.giveUp a).2.elim [] Cell.items)

/-- The recursive drop of a list of handles leads from one state to the other. -/
inductive Drops : Counted → List Object → Counted → Prop
  | nil {s : Counted} : Drops s [] s
  | cons {s t u : Counted} {o : Object} {os : List Object}
      (inner : Drops (s.surrender o).1 (s.surrender o).2 t) (rest : Drops t os u) :
      Drops s (o :: os) u

def handlesTo (a : Addr) (handles : Multiset Object) : Nat :=
  handles.countP (·.address? = some a)

def handles (s : Counted) (outside : Multiset Object) : Multiset Object :=
  outside + (s.heap.contents : Multiset Object)

structure Exact (s : Counted) (outside : Multiset Object) : Prop where
  count_eq : ∀ a, s.count a = handlesTo a (s.handles outside)
  leads : ∀ o ∈ s.handles outside, s.heap.leads o
  kept : ∀ a, s.heap.isLive a → 0 < s.count a
  recorded : s.frees.size = s.heap.size

def Untouched (s t : Counted) (a : Addr) : Prop :=
  t.heap.cell? a = s.heap.cell? a ∧ t.timesFreed a = s.timesFreed a

def FreedOnce (s t : Counted) (a : Addr) : Prop :=
  s.heap.isLive a ∧ t.heap.cell? a = some .freed ∧ t.timesFreed a = s.timesFreed a + 1

end Counted

end SchemeCore
