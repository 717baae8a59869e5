import SchemeCore.Release
import Mathlib.Logic.Relation
import Mathlib.Data.Multiset.ZeroCons

/-! What can be reached from an object: the object itself, what its cell holds, and what can be
reached from there. A heap is acyclic when no chain of handles leads from a cell back to it. -/

namespace SchemeCore.Heap

def items (h : Heap) (o : Object) : List Object :=
  match o.address?.bind h.cell? with
  | some c => c.items
  | none => []

def Holds (h : Heap) (o p : Object) : Prop := p ∈ h.items o

def Reaches (h : Heap) : Object → Object → Prop := Relation.ReflTransGen h.Holds

def ReachedFrom (h : Heap) (outside : Multiset Object) (a : Addr) : Prop :=
  ∃ o ∈ outside, ∃ p, h.Reaches o p ∧ p.address? = some a

def PointsTo (h : Heap) (a b : Addr) : Prop :=
  ∃ c, h.cell? a = some c ∧ ∃ o ∈ c.items, o.address? = some b

def Acyclic (h : Heap) : Prop := ∀ a, ¬Relation.TransGen h.PointsTo a a

end SchemeCore.Heap
