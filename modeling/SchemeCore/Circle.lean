import SchemeCore.Datum
import SchemeCore.History
import SchemeCore.Reachable

/-! Runs that close no circle. Only a mutation can lead from a cell back to it, and only when it
stores in a pair or a vector an object from which that pair or vector can be reached. Where no
operation of a run does so, every object is finite. -/

namespace SchemeCore

namespace Operation

def target? : Operation → Option Object
  | .setCar o _ | .setCdr o _ | .setAt _ o _ _ => o
  | .fill _ o _ => some o
  | _ => none

def stored : Operation → List Object
  | .setCar _ value | .setCdr _ value => [value]
  | .setAt k _ _ value | .fill k _ value => k.objects value
  | _ => []

/-- A mutation succeeds and leaves in its target an object that reached the target before. -/
def ClosesCircle (table : Interner) (h : Heap) (op : Operation) : Prop :=
  (op.apply table h).1 = .ok .done ∧ ∃ o ∈ op.target?, ∃ value ∈ op.stored,
    (op.apply table h).2.Holds o value ∧ h.Reaches value o

end Operation

namespace Run

def Straight (table : Interner) (ops : List Operation) : Prop :=
  ∀ before op after, ops = before ++ op :: after → ¬op.ClosesCircle table (of table before).heap

/-- What programs can hold after a run: objects without a cell, and the compounds that were made. -/
def Knows (r : Run) (o : Object) : Prop := o.address?.isSome → o ∈ r.history.allocations

structure Finite (table : Interner) (r : Run) : Prop where
  unfolds : ∀ o, r.Knows o → ∃ d, r.heap.Unfolds o d
  compares : ∀ a b, r.Knows a → r.Knows b → ∃ v, r.heap.equal? a b = some v
  writes : ∀ o, r.Knows o → ∃ text, r.heap.written? table o = some text
  walks : ∀ o, r.Knows o → ∃ v, r.heap.isList? o = some v

end Run

end SchemeCore
