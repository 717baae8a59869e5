import SchemeCore.Chain
import SchemeCore.Equality
import SchemeCore.Written

/-! The operations on values, each with its operands, and what they answer. One that makes a sequence
comes with the allocator as it is at that time. -/

namespace SchemeCore

inductive Operation where
  | cons (car cdr : Object)
  | list (items : List Object)
  | sequence (k : Sequence) (slots : Array k.Slot)
  | make (k : Sequence) (length : Int64) (fill : k.Element)
      (allocates : Nat → Bool := Sequence.ample)
  | inputPort (bytes : List UInt8)
  | outputPort
  | car (pair : Option Object)
  | cdr (pair : Option Object)
  | setCar (pair : Option Object) (value : Object)
  | setCdr (pair : Option Object) (value : Object)
  | refAt (k : Sequence) (sequence : Option Object) (i : Int64)
  | setAt (k : Sequence) (sequence : Option Object) (i : Int64) (value : k.Element)
  | fill (k : Sequence) (sequence : Object) (value : k.Element)
  | same (a b : Object)
  | equal (a b : Object)
  | isList (o : Object)
  | write (o : Object)

inductive Answer where
  | object (o : Object)
  | element (k : Sequence) (e : k.Element)
  | done
  | verdict (v : Option Bool)
  | text (t : Option String)

namespace Operation

def made (result : Object × Heap) : Except Condition Answer × Heap :=
  (.ok (.object result.1), result.2)

def answered {α : Type} (answer : α → Answer) (result : Except Condition α × Heap) :
    Except Condition Answer × Heap :=
  (result.1.map answer, result.2)

def apply (table : Interner) (h : Heap) : Operation → Except Condition Answer × Heap
  | .cons x y => made (h.cons x y)
  | .list items => made (h.list items)
  | .sequence k slots => made (h.sequence k slots)
  | .make k length value allocates =>
    answered .object (h.makeSequence allocates k length value)
  | .inputPort bytes => made (h.inputPort bytes)
  | .outputPort => made h.outputPort
  | .car o => ((h.car o).map .object, h)
  | .cdr o => ((h.cdr o).map .object, h)
  | .setCar o value => answered (fun _ => .done) (h.setCar o value)
  | .setCdr o value => answered (fun _ => .done) (h.setCdr o value)
  | .refAt k o i => ((h.refAt k o i).map (.element k), h)
  | .setAt k o i value => answered (fun _ => .done) (h.setAt k o i value)
  | .fill k o value => answered (fun _ => .done) (h.fill k o value)
  | .same a b => (.ok (.verdict (some (a.same b))), h)
  | .equal a b => (.ok (.verdict (h.equal? a b)), h)
  | .isList o => (.ok (.verdict (h.isList? o)), h)
  | .write o => (.ok (.text (h.written? table o)), h)

end Operation

end SchemeCore
