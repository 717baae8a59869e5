import SchemeCore.Object

/-! The heap holds the cells of all compounds. New cells are added at the end, so an address is
never given out twice. An operation on a compound first finds its cell; an object of another kind,
or none at all, counts as a missing operand. -/

namespace SchemeCore

inductive Cell where
  | pair (car cdr : Object)
  | string (chars : Array Char)
  | vector (items : Array Object)
  | bytes (bytes : Array UInt8)
  | inputPort (unread : List UInt8)
  | outputPort (written : Array UInt8)
  | freed
deriving DecidableEq, Repr

structure Heap where
  cells : Array Cell
deriving DecidableEq, Repr

namespace Heap

def empty : Heap := ⟨#[]⟩

def size (h : Heap) : Nat := h.cells.size

def cell? (h : Heap) (a : Addr) : Option Cell := h.cells[a]?

def alloc (h : Heap) (c : Cell) : Addr × Heap := (h.size, ⟨h.cells.push c⟩)

def write (h : Heap) (a : Addr) (c : Cell) : Heap := ⟨h.cells.setIfInBounds a c⟩

/-! Pairs and lists. -/

def cons (h : Heap) (car cdr : Object) : Object × Heap :=
  let (a, h) := h.alloc (.pair car cdr)
  (.pair a, h)

def list (h : Heap) (items : List Object) : Object × Heap :=
  items.foldr (fun item (tail, h) => h.cons item tail) (.null, h)

def pair? (h : Heap) : Object → Option (Object × Object)
  | .pair a =>
    match h.cell? a with
    | some (.pair car cdr) => some (car, cdr)
    | _ => none
  | _ => none

def cdr? (h : Heap) (o : Object) : Option Object := (h.pair? o).map (·.2)

def car (h : Heap) (o : Option Object) : Except Condition Object :=
  match o.bind h.pair? with
  | some (car, _) => .ok car
  | none => .error (.absent "cons")

def cdr (h : Heap) (o : Option Object) : Except Condition Object :=
  match o.bind h.pair? with
  | some (_, cdr) => .ok cdr
  | none => .error (.absent "cons")

def setCar (h : Heap) (o : Option Object) (value : Object) : Except Condition Unit × Heap :=
  match o with
  | some (.pair a) =>
    match h.cell? a with
    | some (.pair _ cdr) => (.ok (), h.write a (.pair value cdr))
    | _ => (.error (.absent "cons"), h)
  | _ => (.error (.absent "cons"), h)

def setCdr (h : Heap) (o : Option Object) (value : Object) : Except Condition Unit × Heap :=
  match o with
  | some (.pair a) =>
    match h.cell? a with
    | some (.pair car _) => (.ok (), h.write a (.pair car value))
    | _ => (.error (.absent "cons"), h)
  | _ => (.error (.absent "cons"), h)

def expectPair (h : Heap) (o : Object) : Except Condition (Object × Object) :=
  match h.pair? o with
  | some p => .ok p
  | none => .error (.wrongType "pair" o.typeName)

/-! Ports. -/

def inputPort (h : Heap) (bytes : List UInt8) : Object × Heap :=
  let (a, h) := h.alloc (.inputPort bytes)
  (.inputPort a, h)

def outputPort (h : Heap) : Object × Heap :=
  let (a, h) := h.alloc (.outputPort #[])
  (.outputPort a, h)

def read? (h : Heap) (o : Object) (n : Nat) : Option (List UInt8 × Heap) :=
  match o with
  | .inputPort a =>
    match h.cell? a with
    | some (.inputPort unread) => some (unread.take n, h.write a (.inputPort (unread.drop n)))
    | _ => none
  | _ => none

def writeBytes? (h : Heap) (o : Object) (bytes : List UInt8) : Option Heap :=
  match o with
  | .outputPort a =>
    match h.cell? a with
    | some (.outputPort written) => some (h.write a (.outputPort (written ++ bytes)))
    | _ => none
  | _ => none

def output? (h : Heap) : Object → Option (Array UInt8)
  | .outputPort a =>
    match h.cell? a with
    | some (.outputPort written) => some written
    | _ => none
  | _ => none

end Heap

end SchemeCore
