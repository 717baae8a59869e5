import SchemeCore.Heap

/-! Giving up handles. Each cell is counted with the number of handles to it, and the last handle
given up frees the cell. The handles that a freed pair or vector held are given up in turn; they
wait on a worklist, so that freeing a deep structure needs no deep nesting. A shell that leaves the
worklist has been emptied first, so the drop of the shell itself finds nothing to wait for. -/

namespace SchemeCore

def Cell.items : Cell → List Object
  | .pair car cdr => [car, cdr]
  | .vector items => items.toList
  | _ => []

def Cell.emptied : Cell → Cell
  | .pair _ _ => .pair .null .null
  | .vector items => .vector (Array.replicate items.size .null)
  | c => c

def Object.nests : Object → Bool
  | .pair _ | .vector _ => true
  | _ => false

/-- A heap with the number of handles to each of its cells, and a record of how often each cell was
freed. -/
structure Counted where
  heap : Heap
  counts : Array Nat
  frees : Array Nat
deriving DecidableEq, Repr

namespace Counted

def count (s : Counted) (a : Addr) : Nat := s.counts.getD a 0

def timesFreed (s : Counted) (a : Addr) : Nat := s.frees.getD a 0

def tally (counts : Array Nat) (handles : List Object) : Array Nat :=
  handles.foldl (fun counts o => match o.address? with
    | some a => counts.modify a (· + 1)
    | none => counts) counts

def ofHeap (h : Heap) (outside : List Object) : Counted where
  heap := h
  counts := h.cells.foldl (fun counts c => tally counts c.items)
    (tally (Array.replicate h.size 0) outside)
  frees := Array.replicate h.size 0

def held (s : Counted) : Nat := s.heap.cells.foldl (fun n c => n + c.items.length) 0

/-- Take one handle from a cell. The last one takes the cell out of the heap; one more than there are
is recorded as freeing the cell once more. -/
def giveUp (s : Counted) (a : Addr) : Counted × Option Cell :=
  match s.count a with
  | 0 => (⟨s.heap, s.counts, s.frees.modify a (· + 1)⟩, none)
  | 1 =>
    let c := s.heap.cell? a
    (⟨s.heap.write a .freed, s.counts.setIfInBounds a 0, s.frees.modify a (· + 1)⟩, c)
  | n + 2 => (⟨s.heap, s.counts.setIfInBounds a (n + 1), s.frees⟩, none)

def defer (s : Counted) (pending : List Object) (o : Object) : Counted × List Object :=
  match o.address? with
  | none => (s, pending)
  | some a => if o.nests then (s, o :: pending) else ((s.giveUp a).1, pending)

def takeItems (s : Counted) (pending : List Object) (c : Cell) : Counted × List Object :=
  c.items.foldl (fun (s, pending) o => s.defer pending o) (s, pending)

mutual

/-- Give up the handles on a worklist, the latest first. The level says how many drops this one is
nested in; the last component of the result is the deepest level reached. -/
def releaseWithin : Nat → Nat → Nat → Counted → List Object → Counted × Nat
  | 0, _, deepest, s, _ => (s, deepest)
  | _ + 1, _, deepest, s, [] => (s, deepest)
  | fuel + 1, level, deepest, s, o :: pending =>
    match o.address? with
    | none => releaseWithin fuel level deepest s pending
    | some a =>
      match s.giveUp a with
      | (s, none) => releaseWithin fuel level deepest s pending
      | (s, some c) =>
        let (s, pending) := s.takeItems pending c
        let (s, deepest) := dropShell fuel (level + 1) deepest s c.emptied
        releaseWithin fuel level deepest s pending

def dropShell : Nat → Nat → Nat → Counted → Cell → Counted × Nat
  | 0, level, deepest, s, _ => (s, max level deepest)
  | fuel + 1, level, deepest, s, c =>
    let (s, pending) := s.takeItems [] c
    releaseWithin fuel level (max level deepest) s pending

end

/-- Give up one handle, with all that follows from it, and the deepest nesting of drops. Every
round of a worklist takes one of the handles held by cells. -/
def dropWithDepth (s : Counted) (o : Object) : Counted × Nat :=
  match o.address? with
  | none => (s, 0)
  | some a =>
    match s.giveUp a with
    | (t, none) => (t, 0)
    | (t, some c) => if o.nests then dropShell (s.held + 3) 1 0 t c else (t, 0)

def drop (s : Counted) (o : Object) : Counted := (s.dropWithDepth o).1

end Counted

end SchemeCore
