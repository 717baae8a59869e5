import SchemeCore.Heap

/-! Following the cdrs of an object through pairs gives its chain. A chain that ends in the empty
list is a proper list; one that runs into a cycle never ends, which is found out by two walkers of
different speed: on a cycle the faster one comes to stand where the slower one stands. -/

namespace SchemeCore.Heap

def twoSteps (h : Heap) (fast : Object) : Except Bool Object :=
  if fast.isNull then .error true
  else
    match h.cdr? fast with
    | none => .error false
    | some fast =>
      if fast.isNull then .error true
      else
        match h.cdr? fast with
        | none => .error false
        | some fast => .ok fast

def walkersAnswer? (h : Heap) : Nat → Object → Object → Option Bool
  | 0, _, _ => none
  | rounds + 1, slow, fast =>
    match h.twoSteps fast with
    | .error answer => some answer
    | .ok fast =>
      match h.cdr? slow with
      | none => some false
      | some slow => if fast.same slow then some false else h.walkersAnswer? rounds slow fast

/-- A chain has no more different pairs than there are cells, and the walkers stop by then. -/
def isList? (h : Heap) (o : Object) : Option Bool := h.walkersAnswer? (h.size + 1) o o

def isList (h : Heap) (o : Object) : Bool := h.isList? o == some true

end SchemeCore.Heap
