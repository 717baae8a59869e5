import SchemeCore.Release
import Mathlib.Logic.Function.Iterate
import Mathlib.Algebra.GroupWithZero.Nat

/-! Dropping step by step. A drop is a call. It moves the objects out of the slots of its shell,
those that could lead further onto a worklist of its own; it releases the worklist, where each shell
that comes out of a cell is emptied and then dropped; and in the end it drops what its slots hold.
The last handle to a cell calls the drop of the cell, so that one call can be inside another.
Nothing here says how many steps there are or how deep the calls are nested. -/

namespace SchemeCore

inductive DropCall where
  /-- Moving objects out of a shell, slot by slot: null was left in the slots behind. The shell is
  that of the call itself or, if its own slots are set aside, one that it took out of a cell. -/
  | moving (own : Option (List Object)) (moved left pending : List Object)
  | releasing (own pending : List Object)
  | clearing (own : List Object)
deriving DecidableEq, Repr

namespace DropCall

def worklist : DropCall → List Object
  | moving _ _ _ pending => pending
  | releasing _ pending => pending
  | clearing _ => []

def slots : DropCall → List Object
  | moving own moved left _ => own.getD [] ++ (moved ++ left)
  | releasing own _ => own
  | clearing own => own

def used (slots : List Object) : Nat := slots.countP (· ≠ .null)

def inHand (c : DropCall) : Nat := c.worklist.length + used c.slots

end DropCall

structure Unwinding where
  state : Counted
  calls : List DropCall
deriving DecidableEq, Repr

namespace Counted

def letGo (s : Counted) (o : Object) : Counted × Option Cell :=
  match o.address? with
  | none => (s, none)
  | some a => s.giveUp a

/-- Drop an object where it is. If it was the last handle to a cell, this calls the drop of the
cell, which has slots for objects only in a pair or a vector. -/
def discard (s : Counted) (o : Object) (calls : List DropCall) : Unwinding :=
  match s.letGo o with
  | (t, none) => ⟨t, calls⟩
  | (t, some c) => ⟨t, .moving none [] (if o.nests then c.items else []) [] :: calls⟩

end Counted

def DropCall.step (s : Counted) (outer : List DropCall) : DropCall → Unwinding
  | moving own moved (o :: left) pending =>
    if o.nests then ⟨s, moving own (moved ++ [.null]) left (o :: pending) :: outer⟩
    else s.discard o (moving own (moved ++ [.null]) left pending :: outer)
  | moving none moved [] pending => ⟨s, releasing moved pending :: outer⟩
  | moving (some own) moved [] pending =>
    ⟨s, moving none [] moved [] :: releasing own pending :: outer⟩
  | releasing own (o :: pending) =>
    if o.nests then
      match s.letGo o with
      | (t, none) => ⟨t, releasing own pending :: outer⟩
      | (t, some c) => ⟨t, moving (some own) [] c.items pending :: outer⟩
    else s.discard o (releasing own pending :: outer)
  | releasing own [] => ⟨s, clearing own :: outer⟩
  | clearing (o :: own) => s.discard o (clearing own :: outer)
  | clearing [] => ⟨s, outer⟩

namespace Unwinding

def step (m : Unwinding) : Unwinding :=
  match m.calls with
  | [] => m
  | call :: outer => call.step m.state outer

def release (s : Counted) (pending : List Object) : Unwinding := ⟨s, [.releasing [] pending]⟩

def iterates (m : Unwinding) : Bool :=
  match m.calls with
  | .releasing _ (_ :: _) :: _ => true
  | _ => false

def objects (m : Unwinding) : Nat := m.state.held + (m.calls.map DropCall.inHand).sum

structure EndsIn (m : Unwinding) (bound steps : Nat) (t : Counted) : Prop where
  ends : step^[steps] m = ⟨t, []⟩
  consumes : ∀ n, (step^[n + 1] m).objects + (step^[n] m).iterates.toNat ≤ (step^[n] m).objects
  iterations : ∀ n, (List.range n).countP (fun k => (step^[k] m).iterates) ≤ bound
  depth : ∀ n, (step^[n] m).calls.length ≤ 2
  shell : ∀ n own moved pending outer,
    (step^[n] m).calls = .moving (some own) moved [] pending :: outer → ∀ o ∈ moved, o.nests = false
  nested : ∀ n inner outer rest, (step^[n] m).calls = inner :: outer :: rest →
    inner.worklist = [] ∧ ∀ o ∈ inner.slots, o.nests = false

end Unwinding

end SchemeCore
