/-! A condition reports why an operation on values failed: a coarse kind, a fixed description, and
irritants, the labelled texts that locate the failure, in the order they were attached. Each cause
of failure is worded here and nowhere else. -/

namespace SchemeCore

structure Irritant where
  label : String
  value : String
deriving DecidableEq, Repr

def Irritant.text (i : Irritant) : String := i.label ++ ": " ++ i.value

inductive Condition.Kind where
  | unexpected
  | type
  | nil
  | value
  | outOfBounds
deriving DecidableEq, Repr

def Condition.Kind.text : Condition.Kind → String
  | .unexpected => "unexpected error"
  | .type => "type error"
  | .nil => "nil error"
  | .value => "value error"
  | .outOfBounds => "out of bounds error"

structure Condition where
  kind : Condition.Kind
  description : String
  irritants : List Irritant
deriving DecidableEq, Repr

namespace Condition

def withIrritant (c : Condition) (label value : String) : Condition :=
  { c with irritants := c.irritants ++ [⟨label, value⟩] }

def irritant? (c : Condition) (label : String) : Option String :=
  (c.irritants.find? (·.label == label)).map (·.value)

def message (c : Condition) : String :=
  c.kind.text ++ " (" ++ " ".intercalate (c.irritants.map Irritant.text) ++ ") " ++ c.description

def unexpected (description : String) : Condition := ⟨.unexpected, description, []⟩

def absent (label : String) : Condition := ⟨.nil, "given a nil reference", [⟨label, "<nil>"⟩]⟩

def negativeLength (length : Int64) : Condition :=
  ⟨.value, "given a length < 0", [⟨"length", toString length.toInt⟩]⟩

def unallocatable (length : Int64) : Condition :=
  ⟨.value, "given a length that cannot be allocated", [⟨"length", toString length.toInt⟩]⟩

def badIndex (sequence : String) (index : Int64) (length : Nat) : Condition :=
  ⟨.outOfBounds, "given a bad " ++ sequence ++ " index",
    [⟨"i", toString index.toInt⟩, ⟨"length", toString length⟩]⟩

def badByte (label : String) (value : Int64) : Condition :=
  ⟨.value, "given a number not in [0, 255]", [⟨label, toString value.toInt⟩]⟩

def wrongType (expected got : String) : Condition :=
  ⟨.type, "given a value of the wrong type", [⟨"expected", expected⟩, ⟨"got", got⟩]⟩

end Condition

end SchemeCore
