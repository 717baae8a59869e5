import SchemeCore.Flonum
import SchemeCore.Symbol

/-! The objects of the language. Immediates and scalars are the objects themselves; a compound is
the address of its cell in the heap, together with the kind of cell found there. -/

namespace SchemeCore

inductive Immediate where
  | null
  | true
  | false
  | eof
  | undefined
  | unspecified
deriving DecidableEq, Repr

def Immediate.typeName : Immediate → String
  | .null => "null"
  | .true | .false => "boolean"
  | .eof => "eof-object"
  | .undefined => "undefined"
  | .unspecified => "unspecified"

abbrev Addr := Nat

inductive Object where
  | immediate (i : Immediate)
  | fixnum (n : Int64)
  | character (c : Char)
  | flonum (x : Flonum)
  | symbol (s : Symbol)
  | pair (a : Addr)
  | string (a : Addr)
  | vector (a : Addr)
  | bytes (a : Addr)
  | inputPort (a : Addr)
  | outputPort (a : Addr)
deriving DecidableEq, Repr

namespace Object

def null : Object := .immediate .null

def boolean (b : Bool) : Object := .immediate (if b then .true else .false)

def variant : Object → String
  | .immediate _ => "Immediate"
  | .fixnum _ => "Fixnum"
  | .character _ => "Character"
  | .flonum _ => "Flonum"
  | .symbol _ => "Symbol"
  | .pair _ => "Pair"
  | .string _ => "String"
  | .vector _ => "Vector"
  | .bytes _ => "ByteVector"
  | .inputPort _ => "InputPort"
  | .outputPort _ => "OutputPort"

def typeName : Object → String
  | .immediate i => i.typeName
  | .fixnum _ => "fixnum"
  | .character _ => "char"
  | .flonum _ => "flonum"
  | .symbol _ => "symbol"
  | .pair _ => "pair"
  | .string _ => "string"
  | .vector _ => "vector"
  | .bytes _ => "bytevector"
  | .inputPort _ => "input-port"
  | .outputPort _ => "output-port"

def isNull (o : Object) : Bool := o == null

def isTruthy (o : Object) : Bool := o != boolean false

def address? : Object → Option Addr
  | .pair a | .string a | .vector a | .bytes a | .inputPort a | .outputPort a => some a
  | _ => none

/-- Pairs and sequences have contents; a port is a compound without any. -/
def hasContents : Object → Bool
  | .pair _ | .string _ | .vector _ | .bytes _ => true
  | _ => false

def isNaN : Object → Bool
  | .flonum x => x.isNaN
  | _ => false

def symbol? : Object → Option Symbol
  | .symbol s => some s
  | _ => none

def expectSymbol : Object → Except Condition Symbol
  | .symbol s => .ok s
  | o => .error (.wrongType "symbol" o.typeName)

def expectFixnum : Object → Except Condition Int64
  | .fixnum n => .ok n
  | o => .error (.wrongType "fixnum" o.typeName)

def expectCharacter : Object → Except Condition Char
  | .character c => .ok c
  | o => .error (.wrongType "char" o.typeName)

/-- Identity: one immediate, one scalar value, one symbol, or one cell. Flonums are compared as
numbers, so a NaN is not identical even to itself. -/
def same : Object → Object → Bool
  | .flonum x, .flonum y => x.same y
  | a, b => a == b

theorem same_comm (a b : Object) : a.same b = b.same a := by
  cases a <;> cases b <;> simp only [same, Flonum.same_comm, Bool.beq_comm]

theorem same_iff_of_address {o p : Object} {a : Addr} (found : o.address? = some a) :
    o.same p = true ↔ o = p := by
  cases o <;> cases p <;> simp_all [same, address?]

theorem eq_or_flonum_of_same {a b : Object} (identical : a.same b = true) :
    a = b ∨ ∃ x y, a = .flonum x ∧ b = .flonum y ∧ x.same y = true := by
  cases a with
  | flonum x =>
    cases b with
    | flonum y => exact .inr ⟨x, y, rfl, rfl, identical⟩
    | _ => exact .inl (beq_iff_eq.mp identical)
  | _ => exact .inl (beq_iff_eq.mp identical)

theorem same_self (o : Object) : o.same o = !o.isNaN := by
  cases o with
  | flonum x => exact x.same_self
  | _ => exact beq_self_eq_true _

end Object

end SchemeCore
