/-! A flonum is a binary64 number given by its bits: one for the sign, eleven for the exponent,
fifty-two for the fraction. All questions about it are answered from the bits. -/

namespace SchemeCore

structure Flonum where
  bits : UInt64
deriving DecidableEq, Repr

namespace Flonum

def isNegative (x : Flonum) : Bool := x.bits >>> 63 == 1

def exponentField (x : Flonum) : Nat := ((x.bits >>> 52) &&& 0x7FF).toNat

def fraction (x : Flonum) : Nat := (x.bits &&& 0xFFFFFFFFFFFFF).toNat

def isNaN (x : Flonum) : Bool := x.exponentField == 0x7FF && x.fraction != 0

def isInfinite (x : Flonum) : Bool := x.exponentField == 0x7FF && x.fraction == 0

def isZero (x : Flonum) : Bool := x.exponentField == 0 && x.fraction == 0

def same (x y : Flonum) : Bool :=
  !x.isNaN && !y.isNaN && (x.bits == y.bits || x.isZero && y.isZero)

theorem same_comm (x y : Flonum) : x.same y = y.same x := by
  simp only [same, Bool.and_comm, Bool.beq_comm]

theorem same_self (x : Flonum) : x.same x = !x.isNaN := by simp [same]

theorem same_trans {x y z : Flonum} (left : x.same y = true) (right : y.same z = true) :
    x.same z = true := by
  simp only [same, Bool.and_eq_true, Bool.or_eq_true, Bool.not_eq_true', beq_iff_eq] at left right ⊢
  obtain ⟨⟨number, -⟩, left⟩ := left
  obtain ⟨⟨-, number'⟩, right⟩ := right
  refine ⟨⟨number, number'⟩, ?_⟩
  rcases left with same | ⟨zero, zero'⟩
  · have one : x = y := by cases x; cases y; exact congrArg Flonum.mk same
    exact one ▸ right
  · rcases right with same | ⟨-, zero''⟩
    · have one : y = z := by cases y; cases z; exact congrArg Flonum.mk same
      exact .inr ⟨zero, one ▸ zero'⟩
    · exact .inr ⟨zero, zero''⟩

/-- The size of a finite number is `mantissa * 2 ^ scale`. -/
def mantissa (x : Flonum) : Nat :=
  if x.exponentField = 0 then x.fraction else x.fraction + Nat.pow 2 52

def scale (x : Flonum) : Int :=
  if x.exponentField = 0 then -1074 else x.exponentField - 1075

def isNarrowBelow (x : Flonum) : Bool := x.fraction == 0 && 1 < x.exponentField

end Flonum

end SchemeCore
