import SchemeCore.Flonum

/-! The fewest decimal digits that read back as a given flonum. All comparisons are exact: a finite
number is `4 * mantissa` quarter units, the numbers that round to it lie between two such bounds,
and a decimal `c * 10 ^ k` is compared with them as a product of naturals. The coarsest power of
ten with a multiple between the bounds wins; of two multiples the nearer, of two equally near the
greater. -/

namespace SchemeCore.Flonum

/-- The bounds in quarter units; they count as inside when the mantissa is even. -/
def lowerBound (x : Flonum) : Nat := 4 * x.mantissa - (if x.isNarrowBelow then 1 else 2)

def upperBound (x : Flonum) : Nat := 4 * x.mantissa + 2

/-- One unit of `10 ^ k`, and one quarter unit of the flonum, over a common denominator. -/
def decimalUnit (x : Flonum) (k : Int) : Nat := Nat.pow 10 k.toNat * Nat.pow 2 (2 - x.scale).toNat

def quarterUnit (x : Flonum) (k : Int) : Nat := Nat.pow 2 (x.scale - 2).toNat * Nat.pow 10 (-k).toNat

def readsBack (x : Flonum) (k : Int) (c : Nat) : Bool :=
  let value := c * x.decimalUnit k
  let low := x.lowerBound * x.quarterUnit k
  let high := x.upperBound * x.quarterUnit k
  if x.mantissa % 2 = 0 then low ≤ value && value ≤ high else low < value && value < high

def nearest? (x : Flonum) (k : Int) : Option Nat :=
  let exact := 4 * x.mantissa * x.quarterUnit k
  let below := exact / x.decimalUnit k
  let above := below + 1
  let nearBelow := exact - below * x.decimalUnit k < above * x.decimalUnit k - exact
  match x.readsBack k below, x.readsBack k above with
  | true, true => some (if nearBelow then below else above)
  | true, false => some below
  | false, true => some above
  | false, false => none

def topExponent (x : Flonum) : Int := (x.mantissa.log2 + x.scale) * 30103 / 100000 + 3

/-- The digits, as a number, and the power of ten they are multiplied by; seventeen digits are
always enough, so that no more exponents than these need be tried. -/
def shortest (x : Flonum) : Nat × Int :=
  ((List.range 24).findSome? fun (i : Nat) =>
    let k := x.topExponent - i
    (x.nearest? k).map (·, k)).getD (0, 0)

end SchemeCore.Flonum
