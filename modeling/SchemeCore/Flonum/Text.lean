import SchemeCore.Flonum.Shortest

/-! The text of a flonum. Numbers from `1e-4` up to, but not including, `1e16` are written with a
point and at least one digit on both sides of it, others with an exponent and a point only when
there is more than one digit. -/

namespace SchemeCore.Flonum

/-- The digits of a number with the point after the first `point` of them, where `point` may lie
outside the digits. -/
def positional (digits : List Char) (point : Int) : List Char :=
  if point ≤ 0 then
    ['0', '.'] ++ List.replicate (-point).toNat '0' ++ digits
  else
    let missing := point.toNat - digits.length
    match digits.drop point.toNat with
    | [] => digits ++ List.replicate missing '0' ++ ['.', '0']
    | fractional => digits.take point.toNat ++ '.' :: fractional

def scientific (digits : List Char) (point : Int) : List Char :=
  let exponent := 'e' :: (toString (point - 1)).toList
  match digits with
  | first :: second :: rest => first :: '.' :: second :: rest ++ exponent
  | _ => digits ++ exponent

def magnitude (x : Flonum) : List Char :=
  if x.isZero then
    ['0', '.', '0']
  else
    let (number, exponent) := x.shortest
    let digits := (toString number).toList
    let point := digits.length + exponent
    if -3 ≤ point ∧ point ≤ 16 then positional digits point else scientific digits point

def finiteText (x : Flonum) : String :=
  String.ofList (if x.isNegative then '-' :: x.magnitude else x.magnitude)

def written (x : Flonum) : String :=
  if x.isNaN then "+nan.0"
  else if x.isInfinite then (if x.isNegative then "-inf.0" else "+inf.0")
  else x.finiteText

def inspected (x : Flonum) : String :=
  if x.isNaN then "NaN"
  else if x.isInfinite then (if x.isNegative then "-inf" else "inf")
  else x.finiteText

end SchemeCore.Flonum
