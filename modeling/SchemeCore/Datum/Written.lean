import SchemeCore.Datum

/-! The written form of a tree, list by list. Pairs that follow one another as cdrs make one chain,
which is written as a whole: the cars between parentheses, and after a point what the last pair has
as its cdr, unless that is the empty list. -/

namespace SchemeCore.Datum

def cars : Datum → List Datum
  | .pair car cdr => car :: cdr.cars
  | _ => []

/-- The cdr of the last pair in the chain; of a tree that is no pair, the tree itself. -/
def chainEnd : Datum → Datum
  | .pair _ cdr => cdr.chainEnd
  | d => d

def isNull : Datum → Bool
  | .leaf o => o.isNull
  | _ => false

def isPair : Datum → Bool
  | .pair .. => true
  | _ => false

theorem sizeOf_lt_of_mem_cars {d e : Datum} (inside : e ∈ d.cars) : sizeOf e < sizeOf d := by
  induction d using cars.induct with
  | case1 car cdr ih =>
    rw [pair.sizeOf_spec]
    rcases List.mem_cons.mp inside with rfl | later
    · omega
    · have := ih later
      omega
  | case2 d other =>
    rw [cars.eq_2 d other] at inside
    cases inside

theorem sizeOf_chainEnd_le (d : Datum) : sizeOf d.chainEnd ≤ sizeOf d := by
  induction d using chainEnd.induct with
  | case1 car cdr ih =>
    rw [chainEnd, pair.sizeOf_spec]
    omega
  | case2 d other => exact Nat.le_of_eq (congrArg sizeOf (chainEnd.eq_2 d other))

def written (table : Interner) : Datum → String
  | .leaf o => (o.atom? table).getD ""
  | .string chars => String.ofList (Literal.string chars)
  | .vector items => "#(" ++ " ".intercalate (items.map (written table)) ++ ")"
  | .bytes octets => "#u8(" ++ " ".intercalate (octets.map fun b => toString b.toNat) ++ ")"
  | .pair car cdr =>
    let cars := written table car :: cdr.cars.attach.map fun d => written table d.val
    "(" ++ " ".intercalate cars ++
      (if cdr.chainEnd.isNull then "" else " . " ++ written table cdr.chainEnd) ++ ")"
termination_by d => sizeOf d
decreasing_by
  · rename_i inside
    have := List.sizeOf_lt_of_mem inside
    rw [vector.sizeOf_spec]
    omega
  · rw [pair.sizeOf_spec]
    omega
  · have := sizeOf_lt_of_mem_cars d.property
    rw [pair.sizeOf_spec]
    omega
  · have := sizeOf_chainEnd_le cdr
    rw [pair.sizeOf_spec]
    omega

theorem written_pair (table : Interner) (car cdr : Datum) :
    (pair car cdr).written table = "(" ++ " ".intercalate ((pair car cdr).cars.map (written table)) ++
      (if cdr.chainEnd.isNull then "" else " . " ++ cdr.chainEnd.written table) ++ ")" := by
  rw [written, cars, List.map_cons, List.attach_map_val]

end SchemeCore.Datum
