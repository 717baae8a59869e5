import SchemeCore.Reachable
import SchemeCore.Proofs.Equivalence
import SchemeCore.Proofs.Written

/-! Equal objects are written alike. What is equal to an object with a finite unfolding unfolds to the
same tree, however the cells are shared on the two sides, as the comparison and the printer go down
the same contents. The one exception is the sign of a zero, which is written but not compared. -/

namespace SchemeCore

namespace Flonum

variable (x y : Flonum)

theorem exponentField_eq : x.exponentField = x.bits.toNat / 2 ^ 52 % 2 ^ 11 := by
  have mask : (0x7FF : UInt64).toNat = 2 ^ 11 - 1 := rfl
  rw [exponentField, UInt64.toNat_and, mask, Nat.and_two_pow_sub_one_eq_mod,
    UInt64.toNat_shiftRight, Nat.shiftRight_eq_div_pow]
  rfl

theorem fraction_eq : x.fraction = x.bits.toNat % 2 ^ 52 := by
  have mask : (0xFFFFFFFFFFFFF : UInt64).toNat = 2 ^ 52 - 1 := rfl
  rw [fraction, UInt64.toNat_and, mask, Nat.and_two_pow_sub_one_eq_mod]

theorem isNegative_iff : x.isNegative = true ↔ x.bits.toNat / 2 ^ 63 = 1 := by
  rw [isNegative, beq_iff_eq, ← UInt64.toNat_inj, UInt64.toNat_shiftRight,
    Nat.shiftRight_eq_div_pow]
  rfl

variable {x y}

theorem eq_of_isZero (zero : x.isZero = true) (zero' : y.isZero = true)
    (signs : x.isNegative = y.isNegative) : x = y := by
  simp only [isZero, Bool.and_eq_true, beq_iff_eq, exponentField_eq, fraction_eq] at zero zero'
  have sign := x.isNegative_iff
  rw [signs, isNegative_iff] at sign
  have lt := x.bits.toNat_lt
  have lt' := y.bits.toNat_lt
  have words : x.bits.toNat = y.bits.toNat := by omega
  cases x
  cases y
  exact congrArg Flonum.mk (UInt64.toNat_inj.mp words)

def isNegativeZero (x : Flonum) : Bool := x.isZero && x.isNegative

theorem eq_of_same (same : x.same y = true) (signless : x.isNegativeZero = false)
    (signless' : y.isNegativeZero = false) : x = y := by
  simp only [Flonum.same, Bool.and_eq_true, Bool.or_eq_true, beq_iff_eq] at same
  rcases same.2 with bits | ⟨zero, zero'⟩
  · cases x
    cases y
    exact congrArg Flonum.mk bits
  · rw [isNegativeZero, zero, Bool.true_and] at signless
    rw [isNegativeZero, zero', Bool.true_and] at signless'
    exact eq_of_isZero zero zero' (signless.trans signless'.symm)

end Flonum

def Object.isNegativeZero : Object → Bool
  | .flonum x => x.isNegativeZero
  | _ => false

theorem Object.eq_of_same {a b : Object} (identical : a.same b = true)
    (signless : a.isNegativeZero = false) (signless' : b.isNegativeZero = false) : a = b := by
  rcases Object.eq_or_flonum_of_same identical with one | ⟨x, y, rfl, rfl, same⟩
  · exact one
  · rw [Flonum.eq_of_same same signless signless']

namespace Heap

variable {h : Heap} {a b : Object} {d : Datum}

theorem holds_of_pair? {x xs : Object} (found : h.pair? a = some (x, xs)) :
    h.Holds a x ∧ h.Holds a xs := by
  obtain ⟨i, rfl, cell⟩ := pair?_eq_some_iff.mp found
  have inside : h.items (.pair i) = [x, xs] := by
    rw [items, Object.address?, Option.bind_some, cell]
    rfl
  simp [Holds, inside]

theorem holds_of_vector? {i : Addr} {slots : Array Object}
    (found : h.sequence? .vector a = some (i, slots)) (n : Nat) (lt : n < slots.size) :
    h.Holds a slots[n] := by
  obtain ⟨rfl, cell⟩ := sequence?_eq_some_iff.mp found
  have inside : h.items (Sequence.vector.object i) = slots.toList := by
    rw [items, Sequence.object_address?, Option.bind_some, cell]
    rfl
  rw [Holds, inside]
  exact Array.getElem_mem_toList lt

def Signless (h : Heap) (o : Object) : Prop := ∀ p, h.Reaches o p → p.isNegativeZero = false

theorem Signless.of_holds {p : Object} (signless : h.Signless a) (held : h.Holds a p) :
    h.Signless p := fun q reached => signless q (.head held reached)

theorem signless_of_cells (cells : ∀ c ∈ h.cells, ∀ p ∈ c.items, p.isNegativeZero = false)
    (self : a.isNegativeZero = false) : h.Signless a := by
  intro p reached
  cases reached with
  | refl => exact self
  | @tail q p _ held =>
    rw [Holds, items] at held
    split at held
    · rename_i c found
      obtain ⟨i, -, cell⟩ := Option.bind_eq_some_iff.mp found
      exact cells c (Array.mem_of_getElem? cell) p held
    · cases held

theorem Unfolds.of_equal (unfolds : h.Unfolds a d) (equal : Equal h a b) (signless : h.Signless a)
    (signless' : h.Signless b) : h.Unfolds b d := by
  induction unfolds generalizing b with
  | @leaf o bare =>
    have identical := equal.same_of_scalar bare
    obtain rfl := Object.eq_of_same identical (signless o .refl) (signless' b .refl)
    exact .leaf bare
  | @pair o x xs car cdr found left right carEqual cdrEqual =>
    rcases equal.of_pair found with rfl | ⟨y, ys, found', cars, cdrs⟩
    · exact .pair found left right
    · have inside := holds_of_pair? found
      have inside' := holds_of_pair? found'
      exact .pair found' (carEqual cars (signless.of_holds inside.1) (signless'.of_holds inside'.1))
        (cdrEqual cdrs (signless.of_holds inside.2) (signless'.of_holds inside'.2))
  | @vector o i slots items found size each item =>
    rcases equal.of_sequence (k := .vector) found with rfl | ⟨j, slots', found', sizes, equals⟩
    · exact .vector found size each
    · refine .vector found' (sizes.symm.trans size) fun n hs hi => ?_
      have lt : n < slots.size := sizes ▸ hs
      exact item n lt hi (equals n lt hs) (signless.of_holds (holds_of_vector? found n lt))
        (signless'.of_holds (holds_of_vector? found' n hs))
  | @string o i chars found =>
    rcases equal.of_sequence (k := .string) found with rfl | ⟨j, chars', found', sizes, equals⟩
    · exact .string found
    · have one : chars = chars' := Array.ext sizes equals
      exact one ▸ .string found'
  | @bytes o i bytes found =>
    rcases equal.of_sequence (k := .bytes) found with rfl | ⟨j, bytes', found', sizes, equals⟩
    · exact .bytes found
    · have one : bytes = bytes' := Array.ext sizes equals
      exact one ▸ .bytes found'

/-- An object that the comparison finds equal to one with a finite unfolding has the same unfolding
and is written with the same text, unless a negative zero can be reached from one of the two. -/
theorem equal_written_alike (table : Interner) (h : Heap) (a b : Object) (d : Datum)
    (unfolds : h.Unfolds a d) (equal : h.equal? a b = some true) (signless : h.Signless a)
    (signless' : h.Signless b) :
    h.Unfolds b d ∧ ∃ text, h.written? table a = some text ∧ h.written? table b = some text := by
  have unfolds' : h.Unfolds b d :=
    unfolds.of_equal (equal_of_equalWithin? equal) signless signless'
  exact ⟨unfolds', _, written?_of_unfolds unfolds, written?_of_unfolds unfolds'⟩

/-- Two vectors with a port and one pair that holds a NaN in common; the strings in the first are one
string, those in the second are two. -/
def sharedAndCopied : Heap :=
  ⟨#[.vector #[.string 2, .string 2, .pair 4, .inputPort 5],
    .vector #[.string 2, .string 3, .pair 4, .inputPort 5],
    .string #['s'], .string #['s'], .pair (.flonum ⟨0x7FF8000000000000⟩) .null, .inputPort []]⟩

def sharedTree : Datum :=
  .vector [.string ['s'], .string ['s'],
    .pair (.leaf (.flonum ⟨0x7FF8000000000000⟩)) (.leaf .null), .leaf (.inputPort 5)]

theorem unfolds_sharedAndCopied : sharedAndCopied.Unfolds (.vector 0) sharedTree := by
  have chars : sharedAndCopied.sequence? .string (.string 2) = some (2, #['s']) := rfl
  have slots : sharedAndCopied.sequence? .vector (.vector 0) =
      some (0, #[.string 2, .string 2, .pair 4, .inputPort 5]) := rfl
  have string : sharedAndCopied.Unfolds (.string 2) (.string ['s']) := .string chars
  have pair : sharedAndCopied.Unfolds (.pair 4)
      (.pair (.leaf (.flonum ⟨0x7FF8000000000000⟩)) (.leaf .null)) :=
    .pair rfl (.leaf rfl) (.leaf rfl)
  refine .vector slots rfl fun n hs hi => ?_
  rcases n with _ | _ | _ | _ | n
  · exact string
  · exact string
  · exact pair
  · exact .leaf rfl
  · exact absurd hi (by simp)

theorem equal_written_alike_of_copied :
    sharedAndCopied.Unfolds (.vector 0) sharedTree ∧
    sharedAndCopied.equal? (.vector 0) (.vector 1) = some true ∧
    sharedAndCopied.Signless (.vector 0) ∧ sharedAndCopied.Signless (.vector 1) ∧
    sharedAndCopied.written? .empty (.vector 0) = sharedAndCopied.written? .empty (.vector 1) := by
  have equal : sharedAndCopied.equal? (.vector 0) (.vector 1) = some true := by decide
  have cells : ∀ c ∈ sharedAndCopied.cells, ∀ p ∈ c.items, p.isNegativeZero = false := by decide
  have signless : sharedAndCopied.Signless (.vector 0) := signless_of_cells cells rfl
  have signless' : sharedAndCopied.Signless (.vector 1) := signless_of_cells cells rfl
  obtain ⟨-, text, written, written'⟩ := equal_written_alike .empty sharedAndCopied (.vector 0)
    (.vector 1) sharedTree unfolds_sharedAndCopied equal signless signless'
  exact ⟨unfolds_sharedAndCopied, equal, signless, signless', written.trans written'.symm⟩

end Heap

end SchemeCore
