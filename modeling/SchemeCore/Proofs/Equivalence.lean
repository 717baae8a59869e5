import SchemeCore.Proofs.Equality

/-! The comparison as a relation. It agrees with identity wherever there are no contents to
compare, it is symmetric in its outcome, and what it says yes to is transitive. It is reflexive but
for a NaN, and not for the sake of contents: a pair that holds a NaN equals itself and not a copy
of itself. -/

namespace SchemeCore.Heap

variable {h : Heap}

/-! Where there are no contents, equality is identity. -/

theorem objectsEqual?_of_scalar {a b : Object}
    (scalar : a.hasContents = false ∨ b.hasContents = false)
    (equal chains : Object → Object → Option Bool) :
    h.objectsEqual? equal chains a b = some (a.same b) := by
  rcases objectsEqual?_cases h a b with ⟨i, j, rfl, rfl⟩ | ⟨k, i, j, rfl, rfl⟩ | atOnce
  · simp [Object.hasContents] at scalar
  · cases k <;> simp [Sequence.object, Object.hasContents] at scalar
  · exact atOnce equal chains

theorem equal?_of_scalar {a b : Object} (scalar : a.hasContents = false ∨ b.hasContents = false) :
    h.equal? a b = some (a.same b) := by
  rw [equal?_eq, objectsEqual?_of_scalar scalar]

theorem equal?_self (a : Object) : h.equal? a a = some (!a.isNaN) := by
  have identical := Object.same_self a
  cases nan : a.isNaN with
  | false => exact equal?_of_same (identical.trans (by rw [nan]; rfl))
  | true =>
    have scalar : a.hasContents = false := by
      cases a <;> simp_all [Object.isNaN, Object.hasContents]
    rw [equal?_of_scalar (.inl scalar), identical, nan]

/-! The two sides of a comparison can be exchanged. -/

section Symmetric

variable {equal : Object → Object → Option Bool} (symm : ∀ a b, equal a b = equal b a)

include symm

theorem partsEqual?_comm (i j : Addr) :
    h.partsEqual? equal equal i j = h.partsEqual? equal equal j i := by
  unfold partsEqual?
  cases h.pair? (.pair i) with
  | none => cases h.pair? (.pair j) <;> rfl
  | some p =>
    cases h.pair? (.pair j) with
    | none => rfl
    | some q => simp only [symm p.1 q.1, symm p.2 q.2]

theorem slotEqual?_comm (k : Sequence) (x y : k.Slot) :
    slotEqual? equal k x y = slotEqual? equal k y x := by
  cases k with
  | vector => exact symm x y
  | string | bytes => exact congrArg some Bool.beq_comm

theorem slotsEqual?_comm (k : Sequence) (xs ys : List k.Slot) :
    slotsEqual? equal k xs ys = slotsEqual? equal k ys xs := by
  induction xs generalizing ys with
  | nil => cases ys <;> rfl
  | cons x xs ih =>
    cases ys with
    | nil => rfl
    | cons y ys => rw [slotsEqual?, slotsEqual?, slotEqual?_comm symm, ih]

theorem sequencesEqual?_comm (k : Sequence) (i j : Addr) :
    h.sequencesEqual? equal k i j = h.sequencesEqual? equal k j i := by
  unfold sequencesEqual?
  by_cases shared : i = j
  · rw [if_pos shared, if_pos shared.symm]
  · rw [if_neg shared, if_neg (Ne.symm shared)]
    cases h.sequence? k (k.object i) with
    | none => cases h.sequence? k (k.object j) <;> rfl
    | some p =>
      cases h.sequence? k (k.object j) with
      | none => rfl
      | some q => simp only [eq_comm, slotsEqual?_comm symm]

theorem objectsEqual?_comm (a b : Object) :
    h.objectsEqual? equal equal a b = h.objectsEqual? equal equal b a := by
  have pairs (i j : Addr) : h.objectsEqual? equal equal (.pair i) (.pair j) =
      h.objectsEqual? equal equal (.pair j) (.pair i) := by
    simp only [objectsEqual?_pair, pairsEqual?, eq_comm, partsEqual?_comm symm i j]
  have sequences (k : Sequence) (i j : Addr) :
      h.objectsEqual? equal equal (k.object i) (k.object j) =
        h.objectsEqual? equal equal (k.object j) (k.object i) := by
    rw [objectsEqual?_sequence, objectsEqual?_sequence, sequencesEqual?_comm symm]
  rcases objectsEqual?_cases h a b with ⟨i, j, rfl, rfl⟩ | ⟨k, i, j, rfl, rfl⟩ | atOnce
  · exact pairs i j
  · exact sequences k i j
  · rcases objectsEqual?_cases h b a with ⟨i, j, rfl, rfl⟩ | ⟨k, i, j, rfl, rfl⟩ | atOnce'
    · exact pairs j i
    · exact sequences k j i
    · rw [atOnce, atOnce', Object.same_comm]

end Symmetric

theorem equalWithin?_comm (n : Nat) (a b : Object) :
    h.equalWithin? n a b = h.equalWithin? n b a := by
  induction n generalizing a b with
  | zero => rfl
  | succ n ih =>
    rw [equalWithin?_succ]
    exact objectsEqual?_comm ih a b

theorem equal?_comm (a b : Object) : h.equal? a b = h.equal? b a :=
  equalWithin?_comm h.comparisonDepth a b

/-! Derivations compose. What is equal to a pair or to a sequence is that same object or another one
whose contents are equal, and there the two derivations for the contents compose in turn. -/

theorem Equal.of_pair {b c y ys : Object} (found : h.pair? b = some (y, ys))
    (derivation : Equal h b c) :
    b = c ∨ ∃ z zs, h.pair? c = some (z, zs) ∧ Equal h y z ∧ Equal h ys zs := by
  obtain ⟨a, rfl, -⟩ := pair?_eq_some_iff.mp found
  cases derivation with
  | same identical => exact .inl ((Object.same_iff_of_address rfl).mp identical)
  | pair left right cars cdrs =>
    cases found.symm.trans left
    exact .inr ⟨_, _, right, cars, cdrs⟩
  | vector left | string left | bytes left =>
    obtain ⟨kind, -⟩ := sequence?_eq_some_iff.mp left
    cases kind

theorem Equal.of_sequence {k : Sequence} {b c : Object} {j : Addr} {ys : Array k.Slot}
    (found : h.sequence? k b = some (j, ys)) (derivation : Equal h b c) :
    b = c ∨ ∃ l zs, h.sequence? k c = some (l, zs) ∧ ys.size = zs.size ∧
      ∀ n (hy : n < ys.size) (hz : n < zs.size), SlotEqual h k ys[n] zs[n] := by
  obtain ⟨rfl, -⟩ := sequence?_eq_some_iff.mp found
  have kind {k' : Sequence} {i : Addr} {slots : Array k'.Slot}
      (left : h.sequence? k' (k.object j) = some (i, slots)) : k = k' :=
    (Sequence.object_inj.mp (sequence?_eq_some_iff.mp left).1).1
  cases derivation with
  | same identical => exact .inl ((Object.same_iff_of_address (k.object_address? j)).mp identical)
  | pair left =>
    obtain ⟨a, same, -⟩ := pair?_eq_some_iff.mp left
    cases k <;> cases same
  | vector left right size items =>
    cases kind left
    cases found.symm.trans left
    exact .inr ⟨_, _, right, size, items⟩
  | string left right =>
    cases kind left
    cases found.symm.trans left
    exact .inr ⟨_, _, right, rfl, fun _ _ _ => rfl⟩
  | bytes left right =>
    cases kind left
    cases found.symm.trans left
    exact .inr ⟨_, _, right, rfl, fun _ _ _ => rfl⟩

theorem Equal.same_of_scalar {a b : Object} (scalar : a.hasContents = false)
    (derivation : Equal h a b) : a.same b = true := by
  have yes := derivation.equal?_eq
  rw [equal?_of_scalar (.inl scalar)] at yes
  exact Option.some.inj yes

theorem Equal.trans {a b c : Object} (left : Equal h a b) (right : Equal h b c) : Equal h a c := by
  induction left generalizing c with
  | same identical =>
    rcases Object.eq_or_flonum_of_same identical with rfl | ⟨x, y, rfl, rfl, same⟩
    · exact right
    · rcases Object.eq_or_flonum_of_same (right.same_of_scalar rfl) with rfl | ⟨y, z, h, rfl, same'⟩
      · exact .same identical
      · cases h
        exact .same (Flonum.same_trans same same')
  | pair left middle cars cdrs car cdr =>
    rcases right.of_pair middle with rfl | ⟨z, zs, found, cars', cdrs'⟩
    · exact .pair left middle cars cdrs
    · exact .pair left found (car cars') (cdr cdrs')
  | vector left middle size items item =>
    rcases right.of_sequence (k := .vector) middle with rfl | ⟨l, zs, found, size', items'⟩
    · exact .vector left middle size items
    · refine .vector left found (size.trans size') fun n hx hz => ?_
      exact item n hx (size ▸ hx) (items' n (size ▸ hx) hz)
  | string left middle =>
    rcases right.of_sequence (k := .string) middle with rfl | ⟨l, zs, found, size, chars⟩
    · exact .string left middle
    · exact equal_of_slots (k := .string) left found size chars
  | bytes left middle =>
    rcases right.of_sequence (k := .bytes) middle with rfl | ⟨l, zs, found, size, bytes⟩
    · exact .bytes left middle
    · exact equal_of_slots (k := .bytes) left found size bytes

/-- Identity is equality, and all of it where one side has no contents; an object equals itself
unless it is a NaN; the two sides can be exchanged, at every depth and so also where there is no
end; and two comparisons that say yes one after the other make a third one end and say yes. -/
theorem comparison_laws (h : Heap) (a b c : Object) :
    (a.same b = true → h.equal? a b = some true) ∧
    (a.hasContents = false ∨ b.hasContents = false → h.equal? a b = some (a.same b)) ∧
    h.equal? a a = some (!a.isNaN) ∧
    h.equal? a b = h.equal? b a ∧ (∀ n, h.equalWithin? n a b = h.equalWithin? n b a) ∧
    (h.equal? a b = some true → h.equal? b c = some true → h.equal? a c = some true) := by
  refine ⟨equal?_of_same, equal?_of_scalar, equal?_self a, equal?_comm a b,
    fun n => equalWithin?_comm n a b, fun left right => ?_⟩
  have derivation := (equal_of_equalWithin? left).trans (equal_of_equalWithin? right)
  exact derivation.equal?_eq

def zerosBeforeCircle : Heap :=
  ⟨#[.pair (.flonum ⟨0x7FF8000000000000⟩) (.pair 0), .pair (.flonum ⟨0⟩) (.pair 0),
    .pair (.flonum ⟨0x8000000000000000⟩) (.pair 0), .pair (.flonum ⟨0⟩) (.pair 0)]⟩

theorem comparison_laws_before_circle :
    zerosBeforeCircle.equal? (.pair 1) (.pair 2) = some true ∧
    zerosBeforeCircle.equal? (.pair 2) (.pair 3) = some true ∧
    zerosBeforeCircle.equal? (.pair 1) (.pair 3) = some true ∧
    zerosBeforeCircle.equal? (.pair 0) (.pair 0) = some true := by
  have left : zerosBeforeCircle.equal? (.pair 1) (.pair 2) = some true := by decide
  have right : zerosBeforeCircle.equal? (.pair 2) (.pair 3) = some true := by decide
  obtain ⟨-, -, -, -, -, trans⟩ := comparison_laws zerosBeforeCircle (.pair 1) (.pair 2) (.pair 3)
  obtain ⟨-, -, self, -⟩ := comparison_laws zerosBeforeCircle (.pair 0) .null .null
  exact ⟨left, right, trans left right, self⟩

end SchemeCore.Heap
