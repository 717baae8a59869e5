import SchemeCore.Proofs.Comparison

/-! The comparison against the rules of structural equality. The rules know nothing of loops, of
an order of comparing or of stopping early at a shared cell; an object is equal to another when
finitely many uses of them say so. The comparison says yes exactly then, and where it says no there
is no such derivation, on heaps with cycles too. -/

namespace SchemeCore.Heap

inductive Equal (h : Heap) : Object → Object → Prop
  | same {a b : Object} (identical : a.same b = true) : Equal h a b
  | pair {a b x y xs ys : Object} (left : h.pair? a = some (x, xs))
      (right : h.pair? b = some (y, ys)) (cars : Equal h x y) (cdrs : Equal h xs ys) : Equal h a b
  | vector {a b : Object} {i j : Addr} {xs ys : Array Object}
      (left : h.sequence? .vector a = some (i, xs)) (right : h.sequence? .vector b = some (j, ys))
      (size : xs.size = ys.size)
      (items : ∀ n (hx : n < xs.size) (hy : n < ys.size), Equal h xs[n] ys[n]) : Equal h a b
  | string {a b : Object} {i j : Addr} {chars : Array Char}
      (left : h.sequence? .string a = some (i, chars))
      (right : h.sequence? .string b = some (j, chars)) : Equal h a b
  | bytes {a b : Object} {i j : Addr} {bytes : Array UInt8}
      (left : h.sequence? .bytes a = some (i, bytes))
      (right : h.sequence? .bytes b = some (j, bytes)) : Equal h a b

variable {h : Heap}

theorem Equal.refl_of_address {o : Object} {a : Addr} (found : o.address? = some a) :
    Equal h o o := .same ((Object.same_iff_of_address found).mpr rfl)

/-! What the comparison answers with yes has a derivation. -/

def SlotEqual (h : Heap) : (k : Sequence) → k.Slot → k.Slot → Prop
  | .string, c, d => c = d
  | .vector, x, y => Equal h x y
  | .bytes, m, n => m = n

theorem equal_of_slots {k : Sequence} {a b : Object} {i j : Addr} {xs ys : Array k.Slot}
    (left : h.sequence? k a = some (i, xs)) (right : h.sequence? k b = some (j, ys))
    (size : xs.size = ys.size)
    (slots : ∀ n (hx : n < xs.size) (hy : n < ys.size), SlotEqual h k xs[n] ys[n]) :
    Equal h a b := by
  cases k with
  | string =>
    have same : xs = ys := Array.ext size slots
    exact .string left (same ▸ right)
  | vector => exact .vector left right size slots
  | bytes =>
    have same : xs = ys := Array.ext size slots
    exact .bytes left (same ▸ right)

section Sound

variable {equal : Object → Object → Option Bool}
  (sound : ∀ a b, equal a b = some true → Equal h a b)

include sound

theorem equal_of_pairsEqual? {i j : Addr} (yes : h.pairsEqual? equal equal i j = some true) :
    Equal h (.pair i) (.pair j) := by
  by_cases shared : i = j
  · exact shared ▸ .refl_of_address rfl
  · rw [pairsEqual?, if_neg shared, partsEqual?] at yes
    split at yes
    · rename_i left right
      rcases both_eq_some_iff.mp yes with ⟨cars, cdrs⟩ | ⟨-, no⟩
      · exact .pair left right (sound _ _ cars) (sound _ _ cdrs)
      · cases no
    · cases yes

theorem slotEqual_of_slotEqual? {k : Sequence} {x y : k.Slot}
    (yes : slotEqual? equal k x y = some true) : SlotEqual h k x y := by
  cases k with
  | vector => exact sound x y yes
  | string | bytes => exact beq_iff_eq.mp (Option.some.inj yes)

theorem slotEqual_of_slotsEqual? {k : Sequence} {xs ys : List k.Slot}
    (yes : slotsEqual? equal k xs ys = some true) (n : Nat) (hx : n < xs.length)
    (hy : n < ys.length) : SlotEqual h k xs[n] ys[n] := by
  induction xs generalizing ys n with
  | nil => cases hx
  | cons x xs ih =>
    cases ys with
    | nil => cases hy
    | cons y ys =>
      rw [slotsEqual?] at yes
      rcases both_eq_some_iff.mp yes with ⟨first, rest⟩ | ⟨-, no⟩
      · cases n with
        | zero => exact slotEqual_of_slotEqual? sound first
        | succ n => exact ih rest n (Nat.lt_of_succ_lt_succ hx) (Nat.lt_of_succ_lt_succ hy)
      · cases no

theorem equal_of_sequencesEqual? {k : Sequence} {i j : Addr}
    (yes : h.sequencesEqual? equal k i j = some true) : Equal h (k.object i) (k.object j) := by
  by_cases shared : i = j
  · exact shared ▸ .refl_of_address (k.object_address? i)
  · rw [sequencesEqual?, if_neg shared] at yes
    split at yes
    · rename_i left right
      split at yes
      · rename_i size
        exact equal_of_slots left right size (slotEqual_of_slotsEqual? sound yes)
      · cases yes
    · cases yes

theorem equal_of_objectsEqual? {a b : Object} (yes : h.objectsEqual? equal equal a b = some true) :
    Equal h a b := by
  rcases objectsEqual?_cases h a b with ⟨i, j, rfl, rfl⟩ | ⟨k, i, j, rfl, rfl⟩ | atOnce
  · rw [objectsEqual?_pair] at yes
    exact equal_of_pairsEqual? sound yes
  · rw [objectsEqual?_sequence] at yes
    exact equal_of_sequencesEqual? sound yes
  · rw [atOnce] at yes
    exact .same (Option.some.inj yes)

end Sound

theorem equal_of_equalWithin? {n : Nat} {a b : Object} (yes : h.equalWithin? n a b = some true) :
    Equal h a b := by
  induction n generalizing a b with
  | zero => cases yes
  | succ n ih =>
    rw [equalWithin?_succ] at yes
    exact equal_of_objectsEqual? (fun _ _ => ih) yes

/-! What has a derivation is answered with yes. -/

theorem equal?_pair (i j : Addr) :
    h.equal? (.pair i) (.pair j) = h.pairsEqual? h.equal? h.equal? i j := by
  rw [equal?_eq, objectsEqual?_pair]

theorem equal?_sequence (k : Sequence) (i j : Addr) :
    h.equal? (k.object i) (k.object j) = h.sequencesEqual? h.equal? k i j := by
  rw [equal?_eq, objectsEqual?_sequence]

theorem slotsEqual?_of_slots {equal : Object → Object → Option Bool} {k : Sequence}
    {xs ys : List k.Slot} (slots : ∀ n (hx : n < xs.length) (hy : n < ys.length),
      slotEqual? equal k xs[n] ys[n] = some true) : slotsEqual? equal k xs ys = some true := by
  induction xs generalizing ys with
  | nil => rfl
  | cons x xs ih =>
    cases ys with
    | nil => rfl
    | cons y ys =>
      have first : slotEqual? equal k x y = some true :=
        slots 0 (Nat.zero_lt_succ _) (Nat.zero_lt_succ _)
      have rest : slotsEqual? equal k xs ys = some true :=
        ih fun n hx hy => slots (n + 1) (Nat.succ_lt_succ hx) (Nat.succ_lt_succ hy)
      rw [slotsEqual?, both_eq_some_iff]
      exact .inl ⟨first, rest⟩

theorem equal?_of_slots {k : Sequence} {a b : Object} {i j : Addr} {xs ys : Array k.Slot}
    (left : h.sequence? k a = some (i, xs)) (right : h.sequence? k b = some (j, ys))
    (size : xs.size = ys.size) (slots : ∀ n (hx : n < xs.size) (hy : n < ys.size),
      slotEqual? h.equal? k xs[n] ys[n] = some true) : h.equal? a b = some true := by
  obtain ⟨rfl, -⟩ := sequence?_eq_some_iff.mp left
  obtain ⟨rfl, -⟩ := sequence?_eq_some_iff.mp right
  rw [equal?_sequence, sequencesEqual?]
  split
  · rfl
  · rw [left, right]
    simp only [size, ↓reduceIte]
    exact slotsEqual?_of_slots slots

theorem equal?_of_same {a b : Object} (identical : a.same b = true) : h.equal? a b = some true := by
  rcases objectsEqual?_cases h a b with ⟨i, j, rfl, rfl⟩ | ⟨k, i, j, rfl, rfl⟩ | atOnce
  · cases (Object.same_iff_of_address rfl).mp identical
    rw [equal?_pair, pairsEqual?, if_pos rfl]
  · have one := (Object.same_iff_of_address (k.object_address? i)).mp identical
    rw [equal?_sequence, sequencesEqual?, if_pos ((Sequence.object_inj).mp one).2]
  · rw [equal?_eq, atOnce, identical]

theorem Equal.equal?_eq {a b : Object} (derivation : Equal h a b) : h.equal? a b = some true := by
  induction derivation with
  | same identical => exact equal?_of_same identical
  | @pair a b x y xs ys left right cars cdrs car cdr =>
    obtain ⟨i, rfl, -⟩ := pair?_eq_some_iff.mp left
    obtain ⟨j, rfl, -⟩ := pair?_eq_some_iff.mp right
    rw [equal?_pair, pairsEqual?, partsEqual?, left, right]
    split
    · rfl
    · exact both_eq_some_iff.mpr (.inl ⟨car, cdr⟩)
  | vector left right size items equal => exact equal?_of_slots left right size equal
  | string left right => exact equal?_of_slots left right rfl fun n _ _ => by simp [slotEqual?]
  | bytes left right => exact equal?_of_slots left right rfl fun n _ _ => by simp [slotEqual?]

theorem equal?_eq_true_iff {a b : Object} : h.equal? a b = some true ↔ Equal h a b :=
  ⟨equal_of_equalWithin?, Equal.equal?_eq⟩

theorem contentsEqual?_pair (i j : Addr) :
    h.contentsEqual? (.pair i) (.pair j) = some (h.equal? (.pair i) (.pair j)) := by
  rw [equal?_pair]
  simp only [contentsEqual?, chainsEqualWithin?_eq]
  rfl

theorem contentsEqual?_sequence (k : Sequence) (i j : Addr) :
    h.contentsEqual? (k.object i) (k.object j) = some (h.equal? (k.object i) (k.object j)) := by
  rw [equal?_sequence]
  cases k <;> rfl

/-- The comparison says yes exactly to what the rules derive, so nothing it denies is derivable. No
comparison to another depth has another verdict, and comparing the contents of two compounds of one
kind is comparing the compounds. -/
theorem comparison_iff_derivation (h : Heap) (a b : Object) :
    (h.equal? a b = some true ↔ Equal h a b) ∧ (h.equal? a b = some false → ¬Equal h a b) ∧
    (∀ n r, h.equalWithin? n a b = some r → h.equal? a b = some r) ∧
    (∀ i j, h.contentsEqual? (.pair i) (.pair j) = some (h.equal? (.pair i) (.pair j))) ∧
    ∀ (k : Sequence) i j, h.contentsEqual? (k.object i) (k.object j) =
      some (h.equal? (k.object i) (k.object j)) := by
  refine ⟨equal?_eq_true_iff, ?_, ?_, contentsEqual?_pair, contentsEqual?_sequence⟩
  · intro answer derivation
    rw [derivation.equal?_eq] at answer
    cases answer
  · intro n r found
    exact equal?_eq_some_iff.mpr ⟨n, found⟩

end SchemeCore.Heap
