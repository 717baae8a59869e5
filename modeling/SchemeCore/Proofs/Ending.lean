import SchemeCore.Proofs.Datum
import SchemeCore.Proofs.Equivalence

/-! A comparison ends as soon as one of its sides has a finite unfolding. It goes down both sides in
step, so that it is never nested deeper than the tree of the finite side is high, even where the
other side circles for ever. -/

namespace SchemeCore.Heap

variable {h : Heap} {a b : Object} {d : Datum}

def Ends (equal : Object → Object → Option Bool) (a : Object) : Prop := ∀ b, ∃ r, equal a b = some r

section Routines

variable {equal : Object → Object → Option Bool}

theorem both_ends {first second : Option Bool} (left : ∃ r, first = some r)
    (right : ∃ r, second = some r) : ∃ r, (do if ← first then second else some false) = some r := by
  obtain ⟨v, rfl⟩ := left
  cases v with
  | false => exact ⟨false, rfl⟩
  | true => exact right

theorem partsEqual?_ends {x xs : Object} {i : Addr} (found : h.pair? (.pair i) = some (x, xs))
    (car : Ends equal x) (cdr : Ends equal xs) (j : Addr) :
    ∃ r, h.partsEqual? equal equal i j = some r := by
  rw [partsEqual?, found]
  cases h.pair? (.pair j) with
  | none => exact ⟨false, rfl⟩
  | some p => exact both_ends (car p.1) (cdr p.2)

theorem slotsEqual?_ends {k : Sequence} {xs : List k.Slot}
    (slots : ∀ x ∈ xs, ∀ y, ∃ r, slotEqual? equal k x y = some r) (ys : List k.Slot) :
    ∃ r, slotsEqual? equal k xs ys = some r := by
  induction xs generalizing ys with
  | nil => exact ⟨true, rfl⟩
  | cons x xs ih =>
    cases ys with
    | nil => exact ⟨true, rfl⟩
    | cons y ys =>
      have rest := ih (fun x inside => slots x (List.mem_cons_of_mem _ inside)) ys
      exact both_ends (slots x List.mem_cons_self y) rest

theorem objectsEqual?_ends_of_pair {x xs : Object} (found : h.pair? a = some (x, xs))
    (car : Ends equal x) (cdr : Ends equal xs) : Ends (h.objectsEqual? equal equal) a := by
  intro b
  rcases objectsEqual?_cases h a b with ⟨i, j, rfl, rfl⟩ | ⟨k, i, j, rfl, rfl⟩ | atOnce
  · rw [objectsEqual?_pair, pairsEqual?]
    split
    · exact ⟨true, rfl⟩
    · exact partsEqual?_ends found car cdr j
  · obtain ⟨i, same, -⟩ := pair?_eq_some_iff.mp found
    cases k <;> cases same
  · exact ⟨_, atOnce equal equal⟩

theorem objectsEqual?_ends_of_sequence {k : Sequence} {i : Addr} {xs : Array k.Slot}
    (found : h.sequence? k a = some (i, xs))
    (slots : ∀ x ∈ xs.toList, ∀ y, ∃ r, slotEqual? equal k x y = some r) :
    Ends (h.objectsEqual? equal equal) a := by
  intro b
  obtain ⟨rfl, -⟩ := sequence?_eq_some_iff.mp found
  rcases objectsEqual?_cases h (k.object i) b with ⟨i, j, same, rfl⟩ | ⟨l, i, j, same, rfl⟩ | atOnce
  · cases k <;> cases same
  · obtain ⟨rfl, rfl⟩ := Sequence.object_inj.mp same
    rw [objectsEqual?_sequence, sequencesEqual?, found]
    split
    · exact ⟨true, rfl⟩
    · cases h.sequence? k (k.object j) with
      | none => exact ⟨false, rfl⟩
      | some q =>
        simp only
        split
        · exact slotsEqual?_ends slots q.2.toList
        · exact ⟨false, rfl⟩
  · exact ⟨_, atOnce equal equal⟩

end Routines

theorem Unfolds.equalWithin?_ends {n : Nat} (unfolds : h.Unfolds a d) (deep : d.height < n) :
    Ends (h.equalWithin? n) a := by
  obtain ⟨n, rfl⟩ := Nat.exists_eq_succ_of_ne_zero (Nat.ne_zero_of_lt deep)
  rw [equalWithin?_succ]
  induction unfolds generalizing n with
  | leaf bare => exact fun b => ⟨_, objectsEqual?_of_scalar (.inl bare) _ _⟩
  | pair found _ _ car cdr =>
    rw [Datum.height] at deep
    obtain ⟨n, rfl⟩ := Nat.exists_eq_succ_of_ne_zero (by omega : n ≠ 0)
    rw [equalWithin?_succ]
    exact objectsEqual?_ends_of_pair found (car n (by omega)) (cdr n (by omega))
  | string found =>
    exact objectsEqual?_ends_of_sequence (k := .string) found fun _ _ _ => ⟨_, rfl⟩
  | bytes found =>
    exact objectsEqual?_ends_of_sequence (k := .bytes) found fun _ _ _ => ⟨_, rfl⟩
  | @vector o i slots items found size _ item =>
    rw [Datum.height] at deep
    obtain ⟨n, rfl⟩ := Nat.exists_eq_succ_of_ne_zero (by omega : n ≠ 0)
    rw [equalWithin?_succ]
    refine objectsEqual?_ends_of_sequence (k := .vector) found fun x inside => ?_
    obtain ⟨m, lt, rfl⟩ := List.getElem_of_mem inside
    have below := Datum.le_foldr_max (List.getElem_mem (size ▸ lt : m < items.length))
    exact item m lt (size ▸ lt) n (by omega)

theorem exists_equalWithin? (finite : h.Unfolds a d ∨ h.Unfolds b d) :
    ∃ r, h.equalWithin? (d.height + 1) a b = some r := by
  rcases finite with left | right
  · exact left.equalWithin?_ends (Nat.lt_succ_self _) b
  · rw [equalWithin?_comm]
    exact right.equalWithin?_ends (Nat.lt_succ_self _) a

theorem exists_equal? (finite : h.Unfolds a d ∨ h.Unfolds b d) : ∃ r, h.equal? a b = some r := by
  obtain ⟨r, within⟩ := exists_equalWithin? finite
  exact ⟨r, equal?_eq_some_iff.mpr ⟨_, within⟩⟩

/-- A comparison of which one side has a finite unfolding ends, in either order of the two sides and
with one verdict, and is nested no deeper than one more than the height of the tree. -/
theorem comparison_ends_beside_tree (h : Heap) (a b : Object) (d : Datum)
    (finite : h.Unfolds a d ∨ h.Unfolds b d) :
    ∃ r, h.equal? a b = some r ∧ h.equal? b a = some r ∧
      h.equalWithin? (d.height + 1) a b = some r ∧ h.equalWithin? (d.height + 1) b a = some r := by
  obtain ⟨r, within⟩ := exists_equalWithin? finite
  have verdict : h.equal? a b = some r := equal?_eq_some_iff.mpr ⟨_, within⟩
  have within' := (equalWithin?_comm (d.height + 1) b a).trans within
  exact ⟨r, verdict, (equal?_comm b a).trans verdict, within, within'⟩

def besideCircle : Heap :=
  ⟨#[.vector #[.pair 1], .pair (.fixnum 1) (.pair 2), .pair (.fixnum 1) .null,
    .vector #[.pair 4], .pair (.fixnum 1) (.pair 4)]⟩

def straightTree : Datum :=
  .vector [.pair (.leaf (.fixnum 1)) (.pair (.leaf (.fixnum 1)) (.leaf .null))]

theorem unfolds_besideCircle : besideCircle.Unfolds (.vector 0) straightTree := by
  have slots : besideCircle.sequence? .vector (.vector 0) = some (0, #[.pair 1]) := rfl
  refine .vector slots rfl fun n hs hi => ?_
  obtain rfl : n = 0 := Nat.lt_one_iff.mp hs
  exact .pair rfl (.leaf rfl) (.pair rfl (.leaf rfl) (.leaf rfl))

theorem comparison_ends_beside_tree_of_circle :
    besideCircle.Unfolds (.vector 0) straightTree ∧
    besideCircle.equal? (.vector 3) (.vector 0) = some false ∧
    besideCircle.equalWithin? 4 (.vector 0) (.vector 3) = some false := by
  obtain ⟨r, -, verdict, within, -⟩ := comparison_ends_beside_tree besideCircle (.vector 0)
    (.vector 3) straightTree (.inl unfolds_besideCircle)
  have no : besideCircle.equal? (.vector 3) (.vector 0) = some false := by decide
  obtain rfl : r = false := Option.some.inj (verdict.symm.trans no)
  have height : straightTree.height = 3 := by simp [straightTree, Datum.height]
  rw [height] at within
  exact ⟨unfolds_besideCircle, no, within⟩

end SchemeCore.Heap
