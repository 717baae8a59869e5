import SchemeCore.Equality
import SchemeCore.Proofs.Heap
import Mathlib.Data.Finset.Prod

/-! The comparison to a bounded depth is the comparison without bound. A deeper comparison answers
whatever a shallower one answers, and answers it alike. When one more level of depth adds no answer,
none is ever added; and as only finitely many pairs and vectors can be left without an answer, that
happens within the depth that is tried. The comparison thus satisfies its own equation. -/

namespace SchemeCore.Heap

open Finset

variable {h : Heap} {a b : Object} {r : Bool}

/-! The comparison of objects is the comparison of contents, where there are any. -/

section Routines

variable (equal chains : Object → Object → Option Bool)

theorem objectsEqual?_pair (i j : Addr) :
    h.objectsEqual? equal chains (.pair i) (.pair j) = h.pairsEqual? equal chains i j := by
  rw [objectsEqual?]
  split
  · rename_i shared
    rw [pairsEqual?, if_pos shared]
  · rfl

theorem objectsEqual?_sequence (k : Sequence) (i j : Addr) :
    h.objectsEqual? equal chains (k.object i) (k.object j) = h.sequencesEqual? equal k i j := by
  cases k <;>
  · rw [Sequence.object, objectsEqual?]
    split
    · rename_i shared
      rw [sequencesEqual?, if_pos shared]
    · rfl

theorem objectsEqual?_cases (h : Heap) (a b : Object) :
    (∃ i j, a = .pair i ∧ b = .pair j) ∨
    (∃ (k : Sequence) (i j : Addr), a = k.object i ∧ b = k.object j) ∨
    ∀ equal chains, h.objectsEqual? equal chains a b = some (a.same b) := by
  cases a with
  | pair i =>
    cases b with
    | pair j => exact .inl ⟨i, j, rfl, rfl⟩
    | _ => exact .inr (.inr fun _ _ => rfl)
  | string i =>
    cases b with
    | string j => exact .inr (.inl ⟨.string, i, j, rfl, rfl⟩)
    | _ => exact .inr (.inr fun _ _ => rfl)
  | vector i =>
    cases b with
    | vector j => exact .inr (.inl ⟨.vector, i, j, rfl, rfl⟩)
    | _ => exact .inr (.inr fun _ _ => rfl)
  | bytes i =>
    cases b with
    | bytes j => exact .inr (.inl ⟨.bytes, i, j, rfl, rfl⟩)
    | _ => exact .inr (.inr fun _ _ => rfl)
  | _ => exact .inr (.inr fun _ _ => rfl)

theorem chainsEqual?_eq : h.chainsEqual? equal chains = h.objectsEqual? equal chains := by
  funext a b
  unfold chainsEqual?
  split
  · rw [objectsEqual?_pair, pairsEqual?]
  · rfl

end Routines

theorem chainsEqualWithin?_eq (n : Nat) : h.chainsEqualWithin? n = h.equalWithin? n := by
  cases n with
  | zero => rfl
  | succ n => exact chainsEqual?_eq _ _

theorem equalWithin?_succ (n : Nat) :
    h.equalWithin? (n + 1) = h.objectsEqual? (h.equalWithin? n) (h.equalWithin? n) := by
  rw [equalWithin?, chainsEqualWithin?_eq]

theorem both_eq_some_iff {first second : Option Bool} :
    (do if ← first then second else some false) = some r ↔
      first = some true ∧ second = some r ∨ first = some false ∧ r = false := by
  cases first with
  | none => simp
  | some verdict => cases verdict <;> simp [eq_comm]

/-! More depth, more answers. -/

def Extends (equal equal' : Object → Object → Option Bool) : Prop :=
  ∀ a b r, equal a b = some r → equal' a b = some r

section Extends

variable {equal equal' : Object → Object → Option Bool} (wider : Extends equal equal')

include wider

theorem Extends.eq_none_or_eq (a b : Object) : equal a b = none ∨ equal a b = equal' a b := by
  cases found : equal a b with
  | none => exact .inl rfl
  | some r => exact .inr (wider a b r found).symm

theorem partsEqual?_of_extends {i j : Addr} (found : h.partsEqual? equal equal i j = some r) :
    h.partsEqual? equal' equal' i j = some r := by
  unfold partsEqual? at found ⊢
  split at found
  · rw [both_eq_some_iff] at found ⊢
    rcases found with ⟨cars, cdrs⟩ | ⟨cars, no⟩
    · exact .inl ⟨wider _ _ _ cars, wider _ _ _ cdrs⟩
    · exact .inr ⟨wider _ _ _ cars, no⟩
  · exact found

theorem slotEqual?_of_extends {k : Sequence} {x y : k.Slot}
    (found : slotEqual? equal k x y = some r) : slotEqual? equal' k x y = some r := by
  cases k with
  | vector => exact wider _ _ _ found
  | string | bytes => exact found

theorem slotsEqual?_of_extends {k : Sequence} {xs ys : List k.Slot}
    (found : slotsEqual? equal k xs ys = some r) : slotsEqual? equal' k xs ys = some r := by
  induction xs generalizing ys with
  | nil => exact found
  | cons x xs ih =>
    cases ys with
    | nil => exact found
    | cons y ys =>
      rw [slotsEqual?, both_eq_some_iff] at found ⊢
      rcases found with ⟨first, rest⟩ | ⟨first, no⟩
      · exact .inl ⟨slotEqual?_of_extends wider first, ih rest⟩
      · exact .inr ⟨slotEqual?_of_extends wider first, no⟩

theorem pairsEqual?_of_extends {i j : Addr} (found : h.pairsEqual? equal equal i j = some r) :
    h.pairsEqual? equal' equal' i j = some r := by
  by_cases shared : i = j
  · rwa [pairsEqual?, if_pos shared] at found ⊢
  · rw [pairsEqual?, if_neg shared] at found ⊢
    exact partsEqual?_of_extends wider found

theorem sequencesEqual?_of_extends {k : Sequence} {i j : Addr}
    (found : h.sequencesEqual? equal k i j = some r) : h.sequencesEqual? equal' k i j = some r := by
  by_cases shared : i = j
  · rwa [sequencesEqual?, if_pos shared] at found ⊢
  · rw [sequencesEqual?, if_neg shared] at found ⊢
    split at found
    · split at found
      · rename_i size
        simp only [size, ↓reduceIte]
        exact slotsEqual?_of_extends wider found
      · rename_i size
        simp only [size, ↓reduceIte]
        exact found
    · exact found

theorem objectsEqual?_of_extends :
    Extends (h.objectsEqual? equal equal) (h.objectsEqual? equal' equal') := by
  intro a b r found
  rcases objectsEqual?_cases h a b with ⟨i, j, rfl, rfl⟩ | ⟨k, i, j, rfl, rfl⟩ | atOnce
  · rw [objectsEqual?_pair] at found ⊢
    exact pairsEqual?_of_extends wider found
  · rw [objectsEqual?_sequence] at found ⊢
    exact sequencesEqual?_of_extends wider found
  · rwa [atOnce] at found ⊢

end Extends

theorem equalWithin?_extends_succ (n : Nat) :
    Extends (h.equalWithin? n) (h.equalWithin? (n + 1)) := by
  induction n with
  | zero =>
    intro a b r found
    cases found
  | succ n ih =>
    rw [equalWithin?_succ, equalWithin?_succ]
    exact objectsEqual?_of_extends ih

theorem equalWithin?_extends {m n : Nat} (le : m ≤ n) :
    Extends (h.equalWithin? m) (h.equalWithin? n) := by
  induction n, le using Nat.le_induction with
  | base => exact fun _ _ _ found => found
  | succ n _ ih => exact fun a b r found => equalWithin?_extends_succ n a b r (ih a b r found)

/-! Only pairs and vectors are ever without an answer. -/

/-- Everything that can be compared again within its own comparison. -/
def compounds (h : Heap) : Finset Object :=
  (range h.size).image .pair ∪ (range h.size).image .vector

theorem card_compounds (h : Heap) : #h.compounds ≤ 2 * h.size := by
  have pairs : #((range h.size).image Object.pair) ≤ h.size := by
    simpa using card_image_le (s := range h.size) (f := Object.pair)
  have vectors : #((range h.size).image Object.vector) ≤ h.size := by
    simpa using card_image_le (s := range h.size) (f := Object.vector)
  have both := card_union_le ((range h.size).image Object.pair) ((range h.size).image .vector)
  rw [compounds]
  omega

theorem pair_mem_compounds {i : Addr} {p : Object × Object} (found : h.pair? (.pair i) = some p) :
    .pair i ∈ h.compounds := by
  obtain ⟨a, same, cell⟩ := pair?_eq_some_iff.mp found
  cases same
  exact mem_union_left _ (mem_image_of_mem _ (mem_range.mpr (lt_size_of_cell? cell)))

theorem vector_mem_compounds {i j : Addr} {slots : Array Object}
    (found : h.sequence? .vector (.vector i) = some (j, slots)) : .vector i ∈ h.compounds := by
  obtain ⟨same, cell⟩ := sequence?_eq_some_iff.mp found
  cases same
  exact mem_union_right _ (mem_image_of_mem _ (mem_range.mpr (lt_size_of_cell? cell)))

theorem slotsEqual?_ne_none {equal : Object → Object → Option Bool} {k : Sequence}
    (flat : k ≠ .vector) (xs ys : List k.Slot) : slotsEqual? equal k xs ys ≠ none := by
  induction xs generalizing ys with
  | nil => simp [slotsEqual?]
  | cons x xs ih =>
    cases ys with
    | nil => simp [slotsEqual?]
    | cons y ys =>
      have slot : ∃ v, slotEqual? equal k x y = some v := by
        cases k with
        | vector => exact absurd rfl flat
        | string | bytes => exact ⟨_, rfl⟩
      obtain ⟨v, slot⟩ := slot
      rw [slotsEqual?, slot]
      cases v with
      | false => simp
      | true => exact ih ys

theorem mem_compounds_of_eq_none {equal chains : Object → Object → Option Bool}
    (unanswered : h.objectsEqual? equal chains a b = none) :
    a ∈ h.compounds ∧ b ∈ h.compounds := by
  rcases objectsEqual?_cases h a b with ⟨i, j, rfl, rfl⟩ | ⟨k, i, j, rfl, rfl⟩ | atOnce
  · rw [objectsEqual?_pair, pairsEqual?] at unanswered
    split at unanswered
    · cases unanswered
    · unfold partsEqual? at unanswered
      split at unanswered
      · rename_i left right
        exact ⟨pair_mem_compounds left, pair_mem_compounds right⟩
      · cases unanswered
  · rw [objectsEqual?_sequence, sequencesEqual?] at unanswered
    split at unanswered
    · cases unanswered
    · split at unanswered
      · rename_i left right
        split at unanswered
        · cases k with
          | vector => exact ⟨vector_mem_compounds left, vector_mem_compounds right⟩
          | string | bytes => exact absurd unanswered (slotsEqual?_ne_none (by decide) _ _)
        · cases unanswered
      · cases unanswered
  · rw [atOnce] at unanswered
    cases unanswered

/-! So there is a depth from which on no answers are added. -/

def undecided (h : Heap) (n : Nat) : Finset (Object × Object) :=
  (h.compounds ×ˢ h.compounds).filter fun p => h.equalWithin? n p.1 p.2 = none

theorem undecided_ssubset {n : Nat} (moves : h.equalWithin? (n + 1) ≠ h.equalWithin? (n + 2)) :
    h.undecided (n + 2) ⊂ h.undecided (n + 1) := by
  obtain ⟨a, b, differ⟩ : ∃ a b, h.equalWithin? (n + 1) a b ≠ h.equalWithin? (n + 2) a b := by
    by_contra same
    push Not at same
    exact moves (funext fun a => funext fun b => same a b)
  have wider := equalWithin?_extends_succ (h := h) (n + 1)
  have before : h.equalWithin? (n + 1) a b = none :=
    (wider.eq_none_or_eq a b).resolve_right differ
  refine (ssubset_iff_of_subset ?_).mpr ⟨(a, b), ?_, ?_⟩
  · intro p still
    rw [undecided, mem_filter] at still ⊢
    rcases wider.eq_none_or_eq p.1 p.2 with none | same
    · exact ⟨still.1, none⟩
    · exact ⟨still.1, same.trans still.2⟩
  · rw [undecided, mem_filter, mem_product]
    have inside := before
    rw [equalWithin?_succ] at inside
    exact ⟨mem_compounds_of_eq_none inside, before⟩
  · rw [undecided, mem_filter]
    rintro ⟨-, after⟩
    exact differ (before.trans after.symm)

theorem card_undecided {m : Nat}
    (moves : ∀ n < m, h.equalWithin? (n + 1) ≠ h.equalWithin? (n + 2)) :
    #(h.undecided (m + 1)) + m ≤ (2 * h.size) * (2 * h.size) := by
  induction m with
  | zero =>
    calc #(h.undecided 1) ≤ #(h.compounds ×ˢ h.compounds) := card_filter_le _ _
      _ = #h.compounds * #h.compounds := card_product _ _
      _ ≤ (2 * h.size) * (2 * h.size) := Nat.mul_le_mul h.card_compounds h.card_compounds
  | succ m ih =>
    have fewer := card_lt_card (undecided_ssubset (moves m (Nat.lt_succ_self m)))
    have before := ih fun n lt => moves n (Nat.lt_succ_of_lt lt)
    show #(h.undecided (m + 2)) + (m + 1) ≤ _
    omega

theorem exists_still (h : Heap) :
    ∃ n < h.comparisonDepth, h.equalWithin? (n + 1) = h.equalWithin? (n + 2) := by
  by_contra moves
  push Not at moves
  have := card_undecided moves
  rw [comparisonDepth] at this
  omega

theorem equalWithin?_eq_of_still {m n : Nat} (still : h.equalWithin? m = h.equalWithin? (m + 1))
    (le : m ≤ n) : h.equalWithin? n = h.equalWithin? m := by
  induction n, le using Nat.le_induction with
  | base => rfl
  | succ n _ ih => rw [equalWithin?_succ, ih, ← equalWithin?_succ, ← still]

theorem equalWithin?_eq {n : Nat} (deep : h.comparisonDepth ≤ n) : h.equalWithin? n = h.equal? := by
  obtain ⟨m, lt, still⟩ := h.exists_still
  show h.equalWithin? n = h.equalWithin? h.comparisonDepth
  rw [equalWithin?_eq_of_still still (Nat.le_trans lt deep), equalWithin?_eq_of_still still lt]

/-- The comparison is what its routines make of the comparison. -/
theorem equal?_eq (a b : Object) : h.equal? a b = h.objectsEqual? h.equal? h.equal? a b := by
  have here := equalWithin?_eq (h := h) (Nat.le_refl _)
  have deeper := equalWithin?_eq (h := h) (Nat.le_succ h.comparisonDepth)
  rw [equalWithin?_succ, here] at deeper
  rw [deeper]

theorem equal?_eq_some_iff : h.equal? a b = some r ↔ ∃ n, h.equalWithin? n a b = some r := by
  constructor
  · intro found
    exact ⟨h.comparisonDepth, found⟩
  · rintro ⟨n, found⟩
    rw [← equalWithin?_eq (Nat.le_max_left h.comparisonDepth n)]
    exact equalWithin?_extends (Nat.le_max_right h.comparisonDepth n) a b r found

end SchemeCore.Heap
