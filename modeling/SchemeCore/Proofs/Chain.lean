import SchemeCore.Chain
import SchemeCore.Proofs.Heap
import Mathlib.Data.Fintype.Pigeonhole

/-! The walkers on every chain. After `n` rounds the slower one has gone `n` steps along the chain
and the faster one twice as many; where they meet, the chain repeats and has no end. A chain
without end comes back to a cell, as there are finitely many, and then the walkers meet in the
first round that is late enough and a multiple of the length of the cycle. That round comes before
the chain has come back, so there are no more rounds than cells. -/

namespace SchemeCore.Heap

variable {h : Heap} {o : Object}

/-- Where a number of steps along the cdrs of an object lead, as long as there are pairs. -/
def tail? (h : Heap) (o : Object) : Nat → Option Object
  | 0 => some o
  | n + 1 => (h.tail? o n).bind h.cdr?

def EndsInNull (h : Heap) (o : Object) : Prop := ∃ n, h.tail? o n = some .null

theorem cdr?_eq_some {p : Object} (step : h.cdr? o = some p) : ∃ a, o = .pair a ∧ a < h.size := by
  obtain ⟨⟨x, xs⟩, found, -⟩ := Option.map_eq_some_iff.mp step
  obtain ⟨a, rfl, cell⟩ := pair?_eq_some_iff.mp found
  exact ⟨a, rfl, lt_size_of_cell? cell⟩

theorem cdr?_null : h.cdr? .null = none := rfl

theorem tail?_succ (n : Nat) : h.tail? o (n + 1) = (h.tail? o n).bind h.cdr? := rfl

theorem tail?_add (m n : Nat) : h.tail? o (m + n) = (h.tail? o m).bind (h.tail? · n) := by
  induction n with
  | zero => simp [tail?]
  | succ n ih => rw [← Nat.add_assoc, tail?_succ, ih, Option.bind_assoc]; rfl

theorem tail?_of_tail? {p : Object} {m : Nat} (found : h.tail? o m = some p) (n : Nat) :
    h.tail? o (m + n) = h.tail? p n := by rw [tail?_add, found, Option.bind_some]

theorem tail?_eq_none_of_le {m n : Nat} (le : m ≤ n) (past : h.tail? o m = none) :
    h.tail? o n = none := by
  obtain ⟨d, rfl⟩ := Nat.exists_eq_add_of_le le
  rw [tail?_add, past, Option.bind_none]

theorem pair_of_tail? {p q : Object} {m n : Nat} (lt : m < n) (here : h.tail? o m = some p)
    (later : h.tail? o n = some q) : ∃ a, p = .pair a ∧ a < h.size := by
  cases step : h.cdr? p with
  | some p' => exact cdr?_eq_some step
  | none =>
    have past : h.tail? o (m + 1) = none := by rw [tail?_succ, here, Option.bind_some, step]
    rw [tail?_eq_none_of_le lt past] at later
    cases later

/-! Whether a chain ends does not change along it. -/

theorem endsInNull_null : EndsInNull h .null := ⟨0, rfl⟩

theorem endsInNull_iff_of_cdr? {p : Object} (step : h.cdr? o = some p) :
    EndsInNull h o ↔ EndsInNull h p := by
  have next : h.tail? o 1 = some p := step
  constructor
  · rintro ⟨n, ends⟩
    cases n with
    | zero =>
      cases ends
      cases step
    | succ n =>
      rw [Nat.add_comm, tail?_of_tail? next] at ends
      exact ⟨n, ends⟩
  · rintro ⟨n, ends⟩
    exact ⟨1 + n, (tail?_of_tail? next n).trans ends⟩

theorem not_endsInNull {o : Object} (other : o ≠ .null) (stop : h.cdr? o = none) :
    ¬EndsInNull h o := by
  rintro ⟨n, ends⟩
  cases n with
  | zero => exact other (Option.some.inj ends)
  | succ n =>
    have past : h.tail? o 1 = none := stop
    rw [tail?_eq_none_of_le (Nat.le_add_left 1 n) past] at ends
    cases ends

theorem endsInNull_iff_of_tail? {p : Object} {n : Nat} (found : h.tail? o n = some p) :
    EndsInNull h o ↔ EndsInNull h p := by
  induction n generalizing p with
  | zero => cases found; rfl
  | succ n ih =>
    rw [tail?_succ, Option.bind_eq_some_iff] at found
    obtain ⟨q, before, step⟩ := found
    exact (ih before).trans (endsInNull_iff_of_cdr? step)

theorem not_endsInNull_of_repeats {d : Nat} (pos : 0 < d) (back : h.tail? o d = some o) :
    ¬EndsInNull h o := by
  rintro ⟨n, ends⟩
  induction n using Nat.strongRecOn with
  | ind n ih =>
    by_cases within : d ≤ n
    · obtain ⟨m, rfl⟩ := Nat.exists_eq_add_of_le within
      rw [tail?_of_tail? back] at ends
      exact ih m (by omega) ends
    · have past : h.tail? o (n + 1) = none := by rw [tail?_succ, ends, Option.bind_some, cdr?_null]
      rw [tail?_eq_none_of_le (by omega) past] at back
      cases back

theorem not_endsInNull_of_meet {n : Nat} {p : Object} (atSlow : h.tail? o (n + 1) = some p)
    (atFast : h.tail? o (2 * n + 2) = some p) : ¬EndsInNull h o := by
  have circle : h.tail? p (n + 1) = some p := by
    rw [← tail?_of_tail? atSlow, ← atFast]
    congr 1
    omega
  rw [endsInNull_iff_of_tail? atSlow]
  exact not_endsInNull_of_repeats (Nat.succ_pos n) circle

/-! One round of the walkers. -/

theorem eq_null_of_isNull {o : Object} (null : o.isNull = true) : o = .null := by
  simpa [Object.isNull] using null

theorem endsInNull_of_twoSteps {fast : Object} {answer : Bool}
    (stopped : h.twoSteps fast = .error answer) : answer = true ↔ EndsInNull h fast := by
  unfold twoSteps at stopped
  split at stopped
  · rename_i null
    cases stopped
    exact iff_of_true rfl (eq_null_of_isNull null ▸ endsInNull_null)
  · rename_i other
    split at stopped
    · rename_i stop
      cases stopped
      exact iff_of_false Bool.false_ne_true (not_endsInNull (mt (by rintro rfl; rfl) other) stop)
    · rename_i next step
      rw [endsInNull_iff_of_cdr? step]
      split at stopped
      · rename_i null
        cases stopped
        exact iff_of_true rfl (eq_null_of_isNull null ▸ endsInNull_null)
      · rename_i other
        split at stopped
        · rename_i stop
          cases stopped
          exact iff_of_false Bool.false_ne_true
            (not_endsInNull (mt (by rintro rfl; rfl) other) stop)
        · cases stopped

theorem tail?_of_twoSteps {fast next : Object} (moved : h.twoSteps fast = .ok next) :
    h.tail? fast 2 = some next := by
  unfold twoSteps at moved
  split at moved
  · cases moved
  · split at moved
    · cases moved
    · rename_i middle step
      split at moved
      · cases moved
      · split at moved
        · cases moved
        · rename_i last step'
          cases moved
          have first : h.tail? fast 1 = some middle := step
          rw [tail?_succ, first, Option.bind_some, step']

/-! The rounds together. -/

/-- The round after which no walker goes on: the chain has ended or the walkers have met. -/
def Stops (h : Heap) (o : Object) (n : Nat) : Prop :=
  h.tail? o (2 * n + 2) = none ∨ h.tail? o (2 * n + 2) = h.tail? o (n + 1)

theorem tail?_add_mul {m d : Nat} (back : h.tail? o m = h.tail? o (m + d)) {n : Nat} (le : m ≤ n)
    (times : Nat) : h.tail? o n = h.tail? o (n + times * d) := by
  obtain ⟨e, rfl⟩ := Nat.exists_eq_add_of_le le
  induction times with
  | zero => simp
  | succ times ih =>
    have turn : m + e + (times + 1) * d = m + d + (e + times * d) := by
      rw [Nat.succ_mul]
      omega
    rw [ih, turn, tail?_add (m + d), ← back, ← tail?_add, Nat.add_assoc]

theorem exists_back {p : Object} (goesOn : h.tail? o (h.size + 1) = some p) :
    ∃ m d, 0 < d ∧ m + d ≤ h.size ∧ h.tail? o m = h.tail? o (m + d) := by
  have place : ∀ n : Fin (h.size + 1), ∃ a : Fin h.size, h.tail? o n = some (.pair a) := fun n => by
    obtain ⟨q, found⟩ : ∃ q, h.tail? o n = some q := Option.ne_none_iff_exists'.mp fun past => by
      rw [tail?_eq_none_of_le n.isLt.le past] at goesOn
      cases goesOn
    obtain ⟨a, rfl, lt⟩ := pair_of_tail? n.isLt found goesOn
    exact ⟨⟨a, lt⟩, found⟩
  choose address found using place
  obtain ⟨m, k, ne, same⟩ := Fintype.exists_ne_map_eq_of_card_lt address (by simp)
  have one : h.tail? o m = h.tail? o k := by rw [found, found, same]
  rcases Nat.lt_or_gt_of_ne (Fin.val_ne_of_ne ne) with lt | lt
  · refine ⟨m, k - m, by omega, by omega, ?_⟩
    rw [one, Nat.add_sub_cancel' lt.le]
  · refine ⟨k, m - k, by omega, by omega, ?_⟩
    rw [← one, Nat.add_sub_cancel' lt.le]

theorem exists_stops (h : Heap) (o : Object) : ∃ n ≤ h.size, Stops h o n := by
  cases goesOn : h.tail? o (h.size + 1) with
  | none => exact ⟨h.size, Nat.le_refl _, .inl (tail?_eq_none_of_le (by omega) goesOn)⟩
  | some p =>
    obtain ⟨m, d, pos, within, back⟩ := exists_back goesOn
    -- the walkers meet after the first multiple of the cycle that is beyond its start
    have late : m < (m / d + 1) * d := (Nat.div_lt_iff_lt_mul pos).mp (Nat.lt_succ_self _)
    have early : (m / d + 1) * d ≤ m + d := by
      rw [Nat.succ_mul]
      exact Nat.add_le_add_right (Nat.div_mul_le_self m d) d
    obtain ⟨n, round⟩ : ∃ n, (m / d + 1) * d = n + 1 :=
      Nat.exists_eq_succ_of_ne_zero (Nat.ne_of_gt (Nat.zero_lt_of_lt late))
    refine ⟨n, by omega, .inr ?_⟩
    rw [tail?_add_mul back (by omega : m ≤ n + 1) (m / d + 1)]
    congr 1
    omega

theorem walkersAnswer?_round {n : Nat} {slow fast : Object} (atSlow : h.tail? o n = some slow)
    (atFast : h.tail? o (2 * n) = some fast) :
    (∃ answer, (∀ rounds, h.walkersAnswer? (rounds + 1) slow fast = some answer) ∧
      (answer = true ↔ EndsInNull h o)) ∨
    ¬Stops h o n ∧ ∃ slow' fast', h.tail? o (n + 1) = some slow' ∧
      h.tail? o (2 * n + 2) = some fast' ∧
      ∀ rounds, h.walkersAnswer? (rounds + 1) slow fast = h.walkersAnswer? rounds slow' fast' := by
  simp only [walkersAnswer?]
  cases moved : h.twoSteps fast with
  | error answer =>
    exact .inl ⟨answer, fun _ => rfl,
      (endsInNull_of_twoSteps moved).trans (endsInNull_iff_of_tail? atFast).symm⟩
  | ok fast' =>
    have atFast' : h.tail? o (2 * n + 2) = some fast' :=
      (tail?_of_tail? atFast 2).trans (tail?_of_twoSteps moved)
    obtain ⟨slow', atSlow'⟩ : ∃ p, h.tail? o (n + 1) = some p :=
      Option.ne_none_iff_exists'.mp fun past => by
        rw [tail?_eq_none_of_le (by omega) past] at atFast'
        cases atFast'
    have step : h.cdr? slow = some slow' := by
      rw [← atSlow', tail?_succ, atSlow, Option.bind_some]
    obtain ⟨a, pair, -⟩ := pair_of_tail? (by omega : n + 1 < 2 * n + 2) atSlow' atFast'
    have meet : fast'.same slow' = true ↔ fast' = slow' := by
      rw [pair, Object.same_comm, Object.same_iff_of_address rfl, eq_comm]
    simp only [step]
    split
    · rename_i met
      have endless := not_endsInNull_of_meet (meet.mp met ▸ atSlow') atFast'
      exact .inl ⟨false, fun _ => rfl, iff_of_false Bool.false_ne_true endless⟩
    · rename_i apart
      refine .inr ⟨?_, slow', fast', atSlow', atFast', fun _ => rfl⟩
      rintro (past | met)
      · rw [atFast'] at past
        cases past
      · rw [atFast', atSlow'] at met
        exact apart (meet.mpr (Option.some.inj met))

theorem walkersAnswer?_of_stops {rounds left n : Nat} (enough : left < rounds)
    (stops : Stops h o (n + left)) {slow fast : Object} (atSlow : h.tail? o n = some slow)
    (atFast : h.tail? o (2 * n) = some fast) :
    ∃ answer, h.walkersAnswer? rounds slow fast = some answer ∧
      (answer = true ↔ EndsInNull h o) := by
  obtain ⟨rounds, rfl⟩ := Nat.exists_eq_succ_of_ne_zero (Nat.ne_of_gt (Nat.zero_lt_of_lt enough))
  induction left generalizing rounds n slow fast with
  | zero =>
    rcases walkersAnswer?_round atSlow atFast with ⟨answer, said, right⟩ | ⟨goesOn, -⟩
    · exact ⟨answer, said rounds, right⟩
    · exact absurd stops goesOn
  | succ left ih =>
    rcases walkersAnswer?_round atSlow atFast with
      ⟨answer, said, right⟩ | ⟨-, slow', fast', atSlow', atFast', next⟩
    · exact ⟨answer, said rounds, right⟩
    · obtain ⟨rounds, rfl⟩ := Nat.exists_eq_succ_of_ne_zero (by omega : rounds ≠ 0)
      rw [next]
      exact ih (Nat.succ_add_eq_add_succ n left ▸ stops) atSlow' atFast' rounds (by omega)

theorem exists_answer (h : Heap) (o : Object) :
    ∃ answer, h.isList? o = some answer ∧ (answer = true ↔ EndsInNull h o) := by
  obtain ⟨round, within, stops⟩ := exists_stops h o
  exact walkersAnswer?_of_stops (n := 0) (Nat.lt_succ_of_le within) (by rwa [Nat.zero_add])
    (rfl : h.tail? o 0 = some o) rfl

/-- The walkers stop on every chain, and say yes exactly on those that reach the empty list. -/
theorem isList_iff_reaches_null (h : Heap) (o : Object) :
    h.isList? o = some (h.isList o) ∧ (h.isList o = true ↔ ∃ n, h.tail? o n = some .null) := by
  obtain ⟨answer, said, right⟩ := exists_answer h o
  have verdict : h.isList o = answer := by rw [isList, said]; cases answer <;> rfl
  rw [verdict]
  exact ⟨said, right⟩

end SchemeCore.Heap
