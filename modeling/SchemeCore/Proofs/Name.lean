import SchemeCore.Name
import Mathlib.Data.Nat.Bitwise

/-! A name as a number: the shard counts in steps of 2 ^ 28 and the slot fills one step. So every
word is a name of one shard and one slot only, and the order of names is that of their shards and,
within one shard, of their slots. -/

namespace SchemeCore.Name

variable {shard slot shard' slot' : UInt32}

structure Fits (shard slot : UInt32) : Prop where
  shard : shard.toNat < shardCount
  slot : slot.toNat ≤ maxSlot.toNat

theorem fits_iff : Fits shard slot ↔ shard.toNat < 16 ∧ slot.toNat < 2 ^ 28 :=
  ⟨fun fits => ⟨fits.shard, Nat.lt_succ_of_le fits.slot⟩,
    fun within => ⟨within.1, Nat.le_of_lt_succ within.2⟩⟩

theorem toNat_raw_ofParts (fits : Fits shard slot) :
    (ofParts shard slot).raw.toNat = 2 ^ 28 * shard.toNat + slot.toNat := by
  obtain ⟨small, low⟩ := fits_iff.mp fits
  have high : shard.toNat <<< 28 < 2 ^ 32 := by
    rw [Nat.shiftLeft_eq]
    omega
  calc (ofParts shard slot).raw.toNat
      = shard.toNat <<< 28 % 2 ^ 32 ||| slot.toNat := by
        simp [ofParts, UInt32.toNat_or, UInt32.toNat_shiftLeft]
    _ = 2 ^ 28 * shard.toNat + slot.toNat := by
        rw [Nat.mod_eq_of_lt high, ← Nat.shiftLeft_add_eq_or_of_lt low, Nat.shiftLeft_eq,
          Nat.mul_comm]

theorem shard_eq (n : Name) : n.shard = n.raw.toNat / 2 ^ 28 := by
  simp [shard, UInt32.toNat_shiftRight, Nat.shiftRight_eq_div_pow]

theorem slot_eq (n : Name) : n.slot = n.raw.toNat % 2 ^ 28 := by
  have mask : maxSlot.toNat = 2 ^ 28 - 1 := rfl
  rw [slot, UInt32.toNat_and, mask, Nat.and_two_pow_sub_one_eq_mod]

theorem shard_ofParts (fits : Fits shard slot) : (ofParts shard slot).shard = shard.toNat := by
  obtain ⟨-, low⟩ := fits_iff.mp fits
  rw [shard_eq, toNat_raw_ofParts fits]
  omega

theorem slot_ofParts (fits : Fits shard slot) : (ofParts shard slot).slot = slot.toNat := by
  obtain ⟨-, low⟩ := fits_iff.mp fits
  rw [slot_eq, toNat_raw_ofParts fits]
  omega

theorem eq_of_parts {n m : Name} (shards : n.shard = m.shard) (slots : n.slot = m.slot) :
    n = m := by
  rw [shard_eq, shard_eq] at shards
  rw [slot_eq, slot_eq] at slots
  have words : n.raw.toNat = m.raw.toNat := by omega
  cases n
  cases m
  exact congrArg Name.mk (UInt32.toNat_inj.mp words)

theorem compare_eq (n m : Name) : compare n m = compare n.raw.toNat m.raw.toNat := by
  show compare n.raw m.raw = _
  simp only [compare, compareOfLessAndEq, UInt32.lt_iff_toNat_lt, ← UInt32.toNat_inj]

theorem compare_digits {base a b c d : Nat} (small : b < base) (small' : d < base) :
    compare (base * a + b) (base * c + d) = (compare a c).then (compare b d) := by
  have step {m n x : Nat} (lt : m < n) (le : x < base) : base * m + x < base * n := by
    have next : base * (m + 1) ≤ base * n := Nat.mul_le_mul_left base lt
    rw [Nat.mul_succ] at next
    omega
  rcases Nat.lt_trichotomy a c with lt | rfl | gt
  · have whole : base * a + b < base * c + d := Nat.lt_add_right d (step lt small)
    rw [Nat.compare_eq_lt.mpr whole, Nat.compare_eq_lt.mpr lt]
    rfl
  · rw [Nat.compare_eq_eq.mpr rfl, Ordering.then]
    rcases Nat.lt_trichotomy b d with lt | rfl | gt
    · rw [Nat.compare_eq_lt.mpr lt, Nat.compare_eq_lt.mpr (Nat.add_lt_add_left lt _)]
    · rw [Nat.compare_eq_eq.mpr rfl, Nat.compare_eq_eq.mpr rfl]
    · rw [Nat.compare_eq_gt.mpr gt, Nat.compare_eq_gt.mpr (Nat.add_lt_add_left gt _)]
  · have whole : base * c + d < base * a + b := Nat.lt_add_right b (step gt small')
    rw [Nat.compare_eq_gt.mpr whole, Nat.compare_eq_gt.mpr gt]
    rfl

theorem compare_ofParts (fits : Fits shard slot) (fits' : Fits shard' slot') :
    compare (ofParts shard slot) (ofParts shard' slot') =
      (compare shard.toNat shard'.toNat).then (compare slot.toNat slot'.toNat) := by
  rw [compare_eq, toNat_raw_ofParts fits, toNat_raw_ofParts fits']
  exact compare_digits (fits_iff.mp fits).2 (fits_iff.mp fits').2

theorem compare_eq_eq {n m : Name} : compare n m = .eq ↔ n = m := by
  rw [compare_eq, Nat.compare_eq_eq, UInt32.toNat_inj]
  exact ⟨congrArg Name.mk, congrArg raw⟩

/-! No word is left over: the halves of a word are a shard and a slot, which make it up again. -/

theorem shard_lt (n : Name) : n.shard < shardCount := by
  have word : n.raw.toNat < 2 ^ 32 := n.raw.toNat_lt
  rw [shard_eq]
  exact Nat.div_lt_of_lt_mul word

theorem slot_lt (n : Name) : n.slot < 2 ^ 28 := by
  rw [slot_eq]
  exact Nat.mod_lt _ (by decide)

theorem exists_ofParts (n : Name) : ∃ shard slot, Fits shard slot ∧ ofParts shard slot = n := by
  have fits : Fits (n.raw >>> 28) (n.raw &&& maxSlot) := fits_iff.mpr ⟨n.shard_lt, n.slot_lt⟩
  exact ⟨_, _, fits, eq_of_parts (shard_ofParts fits) (slot_ofParts fits)⟩

theorem ofParts_inj (fits : Fits shard slot) (fits' : Fits shard' slot') :
    ofParts shard slot = ofParts shard' slot' ↔ shard = shard' ∧ slot = slot' := by
  refine ⟨fun same => ⟨UInt32.toNat_inj.mp ?_, UInt32.toNat_inj.mp ?_⟩, ?_⟩
  · rw [← shard_ofParts fits, same, shard_ofParts fits']
  · rw [← slot_ofParts fits, same, slot_ofParts fits']
  · rintro ⟨rfl, rfl⟩
    rfl

theorem existsUnique_parts (word : UInt32) :
    ∃! parts : UInt32 × UInt32, Fits parts.1 parts.2 ∧ (ofParts parts.1 parts.2).raw = word := by
  obtain ⟨shard, slot, fits, whole⟩ := exists_ofParts ⟨word⟩
  refine ⟨(shard, slot), ⟨fits, congrArg raw whole⟩, fun parts made => ?_⟩
  have same : ofParts parts.1 parts.2 = ofParts shard slot :=
    (congrArg Name.mk made.2).trans whole.symm
  obtain ⟨shards, slots⟩ := (ofParts_inj made.1 fits).mp same
  exact Prod.ext shards slots

/-- The pairs of a shard and a slot, in the order of the shards and then of the slots, are the words
in theirs: a name tells the parts it was made of, each word comes from one pair, and two names
compare as their parts do, so that only names of the same parts are equal. -/
theorem words_ordered_as_parts :
    (∀ shard slot : UInt32, shard.toNat < 16 → slot.toNat < 2 ^ 28 →
      (ofParts shard slot).shard = shard.toNat ∧ (ofParts shard slot).slot = slot.toNat) ∧
    (∀ word : UInt32, ∃! parts : UInt32 × UInt32,
      (parts.1.toNat < 16 ∧ parts.2.toNat < 2 ^ 28) ∧ (ofParts parts.1 parts.2).raw = word) ∧
    ∀ shard slot shard' slot' : UInt32, shard.toNat < 16 → slot.toNat < 2 ^ 28 →
      shard'.toNat < 16 → slot'.toNat < 2 ^ 28 →
      compare (ofParts shard slot) (ofParts shard' slot') =
        (compare shard.toNat shard'.toNat).then (compare slot.toNat slot'.toNat) ∧
      (compare (ofParts shard slot) (ofParts shard' slot') = .eq ↔
        shard = shard' ∧ slot = slot') ∧
      (ofParts shard slot = ofParts shard' slot' ↔ shard = shard' ∧ slot = slot') := by
  refine ⟨fun shard slot small low => ?_, fun word => ?_, ?_⟩
  · have fits : Fits shard slot := fits_iff.mpr ⟨small, low⟩
    exact ⟨shard_ofParts fits, slot_ofParts fits⟩
  · simp only [← fits_iff]
    exact existsUnique_parts word
  · intro shard slot shard' slot' small low small' low'
    have fits : Fits shard slot := fits_iff.mpr ⟨small, low⟩
    have fits' : Fits shard' slot' := fits_iff.mpr ⟨small', low'⟩
    exact ⟨compare_ofParts fits fits', compare_eq_eq.trans (ofParts_inj fits fits'),
      ofParts_inj fits fits'⟩

theorem words_ordered_as_parts_across_sign :
    (7 : UInt32).toNat < 16 ∧ maxSlot.toNat < 2 ^ 28 ∧
    (ofParts 7 maxSlot).shard = 7 ∧ (ofParts 7 maxSlot).slot = 2 ^ 28 - 1 ∧
    compare (ofParts 7 maxSlot) (ofParts 8 0) = .lt ∧ ofParts 7 maxSlot ≠ ofParts 8 0 := by
  obtain ⟨told, -, ordered⟩ := words_ordered_as_parts
  obtain ⟨shard, slot⟩ := told 7 maxSlot (by decide) (by decide)
  obtain ⟨order, -, same⟩ := ordered 7 maxSlot 8 0 (by decide) (by decide) (by decide) (by decide)
  exact ⟨by decide, by decide, shard, slot, order, fun eq => absurd (same.mp eq).1 (by decide)⟩

end SchemeCore.Name
