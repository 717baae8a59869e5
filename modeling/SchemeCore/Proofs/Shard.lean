import SchemeCore.Interner
import SchemeCore.Text.Utf8
import Mathlib.Data.Nat.Digits.Lemmas

/-! The shard of a text in closed form. The bytes that choose it are the digits of a number to the
base thirty-one; the digest is what wrapping leaves of that number, and the shard what is left of
the digest modulo sixteen. Sixteen divides the size of a word, so that wrapping makes no difference.
Thirty-one is one less than a multiple of sixteen, so that the number comes to the alternating sum
of its digits, of which only the low four bits count. -/

namespace SchemeCore.Interner

def unwrapped (bytes : List UInt8) : Nat := bytes.foldl (fun h b => h * 31 + b.toNat) 0

/-- The last byte less the one before it, plus the one before that, and so on. -/
def alternation (bytes : List UInt8) : Int :=
  (bytes.reverse.map fun b => (b.toNat : Int)).alternatingSum

def lowBits (b : UInt8) : UInt8 := b &&& 0x0F

def uncapital (b : UInt8) : UInt8 := if 0x41 ≤ b ∧ b ≤ 0x5A then b + 0x20 else b

theorem leadingBytes_eq (s : String) : leadingBytes s = (Utf8.encode s).take 8 := by
  rw [leadingBytes, String.toUTF8, ← String.utf8Encode_toList, List.utf8Encode,
    List.data_toByteArray, List.toList_toArray, Utf8.encode]

/-! From the digest to the number. -/

theorem unwrapped_concat (bytes : List UInt8) (b : UInt8) :
    unwrapped (bytes ++ [b]) = unwrapped bytes * 31 + b.toNat := List.foldl_concat ..

theorem toNat_digest (bytes : List UInt8) : (digest bytes).toNat = unwrapped bytes % 2 ^ 32 := by
  induction bytes using List.reverseRecOn with
  | nil => rfl
  | append_singleton bytes b ih =>
    have step : digest (bytes ++ [b]) = digest bytes * 31 + b.toUInt32 := List.foldl_concat ..
    have base : (31 : UInt32).toNat = 31 := rfl
    rw [step, unwrapped_concat, UInt32.toNat_add, UInt32.toNat_mul, ih, UInt8.toNat_toUInt32, base]
    omega

theorem unwrapped_eq_ofDigits (bytes : List UInt8) :
    unwrapped bytes = Nat.ofDigits 31 (bytes.reverse.map UInt8.toNat) := by
  induction bytes using List.reverseRecOn with
  | nil => rfl
  | append_singleton bytes b ih =>
    rw [unwrapped_concat, ih, List.reverse_concat, List.map_cons, Nat.ofDigits_cons]
    omega

theorem val_shardOf (s : String) :
    (shardOf s : Nat) = unwrapped (leadingBytes s) % Name.shardCount := by
  have divides : Name.shardCount ∣ 2 ^ 32 := by decide
  show (digest (leadingBytes s)).toNat % Name.shardCount = _
  rw [toNat_digest, Nat.mod_mod_of_dvd _ divides]

/-! From the number to its digits. -/

theorem unwrapped_modEq (bytes : List UInt8) :
    (unwrapped bytes : Int) ≡ alternation bytes [ZMOD Name.shardCount] := by
  have base : (31 : Int) ≡ -1 [ZMOD Name.shardCount] := rfl
  calc (unwrapped bytes : Int)
      = Nat.ofDigits 31 (bytes.reverse.map UInt8.toNat) := by
        rw [unwrapped_eq_ofDigits, Nat.coe_ofDigits, Nat.cast_ofNat]
    _ ≡ Nat.ofDigits (-1) (bytes.reverse.map UInt8.toNat) [ZMOD Name.shardCount] :=
        Nat.ofDigits_zmodeq' _ _ _ base _
    _ = alternation bytes := by rw [Nat.ofDigits_neg_one, List.map_map]; rfl

theorem ofDigits_map_mod (base count : Nat) (digits : List Nat) :
    Nat.ofDigits base (digits.map (· % count)) ≡ Nat.ofDigits base digits [MOD count] := by
  induction digits with
  | nil => rfl
  | cons d digits ih =>
    rw [List.map_cons, Nat.ofDigits_cons, Nat.ofDigits_cons]
    exact (Nat.mod_modEq d count).add (ih.mul_left base)

theorem toNat_lowBits (b : UInt8) : (lowBits b).toNat = b.toNat % Name.shardCount := by
  have mask : (0x0F : UInt8).toNat = 2 ^ 4 - 1 := rfl
  rw [lowBits, UInt8.toNat_and, mask, Nat.and_two_pow_sub_one_eq_mod]

theorem unwrapped_lowBits (bytes : List UInt8) :
    unwrapped (bytes.map lowBits) ≡ unwrapped bytes [MOD Name.shardCount] := by
  have digits : (bytes.map lowBits).reverse.map UInt8.toNat =
      (bytes.reverse.map UInt8.toNat).map (· % Name.shardCount) := by
    rw [← List.map_reverse, List.map_map, List.map_map]
    exact List.map_congr_left fun b _ => toNat_lowBits b
  rw [unwrapped_eq_ofDigits, unwrapped_eq_ofDigits, digits]
  exact ofDigits_map_mod 31 Name.shardCount _

theorem lowBits_uncapital (b : UInt8) : lowBits (uncapital b) = lowBits b := by
  rw [← UInt8.toNat_inj, toNat_lowBits, toNat_lowBits, uncapital]
  split
  · have apart : (0x20 : UInt8).toNat = 2 * Name.shardCount := rfl
    rw [UInt8.toNat_add, apart, Nat.mod_mod_of_dvd _ (by decide), Nat.add_mul_mod_self_right]
  · rfl

section Alike

variable {s s' : String}

theorem shardOf_eq_of_lowBits
    (same : (leadingBytes s).map lowBits = (leadingBytes s').map lowBits) :
    shardOf s = shardOf s' := by
  have number : unwrapped (leadingBytes s) ≡ unwrapped (leadingBytes s') [MOD Name.shardCount] :=
    (unwrapped_lowBits _).symm.trans (same ▸ unwrapped_lowBits _)
  exact Fin.ext ((val_shardOf s).trans (Eq.trans number (val_shardOf s').symm))

theorem shardOf_eq_of_uncapital
    (same : (leadingBytes s).map uncapital = (leadingBytes s').map uncapital) :
    shardOf s = shardOf s' := by
  have low (bytes : List UInt8) : (bytes.map uncapital).map lowBits = bytes.map lowBits := by
    rw [List.map_map]
    exact List.map_congr_left fun b _ => lowBits_uncapital b
  refine shardOf_eq_of_lowBits ?_
  rw [← low, same, low]

end Alike

/-- The shard of a text is the alternating sum of its leading bytes modulo sixteen, as it would be
without wrapping. So texts share a shard when the low bits of these bytes are the same, and in
particular when the bytes are or differ by the case of letters only. -/
theorem shardOf_alternates (s : String) :
    leadingBytes s = (Utf8.encode s).take 8 ∧ (shardOf s : Nat) < 16 ∧
    ((shardOf s : Nat) : Int) = alternation (leadingBytes s) % 16 ∧
    (shardOf s : Nat) = unwrapped (leadingBytes s) % 16 ∧
    (∀ s', (leadingBytes s).map lowBits = (leadingBytes s').map lowBits → shardOf s = shardOf s') ∧
    (∀ s', leadingBytes s = leadingBytes s' → shardOf s = shardOf s') ∧
    ∀ s', (leadingBytes s).map uncapital = (leadingBytes s').map uncapital →
      shardOf s = shardOf s' := by
  refine ⟨leadingBytes_eq s, (shardOf s).isLt, ?_, val_shardOf s, fun s' => shardOf_eq_of_lowBits,
    fun s' same => shardOf_eq_of_lowBits (congrArg _ same), fun s' => shardOf_eq_of_uncapital⟩
  rw [val_shardOf, Int.natCast_mod]
  exact unwrapped_modEq (leadingBytes s)

theorem shardOf_alternates_of_cut_dash : leadingBytes "Scheme–" ≠ leadingBytes "sCHEME—s" ∧
    alternation (leadingBytes "Scheme–") % 16 = 3 ∧
    (shardOf "Scheme–" : Nat) = 3 ∧ shardOf "Scheme–" = shardOf "sCHEME—s" := by
  obtain ⟨-, -, sum, -, -, -, cases⟩ := shardOf_alternates "Scheme–"
  have three : alternation (leadingBytes "Scheme–") % 16 = 3 := by decide
  refine ⟨by decide, three, ?_, cases "sCHEME—s" (by decide)⟩
  exact Int.natCast_inj.mp (sum.trans three)

end SchemeCore.Interner
