import SchemeCore.Text.Utf8
import Mathlib.Data.List.Induction
import Mathlib.Tactic.SplitIfs

/-! Decoding bytes as UTF-8. A decoder only adds to its text, and a byte below 0x80 ends whatever
character it was in the middle of, so that bytes can be cut at such a byte and decoded piece by
piece. What was encoded is decoded to the same text. -/

namespace SchemeCore.Utf8

variable {text front : String} {b : UInt8} {p : Partial}

theorem low_of_opening? (opened : opening? b = some p) : 0x80 ≤ p.low := by
  unfold opening? at opened
  split_ifs at opened <;> cases opened <;> simp only <;> decide

theorem not_ascii_of_opening? (opened : opening? b = some p) : ¬b < 0x80 := by
  intro ascii
  have below : b < 0xC2 := UInt8.lt_trans ascii (by decide)
  rw [opening?, if_pos below] at opened
  cases opened

namespace Decoder

variable {d : Decoder}

/-! A decoder that had some text before. -/

def after (front : String) (d : Decoder) : Decoder := ⟨front ++ d.text, d.pending⟩

theorem append_push (front back : String) (c : Char) :
    front ++ back.push c = (front ++ back).push c := by
  rw [← String.append_singleton, ← String.append_singleton, String.append_assoc]

theorem openWith_after (front text : String) (b : UInt8) :
    openWith (front ++ text) b = (openWith text b).after front := by
  unfold openWith
  split
  · simp only [after, append_push]
  · cases opening? b <;> simp only [after, append_push]

theorem feed_after (front : String) (d : Decoder) (b : UInt8) :
    (d.after front).feed b = (d.feed b).after front := by
  unfold feed
  cases pending : d.pending with
  | none => simp only [after, pending, openWith_after]
  | some p =>
    simp only [after, pending]
    split
    · split <;> simp only [append_push]
    · rw [← append_push, openWith_after, after]

theorem finish_after (front : String) (d : Decoder) :
    (d.after front).finish = front ++ d.finish := by
  unfold finish
  cases pending : d.pending <;> simp only [after, pending, append_push]

theorem foldl_feed_after (front : String) (d : Decoder) (bytes : List UInt8) :
    bytes.foldl feed (d.after front) = (bytes.foldl feed d).after front := by
  induction bytes generalizing d with
  | nil => rfl
  | cons b bytes ih => rw [List.foldl_cons, feed_after, ih, List.foldl_cons]

/-! A byte that is a character of its own. -/

def Sound (d : Decoder) : Prop := ∀ p, d.pending = some p → 0x80 ≤ p.low

theorem sound_openWith (text : String) (b : UInt8) : (openWith text b).Sound := by
  unfold openWith
  split
  · exact nofun
  · cases opened : opening? b with
    | none => exact nofun
    | some p =>
      rintro _ ⟨⟩
      exact low_of_opening? opened

theorem sound_feed (d : Decoder) (b : UInt8) : (d.feed b).Sound := by
  unfold feed
  split
  · exact sound_openWith d.text b
  · split
    · split
      · exact nofun
      · rintro _ ⟨⟩
        exact UInt8.le_refl _
    · exact sound_openWith _ b

theorem sound_foldl_feed (bytes : List UInt8) : (bytes.foldl feed start).Sound := by
  induction bytes using List.reverseRecOn with
  | nil => exact nofun
  | append_singleton bytes b _ =>
    rw [List.foldl_append]
    exact sound_feed _ b

theorem feed_of_ascii (sound : d.Sound) (ascii : b < 0x80) :
    d.feed b = start.after (d.finish.push (Char.ofNat b.toNat)) := by
  have opened (text : String) : openWith text b = start.after (text.push (Char.ofNat b.toNat)) := by
    rw [openWith, if_pos ascii, after, start, String.append_empty]
  unfold feed finish
  cases pending : d.pending with
  | none => exact opened d.text
  | some p =>
    have beyond : ¬(p.low ≤ b ∧ b ≤ p.high) := fun within =>
      UInt8.not_lt.mpr (UInt8.le_trans (sound p pending) within.1) ascii
    simp only [if_neg beyond, opened]

end Decoder

theorem decode_append_of_ascii (front back : List UInt8) (ascii : b < 0x80) :
    decode (front ++ b :: back) = (decode front).push (Char.ofNat b.toNat) ++ decode back := by
  rw [decode, List.foldl_append, List.foldl_cons,
    Decoder.feed_of_ascii (Decoder.sound_foldl_feed front) ascii, Decoder.foldl_feed_after,
    Decoder.finish_after]
  rfl

/-! Characters byte by byte. -/

def Partial.next (p : Partial) (b : UInt8) : Partial :=
  ⟨p.missing - 1, 0x80, 0xBF, p.value * 64 + (b.toNat - 0x80)⟩

inductive Completes : Partial → List UInt8 → Char → Prop
  | last {p : Partial} {b : UInt8} (takes : p.low ≤ b ∧ b ≤ p.high) (one : p.missing = 1) :
      Completes p [b] (Char.ofNat (p.next b).value)
  | more {p : Partial} {b : UInt8} {rest : List UInt8} {c : Char}
      (takes : p.low ≤ b ∧ b ≤ p.high) (several : p.missing ≠ 1)
      (further : Completes (p.next b) rest c) : Completes p (b :: rest) c

theorem opening?_of_two : ∀ n < 32, 2 ≤ n →
    opening? (UInt8.ofNat (n % 32 + 0xC0)) = some ⟨1, 0x80, 0xBF, n⟩ := by decide

theorem opening?_of_three : ∀ n < 16, opening? (UInt8.ofNat (n % 16 + 0xE0)) =
    some ⟨2, if n = 0 then 0xA0 else 0x80, if n = 13 then 0x9F else 0xBF, n⟩ := by decide

theorem opening?_of_four : ∀ n < 5, opening? (UInt8.ofNat (n % 8 + 0xF0)) =
    some ⟨3, if n = 0 then 0x90 else 0x80, if n = 4 then 0x8F else 0xBF, n⟩ := by decide

theorem toNat_continuation (n : Nat) : (UInt8.ofNat (n % 64 + 0x80)).toNat = n % 64 + 0x80 :=
  UInt8.toNat_ofNat_of_lt' (by simp only [UInt8.size]; omega)

theorem next_continuation (p : Partial) (n : Nat) : p.next (UInt8.ofNat (n % 64 + 0x80)) =
    ⟨p.missing - 1, 0x80, 0xBF, p.value * 64 + n % 64⟩ := by
  rw [Partial.next, toNat_continuation, Nat.add_sub_cancel]

theorem takes_continuation {n : Nat} (low : p.low.toNat ≤ n % 64 + 0x80)
    (high : n % 64 + 0x80 ≤ p.high.toNat) :
    p.low ≤ UInt8.ofNat (n % 64 + 0x80) ∧ UInt8.ofNat (n % 64 + 0x80) ≤ p.high := by
  simp only [UInt8.le_iff_toNat_le, toNat_continuation]
  exact ⟨low, high⟩

theorem within_all (n : Nat) : (0x80 : UInt8).toNat ≤ n % 64 + 0x80 ∧
    n % 64 + 0x80 ≤ (0xBF : UInt8).toNat := by
  simp only [UInt8.reduceToNat]
  omega

theorem Completes.middle {low high : UInt8} {missing value n : Nat} {rest : List UInt8} {c : Char}
    (above : low.toNat ≤ n % 64 + 0x80) (below : n % 64 + 0x80 ≤ high.toNat)
    (further : Completes ⟨missing + 1, 0x80, 0xBF, value * 64 + n % 64⟩ rest c) :
    Completes ⟨missing + 2, low, high, value⟩ (UInt8.ofNat (n % 64 + 0x80) :: rest) c := by
  refine .more (takes_continuation above below) (by simp) ?_
  rw [next_continuation]
  exact further

theorem Completes.final {value n : Nat} {c : Char} (whole : Char.ofNat (value * 64 + n % 64) = c) :
    Completes ⟨1, 0x80, 0xBF, value⟩ [UInt8.ofNat (n % 64 + 0x80)] c := by
  have last := Completes.last (p := ⟨1, 0x80, 0xBF, value⟩)
    (takes_continuation (within_all n).1 (within_all n).2) rfl
  rwa [next_continuation, whole] at last

theorem utf8EncodeChar_cases (c : Char) :
    (∃ b : UInt8, b < 0x80 ∧ String.utf8EncodeChar c = [b] ∧ c = Char.ofNat b.toNat) ∨
    ∃ b p rest, opening? b = some p ∧ String.utf8EncodeChar c = b :: rest ∧ Completes p rest c := by
  have scalar : c.toNat < 0xD800 ∨ 0xDFFF < c.toNat ∧ c.toNat < 0x110000 := c.valid
  have back {n : Nat} (same : n = c.toNat) : Char.ofNat n = c := by rw [same, Char.ofNat_toNat]
  rw [String.utf8EncodeChar]
  generalize code : c.val.toNat = v
  replace code : c.toNat = v := code
  rw [code] at scalar back
  split
  · have byte : (UInt8.ofNat v).toNat = v :=
      UInt8.toNat_ofNat_of_lt' (by simp only [UInt8.size]; omega)
    refine .inl ⟨UInt8.ofNat v, ?_, rfl, by rw [byte, back rfl]⟩
    rw [UInt8.lt_iff_toNat_lt, byte]
    exact Nat.lt_succ_of_le ‹_›
  refine .inr ?_
  split
  · have whole : v / 64 * 64 + v % 64 = v := by omega
    exact ⟨_, _, _, opening?_of_two (v / 64) (by omega) (by omega), rfl, .final (back whole)⟩
  · split
    · -- what the second byte cannot be would be a shorter character or a surrogate
      have low : (if v / 4096 = 0 then 0xA0 else 0x80 : UInt8).toNat ≤ v / 64 % 64 + 0x80 := by
        split <;> simp only [UInt8.reduceToNat] <;> omega
      have high : v / 64 % 64 + 0x80 ≤ (if v / 4096 = 13 then 0x9F else 0xBF : UInt8).toNat := by
        split <;> simp only [UInt8.reduceToNat] <;> omega
      have whole : (v / 4096 * 64 + v / 64 % 64) * 64 + v % 64 = v := by omega
      exact ⟨_, _, _, opening?_of_three (v / 4096) (by omega), rfl,
        .middle low high (.final (back whole))⟩
    · have low : (if v / 262144 = 0 then 0x90 else 0x80 : UInt8).toNat ≤
          v / 4096 % 64 + 0x80 := by
        split <;> simp only [UInt8.reduceToNat] <;> omega
      have high : v / 4096 % 64 + 0x80 ≤
          (if v / 262144 = 4 then 0x8F else 0xBF : UInt8).toNat := by
        split <;> simp only [UInt8.reduceToNat] <;> omega
      have third := within_all (v / 64)
      have whole : ((v / 262144 * 64 + v / 4096 % 64) * 64 + v / 64 % 64) * 64 + v % 64 = v := by
        omega
      exact ⟨_, _, _, opening?_of_four (v / 262144) (by omega), rfl,
        .middle low high (.middle third.1 third.2 (.final (back whole)))⟩

/-! Decoding what was encoded. -/

namespace Decoder

theorem openWith_of_ascii (text : String) (ascii : b < 0x80) :
    openWith text b = ⟨text.push (Char.ofNat b.toNat), none⟩ := if_pos ascii

theorem openWith_of_opening? (text : String) (opened : opening? b = some p) :
    openWith text b = ⟨text, some p⟩ := by
  rw [openWith, if_neg (not_ascii_of_opening? opened), opened]

theorem feed_of_takes (text : String) (takes : p.low ≤ b ∧ b ≤ p.high) (several : p.missing ≠ 1) :
    feed ⟨text, some p⟩ b = ⟨text, some (p.next b)⟩ := by
  simp only [feed, if_pos takes, if_neg several, Partial.next]

theorem feed_of_last (text : String) (takes : p.low ≤ b ∧ b ≤ p.high) (one : p.missing = 1) :
    feed ⟨text, some p⟩ b = ⟨text.push (Char.ofNat (p.next b).value), none⟩ := by
  simp only [feed, if_pos takes, if_pos one, Partial.next]

theorem foldl_feed_of_completes {rest : List UInt8} {c : Char} (completes : Completes p rest c) :
    rest.foldl feed ⟨text, some p⟩ = ⟨text.push c, none⟩ := by
  induction completes with
  | last takes one => exact feed_of_last text takes one
  | more takes several _ ih => rw [List.foldl_cons, feed_of_takes text takes several, ih]

theorem foldl_feed_utf8EncodeChar (text : String) (c : Char) :
    (String.utf8EncodeChar c).foldl feed ⟨text, none⟩ = ⟨text.push c, none⟩ := by
  rcases utf8EncodeChar_cases c with ⟨b, ascii, bytes, rfl⟩ | ⟨b, p, rest, opened, bytes, completes⟩
  · rw [bytes]
    exact openWith_of_ascii text ascii
  · rw [bytes, List.foldl_cons, ← foldl_feed_of_completes completes]
    exact congrArg (rest.foldl feed) (openWith_of_opening? text opened)

end Decoder

theorem decode_encode (text : String) : decode (encode text) = text := by
  have fed : ∀ (chars : List Char) (front : String),
      (chars.flatMap String.utf8EncodeChar).foldl Decoder.feed ⟨front, none⟩ =
        ⟨front ++ String.ofList chars, none⟩ := by
    intro chars
    induction chars with
    | nil => simp
    | cons c chars ih =>
      intro front
      rw [List.flatMap_cons, List.foldl_append, Decoder.foldl_feed_utf8EncodeChar, ih,
        ← String.append_singleton, String.append_assoc, String.ofList_cons]
  rw [decode, encode, Decoder.start, fed, String.ofList_toList]
  exact String.empty_append

theorem decode?_eq_some_iff {bytes : List UInt8} {text : String} :
    decode? bytes = some text ↔ encode text = bytes := by
  rw [decode?, Option.ite_none_right_eq_some, Option.some.injEq]
  constructor
  · rintro ⟨whole, rfl⟩
    exact whole
  · rintro rfl
    rw [decode_encode]
    exact ⟨rfl, rfl⟩

theorem decode?_encode (text : String) : decode? (encode text) = some text :=
  decode?_eq_some_iff.mpr rfl

end SchemeCore.Utf8
