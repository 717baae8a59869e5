import SchemeCore.Proofs.Utf8

/-! What decoding puts in place of bytes that encode nothing: one replacement character for each
longest start of a character that does not go on as a character. -/

namespace SchemeCore.Utf8

variable {front bytes rest : List UInt8} {text : List Char} {b : UInt8} {p : Partial} {c : Char}

def Begins (front : List UInt8) : Prop :=
  front ≠ [] ∧ ∃ c rest, rest ≠ [] ∧ String.utf8EncodeChar c = front ++ rest

def Stops (front others : List UInt8) : Prop :=
  ∀ b rest, others = b :: rest → ∀ c more, String.utf8EncodeChar c ≠ front ++ b :: more

/-- A text in place of bytes: a character for each encoding, and one replacement character for each
start of a character that is as long as can be and does not go on, and for each byte that no
character starts with. -/
inductive Replaces : List UInt8 → List Char → Prop
  | nil : Replaces [] []
  | char {bytes : List UInt8} {text : List Char} (c : Char) (others : Replaces bytes text) :
      Replaces (String.utf8EncodeChar c ++ bytes) (c :: text)
  | broken {front bytes : List UInt8} {text : List Char} (begins : Begins front)
      (stops : Stops front bytes) (others : Replaces bytes text) :
      Replaces (front ++ bytes) (replacement :: text)
  | stray {b : UInt8} {bytes : List UInt8} {text : List Char}
      (starts : ∀ c more, String.utf8EncodeChar c ≠ b :: more) (others : Replaces bytes text) :
      Replaces (b :: bytes) (replacement :: text)

/-! Encodings by their first byte. -/

theorem eq_ofNat {d : UInt8} {n : Nat} (same : n = d.toNat) : UInt8.ofNat n = d := by
  rw [same, UInt8.ofNat_toNat]

theorem opening?_cases (opened : opening? b = some p) :
    (∃ n, 2 ≤ n ∧ n < 32 ∧ b.toNat = n + 0xC0 ∧ p = ⟨1, 0x80, 0xBF, n⟩) ∨
    (∃ n, n < 16 ∧ b.toNat = n + 0xE0 ∧
      p = ⟨2, if n = 0 then 0xA0 else 0x80, if n = 13 then 0x9F else 0xBF, n⟩) ∨
    ∃ n, n < 5 ∧ b.toNat = n + 0xF0 ∧
      p = ⟨3, if n = 0 then 0x90 else 0x80, if n = 4 then 0x8F else 0xBF, n⟩ := by
  have low : 0xC2 ≤ b.toNat := by
    by_contra below
    rw [opening?, if_pos (UInt8.lt_iff_toNat_lt.mpr (show b.toNat < 0xC2 by omega))] at opened
    cases opened
  have high : b.toNat < 0xF5 := by
    by_contra above
    have beyond (m : UInt8) (small : m.toNat < 0xF5) : ¬b < m ∧ ¬b = m := by
      rw [UInt8.lt_iff_toNat_lt, ← UInt8.toNat_inj]
      omega
    simp [opening?, beyond] at opened
  by_cases two : b.toNat < 0xE0
  · have form := opening?_of_two (b.toNat - 0xC0) (by omega) (by omega)
    rw [eq_ofNat (d := b) (by omega), opened] at form
    exact .inl ⟨b.toNat - 0xC0, by omega, by omega, by omega, Option.some.inj form⟩
  · by_cases three : b.toNat < 0xF0
    · have form := opening?_of_three (b.toNat - 0xE0) (by omega)
      rw [eq_ofNat (d := b) (by omega), opened] at form
      exact .inr (.inl ⟨b.toNat - 0xE0, by omega, by omega, Option.some.inj form⟩)
    · have form := opening?_of_four (b.toNat - 0xF0) (by omega)
      rw [eq_ofNat (d := b) (by omega), opened] at form
      exact .inr (.inr ⟨b.toNat - 0xF0, by omega, by omega, Option.some.inj form⟩)

theorem toNat_val_ofNat {v : Nat} (scalar : v < 0xD800 ∨ 0xDFFF < v ∧ v < 0x110000) :
    (Char.ofNat v).val.toNat = v := by
  have valid : v.isValidChar := scalar
  rw [Char.ofNat, dif_pos valid]
  rfl

section Forms

variable {v : Nat}

theorem utf8EncodeChar_of_one (below : v < 0x80) :
    String.utf8EncodeChar (Char.ofNat v) = [UInt8.ofNat v] := by
  rw [String.utf8EncodeChar]
  simp only [toNat_val_ofNat (v := v) (by omega)]
  rw [if_pos (by omega)]

theorem utf8EncodeChar_of_two (above : 0x80 ≤ v) (below : v < 0x800) :
    String.utf8EncodeChar (Char.ofNat v) =
      [UInt8.ofNat (v / 64 % 32 + 0xC0), UInt8.ofNat (v % 64 + 0x80)] := by
  rw [String.utf8EncodeChar]
  simp only [toNat_val_ofNat (v := v) (by omega)]
  rw [if_neg (by omega), if_pos (by omega)]

theorem utf8EncodeChar_of_three (above : 0x800 ≤ v) (below : v < 0x10000)
    (scalar : v < 0xD800 ∨ 0xDFFF < v) :
    String.utf8EncodeChar (Char.ofNat v) = [UInt8.ofNat (v / 4096 % 16 + 0xE0),
      UInt8.ofNat (v / 64 % 64 + 0x80), UInt8.ofNat (v % 64 + 0x80)] := by
  rw [String.utf8EncodeChar]
  simp only [toNat_val_ofNat (v := v) (by omega)]
  rw [if_neg (by omega), if_neg (by omega), if_pos (by omega)]

theorem utf8EncodeChar_of_four (above : 0x10000 ≤ v) (below : v < 0x110000) :
    String.utf8EncodeChar (Char.ofNat v) = [UInt8.ofNat (v / 262144 % 8 + 0xF0),
      UInt8.ofNat (v / 4096 % 64 + 0x80), UInt8.ofNat (v / 64 % 64 + 0x80),
      UInt8.ofNat (v % 64 + 0x80)] := by
  rw [String.utf8EncodeChar]
  simp only [toNat_val_ofNat (v := v) (by omega)]
  rw [if_neg (by omega), if_neg (by omega), if_neg (by omega)]

end Forms

theorem utf8EncodeChar_of_ascii (ascii : b < 0x80) :
    String.utf8EncodeChar (Char.ofNat b.toNat) = [b] := by
  rw [utf8EncodeChar_of_one (UInt8.lt_iff_toNat_lt.mp ascii), UInt8.ofNat_toNat]

theorem utf8EncodeChar_of_completes (opened : opening? b = some p)
    (completes : Completes p rest c) : String.utf8EncodeChar c = b :: rest := by
  rcases opening?_cases opened with ⟨n, low, high, lead, rfl⟩ | ⟨n, high, lead, rfl⟩ |
    ⟨n, high, lead, rfl⟩
  · cases completes with
    | more _ several => exact absurd rfl several
    | @last _ x takes =>
      simp only [UInt8.le_iff_toNat_le, UInt8.reduceToNat] at takes
      simp only [Partial.next]
      rw [utf8EncodeChar_of_two (by omega) (by omega), eq_ofNat (d := b) (by omega),
        eq_ofNat (d := x) (by omega)]
  · cases completes with
    | last _ one => cases one
    | @more _ x _ _ takes _ further =>
      cases further with
      | more _ several => exact absurd rfl several
      | @last _ y takes' =>
        have second : 0x80 ≤ x.toNat ∧ x.toNat ≤ 0xBF ∧ (n = 0 → 0xA0 ≤ x.toNat) ∧
            (n = 13 → x.toNat ≤ 0x9F) := by
          simp only [UInt8.le_iff_toNat_le] at takes
          split at takes <;> split at takes <;> simp only [UInt8.reduceToNat] at takes <;> omega
        simp only [UInt8.le_iff_toNat_le, UInt8.reduceToNat, Partial.next] at takes'
        simp only [Partial.next]
        rw [utf8EncodeChar_of_three (by omega) (by omega) (by omega), eq_ofNat (d := b) (by omega),
          eq_ofNat (d := x) (by omega), eq_ofNat (d := y) (by omega)]
  · cases completes with
    | last _ one => cases one
    | @more _ x _ _ takes _ further =>
      cases further with
      | last _ one => cases one
      | @more _ y _ _ takes' _ further =>
        cases further with
        | more _ several => exact absurd rfl several
        | @last _ z takes'' =>
          have second : 0x80 ≤ x.toNat ∧ x.toNat ≤ 0xBF ∧ (n = 0 → 0x90 ≤ x.toNat) ∧
              (n = 4 → x.toNat ≤ 0x8F) := by
            simp only [UInt8.le_iff_toNat_le] at takes
            split at takes <;> split at takes <;> simp only [UInt8.reduceToNat] at takes <;> omega
          simp only [UInt8.le_iff_toNat_le, UInt8.reduceToNat, Partial.next] at takes' takes''
          simp only [Partial.next]
          rw [utf8EncodeChar_of_four (by omega) (by omega), eq_ofNat (d := b) (by omega),
            eq_ofNat (d := x) (by omega), eq_ofNat (d := y) (by omega),
            eq_ofNat (d := z) (by omega)]

theorem cases_of_utf8EncodeChar (encoded : String.utf8EncodeChar c = b :: rest) :
    b < 0x80 ∧ rest = [] ∨ ∃ p, opening? b = some p ∧ Completes p rest c := by
  rcases utf8EncodeChar_cases c with ⟨d, ascii, one, -⟩ | ⟨d, p, others, opened, several, completes⟩
  · obtain ⟨rfl, rfl⟩ := List.cons.inj (encoded.symm.trans one)
    exact .inl ⟨ascii, rfl⟩
  · obtain ⟨rfl, rfl⟩ := List.cons.inj (encoded.symm.trans several)
    exact .inr ⟨p, opened, completes⟩

theorem utf8EncodeChar_eq_cons_iff (opened : opening? b = some p) :
    String.utf8EncodeChar c = b :: rest ↔ Completes p rest c := by
  refine ⟨fun encoded => ?_, utf8EncodeChar_of_completes opened⟩
  rcases cases_of_utf8EncodeChar encoded with ⟨ascii, -⟩ | ⟨q, opened', completes⟩
  · exact absurd ascii (not_ascii_of_opening? opened)
  · obtain rfl := Option.some.inj (opened.symm.trans opened')
    exact completes

theorem utf8EncodeChar_ne_cons (beyond : ¬b < 0x80) (never : opening? b = none) (c : Char)
    (more : List UInt8) : String.utf8EncodeChar c ≠ b :: more := by
  intro encoded
  rcases cases_of_utf8EncodeChar encoded with ⟨ascii, -⟩ | ⟨p, opened, -⟩
  · exact beyond ascii
  · cases never.symm.trans opened

/-! Where a decoder stands. -/

/-- What is missing after the bytes is what the state of the decoder says, and there is a way to go
on. -/
structure Stands (front : List UInt8) (p : Partial) : Prop where
  nonempty : front ≠ []
  completes_iff : ∀ rest c, String.utf8EncodeChar c = front ++ rest ↔ Completes p rest c
  goesOn : p.low ≤ p.high
  missing : 0 < p.missing

theorem Completes.nonempty (completes : Completes p rest c) : rest ≠ [] := by
  cases completes <;> exact List.cons_ne_nil _ _

theorem low_le_high_next (p : Partial) (b : UInt8) : (p.next b).low ≤ (p.next b).high :=
  (by decide : (0x80 : UInt8) ≤ 0xBF)

theorem exists_completes (goesOn : p.low ≤ p.high) (missing : 0 < p.missing) :
    ∃ rest c, Completes p rest c := by
  obtain ⟨n, found⟩ : ∃ n, p.missing = n + 1 := ⟨p.missing - 1, by omega⟩
  have takes : p.low ≤ p.low ∧ p.low ≤ p.high := ⟨UInt8.le_refl _, goesOn⟩
  induction n generalizing p with
  | zero => exact ⟨_, _, .last takes found⟩
  | succ n ih =>
    have fewer : (p.next p.low).missing = n + 1 := by rw [Partial.next, found]; rfl
    have further := low_le_high_next p p.low
    obtain ⟨rest, c, further⟩ := ih further (by omega) fewer ⟨UInt8.le_refl _, further⟩
    exact ⟨_, c, .more takes (by omega) further⟩

namespace Stands

theorem of_opening? (opened : opening? b = some p) : Stands [b] p where
  nonempty := List.cons_ne_nil _ _
  completes_iff _ _ := utf8EncodeChar_eq_cons_iff opened
  goesOn := by
    rcases opening?_cases opened with ⟨n, -, -, -, rfl⟩ | ⟨n, -, -, rfl⟩ | ⟨n, -, -, rfl⟩
    · exact (by decide : (0x80 : UInt8) ≤ 0xBF)
    · simp only
      split
      · subst n
        decide
      · split <;> decide
    · simp only
      split
      · subst n
        decide
      · split <;> decide
  missing := by
    rcases opening?_cases opened with ⟨n, -, -, -, rfl⟩ | ⟨n, -, -, rfl⟩ | ⟨n, -, -, rfl⟩ <;>
      exact Nat.zero_lt_succ _

theorem next (stands : Stands front p) (takes : p.low ≤ b ∧ b ≤ p.high) (several : p.missing ≠ 1) :
    Stands (front ++ [b]) (p.next b) where
  nonempty := List.append_ne_nil_of_left_ne_nil stands.nonempty _
  completes_iff rest c := by
    rw [List.append_assoc, List.singleton_append, stands.completes_iff]
    refine ⟨fun completes => ?_, .more takes several⟩
    cases completes with
    | last _ one => exact absurd one several
    | more _ _ further => exact further
  goesOn := low_le_high_next p b
  missing := by
    have left := stands.missing
    show 0 < p.missing - 1
    omega

theorem whole (stands : Stands front p) (takes : p.low ≤ b ∧ b ≤ p.high) (one : p.missing = 1) :
    String.utf8EncodeChar (Char.ofNat (p.next b).value) = front ++ [b] :=
  (stands.completes_iff _ _).mpr (.last takes one)

theorem begins (stands : Stands front p) : Begins front := by
  obtain ⟨rest, c, completes⟩ := exists_completes stands.goesOn stands.missing
  exact ⟨stands.nonempty, c, rest, completes.nonempty, (stands.completes_iff rest c).mpr completes⟩

theorem takes_iff (stands : Stands front p) : (p.low ≤ b ∧ b ≤ p.high) ↔
    ∃ c more, String.utf8EncodeChar c = front ++ b :: more := by
  constructor
  · intro takes
    by_cases one : p.missing = 1
    · exact ⟨_, [], stands.whole takes one⟩
    · obtain ⟨-, c, rest, -, encoded⟩ := (stands.next takes one).begins
      exact ⟨c, rest, by rw [encoded, List.append_assoc, List.singleton_append]⟩
  · rintro ⟨c, more, encoded⟩
    cases (stands.completes_iff _ _).mp encoded <;> assumption

end Stands

/-! Decoding. -/

namespace Decoder

theorem feed_begins (begins : Begins front) :
    ∃ p, Stands front p ∧ ∀ text, front.foldl feed ⟨text, none⟩ = ⟨text, some p⟩ := by
  obtain ⟨nonempty, c, rest, left, encoded⟩ := begins
  induction front using List.reverseRecOn generalizing rest with
  | nil => exact absurd rfl nonempty
  | append_singleton init b ih =>
    rw [List.append_assoc, List.singleton_append] at encoded
    cases init with
    | nil =>
      rcases cases_of_utf8EncodeChar encoded with ⟨-, whole⟩ | ⟨p, opened, -⟩
      · exact absurd whole left
      · exact ⟨p, .of_opening? opened, fun text => openWith_of_opening? text opened⟩
    | cons d init =>
      obtain ⟨p, stands, fed⟩ :=
        ih (List.cons_ne_nil _ _) (b :: rest) (List.cons_ne_nil _ _) encoded
      have completes := (stands.completes_iff _ _).mp encoded
      cases completes with
      | last => exact absurd rfl left
      | more takes several =>
        refine ⟨p.next b, stands.next takes several, fun text => ?_⟩
        rw [List.foldl_append, fed]
        exact feed_of_takes text takes several

theorem feed_of_not_takes (text : String) (stops : ¬(p.low ≤ b ∧ b ≤ p.high)) :
    feed ⟨text, some p⟩ b = feed ⟨text.push replacement, none⟩ b := by
  simp only [feed, if_neg stops]

theorem finish_of_stops (stands : Stands front p) (stops : Stops front bytes) (text : String) :
    (bytes.foldl feed ⟨text, some p⟩).finish =
      (bytes.foldl feed ⟨text.push replacement, none⟩).finish := by
  cases bytes with
  | nil => rfl
  | cons b bytes =>
    have beyond : ¬(p.low ≤ b ∧ b ≤ p.high) := fun takes => by
      obtain ⟨c, more, encoded⟩ := stands.takes_iff.mp takes
      exact stops b bytes rfl c more encoded
    rw [List.foldl_cons, feed_of_not_takes text beyond, List.foldl_cons]

theorem openWith_of_stray (text : String) (starts : ∀ c more, String.utf8EncodeChar c ≠ b :: more) :
    openWith text b = ⟨text.push replacement, none⟩ := by
  have ascii : ¬b < 0x80 := fun ascii => starts _ [] (utf8EncodeChar_of_ascii ascii)
  have never : opening? b = none := by
    by_contra opens
    obtain ⟨p, opened⟩ := Option.ne_none_iff_exists'.mp opens
    obtain ⟨-, c, more, -, encoded⟩ := (Stands.of_opening? opened).begins
    exact starts c more encoded
  rw [openWith, if_neg ascii, never]

theorem push_append_ofList (front : String) (c : Char) (text : List Char) :
    front.push c ++ String.ofList text = front ++ String.ofList (c :: text) := by
  rw [← String.append_singleton, String.append_assoc, String.ofList_cons]

theorem finish_of_replaces (replaces : Replaces bytes text) (front : String) :
    (bytes.foldl feed ⟨front, none⟩).finish = front ++ String.ofList text := by
  induction replaces generalizing front with
  | nil => exact String.append_empty.symm
  | char c _ ih => rw [List.foldl_append, foldl_feed_utf8EncodeChar, ih, push_append_ofList]
  | broken begins stops _ ih =>
    obtain ⟨p, stands, fed⟩ := feed_begins begins
    rw [List.foldl_append, fed, finish_of_stops stands stops, ih, push_append_ofList]
  | stray starts _ ih =>
    rw [List.foldl_cons, ← push_append_ofList, ← ih]
    exact congrArg (fun d => (List.foldl feed d _).finish) (openWith_of_stray front starts)

def Pending (front : List UInt8) : Option Partial → Prop
  | none => front = []
  | some p => Stands front p

theorem exists_replaces (bytes front : List UInt8) (pending : Option Partial)
    (stands : Pending front pending) : ∃ text, Replaces (front ++ bytes) text := by
  -- by induction on the bytes: what the decoder was in the middle of is completed or replaced
  induction bytes generalizing front pending with
  | nil =>
    cases pending with
    | none =>
      obtain rfl : front = [] := stands
      exact ⟨[], .nil⟩
    | some p => exact ⟨_, .broken stands.begins (fun _ _ none => by cases none) .nil⟩
  | cons b bytes ih =>
    have opens : ∃ text, Replaces (b :: bytes) text := by
      obtain ⟨text, others⟩ := ih [] none rfl
      cases opened : opening? b with
      | some p => exact ih [b] (some p) (.of_opening? opened)
      | none =>
        by_cases ascii : b < 0x80
        · have whole := Replaces.char (Char.ofNat b.toNat) others
          rw [utf8EncodeChar_of_ascii ascii] at whole
          exact ⟨_, whole⟩
        · exact ⟨_, .stray (utf8EncodeChar_ne_cons ascii opened) others⟩
    cases pending with
    | none =>
      obtain rfl : front = [] := stands
      exact opens
    | some p =>
      by_cases takes : p.low ≤ b ∧ b ≤ p.high
      · by_cases one : p.missing = 1
        · obtain ⟨text, others⟩ := ih [] none rfl
          have whole := Replaces.char (Char.ofNat (p.next b).value) others
          rw [Stands.whole stands takes one, List.append_assoc] at whole
          exact ⟨_, whole⟩
        · have further := ih (front ++ [b]) (some (p.next b)) (Stands.next stands takes one)
          rwa [List.append_assoc] at further
      · obtain ⟨text, others⟩ := opens
        refine ⟨_, .broken (Stands.begins stands) (fun d _ same c more encoded => ?_) others⟩
        obtain ⟨rfl, -⟩ := List.cons.inj same
        exact takes ((Stands.takes_iff stands).mpr ⟨c, more, encoded⟩)

end Decoder

theorem replaces_iff : Replaces bytes text ↔ decode bytes = String.ofList text := by
  have decoded {text : List Char} (replaces : Replaces bytes text) :
      decode bytes = String.ofList text :=
    (Decoder.finish_of_replaces replaces "").trans String.empty_append
  refine ⟨decoded, fun same => ?_⟩
  obtain ⟨text', replaces⟩ := Decoder.exists_replaces bytes [] none rfl
  obtain rfl := String.ofList_injective ((decoded replaces).symm.trans same)
  exact replaces

end SchemeCore.Utf8
