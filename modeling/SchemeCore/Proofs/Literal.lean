import SchemeCore.Text.Literal
import Mathlib.Data.List.Nodup
import Std.Data.String.ToInt

/-! Where literals end. A string literal ends with its closing quote, whatever follows it. Words end
before a blank or a parenthesis that closes, or at the end of the text; so does a character literal,
but it takes at least one character, which may be one of these. -/

namespace SchemeCore.Literal

variable {text text' rest rest' : List Char}

/-! Strings. -/

theorem readOn?_plain {c : Char} (bare : c ≠ '"' ∧ c ≠ '\\') (rest : List Char) :
    readOn? (c :: rest) = (readOn? rest).map fun (text, rest) => (c :: text, rest) := by
  rw [readOn?.eq_4 c rest bare.1 fun _ _ same => absurd same bare.2]
  cases readOn? rest <;> rfl

theorem readOn?_escaped (c : Char) (rest : List Char) :
    readOn? (escaped c ++ rest) = (readOn? rest).map fun (text, rest) => (c :: text, rest) := by
  have spelt : escaped c = [c] ∨ ∃ e, escaped c = ['\\', e] ∧ unescaped? e = some c := by
    unfold escaped
    split
    case h_6 => exact .inl rfl
    all_goals exact .inr ⟨_, rfl, rfl⟩
  rcases spelt with plain | ⟨e, escape, back⟩
  · have bare : c ≠ '"' ∧ c ≠ '\\' := by constructor <;> rintro rfl <;> cases plain
    rw [plain, List.singleton_append, readOn?_plain bare]
  · rw [escape, List.cons_append, List.singleton_append, readOn?, back]
    cases readOn? rest <;> rfl

theorem readOn?_flatMap (text rest : List Char) :
    readOn? (text.flatMap escaped ++ '"' :: rest) = some (text, rest) := by
  induction text with
  | nil => rfl
  | cons c text ih =>
    rw [List.flatMap_cons, List.append_assoc, readOn?_escaped, ih, Option.map_some]

theorem readString?_string (text rest : List Char) :
    readString? (string text ++ rest) = some (text, rest) := by
  rw [string, List.cons_append, List.cons_append, readString?, List.append_assoc,
    List.singleton_append, readOn?_flatMap]

theorem string_append_inj (same : string text ++ rest = string text' ++ rest') :
    text = text' ∧ rest = rest' := by
  have read := congrArg readString? same
  rw [readString?_string, readString?_string] at read
  cases read
  exact ⟨rfl, rfl⟩

theorem readOn?_append {front : List Char} (read : readOn? front = some (text, rest))
    (more : List Char) : readOn? (front ++ more) = some (text, rest ++ more) := by
  fun_induction readOn? front generalizing text rest with
  | case1 => cases read
  | case2 tail =>
    cases read
    rfl
  | case3 e tail ih =>
    obtain ⟨c, escape, read⟩ := Option.bind_eq_some_iff.mp read
    obtain ⟨⟨text, rest⟩, inner, same⟩ := Option.bind_eq_some_iff.mp read
    cases same
    rw [List.cons_append, List.cons_append, readOn?, escape, ih inner]
    rfl
  | case4 c tail quote backslash ih =>
    obtain ⟨⟨text, rest⟩, inner, same⟩ := Option.bind_eq_some_iff.mp read
    cases same
    have bare : c ≠ '\\' := by
      rintro rfl
      cases tail with
      | nil => cases inner
      | cons e tail => exact backslash e tail rfl rfl
    rw [List.cons_append, readOn?_plain ⟨quote, bare⟩, ih inner, Option.map_some]

theorem readString?_append {front : List Char} (read : readString? front = some (text, rest))
    (more : List Char) : readString? (front ++ more) = some (text, rest ++ more) := by
  unfold readString? at read
  split at read
  · exact readOn?_append read more
  · cases read

theorem readString?_of_append_eq {front back : List Char} (split : front ++ back = string text)
    (more : back ≠ []) : readString? front = none := by
  rw [Option.eq_none_iff_forall_ne_some]
  rintro ⟨text', rest'⟩ read
  have whole := readString?_string text []
  rw [List.append_nil, ← split, readString?_append read back, Option.some.injEq,
    Prod.mk.injEq] at whole
  exact more (List.append_eq_nil_iff.mp whole.2).2

theorem not_mem_string {c : Char} (raw : c ∈ ['\n', '\r', '\t']) : c ∉ string text := by
  have escape (d : Char) : c ∉ escaped d := by
    unfold escaped
    split <;> grind
  have quote : c ≠ '"' := by
    rintro rfl
    exact absurd raw (by decide)
  simp only [string, List.cons_append, List.mem_cons, List.mem_append, List.mem_flatMap, quote,
    escape, List.not_mem_nil, and_false, exists_false, or_self, not_false_eq_true]

/-- A literal is read as its text, whatever follows it, and cut short it is not read at all. None of
the characters that end or indent a line stands in it. -/
theorem string_self_delimiting (text rest : List Char) :
    readString? (string text ++ rest) = some (text, rest) ∧
    (∀ front back, front ++ back = string text → back ≠ [] → readString? front = none) ∧
    ∀ c ∈ ['\n', '\r', '\t'], c ∉ string text :=
  ⟨readString?_string text rest, fun _ _ => readString?_of_append_eq, fun _ => not_mem_string⟩

theorem string_self_delimiting_of_backslashes :
    string ['\\', 'n', '"', '\\'] = ['"', '\\', '\\', 'n', '\\', '"', '\\', '\\', '"'] ∧
    readString? (string ['\\', 'n', '"', '\\'] ++ ['"']) = some (['\\', 'n', '"', '\\'], ['"']) ∧
    readString? ['"', '\\', '\\', 'n', '\\', '"'] = none ∧
    '\n' ∉ string ['\\', 'n', '"', '\\'] := by
  obtain ⟨read, cut, raw⟩ := string_self_delimiting ['\\', 'n', '"', '\\'] ['"']
  exact ⟨rfl, read, cut _ ['\\', '\\', '"'] rfl nofun, raw '\n' List.mem_cons_self⟩

/-! Words. -/

def isBreak (c : Char) : Bool := c == ' ' || c == ')'

def Ends (rest : List Char) : Prop := ∀ c ∈ rest.head?, isBreak c = true

def Unbroken (word : List Char) : Prop := ∀ c ∈ word, isBreak c = false

theorem ends_blank (rest : List Char) : Ends (' ' :: rest) := by
  rintro c ⟨⟩
  rfl

theorem ends_close (rest : List Char) : Ends (')' :: rest) := by
  rintro c ⟨⟩
  rfl

theorem takeWhile_of_ends (ends : Ends rest) : rest.takeWhile (!isBreak ·) = [] := by
  cases rest with
  | nil => rfl
  | cons c rest => rw [List.takeWhile_cons_of_neg (by simp [ends c rfl])]

theorem word_append_inj {word word' : List Char} (whole : Unbroken word) (whole' : Unbroken word')
    (ends : Ends rest) (ends' : Ends rest') (same : word ++ rest = word' ++ rest') :
    word = word' ∧ rest = rest' := by
  have start {word rest : List Char} (whole : Unbroken word) (ends : Ends rest) :
      (word ++ rest).takeWhile (!isBreak ·) = word := by
    rw [List.takeWhile_append_of_pos fun c inside => by rw [whole c inside]; rfl,
      takeWhile_of_ends ends, List.append_nil]
  have words : word = word' := by
    rw [← start whole ends, same, start whole' ends']
  subst words
  exact ⟨rfl, List.append_cancel_left same⟩

theorem unbroken_of_all {p : Char → Bool} {word : List Char} (each : ∀ c ∈ word, p c = true)
    (blank : p ' ' = false) (closing : p ')' = false) : Unbroken word := by
  intro c inside
  have holds := each c inside
  have neither : c ≠ ' ' ∧ c ≠ ')' := by
    constructor
    · rintro rfl
      exact Bool.false_ne_true (blank.symm.trans holds)
    · rintro rfl
      exact Bool.false_ne_true (closing.symm.trans holds)
  simp [isBreak, neither.1, neither.2]

/-- Before the end of a word, the codes of two things are the same only if the things are. -/
def Apart {α : Type} (code : α → List Char) (x y : α) : Prop :=
  ∀ rest rest', Ends rest → Ends rest' → code x ++ rest = code y ++ rest' → x = y ∧ rest = rest'

theorem apart_of_words {α : Type} {code : α → List Char} {x y : α} (whole : Unbroken (code x))
    (whole' : Unbroken (code y)) (inj : code x = code y → x = y) : Apart code x y := by
  intro rest rest' ends ends' same
  obtain ⟨words, rests⟩ := word_append_inj whole whole' ends ends' same
  exact ⟨inj words, rests⟩

/-! Numbers. -/

def isNumeral (c : Char) : Bool := c.isDigit || c == '-'

theorem isNumeral_of_mem {n : Int} {c : Char} (inside : c ∈ (toString n).toList) :
    isNumeral c = true := by
  have digits {m : Nat} (inside : c ∈ m.repr.toList) : c.isDigit = true := by
    rw [Nat.repr_eq_ofList_toDigits, String.toList_ofList] at inside
    exact Nat.isDigit_of_mem_toDigits (by decide) (by decide) inside
  rw [isNumeral, Bool.or_eq_true]
  rw [Int.toString_eq_repr, Int.repr_eq_if] at inside
  split at inside
  · exact .inl (digits inside)
  · rw [String.toList_append, List.mem_append] at inside
    rcases inside with sign | number
    · exact .inr (beq_iff_eq.mpr (List.mem_singleton.mp sign))
    · exact .inl (digits number)

theorem number_eq_cons (n : Int) :
    ∃ c more, (toString n).toList = c :: more ∧ isNumeral c = true := by
  have digits (m : Nat) : m.repr.toList ≠ [] := by
    rw [Nat.repr_eq_ofList_toDigits, String.toList_ofList]
    exact Nat.toDigits_ne_nil
  have some : (toString n).toList ≠ [] := by
    rw [Int.toString_eq_repr, Int.repr_eq_if]
    split
    · exact digits _
    · rw [String.toList_append]
      exact List.append_ne_nil_of_right_ne_nil _ (digits _)
  obtain ⟨c, more, number⟩ := List.exists_cons_of_ne_nil some
  exact ⟨c, more, number, isNumeral_of_mem (by rw [number]; exact List.mem_cons_self)⟩

theorem unbroken_number (n : Int) : Unbroken (toString n).toList :=
  unbroken_of_all (fun _ => isNumeral_of_mem) rfl rfl

theorem number_inj {m n : Int} (same : (toString m).toList = (toString n).toList) : m = n :=
  Int.repr_inj.mp (String.toList_inj.mp same)

/-! Characters. Below the last control there are few enough to look at each of them; from there on a
character is its own spelling. -/

theorem spelled_of_high {c : Char} (high : 160 ≤ c.toNat) : spelled c = [c] := by
  have unnamed : characterName? c = none := by
    unfold characterName?
    split
    case h_10 => rfl
    all_goals omega
  have plain : isControl c = false := by
    simp only [isControl, Bool.or_eq_false_iff, decide_eq_false_iff_not, Bool.and_eq_false_iff]
    omega
  rw [spelled, unnamed]
  simp only [plain]
  rfl

theorem spelled_cases (c : Char) :
    spelled c = [c] ∨ c.toNat < 160 ∧ 2 ≤ (spelled c).length := by
  have low : ∀ n < 160,
      spelled (Char.ofNat n) = [Char.ofNat n] ∨ 2 ≤ (spelled (Char.ofNat n)).length := by
    decide +kernel
  rcases Nat.lt_or_ge c.toNat 160 with small | high
  · have choice := low c.toNat small
    rw [Char.ofNat_toNat] at choice
    exact choice.imp_right fun long => ⟨small, long⟩
  · exact .inl (spelled_of_high high)

theorem spelled_eq_cons (c : Char) : ∃ first more, spelled c = first :: more ∧ Unbroken more := by
  have low : ∀ n < 160, spelled (Char.ofNat n) ≠ [] ∧
      (spelled (Char.ofNat n)).tail.all (!isBreak ·) = true := by decide +kernel
  rcases Nat.lt_or_ge c.toNat 160 with small | high
  · obtain ⟨some, unbroken⟩ := low c.toNat small
    rw [Char.ofNat_toNat] at some unbroken
    obtain ⟨first, more, spelling⟩ := List.exists_cons_of_ne_nil some
    rw [spelling, List.tail_cons, List.all_eq_true] at unbroken
    exact ⟨first, more, spelling, fun d inside => (Bool.not_eq_true' _).mp (unbroken d inside)⟩
  · exact ⟨c, [], spelled_of_high high, nofun⟩

def longCodes : List Nat :=
  (List.range 160).filter fun n => 2 ≤ (spelled (Char.ofNat n)).length

theorem mem_longCodes {c : Char} (small : c.toNat < 160) (long : 2 ≤ (spelled c).length) :
    c.toNat ∈ longCodes := by simp [longCodes, Char.ofNat_toNat, small, long]

theorem spelled_inj {c c' : Char} (same : spelled c = spelled c') : c = c' := by
  have distinct : (longCodes.map fun n => spelled (Char.ofNat n)).Nodup := by decide +kernel
  rcases spelled_cases c with short | ⟨small, long⟩ <;>
    rcases spelled_cases c' with short' | ⟨small', long'⟩
  · rw [short, short'] at same
    exact List.singleton_inj.mp same
  · rw [← same, short, List.length_singleton] at long'
    omega
  · rw [same, short', List.length_singleton] at long
    omega
  · have codes : c.toNat = c'.toNat := by
      refine List.inj_on_of_nodup_map distinct (mem_longCodes small long)
        (mem_longCodes small' long') ?_
      simpa only [Char.ofNat_toNat] using same
    exact Char.toNat_inj.mp codes

theorem apart_character (c c' : Char) : Apart character c c' := by
  intro rest rest' ends ends' same
  -- The first characters may be breaks, so they are compared before the words after them.
  obtain ⟨first, more, spelling, unbroken⟩ := spelled_eq_cons c
  obtain ⟨first', more', spelling', unbroken'⟩ := spelled_eq_cons c'
  have spellings : first :: (more ++ rest) = first' :: (more' ++ rest') := by
    simpa [character, spelling, spelling'] using same
  rw [List.cons.injEq] at spellings
  obtain ⟨firsts, tails⟩ := spellings
  obtain ⟨mores, rests⟩ := word_append_inj unbroken unbroken' ends ends' tails
  exact ⟨spelled_inj (by rw [spelling, spelling', firsts, mores]), rests⟩

end SchemeCore.Literal
