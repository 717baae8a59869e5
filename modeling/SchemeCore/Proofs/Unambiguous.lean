import SchemeCore.Proofs.Equality
import SchemeCore.Proofs.Interning
import SchemeCore.Proofs.Literal
import SchemeCore.Proofs.Written

/-! The text of a tree tells the tree. The first characters tell which kind of datum comes, and from
there each kind is read to its own end: a literal to its quote, a word to the next blank or
parenthesis, a list or a vector to the parenthesis that closes it. So two texts that begin alike
are texts of one tree, whatever follows them, and objects of one tree are equal. -/

namespace SchemeCore

open Literal

/-! What comes is told by how it begins. -/

inductive Scalar where
  | immediate
  | number
  | character
  | word

inductive Opening where
  | leaf (scalar : Scalar)
  | pair
  | string
  | vector
  | bytes

/-- The kind of datum at the start of a text; none starts with a blank, a point or `)`. -/
def opening? : List Char → Option Opening
  | '(' :: ')' :: _ => some (.leaf .immediate)
  | '(' :: _ => some .pair
  | '"' :: _ => some .string
  | '#' :: '(' :: _ => some .vector
  | '#' :: 'u' :: _ => some .bytes
  | '#' :: '\\' :: _ => some (.leaf .character)
  | '#' :: _ => some (.leaf .immediate)
  | c :: _ =>
    if c.isAlpha then some (.leaf .word)
    else if isNumeral c then some (.leaf .number)
    else none
  | [] => none

def Object.scalar : Object → Scalar
  | .immediate _ => .immediate
  | .fixnum _ => .number
  | .character _ => .character
  | _ => .word

def Datum.opening : Datum → Opening
  | .leaf o => .leaf o.scalar
  | .pair .. => .pair
  | .string _ => .string
  | .vector _ => .vector
  | .bytes _ => .bytes

variable {table : Interner} {rest rest' : List Char}

theorem opening?_letter {c : Char} (letter : c.isAlpha = true) (rest : List Char) :
    opening? (c :: rest) = some (.leaf .word) := by
  unfold opening?
  split <;> simp_all

theorem isAlpha_eq_false {c : Char} (numeral : isNumeral c = true) : c.isAlpha = false := by
  have low : ∀ n < 58, (Char.ofNat n).isAlpha = false := by decide
  have small : c.toNat < 58 := by
    rcases (Bool.or_eq_true ..).mp numeral with digit | sign
    · exact Nat.lt_succ_of_le (Char.isDigit_iff_toNat.mp digit).2
    · rw [beq_iff_eq.mp sign]
      decide
  rw [← Char.ofNat_toNat c]
  exact low c.toNat small

theorem opening?_numeral {c : Char} (numeral : isNumeral c = true) (rest : List Char) :
    opening? (c :: rest) = some (.leaf .number) := by
  have other := isAlpha_eq_false numeral
  unfold opening?
  split <;> simp_all [isNumeral]

theorem opening?_list {text : List Char} {kind : Opening} (inner : opening? text = some kind) :
    opening? ('(' :: text) = some .pair := by
  refine opening?.eq_2 text ?_
  rintro more rfl
  cases inner

theorem ne_of_opening? {text other : List Char} {kind : Opening} (begun : opening? text = some kind)
    (nothing : opening? other = none) : text ≠ other := by
  rintro rfl
  cases begun.symm.trans nothing

namespace Symbol

variable {s : Symbol} {name : String}

theorem text_eq (known : s.text? table = some name) : s.text table = name := by
  rw [text, known, Option.getD_some]

theorem isWord_iff {letters : List Char} : isWord letters = true ↔
    ∃ c more, letters = c :: more ∧ c.isAlpha = true ∧ ∀ d ∈ more, isNameChar d = true := by
  cases letters <;> simp [isWord]

end Symbol

namespace Datum

variable {d e : Datum} {o p : Object}

/-! Texts of one level, before whatever follows. -/

theorem text_immediate (i : Immediate) : text table (.leaf (.immediate i)) = i.written.toList := by
  rw [text, Object.atom?, Option.getD_some]

theorem text_fixnum (n : Int64) : text table (.leaf (.fixnum n)) = (toString n.toInt).toList := by
  rw [text, Object.atom?, Option.getD_some]

theorem text_character (c : Char) : text table (.leaf (.character c)) = character c := by
  rw [text, Object.atom?, Option.getD_some, String.toList_ofList]

theorem text_symbol {s : Symbol} {name : String} (known : s.text? table = some name) :
    text table (.leaf (.symbol s)) = name.toList := by
  rw [text, Object.atom?, Option.getD_some, Symbol.text_eq known]

theorem text_pair (car cdr : Datum) (rest : List Char) : text table (.pair car cdr) ++ rest =
    '(' :: (car.text table ++ (cdr.tail table ++ rest)) := by
  rw [text, List.cons_append, List.append_assoc]

theorem tail_pair (car cdr : Datum) (rest : List Char) : tail table (.pair car cdr) ++ rest =
    ' ' :: (car.text table ++ (cdr.tail table ++ rest)) := by
  rw [tail, List.cons_append, List.append_assoc]

theorem tail_null : tail table (.leaf .null) = [')'] := by rw [Object.null, tail]

theorem tail_cases (table : Interner) (d : Datum) (rest : List Char) :
    d = .leaf .null ∨ (∃ car cdr, d = .pair car cdr) ∨
    d.tail table ++ rest = ' ' :: '.' :: ' ' :: (d.text table ++ ')' :: rest) := by
  by_cases null : d = .leaf .null
  · exact .inl null
  · by_cases pair : ∃ car cdr, d = .pair car cdr
    · exact .inr (.inl pair)
    · rw [tail.eq_3 table d null fun car cdr same => pair ⟨car, cdr, same⟩]
      exact .inr (.inr (by simp))

theorem ends_tail (table : Interner) (d : Datum) (rest : List Char) :
    Ends (d.tail table ++ rest) := by
  rcases tail_cases table d rest with rfl | ⟨car, cdr, rfl⟩ | point
  · rw [tail_null]
    exact ends_close rest
  · rw [tail_pair]
    exact ends_blank _
  · rw [point]
    exact ends_blank _

/-- By induction on the tree, for the sake of pairs: what follows the parenthesis of a pair is no
parenthesis that closes, as the text of its car does not start with one. -/
theorem opening?_text (plain : d.IsPlain table) (rest : List Char) :
    opening? (d.text table ++ rest) = some d.opening := by
  induction plain generalizing rest with
  | @leaf o holds =>
    cases o with
    | immediate i =>
      rw [text_immediate]
      cases i <;> simp [Immediate.written, opening?, opening, Object.scalar]
    | fixnum n =>
      obtain ⟨c, more, number, numeral⟩ := number_eq_cons n.toInt
      rw [text_fixnum, number]
      exact opening?_numeral numeral _
    | character c =>
      rw [text_character]
      rfl
    | symbol s =>
      obtain ⟨name, known, word⟩ := holds
      obtain ⟨c, more, letters, letter, -⟩ := Symbol.isWord_iff.mp word
      rw [text_symbol known, letters]
      exact opening?_letter letter _
    | _ => cases holds
  | @pair car cdr _ _ left right =>
    rw [text_pair]
    exact opening?_list (left _)
  | string | vector | bytes =>
    rw [text]
    rfl

theorem opening_eq (plain : d.IsPlain table) (plain' : e.IsPlain table)
    (same : d.text table ++ rest = e.text table ++ rest') : d.opening = e.opening := by
  have begun := opening?_text plain rest
  rw [same, opening?_text plain', Option.some.injEq] at begun
  exact begun.symm

/-! Leaves. -/

theorem written_append_inj {i j : Immediate}
    (same : i.written.toList ++ rest = j.written.toList ++ rest') : i = j ∧ rest = rest' := by
  cases i <;> cases j <;> simp [Immediate.written] at same <;> exact ⟨rfl, same⟩

theorem unbroken_name {name : String} (word : Symbol.isWord name.toList = true) :
    Unbroken name.toList := by
  obtain ⟨c, more, letters, letter, signs⟩ := Symbol.isWord_iff.mp word
  have first : Symbol.isNameChar c = true := by simp [Symbol.isNameChar, Char.isAlphanum, letter]
  rw [letters]
  exact unbroken_of_all (List.forall_mem_cons.mpr ⟨first, signs⟩) rfl rfl

theorem apart_immediate (i j : Immediate) :
    Apart (text table) (.leaf (.immediate i)) (.leaf (.immediate j)) := by
  intro rest rest' _ _ same
  rw [text_immediate, text_immediate] at same
  obtain ⟨rfl, rests⟩ := written_append_inj same
  exact ⟨rfl, rests⟩

theorem apart_fixnum (m n : Int64) :
    Apart (text table) (.leaf (.fixnum m)) (.leaf (.fixnum n)) := by
  refine apart_of_words ?_ ?_ fun same => ?_
  · rw [text_fixnum]
    exact unbroken_number m.toInt
  · rw [text_fixnum]
    exact unbroken_number n.toInt
  · rw [text_fixnum, text_fixnum] at same
    rw [Int64.toInt_inj.mp (number_inj same)]

theorem apart_symbol {texts : List String} {s s' : Symbol} (held : table.Holds texts)
    (plain : (Object.symbol s).IsPlain table) (plain' : (Object.symbol s').IsPlain table) :
    Apart (text table) (.leaf (.symbol s)) (.leaf (.symbol s')) := by
  obtain ⟨name, known, word⟩ := plain
  obtain ⟨name', known', word'⟩ := plain'
  refine apart_of_words ?_ ?_ fun same => ?_
  · rw [text_symbol known]
    exact unbroken_name word
  · rw [text_symbol known']
    exact unbroken_name word'
  · rw [text_symbol known, text_symbol known'] at same
    obtain rfl := String.toList_inj.mp same
    exact congrArg (fun name => leaf (.symbol ⟨name⟩)) (Interner.name_inj held known known')

theorem apart_leaf {texts : List String} (held : table.Holds texts) (plain : o.IsPlain table)
    (plain' : p.IsPlain table) (kind : o.scalar = p.scalar) :
    Apart (text table) (.leaf o) (.leaf p) := by
  cases o with
  | immediate i =>
    cases p with
    | immediate j => exact apart_immediate i j
    | _ => cases kind
  | fixnum m =>
    cases p with
    | fixnum n => exact apart_fixnum m n
    | _ => cases kind
  | character c =>
    cases p with
    | character c' =>
      intro rest rest' ends ends' same
      rw [text_character, text_character] at same
      obtain ⟨rfl, rests⟩ := apart_character c c' rest rest' ends ends' same
      exact ⟨rfl, rests⟩
    | _ => cases kind
  | symbol s =>
    cases p with
    | symbol s' => exact apart_symbol held plain plain'
    | immediate | fixnum | character => cases kind
    | _ => cases plain'
  | _ => cases plain

/-! Items between parentheses. -/

section Enclosed

variable {α : Type} {code : α → List Char} {xs ys : List α}

theorem ends_items (items : List (List Char)) (rest : List Char) :
    Ends (items.flatMap (' ' :: ·) ++ ')' :: rest) := by
  cases items with
  | nil => exact ends_close rest
  | cons item items => exact ends_blank _

theorem items_append_inj (apart : ∀ x ∈ xs, ∀ y ∈ ys, Apart code x y)
    (same : (xs.map code).flatMap (' ' :: ·) ++ ')' :: rest =
      (ys.map code).flatMap (' ' :: ·) ++ ')' :: rest') : xs = ys ∧ rest = rest' := by
  induction xs generalizing ys with
  | nil =>
    cases ys with
    | nil => exact ⟨rfl, (List.cons.inj same).2⟩
    | cons y ys => cases same
  | cons x xs ih =>
    cases ys with
    | nil => cases same
    | cons y ys =>
      simp only [List.map_cons, List.flatMap_cons, List.cons_append, List.append_assoc,
        List.cons.injEq, true_and] at same
      obtain ⟨rfl, more⟩ := apart x List.mem_cons_self y List.mem_cons_self _ _
        (ends_items _ _) (ends_items _ _) same
      obtain ⟨rfl, rests⟩ := ih (fun x hx y hy =>
        apart x (List.mem_cons_of_mem _ hx) y (List.mem_cons_of_mem _ hy)) more
      exact ⟨rfl, rests⟩

theorem blank_enclosed (x : α) (xs : List α) (rest : List Char) :
    ' ' :: (enclosed ((x :: xs).map code) ++ rest) =
      ((x :: xs).map code).flatMap (' ' :: ·) ++ ')' :: rest := by
  rw [enclosed, List.map_cons, Heap.intercalate_cons]
  simp

def Begun (code : α → List Char) (xs : List α) : Prop :=
  ∀ x ∈ xs, ∀ rest, ∃ kind, opening? (code x ++ rest) = some kind

theorem enclosed_ne_close {x : α} (begun : Begun code (x :: xs)) (rest rest' : List Char) :
    enclosed ((x :: xs).map code) ++ rest ≠ ')' :: rest' := by
  rw [enclosed, List.map_cons, Heap.intercalate_cons, List.append_assoc, List.append_assoc]
  obtain ⟨kind, first⟩ := begun x List.mem_cons_self _
  exact ne_of_opening? first rfl

theorem enclosed_append_inj (apart : ∀ x ∈ xs, ∀ y ∈ ys, Apart code x y) (begun : Begun code xs)
    (begun' : Begun code ys)
    (same : enclosed (xs.map code) ++ rest = enclosed (ys.map code) ++ rest') :
    xs = ys ∧ rest = rest' := by
  cases xs with
  | nil =>
    cases ys with
    | nil => exact ⟨rfl, List.append_cancel_left same⟩
    | cons y ys => exact absurd same.symm (enclosed_ne_close begun' rest' rest)
  | cons x xs =>
    cases ys with
    | nil => exact absurd same (enclosed_ne_close begun rest rest')
    | cons y ys =>
      refine items_append_inj apart ?_
      rw [← blank_enclosed, ← blank_enclosed, same]

theorem begun_text {items : List Datum} (plain : ∀ d ∈ items, d.IsPlain table) :
    Begun (text table) items := fun d inside rest =>
  ⟨d.opening, opening?_text (plain d inside) rest⟩

theorem begun_decimal (octets : List UInt8) : Begun decimal octets := by
  intro b _ rest
  obtain ⟨c, more, number, numeral⟩ := number_eq_cons b.toNat
  have whole : decimal b = c :: more := number
  rw [whole]
  exact ⟨_, opening?_numeral numeral _⟩

theorem apart_decimal (b b' : UInt8) : Apart decimal b b' := by
  refine apart_of_words (unbroken_number b.toNat) (unbroken_number b'.toNat) fun same => ?_
  have values : b.toNat = b'.toNat := Int.ofNat.inj (number_inj same)
  exact UInt8.toNat_inj.mp values

end Enclosed

/-! Trees. -/

/-- A datum is told by its text and also by what is written of it as the end of a chain. -/
structure Told (table : Interner) (d : Datum) : Prop where
  text {e : Datum} (plain : e.IsPlain table) : Apart (Datum.text table) d e
  tail {e : Datum} (plain : e.IsPlain table) {rest rest' : List Char}
    (same : d.tail table ++ rest = e.tail table ++ rest') : d = e ∧ rest = rest'

theorem told_of_text (null : d ≠ .leaf .null) (pair : ∀ car cdr, d ≠ .pair car cdr)
    (text : ∀ {e}, e.IsPlain table → Apart (Datum.text table) d e) : Told table d := by
  refine ⟨text, fun {e} plain' rest rest' same => ?_⟩
  have point := ((tail_cases table d rest).resolve_left null).resolve_left
    fun ⟨car, cdr, same⟩ => pair car cdr same
  rw [point] at same
  rcases tail_cases table e rest' with rfl | ⟨car, cdr, rfl⟩ | point'
  · rw [tail_null] at same
    cases same
  · -- One chain goes on with a point and the other with an item, and no item starts with a point.
    rw [tail_pair, List.cons.injEq] at same
    cases plain' with
    | pair left right => exact absurd same.2.symm (ne_of_opening? (opening?_text left _) rfl)
  · rw [point'] at same
    simp only [List.cons.injEq, true_and] at same
    obtain ⟨one, rests⟩ := text plain' _ _ (ends_close rest) (ends_close rest') same
    exact ⟨one, (List.cons.inj rests).2⟩

theorem told_leaf {texts : List String} (held : table.Holds texts) (plain : o.IsPlain table) :
    Told table (.leaf o) := by
  have text {e : Datum} (plain' : e.IsPlain table) : Apart (Datum.text table) (.leaf o) e := by
    intro rest rest' ends ends' same
    have kinds := opening_eq (.leaf plain) plain' same
    cases plain' with
    | leaf plain' => exact apart_leaf held plain plain' (Opening.leaf.inj kinds) _ _ ends ends' same
    | _ => cases kinds
  by_cases null : o = .null
  · subst null
    refine ⟨text, fun {e} plain' rest rest' same => ?_⟩
    rw [tail_null] at same
    rcases tail_cases table e rest' with rfl | ⟨car, cdr, rfl⟩ | point
    · rw [tail_null] at same
      exact ⟨rfl, List.append_cancel_left same⟩
    · rw [tail_pair] at same
      cases same
    · rw [point] at same
      cases same
  · exact told_of_text (fun same => null (leaf.inj same)) nofun text

section Pair

variable {car cdr : Datum}

theorem parts_append_inj {car' cdr' : Datum} (left : Told table car) (right : Told table cdr)
    (plain : car'.IsPlain table) (plain' : cdr'.IsPlain table)
    (same : car.text table ++ (cdr.tail table ++ rest) =
      car'.text table ++ (cdr'.tail table ++ rest')) :
    pair car cdr = pair car' cdr' ∧ rest = rest' := by
  obtain ⟨rfl, tails⟩ :=
    left.text plain _ _ (ends_tail table cdr rest) (ends_tail table cdr' rest') same
  obtain ⟨rfl, rests⟩ := right.tail plain' tails
  exact ⟨rfl, rests⟩

theorem told_pair (plain : car.IsPlain table) (plain' : cdr.IsPlain table)
    (left : Told table car) (right : Told table cdr) : Told table (.pair car cdr) := by
  refine ⟨fun {e} other rest rest' _ _ same => ?_, fun {e} other rest rest' same => ?_⟩
  · have kinds := opening_eq (.pair plain plain') other same
    cases other with
    | pair first more =>
      rw [text_pair, text_pair] at same
      exact parts_append_inj left right first more (List.cons.inj same).2
    | _ => cases kinds
  · rw [tail_pair] at same
    rcases tail_cases table e rest' with rfl | ⟨car', cdr', rfl⟩ | point
    · rw [tail_null] at same
      cases same
    · cases other with
      | pair first more =>
        rw [tail_pair] at same
        exact parts_append_inj left right first more (List.cons.inj same).2
    · rw [point, List.cons.injEq] at same
      exact absurd same.2 (ne_of_opening? (opening?_text plain _) rfl)

end Pair

theorem told_string (chars : List Char) : Told table (.string chars) := by
  refine told_of_text nofun nofun fun plain' rest rest' _ _ same => ?_
  have kinds := opening_eq .string plain' same
  cases plain' with
  | string =>
    rw [text, text] at same
    obtain ⟨rfl, rests⟩ := string_append_inj same
    exact ⟨rfl, rests⟩
  | _ => cases kinds

theorem told_vector {items : List Datum} (plain : ∀ d ∈ items, d.IsPlain table)
    (each : ∀ d ∈ items, Told table d) : Told table (.vector items) := by
  refine told_of_text nofun nofun fun plain' rest rest' _ _ same => ?_
  have kinds := opening_eq (.vector plain) plain' same
  cases plain' with
  | vector plain' =>
    rw [text, text] at same
    simp only [List.cons_append, List.cons.injEq, true_and] at same
    obtain ⟨rfl, rests⟩ := enclosed_append_inj
      (fun d inside e inside' => (each d inside).text (plain' e inside'))
      (begun_text plain) (begun_text plain') same
    exact ⟨rfl, rests⟩
  | _ => cases kinds

theorem told_bytes (octets : List UInt8) : Told table (.bytes octets) := by
  refine told_of_text nofun nofun fun plain' rest rest' _ _ same => ?_
  have kinds := opening_eq .bytes plain' same
  cases plain' with
  | bytes =>
    rw [text, text] at same
    simp only [List.cons_append, List.cons.injEq, true_and] at same
    obtain ⟨rfl, rests⟩ := enclosed_append_inj (fun b _ b' _ => apart_decimal b b')
      (begun_decimal _) (begun_decimal _) same
    exact ⟨rfl, rests⟩
  | _ => cases kinds

theorem told_of_all {texts : List String} (held : table.Holds texts)
    (plain : d.IsPlain table) : Told table d := by
  induction plain with
  | leaf plain => exact told_leaf held plain
  | pair left right car cdr => exact told_pair left right car cdr
  | string => exact told_string _
  | vector plain each => exact told_vector plain each
  | bytes => exact told_bytes _

theorem text_inj {texts : List String} (held : table.Holds texts) (plain : d.IsPlain table)
    (plain' : e.IsPlain table) (same : d.text table = e.text table) : d = e := by
  have told := told_of_all held plain
  exact (told.text plain' [] [] nofun nofun (by rw [same])).1

end Datum

/-! Objects of one tree. -/

namespace Heap

variable {h : Heap} {a b : Object} {d e : Datum}

theorem not_isNaN_of_isPlain {o : Object} (plain : o.IsPlain table) : o.isNaN = false := by
  cases o with
  | flonum => cases plain
  | _ => rfl

theorem equal_of_unfolds (plain : d.IsPlain table) (left : h.Unfolds a d)
    (right : h.Unfolds b d) : Equal h a b := by
  induction left generalizing b with
  | @leaf o bare =>
    cases right
    cases plain with
    | leaf plain => exact .same (by rw [Object.same_self, not_isNaN_of_isPlain plain]; rfl)
  | pair found _ _ car cdr =>
    cases plain with
    | pair first more =>
      cases right with
      | pair found' left' right' => exact .pair found found' (car first left') (cdr more right')
  | @string o i chars found =>
    -- The characters are those of an array, and the rules do not match on such a list.
    generalize same : chars.toList = text at right
    cases right with
    | string found' =>
      obtain rfl := Array.toList_inj.mp same
      exact .string found found'
  | vector found size _ each =>
    cases plain with
    | vector plain =>
      cases right with
      | vector found' size' each' =>
        refine .vector found found' (size.trans size'.symm) fun n hx hy => ?_
        have within := size ▸ hx
        exact each n hx within (plain _ (List.getElem_mem within)) (each' n hy within)
  | @bytes o i octets found =>
    generalize same : octets.toList = text at right
    cases right with
    | bytes found' =>
      obtain rfl := Array.toList_inj.mp same
      exact .bytes found found'

/-- Two objects with finite unfoldings, made of plain leaves over one table, have texts; the texts are
the same exactly if the trees are, and then the objects are equal. -/
theorem written_unambiguous {texts : List String} {names : List Name}
    (made : Interner.empty.internAll texts = .ok (names, table)) (left : h.Unfolds a d)
    (right : h.Unfolds b e) (plain : d.IsPlain table) (plain' : e.IsPlain table) :
    ∃ t u, h.written? table a = some t ∧ h.written? table b = some u ∧ (t = u ↔ d = e) ∧
      (t = u → h.equal? a b = some true) := by
  have held : table.Holds texts := Interner.holds_of_internAll Interner.holds_empty made
  have tree (same : String.ofList (d.text table) = String.ofList (e.text table)) : d = e :=
    Datum.text_inj held plain plain' (String.ofList_inj.mp same)
  refine ⟨_, _, written?_of_unfolds left, written?_of_unfolds right, ⟨tree, ?_⟩, fun same => ?_⟩
  · rintro rfl
    rfl
  · obtain rfl := tree same
    exact (equal_of_unfolds plain left right).equal?_eq

/-- Two pairs that share no cell: a symbol and, after the point, a vector that holds a parenthesis,
a negative number and a string with a quote in it. -/
def twins (s : Symbol) : Heap :=
  let items (string : Addr) : Array Object := #[.character ')', .fixnum (-7), .string string]
  ⟨#[.string #['"', ')'], .string #['"', ')'], .vector (items 0), .vector (items 1),
    .pair (.symbol s) (.vector 2), .pair (.symbol s) (.vector 3)]⟩

def twin (s : Symbol) : Datum :=
  .pair (.leaf (.symbol s))
    (.vector [.leaf (.character ')'), .leaf (.fixnum (-7)), .string ['"', ')']])

theorem unfolds_twin {s : Symbol} {i j k : Addr} (string : h.cell? i = some (.string #['"', ')']))
    (vector : h.cell? j = some (.vector #[.character ')', .fixnum (-7), .string i]))
    (pair : h.cell? k = some (.pair (.symbol s) (.vector j))) : h.Unfolds (.pair k) (twin s) := by
  refine .pair (pair?_eq_some_iff.mpr ⟨k, rfl, pair⟩) (.leaf rfl)
    (.vector (sequence?_eq_some_iff.mpr ⟨rfl, vector⟩) rfl fun n hs hi => ?_)
  match n with
  | 0 => exact .leaf rfl
  | 1 => exact .leaf rfl
  | 2 => exact .string (sequence?_eq_some_iff.mpr ⟨rfl, string⟩)

theorem plain_twin {s : Symbol} (plain : (Object.symbol s).IsPlain table) :
    (twin s).IsPlain table := by
  refine .pair (.leaf plain) (.vector fun d inside => ?_)
  simp only [List.mem_cons, List.not_mem_nil, or_false] at inside
  rcases inside with rfl | rfl | rfl
  · exact .leaf trivial
  · exact .leaf trivial
  · exact .string

theorem written_unambiguous_of_twins : ∃ names table s,
    Interner.empty.internAll ["list->vector"] = .ok (names, table) ∧
    Symbol.text? table s = some "list->vector" ∧
    (twins s).equal? (.pair 4) (.pair 5) = some true := by
  have fits : Interner.Fits ["list->vector"] := by
    unfold Interner.Fits
    decide
  obtain ⟨table, made, held⟩ := Interner.internAll_of_holds Interner.holds_empty fits
  let s : Symbol := ⟨Interner.nameIn ["list->vector"] "list->vector"⟩
  have known : s.text? table = some "list->vector" :=
    Interner.lookup?_nameIn held fits List.mem_cons_self
  have left : (twins s).Unfolds (.pair 4) (twin s) := unfolds_twin rfl rfl rfl
  have right : (twins s).Unfolds (.pair 5) (twin s) := unfolds_twin rfl rfl rfl
  have plain : (twin s).IsPlain table := plain_twin ⟨_, known, rfl⟩
  obtain ⟨t, u, -, -, same, equal⟩ := written_unambiguous made left right plain plain
  exact ⟨_, table, s, made, known, equal (same.mpr rfl)⟩

end Heap

end SchemeCore
