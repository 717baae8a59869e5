import SchemeCore.Datum.Written
import SchemeCore.Proofs.Written

/-! What is written of an object is the written form of its tree, list by list. The printer goes on
along the cdrs of a chain and decides at each pair what comes next; the form of the tree takes the
chain as a whole. They agree as the chain of a tree is its cars and its end, in this order. -/

namespace SchemeCore

namespace Datum

variable (table : Interner)

/-! A tree is its chain. -/

theorem cars_foldr {last : Datum} (single : last.isPair = false) (items : List Datum) :
    (items.foldr .pair last).cars = items := by
  induction items with
  | nil => cases last <;> first | rfl | cases single
  | cons item items ih => rw [List.foldr_cons, cars, ih]

theorem chainEnd_foldr {last : Datum} (single : last.isPair = false) (items : List Datum) :
    (items.foldr .pair last).chainEnd = last := by
  induction items with
  | nil => cases last <;> first | rfl | cases single
  | cons item items ih => rw [List.foldr_cons, chainEnd, ih]

theorem written_foldr {items : List Datum} {last : Datum} (some : items ≠ [])
    (single : last.isPair = false) : (items.foldr .pair last).written table =
      "(" ++ " ".intercalate (items.map (written table)) ++
        (if last.isNull then "" else " . " ++ last.written table) ++ ")" := by
  obtain ⟨item, items, rfl⟩ := List.exists_cons_of_ne_nil some
  have chain := cars_foldr single (item :: items)
  rw [List.foldr_cons] at chain ⊢
  rw [written_pair, chain, chainEnd_foldr single]

/-! The two ways to write a tree. -/

def ending (last : Datum) : List Char :=
  if last.isNull then [] else ' ' :: '.' :: ' ' :: last.text table

theorem tail_of_isPair_eq_false {d : Datum} (single : d.isPair = false) :
    d.tail table = d.ending table ++ [')'] := by
  by_cases null : d = .leaf .null
  · rw [null, Object.null, tail]
    rfl
  · have other : d.isNull = false := by
      cases d with
      | leaf o => simpa [isNull, Object.isNull] using fun same => null (congrArg leaf same)
      | _ => rfl
    rw [tail.eq_3 table d null fun car cdr same => by simp [same, isPair] at single, ending, other]
    simp

theorem tail_eq (d : Datum) : d.tail table =
    (d.cars.map (text table)).flatMap (' ' :: ·) ++ d.chainEnd.ending table ++ [')'] := by
  induction d using cars.induct with
  | case1 car cdr ih =>
    rw [tail, ih, cars, chainEnd, List.map_cons, List.flatMap_cons]
    simp
  | case2 d other =>
    have single : d.isPair = false := by
      cases d with
      | pair car cdr => exact absurd rfl (other car cdr)
      | _ => rfl
    rw [tail_of_isPair_eq_false table single, cars.eq_2 d other, chainEnd.eq_2 d other]
    rfl

theorem text_pair_eq (car cdr : Datum) : (pair car cdr).text table =
    '(' :: ([' '].intercalate ((car :: cdr.cars).map (text table)) ++ cdr.chainEnd.ending table ++
      [')']) := by
  rw [text, tail_eq, List.map_cons, Heap.intercalate_cons, List.append_assoc, List.append_assoc,
    List.append_assoc]

theorem toList_intercalate_written {items : List Datum}
    (each : ∀ d ∈ items, (d.written table).toList = d.text table) :
    (" ".intercalate (items.map (written table))).toList =
      [' '].intercalate (items.map (text table)) := by
  rw [String.toList_intercalate, List.map_map]
  exact congrArg [' '].intercalate (List.map_congr_left each)

theorem toList_written (d : Datum) : (d.written table).toList = d.text table := by
  induction d using written.induct table with
  | case1 o => rw [written, text]
  | case2 chars => rw [written, text, String.toList_ofList]
  | case3 items each =>
    rw [written, text, enclosed, String.toList_append, String.toList_append,
      toList_intercalate_written table each]
    rfl
  | case4 octets =>
    rw [written, text, enclosed, String.toList_append, String.toList_append,
      String.toList_intercalate, List.map_map]
    rfl
  | case5 car cdr first each last =>
    have items : ∀ d ∈ car :: cdr.cars, (d.written table).toList = d.text table := by
      rintro d (_ | ⟨_, inside⟩)
      · exact first
      · exact each ⟨d, inside⟩
    have ended : (if cdr.chainEnd.isNull then "" else " . " ++ cdr.chainEnd.written table).toList =
        cdr.chainEnd.ending table := by
      rw [ending, apply_ite String.toList, String.toList_append, last]
      rfl
    rw [written_pair, text_pair_eq, String.toList_append, String.toList_append,
      String.toList_append, cars, toList_intercalate_written table items, ended]
    rfl

theorem written_eq (d : Datum) : d.written table = String.ofList (d.text table) :=
  String.toList_inj.mp ((toList_written table d).trans String.toList_ofList.symm)

theorem written_pair_pair (car x xs : Datum) : ∃ rest,
    (pair x xs).written table = "(" ++ rest ∧
    (pair car (pair x xs)).written table = "(" ++ car.written table ++ " " ++ rest := by
  refine ⟨String.ofList (x.text table ++ xs.tail table), ?_, ?_⟩ <;> rw [← String.toList_inj]
  · rw [toList_written, text, String.toList_append, String.toList_ofList]
    simp
  · rw [toList_written, text, tail, String.toList_append, String.toList_append,
      String.toList_append, String.toList_ofList, toList_written]
    simp

end Datum

namespace Heap

variable {h : Heap} {o : Object} {d : Datum}

theorem written?_eq_written (table : Interner) (unfolds : h.Unfolds o d) :
    h.written? table o = some (d.written table) := by
  rw [written?_of_unfolds unfolds, Datum.written_eq]

theorem Unfolds.exists_pair {a : Addr} (unfolds : h.Unfolds (.pair a) d) :
    ∃ x xs, d = .pair x xs := by
  cases unfolds with
  | leaf bare => cases bare
  | pair => exact ⟨_, _, rfl⟩
  | string found | vector found | bytes found => cases (sequence?_eq_some_iff.mp found).1

/-- What is written of an object with a finite unfolding is the form of its tree, so that the cells
it lives in and how they are shared make no difference. Of a chain this is all the cars and then
what comes after them; and a pair whose cdr is a pair goes on in the list of that pair, never with a
point. -/
theorem written_by_tree (table : Interner) (h : Heap) (o : Object) (d : Datum)
    (unfolds : h.Unfolds o d) :
    h.written? table o = some (d.written table) ∧
    (∀ (h' : Heap) o', h'.Unfolds o' d → h'.written? table o' = h.written? table o) ∧
    (∀ (items : List Datum) (last : Datum), items ≠ [] → last.isPair = false →
      d = items.foldr .pair last → h.written? table o = some
        ("(" ++ " ".intercalate (items.map (Datum.written table)) ++
          (if last.isNull then "" else " . " ++ last.written table) ++ ")")) ∧
    ∀ x a, h.pair? o = some (x, .pair a) → ∃ first rest, h.written? table x = some first ∧
      h.written? table (.pair a) = some ("(" ++ rest) ∧
      h.written? table o = some ("(" ++ first ++ " " ++ rest) := by
  have written := written?_eq_written table unfolds
  refine ⟨written, fun h' o' unfolds' => ?_, ?_, ?_⟩
  · rw [written, written?_eq_written table unfolds']
  · rintro items last some single rfl
    rw [written, Datum.written_foldr table some single]
  · intro x a found
    obtain ⟨car, cdr, rfl, left, right⟩ := unfolds.of_pair found
    obtain ⟨y, ys, rfl⟩ := right.exists_pair
    obtain ⟨rest, tail, whole⟩ := Datum.written_pair_pair table car y ys
    refine ⟨car.written table, rest, written?_eq_written table left, ?_, ?_⟩
    · rw [written?_eq_written table right, tail]
    · rw [written, whole]

def pointed : Heap :=
  ⟨#[.pair (.string 1) (.pair 2), .string #['s'], .pair (.vector 3) (.fixnum 7),
    .vector #[.string 1, .bytes 4], .bytes #[0, 255]]⟩

def pointedTree : Datum :=
  .pair (.string ['s']) (.pair (.vector [.string ['s'], .bytes [0, 255]]) (.leaf (.fixnum 7)))

theorem unfolds_pointed : pointed.Unfolds (.pair 0) pointedTree := by
  have chars : pointed.sequence? .string (.string 1) = some (1, #['s']) := rfl
  have octets : pointed.sequence? .bytes (.bytes 4) = some (4, #[0, 255]) := rfl
  have slots : pointed.sequence? .vector (.vector 3) = some (3, #[.string 1, .bytes 4]) := rfl
  have vector : pointed.Unfolds (.vector 3) (.vector [.string ['s'], .bytes [0, 255]]) := by
    refine .vector slots rfl fun n hs hi => ?_
    rcases n with _ | _ | n
    · exact .string chars
    · exact .bytes octets
    · exact absurd hi (by simp)
  exact .pair rfl (.string chars) (.pair rfl vector (.leaf rfl))

theorem written_by_tree_of_pointed : pointed.Unfolds (.pair 0) pointedTree ∧
    pointed.written? .empty (.pair 0) = some "(\"s\" #(\"s\" #u8(0 255)) . 7)" := by
  obtain ⟨written, -⟩ :=
    written_by_tree .empty pointed (.pair 0) pointedTree unfolds_pointed
  refine ⟨unfolds_pointed, written.trans ?_⟩
  cbv

end Heap

end SchemeCore
