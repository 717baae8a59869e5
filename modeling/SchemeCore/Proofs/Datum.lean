import SchemeCore.Datum
import SchemeCore.Proofs.Heap
import Mathlib.Data.Fintype.Card

/-! Objects with a finite unfolding. An object has at most one tree. Its height is no more than the
number of cells: below an object there is one of each smaller height, and objects of different
heights live in different cells. So the depth to which objects are written is enough for all of
them, and what is written is the text of the tree. -/

namespace SchemeCore

variable {h : Heap} {o : Object} {d e : Datum}

namespace Heap.Unfolds

/-! What an object is tells what its tree is. -/

theorem of_bare (bare : o.hasContents = false) (unfolds : h.Unfolds o d) : d = .leaf o := by
  cases unfolds with
  | leaf => rfl
  | pair found =>
    obtain ⟨a, rfl, -⟩ := pair?_eq_some_iff.mp found
    cases bare
  | string found | vector found | bytes found =>
    obtain ⟨rfl, -⟩ := sequence?_eq_some_iff.mp found
    cases bare

theorem of_pair {x xs : Object} (found : h.pair? o = some (x, xs)) (unfolds : h.Unfolds o d) :
    ∃ car cdr, d = .pair car cdr ∧ h.Unfolds x car ∧ h.Unfolds xs cdr := by
  obtain ⟨a, rfl, -⟩ := pair?_eq_some_iff.mp found
  cases unfolds with
  | leaf bare => cases bare
  | pair found' left right =>
    cases found.symm.trans found'
    exact ⟨_, _, rfl, left, right⟩
  | string found' | vector found' | bytes found' => cases (sequence?_eq_some_iff.mp found').1

theorem of_string {a : Addr} {chars : Array Char} (found : h.sequence? .string o = some (a, chars))
    (unfolds : h.Unfolds o d) : d = .string chars.toList := by
  obtain ⟨rfl, -⟩ := sequence?_eq_some_iff.mp found
  cases unfolds with
  | leaf bare => cases bare
  | pair found' =>
    obtain ⟨b, kind, -⟩ := pair?_eq_some_iff.mp found'
    cases kind
  | string found' =>
    cases found.symm.trans found'
    rfl
  | vector found' | bytes found' => cases (sequence?_eq_some_iff.mp found').1

theorem of_vector {a : Addr} {slots : Array Object}
    (found : h.sequence? .vector o = some (a, slots)) (unfolds : h.Unfolds o d) :
    ∃ items, d = .vector items ∧ slots.size = items.length ∧
      ∀ n (hs : n < slots.size) (hi : n < items.length), h.Unfolds slots[n] items[n] := by
  obtain ⟨rfl, -⟩ := sequence?_eq_some_iff.mp found
  cases unfolds with
  | leaf bare => cases bare
  | pair found' =>
    obtain ⟨b, kind, -⟩ := pair?_eq_some_iff.mp found'
    cases kind
  | vector found' size each =>
    cases found.symm.trans found'
    exact ⟨_, rfl, size, each⟩
  | string found' | bytes found' => cases (sequence?_eq_some_iff.mp found').1

theorem of_bytes {a : Addr} {octets : Array UInt8} (found : h.sequence? .bytes o = some (a, octets))
    (unfolds : h.Unfolds o d) : d = .bytes octets.toList := by
  obtain ⟨rfl, -⟩ := sequence?_eq_some_iff.mp found
  cases unfolds with
  | leaf bare => cases bare
  | pair found' =>
    obtain ⟨b, kind, -⟩ := pair?_eq_some_iff.mp found'
    cases kind
  | bytes found' =>
    cases found.symm.trans found'
    rfl
  | string found' | vector found' => cases (sequence?_eq_some_iff.mp found').1

theorem unique (left : h.Unfolds o d) (right : h.Unfolds o e) : d = e := by
  induction left generalizing e with
  | leaf bare => exact (right.of_bare bare).symm
  | pair found _ _ car cdr =>
    obtain ⟨car', cdr', rfl, left', right'⟩ := right.of_pair found
    rw [car left', cdr right']
  | string found => exact (right.of_string found).symm
  | vector found size _ each =>
    obtain ⟨items', rfl, size', each'⟩ := right.of_vector found
    congr 1
    refine List.ext_getElem (size.symm.trans size') fun n hi hi' => ?_
    exact each n (size ▸ hi) hi (each' n (size ▸ hi) hi')
  | bytes found => exact (right.of_bytes found).symm

end Heap.Unfolds

/-! Heights. -/

namespace Datum

def height : Datum → Nat
  | .leaf _ => 0
  | .string _ | .bytes _ => 1
  | .pair car cdr => max car.height cdr.height + 1
  | .vector items => (items.map height).foldr max 0 + 1

theorem le_foldr_max {items : List Datum} (inside : d ∈ items) :
    d.height ≤ (items.map height).foldr max 0 := by
  induction items with
  | nil => cases inside
  | cons e items ih =>
    rw [List.map_cons, List.foldr_cons]
    rcases List.mem_cons.mp inside with rfl | inside
    · exact Nat.le_max_left ..
    · exact Nat.le_trans (ih inside) (Nat.le_max_right ..)

theorem exists_mem_of_le_foldr_max {items : List Datum} {n : Nat} (pos : 0 < n)
    (le : n ≤ (items.map height).foldr max 0) : ∃ d ∈ items, n ≤ d.height := by
  induction items with
  | nil => exact absurd pos (Nat.not_lt_of_le le)
  | cons e items ih =>
    rw [List.map_cons, List.foldr_cons, le_max_iff] at le
    rcases le with here | there
    · exact ⟨e, List.mem_cons_self, here⟩
    · obtain ⟨d, inside, le⟩ := ih there
      exact ⟨d, List.mem_cons_of_mem e inside, le⟩

end Datum

namespace Heap

def objectAt? (h : Heap) (a : Addr) : Option Object :=
  match h.cell? a with
  | some (.pair ..) => some (.pair a)
  | some (.string _) => some (.string a)
  | some (.vector _) => some (.vector a)
  | some (.bytes _) => some (.bytes a)
  | _ => none

theorem objectAt?_of_pair? {p : Object × Object} (found : h.pair? o = some p) :
    ∃ a, h.objectAt? a = some o := by
  obtain ⟨a, rfl, cell⟩ := pair?_eq_some_iff.mp found
  exact ⟨a, by rw [objectAt?, cell]⟩

theorem objectAt?_of_sequence? {k : Sequence} {p : Addr × Array k.Slot}
    (found : h.sequence? k o = some p) : ∃ a, h.objectAt? a = some o := by
  obtain ⟨rfl, cell⟩ := sequence?_eq_some_iff.mp found
  exact ⟨p.1, by rw [objectAt?, cell]; cases k <;> rfl⟩

theorem lt_size_of_objectAt? {a : Addr} (found : h.objectAt? a = some o) : a < h.size := by
  cases cell : h.cell? a with
  | none =>
    rw [objectAt?, cell] at found
    cases found
  | some c => exact lt_size_of_cell? cell

theorem Unfolds.objectAt? (unfolds : h.Unfolds o d) (pos : 0 < d.height) :
    ∃ a, h.objectAt? a = some o := by
  cases unfolds with
  | leaf =>
    rw [Datum.height] at pos
    exact absurd pos (Nat.lt_irrefl 0)
  | pair found => exact objectAt?_of_pair? found
  | string found | vector found | bytes found => exact objectAt?_of_sequence? found

theorem Unfolds.exists_height {n : Nat} (unfolds : h.Unfolds o d) (pos : 0 < n)
    (le : n ≤ d.height) : ∃ p e, h.Unfolds p e ∧ e.height = n := by
  induction unfolds with
  | leaf =>
    rw [Datum.height] at le
    omega
  | string found =>
    refine ⟨_, _, .string found, ?_⟩
    rw [Datum.height] at le ⊢
    omega
  | bytes found =>
    refine ⟨_, _, .bytes found, ?_⟩
    rw [Datum.height] at le ⊢
    omega
  | @pair o x xs dx dxs found left right car cdr =>
    rcases Nat.eq_or_lt_of_le le with here | below
    · exact ⟨o, _, .pair found left right, here.symm⟩
    · rw [Datum.height] at below
      rcases le_max_iff.mp (Nat.le_of_lt_succ below) with le | le
      · exact car le
      · exact cdr le
  | @vector o a slots items found size each item =>
    rcases Nat.eq_or_lt_of_le le with here | below
    · exact ⟨o, _, .vector found size each, here.symm⟩
    · rw [Datum.height] at below
      obtain ⟨e, inside, le⟩ :=
        Datum.exists_mem_of_le_foldr_max pos (Nat.le_of_lt_succ below)
      obtain ⟨i, lt, rfl⟩ := List.getElem_of_mem inside
      exact item i (size ▸ lt) lt le

theorem Unfolds.height_le (unfolds : h.Unfolds o d) : d.height ≤ h.size := by
  have below : ∀ n : Fin d.height, ∃ a : Fin h.size, ∃ p e, h.objectAt? a = some p ∧
      h.Unfolds p e ∧ e.height = n + 1 := fun n => by
    obtain ⟨p, e, unfolds', height⟩ := unfolds.exists_height (Nat.succ_pos n) n.isLt
    obtain ⟨a, found⟩ := unfolds'.objectAt? (height ▸ Nat.succ_pos n)
    exact ⟨⟨a, lt_size_of_objectAt? found⟩, p, e, found, unfolds', height⟩
  choose address object tree found unfolds height using below
  have injective : Function.Injective address := by
    intro m n same
    have one : object m = object n :=
      Option.some.inj ((found m).symm.trans ((congrArg (h.objectAt? ·.val) same).trans (found n)))
    have trees : tree m = tree n := (unfolds m).unique (one ▸ unfolds n)
    have heights := (height m).symm.trans ((congrArg Datum.height trees).trans (height n))
    exact Fin.ext (Nat.succ.inj heights)
  simpa using Fintype.card_le_of_injective address injective

end Heap

end SchemeCore
