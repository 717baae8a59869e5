import SchemeCore.Proofs.Step
import Mathlib.Tactic.ByContra

/-! What the operations on sequences check, and in which order. Each fails with the condition of the
first check that does not hold, and an operation that fails leaves the heap as it was. One that
succeeds writes where it was told to and nowhere else. Whether any operation goes through is decided
by the pairs and the sequences that there are, with the lengths of these. -/

namespace SchemeCore

namespace Sequence

variable {k : Sequence} {slots changed : Array k.Slot} {value : k.Element} {i : Int64}
  {e : Condition} {n : Nat}

/-! A fresh sequence. -/

theorem makeFrom_eq_error_iff {allocates : Nat → Bool} {length : Int64} :
    k.makeFrom allocates length value = .error e ↔
    length < 0 ∧ e = .negativeLength length ∨
    0 ≤ length ∧ k.refusal? value = some e ∨
    0 ≤ length ∧ k.refusal? value = none ∧ allocates length.toNatClampNeg = false ∧
      e = .unallocatable length := by
  rw [makeFrom, ← Int64.not_lt]
  split
  · rename_i negative
    simp only [negative, not_true_eq_false, false_and, or_false, true_and, Except.error.injEq]
    exact eq_comm
  · rename_i sign
    simp only [sign, false_and, false_or, not_false_eq_true, true_and, ← exists_store_iff,
      ← store_eq_error_iff]
    cases k.store value with
    | error e' => simp
    | ok slot => cases allocates length.toNatClampNeg <;> simp [@eq_comm _ e]

theorem exists_makeFrom_iff {allocates : Nat → Bool} {length : Int64} :
    (∃ slots, k.makeFrom allocates length value = .ok slots) ↔
      0 ≤ length ∧ k.refusal? value = none ∧ allocates length.toNatClampNeg = true := by
  rw [← exists_store_iff]
  simp only [makeFrom_eq_ok_iff]
  constructor
  · rintro ⟨slots, sign, had, slot, stored, -⟩
    exact ⟨sign, ⟨slot, stored⟩, had⟩
  · rintro ⟨sign, ⟨slot, stored⟩, had⟩
    exact ⟨_, sign, had, slot, stored, rfl⟩

/-! The slots of a sequence. -/

theorem get_eq (slots : Array k.Slot) (i : Int64) : k.get slots i =
    ((slotAt? slots i).map k.load).elim (.error (.badIndex k.noun i slots.size)) .ok := by
  unfold get index slotAt?
  by_cases low : 0 ≤ i
  · by_cases high : i.toNatClampNeg < slots.size <;> simp [low, high]
  · simp [low]

theorem get_eq_error_iff :
    k.get slots i = .error e ↔ ¬Within i slots.size ∧ e = .badIndex k.noun i slots.size := by
  rw [get, ← index_eq_error_iff]
  cases k.index i slots.size with
  | ok m => exact iff_of_false nofun nofun
  | error e' => rw [Except.error.injEq, Except.error.injEq]

theorem get_eq_ok_iff :
    k.get slots i = .ok value ↔ 0 ≤ i ∧ (k.elements slots)[i.toNatClampNeg]? = some value := by
  rw [get_eq, elements, List.getElem?_map, Array.getElem?_toList, slotAt?]
  split
  · rename_i low
    rw [and_iff_right low]
    cases slots[i.toNatClampNeg]? <;> simp
  · rename_i negative
    simp [negative]

theorem set_eq_error_iff : k.set slots i value = .error e ↔
    ¬Within i slots.size ∧ e = .badIndex k.noun i slots.size ∨
    Within i slots.size ∧ k.refusal? value = some e := by
  rw [set, ← index_eq_error_iff, ← exists_index_iff, ← store_eq_error_iff]
  cases k.index i slots.size with
  | error e' => simp
  | ok m => cases k.store value <;> simp

theorem exists_get_iff : (∃ e, k.get slots i = .ok e) ↔ Within i slots.size := by
  rw [get, ← exists_index_iff]
  cases k.index i slots.size <;> simp

theorem exists_set_iff : (∃ changed, k.set slots i value = .ok changed) ↔
    Within i slots.size ∧ k.refusal? value = none := by
  rw [set, ← exists_index_iff, ← exists_store_iff]
  cases k.index i slots.size with
  | error e => simp
  | ok m => cases k.store value <;> simp

theorem exists_fill_iff (slots : Array k.Slot) :
    (∃ changed, k.fill slots value = .ok changed) ↔ k.refusal? value = none := by
  rw [fill, ← exists_store_iff]
  cases k.store value <;> simp

theorem get_of_set (done : k.set slots i value = .ok changed) (j : Int64) :
    k.get changed j = if i = j then .ok value else k.get slots j := by
  rw [get_eq, get_eq, slotAt?_of_set done, size_of_set done]
  split
  · rename_i here
    subst here
    have within : Within i slots.size := by
      by_contra beyond
      cases done.symm.trans (set_eq_error_iff.mpr (.inl ⟨beyond, rfl⟩))
    obtain ⟨low, high⟩ := within_iff.mp within
    simp [slotAt?, low, high]
  · rfl

theorem fill_eq_error_iff (slots : Array k.Slot) :
    k.fill slots value = .error e ↔ k.refusal? value = some e := by
  rw [fill, ← store_eq_error_iff]
  cases k.store value with
  | error e' => rw [Except.error.injEq, Except.error.injEq]
  | ok slot => exact iff_of_false nofun nofun

theorem get_of_fill (done : k.fill slots value = .ok changed) (j : Int64) :
    k.get changed j = (k.get slots j).map fun _ => value := by
  rw [get_eq, get_eq, slotAt?_of_fill done, size_of_fill done]
  cases slotAt? slots j <;> rfl

end Sequence

namespace Heap

variable {h : Heap} {k : Sequence} {a : Addr} {slots changed : Array k.Slot} {o : Object}

/-! What is found after a sequence was written to. -/

theorem sequence?_write_self (found : h.cell? a = some (k.cell slots)) :
    (h.write a (k.cell changed)).sequence? k (k.object a) = some (a, changed) := by
  rw [sequence?_eq_some_iff, cell?_write, if_pos rfl, found]
  exact ⟨rfl, rfl⟩

theorem sequence?_write_of_ne (found : h.cell? a = some (k.cell slots)) {k' : Sequence}
    (other : ¬(k' = k ∧ o = k.object a)) :
    (h.write a (k.cell changed)).sequence? k' o = h.sequence? k' o := by
  refine Option.ext fun ⟨b, slots'⟩ => ?_
  rw [sequence?_eq_some_iff, sequence?_eq_some_iff, cell?_write]
  refine and_congr_right fun address => ?_
  split
  · rename_i here
    subst here
    have apart : k' ≠ k := by
      rintro rfl
      exact other ⟨rfl, address⟩
    have differs (c : Array k.Slot) : k.cell c ≠ k'.cell slots' := fun same => by
      have none := Sequence.slots?_cell_ne apart c
      rw [same, Sequence.slots?_cell] at none
      cases none
    simp [found, differs]
  · rfl

theorem pair?_write (found : h.cell? a = some (k.cell slots)) :
    (h.write a (k.cell changed)).pair? o = h.pair? o := by
  have pairless (c : Array k.Slot) (x y : Object) : k.cell c ≠ .pair x y := by cases k <;> nofun
  refine Option.ext fun ⟨x, y⟩ => ?_
  simp only [pair?_eq_some_iff, cell?_write]
  refine exists_congr fun b => and_congr_right fun _ => ?_
  split
  · rename_i here
    subst here
    simp [found, pairless]
  · rfl

theorem refAt_of_sequence? {o : Option Object} (found : o.bind (h.sequence? k) = some (a, slots))
    (i : Int64) : h.refAt k o i = k.get slots i := by
  rw [refAt, found]

theorem refAt_congr {h' : Heap} {o : Option Object}
    (same : ∀ p, o = some p → h'.sequence? k p = h.sequence? k p) (i : Int64) :
    h'.refAt k o i = h.refAt k o i := by
  cases o with
  | none => rfl
  | some p => rw [refAt, refAt, Option.bind_some, Option.bind_some, same p rfl]

/-- What an operation on one sequence left: new elements in it, and all else as it was. -/
structure Changes (h h' : Heap) (k : Sequence) (o : Option Object)
    (new : Int64 → Except Condition k.Element) : Prop where
  here : ∀ j, h'.refAt k o j = new j
  elsewhere : ∀ k' o' j, ¬(k' = k ∧ o' = o) → h'.refAt k' o' j = h.refAt k' o' j
  pairs : ∀ p, h'.pair? p = h.pair? p

theorem changes_write {o : Option Object} {new : Int64 → Except Condition k.Element}
    (found : o.bind (h.sequence? k) = some (a, slots)) (reads : ∀ j, k.get changed j = new j) :
    h.Changes (h.write a (k.cell changed)) k o new := by
  obtain ⟨p, rfl, found⟩ := Option.bind_eq_some_iff.mp found
  obtain ⟨rfl, cell⟩ := sequence?_eq_some_iff.mp found
  refine ⟨fun j => ?_, fun k' o' j other => ?_, fun p => pair?_write cell⟩
  · have here : (some (k.object a)).bind ((h.write a (k.cell changed)).sequence? k) =
        some (a, changed) := sequence?_write_self cell
    rw [refAt_of_sequence? here, reads]
  · refine refAt_congr (fun p this => sequence?_write_of_ne cell fun same => other ?_) j
    exact ⟨same.1, this.trans (congrArg some same.2)⟩

/-! One operation. -/

section Operations

variable {p : Option Object} {i : Int64} {value : k.Element} {e : Condition} {h' : Heap}

theorem refAt_eq_ok_iff : h.refAt k p i = .ok value ↔
    ∃ a slots, p.bind (h.sequence? k) = some (a, slots) ∧
      0 ≤ i ∧ (k.elements slots)[i.toNatClampNeg]? = some value := by
  rw [refAt]
  rcases p.bind (h.sequence? k) with _ | ⟨a, slots⟩
  · simp
  · simp [Sequence.get_eq_ok_iff, and_assoc]

theorem refAt_eq_error_iff : h.refAt k p i = .error e ↔
    p.bind (h.sequence? k) = none ∧ e = .absent k.label ∨
    ∃ a slots, p.bind (h.sequence? k) = some (a, slots) ∧
      ¬Sequence.Within i slots.size ∧ e = .badIndex k.noun i slots.size := by
  rw [refAt]
  rcases p.bind (h.sequence? k) with _ | ⟨a, slots⟩
  · simp [eq_comm]
  · simp [Sequence.get_eq_error_iff, and_assoc]

theorem setAt_eq_error_iff : (h.setAt k p i value).1 = .error e ↔
    p.bind (h.sequence? k) = none ∧ e = .absent k.label ∨
    ∃ a slots, p.bind (h.sequence? k) = some (a, slots) ∧
      (¬Sequence.Within i slots.size ∧ e = .badIndex k.noun i slots.size ∨
        Sequence.Within i slots.size ∧ k.refusal? value = some e) := by
  rw [setAt]
  rcases p.bind (h.sequence? k) with _ | ⟨a, slots⟩
  · simp [eq_comm]
  · simp only [← Sequence.set_eq_error_iff]
    cases written : k.set slots i value <;> simp [written, and_assoc]

theorem changes_setAt (done : (h.setAt k p i value).1 = .ok ()) :
    h.Changes (h.setAt k p i value).2 k p fun j =>
      if i = j then .ok value else h.refAt k p j := by
  revert done
  rw [setAt]
  rcases found : p.bind (h.sequence? k) with _ | ⟨a, slots⟩
  · nofun
  · cases written : k.set slots i value with
    | error e => simp [written]
    | ok changed =>
      simp only [written]
      exact fun _ => changes_write found fun j => by
        rw [Sequence.get_of_set written, refAt_of_sequence? found]

theorem fill_eq_error_iff : (h.fill k o value).1 = .error e ↔
    h.sequence? k o = none ∧ e = .wrongType k.typeName o.typeName ∨
    (h.sequence? k o).isSome ∧ k.refusal? value = some e := by
  rw [fill, expectSequence]
  rcases h.sequence? k o with _ | ⟨a, slots⟩
  · simp [eq_comm]
  · simp only [← Sequence.fill_eq_error_iff slots]
    cases k.fill slots value <;> simp

theorem changes_fill (done : (h.fill k o value).1 = .ok ()) :
    h.Changes (h.fill k o value).2 k (some o) fun j =>
      (h.refAt k (some o) j).map fun _ => value := by
  revert done
  rw [fill, expectSequence]
  rcases found : h.sequence? k o with _ | ⟨a, slots⟩
  · nofun
  · have found : (some o).bind (h.sequence? k) = some (a, slots) := found
    cases written : k.fill slots value with
    | error e => simp [written]
    | ok changed =>
      simp only [written]
      exact fun _ => changes_write found fun j => by
        rw [Sequence.get_of_fill written, refAt_of_sequence? found]

theorem makeSequence_eq_error_iff {allocates : Nat → Bool} {length : Int64} :
    (h.makeSequence allocates k length value).1 = .error e ↔
      k.makeFrom allocates length value = .error e := by
  rw [makeSequence]
  cases k.makeFrom allocates length value with
  | ok slots => exact iff_of_false nofun nofun
  | error e' => rw [Except.error.injEq, Except.error.injEq]

structure Gains (h h' : Heap) (k : Sequence) (o : Object) (slots : Array k.Slot) : Prop where
  here : h'.sequence? k o = some (h.size, slots)
  elsewhere : ∀ a c, h.cell? a = some c → h'.cell? a = some c
  size : h'.size = h.size + 1

theorem gains_makeSequence {allocates : Nat → Bool} {length : Int64}
    (done : (h.makeSequence allocates k length value).1 = .ok o) :
    ∃ slots, k.makeFrom allocates length value = .ok slots ∧
      h.Gains (h.makeSequence allocates k length value).2 k o slots := by
  revert done
  rw [makeSequence]
  cases made : k.makeFrom allocates length value with
  | error e => nofun
  | ok slots =>
    intro done
    obtain rfl : k.object h.size = o := Except.ok.inj done
    refine ⟨slots, rfl, ?_, fun a c found => ?_, size_alloc _⟩
    · have stored : (h.alloc (k.cell slots)).2.cell? h.size = some (k.cell slots) := by
        rw [cell?_alloc, if_pos rfl]
      exact sequence?_eq_some_iff.mpr ⟨rfl, stored⟩
    · have older : (h.alloc (k.cell slots)).2.cell? a = h.cell? a := by
        rw [cell?_alloc, if_neg (Nat.ne_of_lt (lt_size_of_cell? found))]
      exact older.trans found

end Operations

end Heap

/-! The conditions of failed calls. -/

structure Condition.TellsIndex (e : Condition) (i : Int64) (length : Nat) : Prop where
  kind : e.kind = .outOfBounds
  index : e.irritant? "i" = some (toString i.toInt)
  length : e.irritant? "length" = some (toString length)

theorem Condition.tellsIndex_badIndex (noun : String) (i : Int64) (length : Nat) :
    (badIndex noun i length).TellsIndex i length := ⟨rfl, rfl, rfl⟩

namespace Heap

variable {h : Heap} {k : Sequence} {p : Option Object} {o : Object} {i : Int64}
  {value : k.Element} {e : Condition}

theorem kind_of_refAt (failed : h.refAt k p i = .error e) :
    match p.bind (h.sequence? k) with
    | none => e.kind = .nil
    | some (_, slots) => e.TellsIndex i slots.size := by
  rcases refAt_eq_error_iff.mp failed with ⟨missing, rfl⟩ | ⟨a, slots, found, -, rfl⟩
  · rw [missing]
    rfl
  · rw [found]
    exact Condition.tellsIndex_badIndex ..

theorem kind_of_setAt (failed : (h.setAt k p i value).1 = .error e) :
    match p.bind (h.sequence? k) with
    | none => e.kind = .nil
    | some (_, slots) =>
      if Sequence.Within i slots.size then e.kind = .value else e.TellsIndex i slots.size := by
  rcases setAt_eq_error_iff.mp failed with
    ⟨missing, rfl⟩ | ⟨a, slots, found, ⟨beyond, rfl⟩ | ⟨within, refused⟩⟩
  · rw [missing]
    rfl
  · simp only [found, if_neg beyond]
    exact Condition.tellsIndex_badIndex ..
  · simp only [found, if_pos within]
    exact Sequence.kind_of_refusal? refused

theorem kind_of_fill (failed : (h.fill k o value).1 = .error e) :
    e.kind = if (h.sequence? k o).isSome then .value else .type := by
  rcases fill_eq_error_iff.mp failed with ⟨missing, rfl⟩ | ⟨found, refused⟩
  · rw [missing]
    rfl
  · rw [if_pos found]
    exact Sequence.kind_of_refusal? refused

end Heap

/-! When an operation goes through. -/

theorem exists_map_ok_iff {α β : Type} {result : Except Condition α} {f : α → β} :
    (∃ b, result.map f = .ok b) ↔ ∃ a, result = .ok a := by
  cases result with
  | ok a => exact iff_of_true ⟨f a, rfl⟩ ⟨a, rfl⟩
  | error e => exact iff_of_false nofun nofun

namespace Heap

variable {h : Heap} {k : Sequence} {o : Option Object} {i : Int64} {value : k.Element}

theorem isSome_pair?_iff : (o.bind h.pair?).isSome ↔
    ∃ a, o = some (.pair a) ∧ (h.holds? (.car a)).isSome := by
  have held (a : Addr) : (h.holds? (.car a)).isSome ↔ ∃ x y, h.cell? a = some (.pair x y) := by
    rw [holds?, Location.address]
    cases h.cell? a with
    | none => simp
    | some c => cases c <;> simp [Location.within?]
  rw [Option.isSome_iff_exists]
  simp only [held, Option.bind_eq_some_iff, Prod.exists, pair?_eq_some_iff]
  constructor
  · rintro ⟨x, y, p, rfl, a, rfl, found⟩
    exact ⟨a, rfl, x, y, found⟩
  · rintro ⟨a, rfl, x, y, found⟩
    exact ⟨x, y, _, rfl, a, rfl, found⟩

theorem exists_car_iff : (∃ x, h.car o = .ok x) ↔ (o.bind h.pair?).isSome := by
  rw [car]
  cases o.bind h.pair? <;> simp

theorem exists_cdr_iff : (∃ y, h.cdr o = .ok y) ↔ (o.bind h.pair?).isSome := by
  rw [cdr]
  cases o.bind h.pair? <;> simp

theorem exists_setCar_iff {value : Object} :
    (∃ done, (h.setCar o value).1 = .ok done) ↔ (o.bind h.pair?).isSome := by
  rcases h.pair_or_missing o with ⟨a, x, y, rfl, found⟩ | missing
  · rw [setCar_of_pair found, bind_pair?_of_pair found]
    exact iff_of_true ⟨(), rfl⟩ rfl
  · rw [setCar_of_missing missing, missing]
    exact iff_of_false nofun nofun

theorem exists_setCdr_iff {value : Object} :
    (∃ done, (h.setCdr o value).1 = .ok done) ↔ (o.bind h.pair?).isSome := by
  rcases h.pair_or_missing o with ⟨a, x, y, rfl, found⟩ | missing
  · rw [setCdr_of_pair found, bind_pair?_of_pair found]
    exact iff_of_true ⟨(), rfl⟩ rfl
  · rw [setCdr_of_missing missing, missing]
    exact iff_of_false nofun nofun

theorem exists_refAt_iff : (∃ e, h.refAt k o i = .ok e) ↔
    ∃ a slots, o.bind (h.sequence? k) = some (a, slots) ∧ Sequence.Within i slots.size := by
  rw [refAt]
  rcases o.bind (h.sequence? k) with _ | ⟨a, slots⟩
  · simp
  · simp [Sequence.exists_get_iff, and_assoc]

theorem exists_setAt_iff : (∃ done, (h.setAt k o i value).1 = .ok done) ↔
    (∃ a slots, o.bind (h.sequence? k) = some (a, slots) ∧ Sequence.Within i slots.size) ∧
      k.refusal? value = none := by
  rw [setAt]
  rcases o.bind (h.sequence? k) with _ | ⟨a, slots⟩
  · simp
  · have within : (∃ b slots', some (a, slots) = some (b, slots') ∧
        Sequence.Within i slots'.size) ↔ Sequence.Within i slots.size := by simp [and_assoc]
    rw [within, ← Sequence.exists_set_iff]
    cases written : k.set slots i value <;> simp [written]

theorem exists_fill_iff {p : Object} : (∃ done, (h.fill k p value).1 = .ok done) ↔
    (h.sequence? k p).isSome ∧ k.refusal? value = none := by
  rw [fill, expectSequence]
  rcases h.sequence? k p with _ | ⟨a, slots⟩
  · simp
  · rw [← Sequence.exists_fill_iff slots]
    cases written : k.fill slots value <;> simp [written]

theorem exists_makeSequence_iff {allocates : Nat → Bool} {length : Int64} :
    (∃ p, (h.makeSequence allocates k length value).1 = .ok p) ↔
      0 ≤ length ∧ k.refusal? value = none ∧ allocates length.toNatClampNeg = true := by
  rw [← Sequence.exists_makeFrom_iff, makeSequence]
  cases k.makeFrom allocates length value <;> simp

theorem exists_sequence?_iff {P : Nat → Prop} :
    (∃ a slots, o.bind (h.sequence? k) = some (a, slots) ∧ P slots.size) ↔
      ∃ a n, o = some (k.object a) ∧ h.length? k a = some n ∧ P n := by
  constructor
  · rintro ⟨a, slots, found, holds⟩
    obtain ⟨p, rfl, here⟩ := Option.bind_eq_some_iff.mp found
    obtain ⟨rfl, -⟩ := sequence?_eq_some_iff.mp here
    exact ⟨a, _, rfl, by rw [length?, here, Option.map_some], holds⟩
  · rintro ⟨a, n, rfl, length, holds⟩
    obtain ⟨⟨b, slots⟩, found, rfl⟩ := Option.map_eq_some_iff.mp length
    exact ⟨b, slots, found, holds⟩

theorem isSome_sequence?_iff {p : Object} :
    (h.sequence? k p).isSome ↔ ∃ a, p = k.object a ∧ (h.length? k a).isSome := by
  constructor
  · intro found
    obtain ⟨⟨a, slots⟩, found⟩ := Option.isSome_iff_exists.mp found
    obtain ⟨rfl, -⟩ := sequence?_eq_some_iff.mp found
    exact ⟨a, rfl, by rw [length?, found]; rfl⟩
  · rintro ⟨a, rfl, length⟩
    rwa [length?, Option.isSome_map] at length

end Heap

namespace Operation

def Allowed (isPair : Addr → Bool) (length? : Sequence → Addr → Option Nat) : Operation → Prop
  | .make k length value allocates =>
    0 ≤ length ∧ k.refusal? value = none ∧ allocates length.toNatClampNeg = true
  | .car o | .cdr o | .setCar o _ | .setCdr o _ => ∃ a, o = some (.pair a) ∧ isPair a
  | .refAt k o i => ∃ a n, o = some (k.object a) ∧ length? k a = some n ∧ Sequence.Within i n
  | .setAt k o i value =>
    (∃ a n, o = some (k.object a) ∧ length? k a = some n ∧ Sequence.Within i n) ∧
      k.refusal? value = none
  | .fill k o value => (∃ a, o = k.object a ∧ (length? k a).isSome) ∧ k.refusal? value = none
  | _ => True

theorem exists_apply_iff (table : Interner) (h : Heap) (op : Operation) :
    (∃ answer, (op.apply table h).1 = .ok answer) ↔
      op.Allowed (fun a => (h.holds? (.car a)).isSome) h.length? := by
  cases op with
  | make =>
    exact exists_map_ok_iff.trans Heap.exists_makeSequence_iff
  | car => exact exists_map_ok_iff.trans (Heap.exists_car_iff.trans Heap.isSome_pair?_iff)
  | cdr => exact exists_map_ok_iff.trans (Heap.exists_cdr_iff.trans Heap.isSome_pair?_iff)
  | setCar =>
    exact exists_map_ok_iff.trans (Heap.exists_setCar_iff.trans Heap.isSome_pair?_iff)
  | setCdr =>
    exact exists_map_ok_iff.trans (Heap.exists_setCdr_iff.trans Heap.isSome_pair?_iff)
  | refAt =>
    exact exists_map_ok_iff.trans (Heap.exists_refAt_iff.trans Heap.exists_sequence?_iff)
  | setAt =>
    refine exists_map_ok_iff.trans (Heap.exists_setAt_iff.trans ?_)
    exact and_congr_left fun _ => Heap.exists_sequence?_iff
  | fill =>
    refine exists_map_ok_iff.trans (Heap.exists_fill_iff.trans ?_)
    exact and_congr_left fun _ => Heap.isSome_sequence?_iff
  | cons | list | sequence | inputPort | outputPort | same | equal | isList | write =>
    exact iff_of_true ⟨_, rfl⟩ trivial

end Operation

/-! All operations on sequences of one kind. -/

structure Sequence.Makes (k : Sequence) (allocates : Nat → Bool) : Prop where
  ok_iff : ∀ length value, (∃ slots, k.makeFrom allocates length value = .ok slots) ↔
    0 ≤ length ∧ k.refusal? value = none ∧ allocates length.toNatClampNeg = true
  error_iff : ∀ length value e, k.makeFrom allocates length value = .error e ↔
    length < 0 ∧ e = .negativeLength length ∨
    0 ≤ length ∧ k.refusal? value = some e ∨
    0 ≤ length ∧ k.refusal? value = none ∧ allocates length.toNatClampNeg = false ∧
      e = .unallocatable length
  kind : ∀ length value e, k.makeFrom allocates length value = .error e → e.kind = .value
  elements : ∀ length value slots, k.makeFrom allocates length value = .ok slots →
    k.elements slots = List.replicate length.toNatClampNeg value

structure Heap.Accesses (h : Heap) (k : Sequence) : Prop where
  make_error_iff : ∀ allocates length value e,
    (h.makeSequence allocates k length value).1 = .error e ↔
      k.makeFrom allocates length value = .error e
  make_ok : ∀ allocates length value o, (h.makeSequence allocates k length value).1 = .ok o →
    ∃ slots, k.makeFrom allocates length value = .ok slots ∧
      h.Gains (h.makeSequence allocates k length value).2 k o slots
  refAt_ok_iff : ∀ p i value, h.refAt k p i = .ok value ↔
    ∃ a slots, p.bind (h.sequence? k) = some (a, slots) ∧
      0 ≤ i ∧ (k.elements slots)[i.toNatClampNeg]? = some value
  refAt_error_iff : ∀ p i e, h.refAt k p i = .error e ↔
    p.bind (h.sequence? k) = none ∧ e = .absent k.label ∨
    ∃ a slots, p.bind (h.sequence? k) = some (a, slots) ∧
      ¬Sequence.Within i slots.size ∧ e = .badIndex k.noun i slots.size
  refAt_kind : ∀ p i e, h.refAt k p i = .error e →
    match p.bind (h.sequence? k) with
    | none => e.kind = .nil
    | some (_, slots) => e.TellsIndex i slots.size
  setAt_error_iff : ∀ p i value e, (h.setAt k p i value).1 = .error e ↔
    p.bind (h.sequence? k) = none ∧ e = .absent k.label ∨
    ∃ a slots, p.bind (h.sequence? k) = some (a, slots) ∧
      (¬Sequence.Within i slots.size ∧ e = .badIndex k.noun i slots.size ∨
        Sequence.Within i slots.size ∧ k.refusal? value = some e)
  setAt_kind : ∀ p i value e, (h.setAt k p i value).1 = .error e →
    match p.bind (h.sequence? k) with
    | none => e.kind = .nil
    | some (_, slots) =>
      if Sequence.Within i slots.size then e.kind = .value else e.TellsIndex i slots.size
  setAt_ok : ∀ p i value, (h.setAt k p i value).1 = .ok () →
    h.Changes (h.setAt k p i value).2 k p fun j => if i = j then .ok value else h.refAt k p j
  fill_error_iff : ∀ o value e, (h.fill k o value).1 = .error e ↔
    h.sequence? k o = none ∧ e = .wrongType k.typeName o.typeName ∨
    (h.sequence? k o).isSome ∧ k.refusal? value = some e
  fill_kind : ∀ o value e, (h.fill k o value).1 = .error e →
    e.kind = if (h.sequence? k o).isSome then .value else .type
  fill_ok : ∀ o value, (h.fill k o value).1 = .ok () →
    h.Changes (h.fill k o value).2 k (some o) fun j =>
      (h.refAt k (some o) j).map fun _ => value

theorem Sequence.makes (k : Sequence) (allocates : Nat → Bool) : k.Makes allocates where
  ok_iff _ _ := exists_makeFrom_iff
  error_iff _ _ _ := makeFrom_eq_error_iff
  kind length value e failed := by
    rcases makeFrom_eq_error_iff.mp failed with ⟨-, rfl⟩ | ⟨-, refused⟩ | ⟨-, -, -, rfl⟩
    · rfl
    · exact kind_of_refusal? refused
    · rfl
  elements _ _ _ := elements_of_makeFrom

theorem Heap.accesses (h : Heap) (k : Sequence) : h.Accesses k where
  make_error_iff _ _ _ _ := makeSequence_eq_error_iff
  make_ok _ _ _ _ := gains_makeSequence
  refAt_ok_iff _ _ _ := refAt_eq_ok_iff
  refAt_error_iff _ _ _ := refAt_eq_error_iff
  refAt_kind _ _ _ := kind_of_refAt
  setAt_error_iff _ _ _ _ := setAt_eq_error_iff
  setAt_kind _ _ _ _ := kind_of_setAt
  setAt_ok _ _ _ := changes_setAt
  fill_error_iff _ _ _ := fill_eq_error_iff
  fill_kind _ _ _ := kind_of_fill
  fill_ok _ _ := changes_fill

/-- Every operation on sequences fails exactly when a check fails, with the condition of the first
one that does; what succeeds changes only what it was asked to, and what fails changes nothing. -/
theorem Heap.sequences_checked (table : Interner) (allocates : Nat → Bool) (h : Heap)
    (k : Sequence) : k.Makes allocates ∧ h.Accesses k ∧
      ∀ (op : Operation) e, (op.apply table h).1 = .error e → (op.apply table h).2 = h :=
  ⟨k.makes allocates, h.accesses k, fun _ _ failed => Operation.apply_of_error failed⟩

theorem Heap.sequences_checked_of_two_faults :
    Sequence.bytes.makeFrom (fun _ => false) (-1) 256 = .error (.negativeLength (-1)) ∧
    Sequence.bytes.makeFrom (fun _ => false) 4 256 = .error (.badByte "byte" 256) ∧
    ((⟨#[.bytes #[7]]⟩ : Heap).setAt .bytes (some (.bytes 0)) 9 1000).1 =
      .error (.badIndex "byte-vector" 9 1) ∧
    (Condition.badIndex "byte-vector" 9 1).TellsIndex 9 1 := by
  obtain ⟨makes, accesses, -⟩ :=
    Heap.sequences_checked Interner.empty (fun _ => false) ⟨#[.bytes #[7]]⟩ .bytes
  have refused : ((⟨#[.bytes #[7]]⟩ : Heap).setAt .bytes (some (.bytes 0)) 9 1000).1 =
      .error (.badIndex "byte-vector" 9 1) :=
    (accesses.setAt_error_iff _ _ _ _).mpr (.inr ⟨0, #[7], rfl, .inl ⟨by decide, rfl⟩⟩)
  exact ⟨(makes.error_iff _ _ _).mpr (.inl ⟨by decide, rfl⟩),
    (makes.error_iff _ _ _).mpr (.inr (.inl ⟨by decide, rfl⟩)), refused,
    accesses.setAt_kind _ _ _ _ refused⟩

end SchemeCore
