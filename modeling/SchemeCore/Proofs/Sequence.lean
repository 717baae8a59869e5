import SchemeCore.Sequence

/-! What the accessors of a sequence do, slot by slot. An index is a signed word; the slots it can
reach are those below the length, each by exactly one index. What was stored reads back as it was
given, as a byte-vector takes no element that its slots cannot hold. -/

namespace SchemeCore.Sequence

theorem load_of_store {k : Sequence} {value : k.Element} {slot : k.Slot}
    (stored : k.store value = .ok slot) : k.load slot = value := by
  cases k with
  | string | vector =>
    cases stored
    rfl
  | bytes =>
    simp only [store] at stored
    split at stored
    · rename_i within
      cases stored
      have high : value.toInt ≤ 255 := Int64.le_iff_toInt_le.mp within.2
      have small : value.toNatClampNeg < 256 := by
        rw [← Int64.toNat_toInt]
        omega
      simp only [load, UInt8.toNat_ofNat', Nat.mod_eq_of_lt small]
      exact Int64.ofNat_toNatClampNeg value within.1
    · cases stored

theorem load_bytes_within (b : UInt8) : 0 ≤ load .bytes b ∧ load .bytes b ≤ 255 := by
  have small : b.toNat < 256 := b.toNat_lt
  have value : (Int64.ofNat b.toNat).toInt = b.toNat := Int64.toInt_ofNat_of_lt (by omega)
  simp only [load, Int64.le_iff_toInt_le, value]
  exact ⟨by simp, by simp; omega⟩

def slotAt? {k : Sequence} (slots : Array k.Slot) (i : Int64) : Option k.Slot :=
  if 0 ≤ i then slots[i.toNatClampNeg]? else none

theorem index_eq_ok {k : Sequence} {i : Int64} {length : Nat} {n : Fin length} :
    k.index i length = .ok n ↔ 0 ≤ i ∧ i.toNatClampNeg = n := by
  unfold index
  split
  · rename_i within
    simp only [Except.ok.injEq, within.1, true_and, Fin.ext_iff]
  · rename_i beyond
    refine iff_of_false (by simp) fun reached => beyond ⟨reached.1, reached.2 ▸ n.isLt⟩

theorem get_toOption {k : Sequence} (slots : Array k.Slot) (i : Int64) :
    (k.get slots i).toOption = (slotAt? slots i).map k.load := by
  unfold get index slotAt?
  by_cases low : 0 ≤ i
  · by_cases high : i.toNatClampNeg < slots.size
    · simp [low, high, Except.toOption]
    · simp [low, high, Except.toOption]
  · simp [low, Except.toOption]

theorem mem_elements_of_get {k : Sequence} {slots : Array k.Slot} {i : Int64} {e : k.Element}
    (read : k.get slots i = .ok e) : e ∈ k.elements slots := by
  unfold get at read
  split at read
  · cases read
    exact List.mem_map_of_mem (Array.getElem_mem_toList _)
  · cases read

theorem eq_of_toNatClampNeg {i j : Int64} (hi : 0 ≤ i) (hj : 0 ≤ j)
    (same : i.toNatClampNeg = j.toNatClampNeg) : i = j := by
  rw [← Int64.ofNat_toNatClampNeg i hi, same, Int64.ofNat_toNatClampNeg j hj]

theorem slotAt?_of_set {k : Sequence} {slots changed : Array k.Slot} {i : Int64}
    {value : k.Element} (done : k.set slots i value = .ok changed) (j : Int64) :
    (slotAt? changed j).map k.load =
      (slotAt? slots j).map fun slot => if i = j then value else k.load slot := by
  unfold set at done
  split at done
  · cases done
  · rename_i n reached
    obtain ⟨low, at_n⟩ := index_eq_ok.mp reached
    split at done
    · cases done
    · rename_i slot stored
      cases done
      unfold slotAt?
      split
      · rename_i low'
        by_cases same : i = j
        · subst same
          simp [at_n, load_of_store stored]
        · have apart : ¬(n : Nat) = j.toNatClampNeg := fun eq =>
            same (eq_of_toNatClampNeg low low' (at_n.trans eq))
          simp [apart, same]
      · rfl

theorem size_of_set {k : Sequence} {slots changed : Array k.Slot} {i : Int64}
    {value : k.Element} (done : k.set slots i value = .ok changed) : changed.size = slots.size := by
  unfold set at done
  split at done
  · cases done
  · split at done
    · cases done
    · cases done
      exact Array.size_set _

theorem slotAt?_of_fill {k : Sequence} {slots changed : Array k.Slot} {value : k.Element}
    (done : k.fill slots value = .ok changed) (j : Int64) :
    (slotAt? changed j).map k.load = (slotAt? slots j).map fun _ => value := by
  unfold fill at done
  split at done
  · cases done
  · rename_i slot stored
    cases done
    unfold slotAt?
    split
    · by_cases within : j.toNatClampNeg < slots.size
      · simp [within, load_of_store stored]
      · simp [within]
    · rfl

theorem size_of_fill {k : Sequence} {slots changed : Array k.Slot} {value : k.Element}
    (done : k.fill slots value = .ok changed) : changed.size = slots.size := by
  unfold fill at done
  split at done
  · cases done
  · cases done
    exact Array.size_replicate

theorem toNatClampNeg_lt_iff {i j : Int64} (hi : 0 ≤ i) (hj : 0 ≤ j) :
    i.toNatClampNeg < j.toNatClampNeg ↔ i < j := by
  have ei := Int64.cast_toNatClampNeg i hi
  have ej := Int64.cast_toNatClampNeg j hj
  rw [Int64.lt_iff_toInt_lt]
  omega

theorem makeFrom_eq_ok_iff {k : Sequence} {allocates : Nat → Bool} {length : Int64}
    {value : k.Element} {slots : Array k.Slot} : k.makeFrom allocates length value = .ok slots ↔
    0 ≤ length ∧ allocates length.toNatClampNeg = true ∧
      ∃ slot, k.store value = .ok slot ∧ Array.replicate length.toNatClampNeg slot = slots := by
  rw [makeFrom, ← Int64.not_lt]
  split
  · exact iff_of_false nofun fun all => all.1 ‹_›
  · rename_i sign
    rw [and_iff_right sign]
    cases k.store value with
    | error e => exact iff_of_false nofun fun ⟨_, _, stored, _⟩ => nomatch stored
    | ok slot =>
      simp only [Except.ok.injEq, exists_eq_left']
      split
      · rename_i had
        rw [Except.ok.injEq, and_iff_right had]
      · rename_i short
        exact iff_of_false nofun fun had => short had.1

theorem elements_of_makeFrom {k : Sequence} {allocates : Nat → Bool} {length : Int64}
    {value : k.Element} {slots : Array k.Slot} (done : k.makeFrom allocates length value = .ok slots) :
    k.elements slots = List.replicate length.toNatClampNeg value := by
  obtain ⟨-, -, slot, stored, rfl⟩ := makeFrom_eq_ok_iff.mp done
  rw [elements, Array.toList_replicate, List.map_replicate, load_of_store stored]

theorem slotAt?_of_makeFrom {k : Sequence} {allocates : Nat → Bool} {slots : Array k.Slot}
    {length : Int64} {value : k.Element} (done : k.makeFrom allocates length value = .ok slots)
    (i : Int64) :
    (slotAt? slots i).map k.load = if 0 ≤ i ∧ i < length then some value else none := by
  obtain ⟨nonneg, -, slot, stored, rfl⟩ := makeFrom_eq_ok_iff.mp done
  unfold slotAt?
  by_cases low : 0 ≤ i
  · by_cases high : i < length
    · have within := (toNatClampNeg_lt_iff low nonneg).mpr high
      simp [low, high, within, load_of_store stored]
    · have beyond := mt (toNatClampNeg_lt_iff low nonneg).mp high
      simp [low, high, beyond]
  · simp [low]

theorem size_of_makeFrom {k : Sequence} {allocates : Nat → Bool} {slots : Array k.Slot}
    {length : Int64} {value : k.Element} (done : k.makeFrom allocates length value = .ok slots) :
    slots.size = length.toNatClampNeg := by
  obtain ⟨-, -, slot, -, rfl⟩ := makeFrom_eq_ok_iff.mp done
  exact Array.size_replicate

theorem slots?_eq_some_iff {k : Sequence} {c : Cell} {slots : Array k.Slot} :
    k.slots? c = some slots ↔ c = k.cell slots := by
  cases k <;> cases c <;> simp [slots?, cell]

theorem slots?_cell (k : Sequence) (slots : Array k.Slot) : k.slots? (k.cell slots) = some slots :=
  slots?_eq_some_iff.mpr rfl

theorem slots?_cell_ne {k k' : Sequence} (ne : k' ≠ k) (slots : Array k.Slot) :
    k'.slots? (k.cell slots) = none := by
  cases k <;> cases k' <;> first | rfl | exact absurd rfl ne

theorem object_inj {k k' : Sequence} {a b : Addr} : k.object a = k'.object b ↔ k = k' ∧ a = b := by
  cases k <;> cases k' <;> simp [object]

theorem address?_eq_some_iff {k : Sequence} {o : Object} {a : Addr} :
    k.address? o = some a ↔ o = k.object a := by
  cases k <;> cases o <;> simp [address?, object]

/-! What is refused. -/

section Refused

variable {k : Sequence} {value : k.Element} {i : Int64} {e : Condition} {n : Nat}

def refusal? : (k : Sequence) → k.Element → Option Condition
  | .string, _ | .vector, _ => none
  | .bytes, n => if 0 ≤ n ∧ n ≤ 255 then none else some (.badByte "byte" n)

def Within (i : Int64) (length : Nat) : Prop := 0 ≤ i.toInt ∧ i.toInt < length

instance (i : Int64) (length : Nat) : Decidable (Within i length) :=
  inferInstanceAs (Decidable (_ ∧ _))

theorem within_iff : Within i n ↔ 0 ≤ i ∧ i.toNatClampNeg < n := by
  have clamped : i.toNatClampNeg = i.toInt.toNat := i.toNat_toInt.symm
  rw [Within, Int64.le_iff_toInt_le, clamped]
  exact and_congr_right fun low => (Int.toNat_lt low).symm

theorem store_eq_error_iff : k.store value = .error e ↔ k.refusal? value = some e := by
  cases k with
  | string | vector => simp [store, refusal?]
  | bytes =>
    simp only [store, refusal?]
    split
    · simp
    · rw [Except.error.injEq, Option.some.injEq]

theorem exists_store_iff : (∃ slot, k.store value = .ok slot) ↔ k.refusal? value = none := by
  rw [Option.eq_none_iff_forall_ne_some]
  simp only [Ne, ← store_eq_error_iff]
  cases k.store value with
  | ok slot => exact iff_of_true ⟨slot, rfl⟩ nofun
  | error e => exact iff_of_false nofun fun never => never e rfl

theorem index_eq_error_iff :
    k.index i n = .error e ↔ ¬Within i n ∧ e = .badIndex k.noun i n := by
  rw [within_iff, index]
  split
  · rename_i within
    exact iff_of_false nofun fun beyond => beyond.1 within
  · rename_i beyond
    rw [Except.error.injEq, and_iff_right beyond, eq_comm]

theorem exists_index_iff : (∃ m, k.index i n = .ok m) ↔ Within i n := by
  simp only [index_eq_ok, within_iff]
  constructor
  · rintro ⟨m, low, reached⟩
    exact ⟨low, reached ▸ m.isLt⟩
  · rintro ⟨low, high⟩
    exact ⟨⟨_, high⟩, low, rfl⟩

theorem kind_of_refusal? (refused : k.refusal? value = some e) : e.kind = .value := by
  cases k with
  | string | vector => cases refused
  | bytes =>
    rw [refusal?] at refused
    split at refused
    · cases refused
    · cases refused
      rfl

end Refused

end SchemeCore.Sequence
