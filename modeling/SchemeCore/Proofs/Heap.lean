import SchemeCore.Proofs.Sequence

/-! What the heap answers after an allocation or a write, and what it means that it finds a pair or
a sequence. A list is made of fresh pairs, each right after the one in its cdr. -/

namespace SchemeCore.Heap

variable {h : Heap}

theorem size_alloc (c : Cell) : (h.alloc c).2.size = h.size + 1 := Array.size_push c

theorem size_write (a : Addr) (c : Cell) : (h.write a c).size = h.size :=
  Array.size_setIfInBounds

theorem cell?_alloc (c : Cell) (a : Addr) :
    (h.alloc c).2.cell? a = if a = h.size then some c else h.cell? a := Array.getElem?_push

theorem cell?_write (a : Addr) (c : Cell) (b : Addr) :
    (h.write a c).cell? b = if a = b then (h.cell? b).map fun _ => c else h.cell? b := by
  simp only [write, cell?, Array.getElem?_setIfInBounds]
  split
  · rename_i same
    subst same
    split
    · rename_i within
      simp [Array.getElem?_eq_getElem within]
    · rename_i beyond
      simp [Array.getElem?_eq_none (Nat.le_of_not_lt beyond)]
  · rfl

theorem lt_size_of_cell? {a : Addr} {c : Cell} (found : h.cell? a = some c) : a < h.size :=
  (Array.getElem?_eq_some_iff.mp found).1

theorem cell?_eq_none {a : Addr} (beyond : h.size ≤ a) : h.cell? a = none :=
  Array.getElem?_eq_none beyond

theorem pair?_eq_some_iff {o x y : Object} :
    h.pair? o = some (x, y) ↔ ∃ a, o = .pair a ∧ h.cell? a = some (.pair x y) := by
  cases o with
  | pair a =>
    simp only [pair?, Object.pair.injEq, exists_eq_left']
    split
    · rename_i found
      simp [found]
    · rename_i other
      exact iff_of_false (by simp) (other x y)
  | _ => simp [pair?]

theorem sequence?_object (k : Sequence) (a : Addr) :
    h.sequence? k (k.object a) = ((h.cell? a).bind k.slots?).map (a, ·) := by
  simp only [sequence?, Sequence.address?_object, Option.bind_eq_bind, Option.bind_some,
    Option.pure_def]
  cases h.cell? a with
  | none => rfl
  | some c => cases slots : k.slots? c <;> simp [slots]

theorem sequence?_eq_some_iff {k : Sequence} {o : Object} {a : Addr} {slots : Array k.Slot} :
    h.sequence? k o = some (a, slots) ↔ o = k.object a ∧ h.cell? a = some (k.cell slots) := by
  constructor
  · intro found
    obtain ⟨b, address, -⟩ := Option.bind_eq_some_iff.mp found
    obtain rfl := Sequence.address?_eq_some_iff.mp address
    rw [sequence?_object, Option.map_eq_some_iff] at found
    obtain ⟨slots', inside, same⟩ := found
    cases same
    obtain ⟨c, cell, inside⟩ := Option.bind_eq_some_iff.mp inside
    exact ⟨rfl, Sequence.slots?_eq_some_iff.mp inside ▸ cell⟩
  · rintro ⟨rfl, cell⟩
    rw [sequence?_object, cell, Option.bind_some, Sequence.slots?_cell, Option.map_some]

theorem list_cons (item : Object) (items : List Object) : h.list (item :: items) =
    (.pair (h.list items).2.size, ((h.list items).2.alloc (.pair item (h.list items).1)).2) := rfl

theorem size_list (items : List Object) : (h.list items).2.size = h.size + items.length := by
  induction items with
  | nil => rfl
  | cons item items ih => rw [list_cons, size_alloc, ih, List.length_cons, Nat.add_assoc]

theorem list_fst (items : List Object) : (h.list items).1 =
    if items.isEmpty then .null else .pair (h.size + items.length - 1) := by
  cases items with
  | nil => rfl
  | cons item items => simp [list_cons, size_list]

/-! Writes to the parts of a pair, which fail where there is none. -/

section Pair

variable {a : Addr} {x y value : Object} {o : Option Object}

theorem pair_or_missing (h : Heap) (o : Option Object) :
    (∃ a x y, o = some (.pair a) ∧ h.cell? a = some (.pair x y)) ∨ o.bind h.pair? = none := by
  cases found : o.bind h.pair? with
  | none => exact .inr rfl
  | some parts =>
    obtain ⟨p, rfl, here⟩ := Option.bind_eq_some_iff.mp found
    obtain ⟨a, rfl, cell⟩ := pair?_eq_some_iff.mp here
    exact .inl ⟨a, parts.1, parts.2, rfl, cell⟩

theorem bind_pair?_of_pair (found : h.cell? a = some (.pair x y)) :
    (some (.pair a)).bind h.pair? = some (x, y) := pair?_eq_some_iff.mpr ⟨a, rfl, found⟩

theorem setCar_of_pair (found : h.cell? a = some (.pair x y)) :
    h.setCar (some (.pair a)) value = (.ok (), h.write a (.pair value y)) := by
  simp only [setCar, found]

theorem setCdr_of_pair (found : h.cell? a = some (.pair x y)) :
    h.setCdr (some (.pair a)) value = (.ok (), h.write a (.pair x value)) := by
  simp only [setCdr, found]

theorem setCar_of_missing (missing : o.bind h.pair? = none) :
    h.setCar o value = (.error (.absent "cons"), h) := by
  unfold setCar
  split
  · split
    · rename_i found
      rw [bind_pair?_of_pair found] at missing
      cases missing
    · rfl
  · rfl

theorem setCdr_of_missing (missing : o.bind h.pair? = none) :
    h.setCdr o value = (.error (.absent "cons"), h) := by
  unfold setCdr
  split
  · split
    · rename_i found
      rw [bind_pair?_of_pair found] at missing
      cases missing
    · rfl
  · rfl

end Pair

/-! Writes to the slots of a sequence. -/

theorem setAt_cases (h : Heap) (k : Sequence) (o : Option Object) (i : Int64) (value : k.Element) :
    (∃ a slots changed, o = some (k.object a) ∧ h.cell? a = some (k.cell slots) ∧
      k.set slots i value = .ok changed ∧
      h.setAt k o i value = (.ok (), h.write a (k.cell changed))) ∨
    ∃ e, h.setAt k o i value = (.error e, h) := by
  unfold setAt
  split
  · exact .inr ⟨_, rfl⟩
  · rename_i a slots found
    obtain ⟨p, rfl, found⟩ := Option.bind_eq_some_iff.mp found
    obtain ⟨rfl, cell⟩ := sequence?_eq_some_iff.mp found
    split
    · rename_i changed done
      exact .inl ⟨a, slots, changed, rfl, cell, done, rfl⟩
    · exact .inr ⟨_, rfl⟩

theorem fill_cases (h : Heap) (k : Sequence) (o : Object) (value : k.Element) :
    (∃ a slots changed, o = k.object a ∧ h.cell? a = some (k.cell slots) ∧
      k.fill slots value = .ok changed ∧
      h.fill k o value = (.ok (), h.write a (k.cell changed))) ∨
    ∃ e, h.fill k o value = (.error e, h) := by
  unfold fill expectSequence
  cases found : h.sequence? k o with
  | none => exact .inr ⟨_, rfl⟩
  | some p =>
    obtain ⟨a, slots⟩ := p
    obtain ⟨rfl, cell⟩ := sequence?_eq_some_iff.mp found
    simp only
    split
    · rename_i changed done
      exact .inl ⟨a, slots, changed, rfl, cell, done, rfl⟩
    · exact .inr ⟨_, rfl⟩

/-! A call that fails has not written anything. -/

section Failed

variable {e : Condition} {k : Sequence} {value : Object} {element : k.Element} {i : Int64}
  {allocates : Nat → Bool}

theorem setCar_of_error {o : Option Object} (failed : (h.setCar o value).1 = .error e) :
    (h.setCar o value).2 = h := by
  rcases h.pair_or_missing o with ⟨a, x, y, rfl, found⟩ | missing
  · rw [setCar_of_pair found] at failed
    cases failed
  · rw [setCar_of_missing missing]

theorem setCdr_of_error {o : Option Object} (failed : (h.setCdr o value).1 = .error e) :
    (h.setCdr o value).2 = h := by
  rcases h.pair_or_missing o with ⟨a, x, y, rfl, found⟩ | missing
  · rw [setCdr_of_pair found] at failed
    cases failed
  · rw [setCdr_of_missing missing]

theorem setAt_of_error {o : Option Object} (failed : (h.setAt k o i element).1 = .error e) :
    (h.setAt k o i element).2 = h := by
  rcases h.setAt_cases k o i element with ⟨a, slots, changed, -, -, -, done⟩ | ⟨e', done⟩
  · rw [done] at failed
    cases failed
  · rw [done]

theorem fill_of_error {o : Object} (failed : (h.fill k o element).1 = .error e) :
    (h.fill k o element).2 = h := by
  rcases h.fill_cases k o element with ⟨a, slots, changed, -, -, -, done⟩ | ⟨e', done⟩
  · rw [done] at failed
    cases failed
  · rw [done]

theorem makeSequence_of_error (failed : (h.makeSequence allocates k i element).1 = .error e) :
    (h.makeSequence allocates k i element).2 = h := by
  revert failed
  unfold makeSequence
  split
  · nofun
  · exact fun _ => rfl

end Failed

end SchemeCore.Heap
