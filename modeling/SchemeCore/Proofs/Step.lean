import SchemeCore.History
import SchemeCore.Proofs.Heap

/-! What one operation does to the heap, read off the operation and its answer. What a location
holds is decided by the cell at its address, so an operation either leaves all cells alone, or adds
cells after the last one, or writes over a single cell. In each case the step tells what every
location holds afterwards: what the operation wrote to it, or else what it held, or else what it
was made with. -/

namespace SchemeCore

def Location.within? : Location → Cell → Option Answer
  | .car _, .pair x _ => some (.object x)
  | .cdr _, .pair _ y => some (.object y)
  | .slot k _ i, c =>
    (k.slots? c).bind fun slots => ((Sequence.slotAt? slots i).map k.load).map (.element k)
  | _, _ => none

namespace Heap

variable {h : Heap}

def holds? (h : Heap) (ℓ : Location) : Option Answer := (h.cell? ℓ.address).bind ℓ.within?

theorem read_toOption (table : Interner) (ℓ : Location) :
    (ℓ.read.apply table h).1.toOption = h.holds? ℓ := by
  cases ℓ with
  | car a =>
    simp only [Location.read, Operation.apply, car, Option.bind_some, pair?, holds?,
      Location.address]
    cases h.cell? a with
    | none => rfl
    | some c => cases c <;> rfl
  | cdr a =>
    simp only [Location.read, Operation.apply, cdr, Option.bind_some, pair?, holds?,
      Location.address]
    cases h.cell? a with
    | none => rfl
    | some c => cases c <;> rfl
  | slot k a i =>
    simp only [Location.read, Operation.apply, refAt, Option.bind_some, sequence?_object, holds?,
      Location.address]
    cases h.cell? a with
    | none => rfl
    | some c =>
      simp only [Option.bind_some, Location.within?]
      cases k.slots? c with
      | none => rfl
      | some slots =>
        simp only [Option.map_some, Option.bind_some, ← Sequence.get_toOption]
        cases k.get slots i <;> rfl

theorem length?_eq (k : Sequence) (a : Addr) :
    h.length? k a = ((h.cell? a).bind k.slots?).map (·.size) := by
  rw [length?, sequence?_object, Option.map_map]
  rfl

end Heap

/-! One step. -/

/-- A step, as the record has it, explains how one heap came from another. -/
structure Step.Explains (s : Step) (h h' : Heap) : Prop where
  holds : ∀ ℓ, h'.holds? ℓ = ((h.holds? ℓ).or (s.made? ℓ)).map fun v => (s.written? ℓ).getD v
  written_lt : ∀ ℓ v, s.written? ℓ = some v → ℓ.address < h.size
  le_made : ∀ ℓ v, s.made? ℓ = some v → h.size ≤ ℓ.address
  lengths : ∀ k a, h'.length? k a = (h.length? k a).or (s.lengthMade? k a)
  allocated : s.allocated.map Object.address? = (List.range' h.size s.allocated.length).map some
  size : h'.size = h.size + s.allocated.length

namespace Step

variable {h : Heap} {op : Operation}

theorem explains_idle {s : Step} (written : ∀ ℓ, s.written? ℓ = none)
    (made : ∀ ℓ, s.made? ℓ = none) (lengths : ∀ k a, s.lengthMade? k a = none)
    (allocated : s.allocated = []) : s.Explains h h where
  holds ℓ := by simp [written, made]
  written_lt ℓ v some := by simp [written] at some
  le_made ℓ v some := by simp [made] at some
  lengths k a := by simp [lengths]
  allocated := by simp [allocated]
  size := by simp [allocated]

theorem explains_error (e : Condition) : (⟨op, .error e⟩ : Step).Explains h h :=
  explains_idle (fun _ => rfl) (fun _ => rfl) (fun _ _ => rfl) rfl

theorem explains_alloc {o : Object} {c : Cell} (address : o.address? = some h.size)
    (writes : ∀ ℓ, op.writes? ℓ = none) (allocates : op.allocates o = [o])
    (makes : ∀ ℓ, op.makes? o ℓ = if ℓ.address = h.size then ℓ.within? c else none)
    (lengths : ∀ k a, op.lengthMade? o k a =
      if a = h.size then (k.slots? c).map (·.size) else none) :
    (⟨op, .ok (.object o)⟩ : Step).Explains h (h.alloc c).2 where
  holds ℓ := by
    simp only [Heap.holds?, Heap.cell?_alloc, made?, written?, writes, makes]
    by_cases new : ℓ.address = h.size
    · simp [new, Heap.cell?_eq_none]
    · simp [new]
  written_lt ℓ v some := by simp [written?, writes] at some
  le_made ℓ v some := by
    simp only [made?, makes] at some
    split at some
    · rename_i new
      exact Nat.le_of_eq new.symm
    · cases some
  lengths k a := by
    simp only [Heap.length?_eq, Heap.cell?_alloc, lengthMade?, lengths]
    by_cases new : a = h.size
    · simp [new, Heap.cell?_eq_none]
    · simp [new]
  allocated := by simp [Step.allocated, allocates, address]
  size := by simp [Step.allocated, allocates, Heap.size_alloc]

theorem explains_port {o : Object} {c : Cell} (address : o.address? = some h.size)
    (pairless : ∀ x y, c ≠ .pair x y) (slotless : ∀ k : Sequence, k.slots? c = none)
    (writes : ∀ ℓ, op.writes? ℓ = none) (allocates : op.allocates o = [o])
    (makes : ∀ ℓ, op.makes? o ℓ = none) (lengths : ∀ k a, op.lengthMade? o k a = none) :
    (⟨op, .ok (.object o)⟩ : Step).Explains h (h.alloc c).2 := by
  refine explains_alloc address writes allocates (fun ℓ => ?_) fun k a => ?_
  · have closed : ℓ.within? c = none := by
      cases ℓ with
      | slot k a i => rw [Location.within?, slotless, Option.bind_none]
      | _ => cases c <;> first | rfl | exact absurd rfl (pairless _ _)
    rw [makes, closed, ite_self]
  · rw [lengths, slotless, Option.map_none, ite_self]

theorem explains_write {a : Addr} {c c' : Cell} (found : h.cell? a = some c)
    (writes : ∀ ℓ, ℓ.address ≠ a → op.writes? ℓ = none)
    (within : ∀ ℓ : Location, ℓ.address = a → ℓ.within? c' =
      (ℓ.within? c).map fun v => (op.writes? ℓ).getD v)
    (lengths : ∀ k : Sequence, (k.slots? c').map (·.size) = (k.slots? c).map (·.size)) :
    (⟨op, .ok .done⟩ : Step).Explains h (h.write a c') where
  holds ℓ := by
    simp only [Heap.holds?, Heap.cell?_write, made?, written?]
    by_cases here : ℓ.address = a
    · simp [here, found, within ℓ here]
    · simp [Ne.symm here, writes ℓ here]
  written_lt ℓ v some := by
    by_cases here : ℓ.address = a
    · exact here ▸ Heap.lt_size_of_cell? found
    · simp [written?, writes ℓ here] at some
  le_made ℓ v some := by simp [made?] at some
  lengths k b := by
    simp only [Heap.length?_eq, Heap.cell?_write, lengthMade?]
    by_cases here : a = b
    · subst here
      simp [found, lengths k]
    · simp [here]
  allocated := rfl
  size := Heap.size_write a c'

end Step

/-! A list is made of fresh pairs, each right after the one in its cdr. -/

namespace Heap

variable {h : Heap}

theorem cell?_list (items : List Object) (b : Addr) : (h.list items).2.cell? b =
    (h.cell? b).or ((Operation.pairOfList? items (h.size + items.length - 1) b).map
      fun p => .pair p.1 p.2) := by
  induction items with
  | nil => simp [list, Operation.pairOfList?]
  | cons item items ih =>
    have top : h.size + (item :: items).length - 1 = h.size + items.length := rfl
    rw [list_cons, cell?_alloc, size_list, top, Operation.pairOfList?]
    split
    · rename_i new
      rw [new, cell?_eq_none (Nat.le_add_right ..), list_fst]
      rfl
    · exact ih

theorem le_of_pairOfList? {items : List Object} {n : Nat} {b : Addr} {p : Object × Object}
    (found : Operation.pairOfList? items (n + items.length - 1) b = some p) : n ≤ b := by
  induction items with
  | nil => cases found
  | cons item items ih =>
    have top : n + (item :: items).length - 1 = n + items.length := rfl
    rw [top, Operation.pairOfList?] at found
    split at found
    · rename_i new
      exact new ▸ Nat.le_add_right n _
    · exact ih found

end Heap

namespace Step

variable {h : Heap} {op : Operation}

theorem made?_list (items : List Object) (ℓ : Location) :
    (⟨.list items, .ok (.object (h.list items).1)⟩ : Step).made? ℓ =
      ((Operation.pairOfList? items (h.size + items.length - 1) ℓ.address).map
        fun p => Cell.pair p.1 p.2).bind ℓ.within? := by
  rw [made?, Heap.list_fst]
  cases items with
  | nil => cases ℓ <;> rfl
  | cons item items =>
    generalize h.size + (item :: items).length - 1 = a
    show (Operation.list (item :: items)).makes? (.pair a) ℓ = _
    cases ℓ with
    | car b =>
      rw [Operation.makes?, Location.address]
      cases Operation.pairOfList? (item :: items) a b <;> rfl
    | cdr b =>
      rw [Operation.makes?, Location.address]
      cases Operation.pairOfList? (item :: items) a b <;> rfl
    | slot k b i =>
      rw [Location.address]
      cases Operation.pairOfList? (item :: items) a b with
      | none => rfl
      | some p => cases k <;> rfl

theorem allocated_list (items : List Object) :
    (⟨.list items, .ok (.object (h.list items).1)⟩ : Step).allocated =
      (List.range' h.size items.length).map .pair := by
  rw [allocated, Heap.list_fst]
  cases items with
  | nil => rfl
  | cons item items => simp [Operation.allocates]

theorem explains_list (items : List Object) :
    (⟨.list items, .ok (.object (h.list items).1)⟩ : Step).Explains h (h.list items).2 where
  holds ℓ := by
    have written : (⟨.list items, .ok (.object (h.list items).1)⟩ : Step).written? ℓ = none := rfl
    simp only [Heap.holds?, Heap.cell?_list, made?_list, written]
    cases old : h.cell? ℓ.address with
    | none => simp
    | some c =>
      cases new : Operation.pairOfList? items (h.size + items.length - 1) ℓ.address with
      | none => simp
      | some p =>
        have beyond := Heap.le_of_pairOfList? new
        exact absurd (Heap.lt_size_of_cell? old) (Nat.not_lt.mpr beyond)
  written_lt ℓ v some := by cases some
  le_made ℓ v some := by
    rw [made?_list, Option.bind_eq_some_iff] at some
    obtain ⟨c, found, -⟩ := some
    obtain ⟨p, found, -⟩ := Option.map_eq_some_iff.mp found
    exact Heap.le_of_pairOfList? found
  lengths k a := by
    have made : (⟨.list items, .ok (.object (h.list items).1)⟩ : Step).lengthMade? k a = none := rfl
    simp only [Heap.length?_eq, Heap.cell?_list, made, Option.or_none]
    cases old : h.cell? a with
    | some c => rfl
    | none =>
      cases Operation.pairOfList? items (h.size + items.length - 1) a with
      | none => rfl
      | some p => cases k <;> rfl
  allocated := by rw [allocated_list]; simp [Object.address?]
  size := by rw [allocated_list, Heap.size_list, List.length_map, List.length_range']

theorem explains_sequence {k : Sequence} {slots : Array k.Slot}
    (writes : ∀ ℓ, op.writes? ℓ = none) (allocates : ∀ o, op.allocates o = [o])
    (makes : ∀ o ℓ, op.makes? o ℓ = match ℓ with
      | .slot k' a i => if k' = k ∧ o = k.object a then
          ((Sequence.slotAt? slots i).map k.load).map (.element k) else none
      | _ => none)
    (lengths : ∀ o k' a, op.lengthMade? o k' a =
      if k' = k ∧ o = k.object a then some slots.size else none) :
    (⟨op, .ok (.object (h.sequence k slots).1)⟩ : Step).Explains h (h.sequence k slots).2 := by
  change (⟨op, .ok (.object (k.object h.size))⟩ : Step).Explains h (h.alloc (k.cell slots)).2
  refine explains_alloc (k.object_address? h.size) writes (allocates _) ?_ ?_
  · intro ℓ
    rw [makes]
    cases ℓ with
    | slot k' a i =>
      simp only [Sequence.object_inj, true_and, Location.address, Location.within?]
      by_cases kind : k' = k
      · subst kind
        simp [Sequence.slots?_cell, eq_comm]
      · simp [kind, Sequence.slots?_cell_ne kind]
    | _ => cases k <;> simp [Location.within?, Sequence.cell]
  · intro k' a
    rw [lengths]
    simp only [Sequence.object_inj, true_and]
    by_cases kind : k' = k
    · subst kind
      simp [Sequence.slots?_cell, eq_comm]
    · simp [kind, Sequence.slots?_cell_ne kind]

theorem explains_slots {k : Sequence} {a : Addr} {slots changed : Array k.Slot}
    (new : Int64 → Option k.Element) (found : h.cell? a = some (k.cell slots))
    (size : changed.size = slots.size)
    (slot : ∀ j, (Sequence.slotAt? changed j).map k.load =
      (Sequence.slotAt? slots j).map fun s => (new j).getD (k.load s))
    (writes : ∀ ℓ, op.writes? ℓ = match ℓ with
      | .slot k' b j => if k' = k ∧ b = a then (new j).map (.element k) else none
      | _ => none) :
    (⟨op, .ok .done⟩ : Step).Explains h (h.write a (k.cell changed)) := by
  refine explains_write found ?_ ?_ ?_
  · intro ℓ elsewhere
    rw [writes]
    cases ℓ with
    | slot k' b j => exact if_neg fun here => elsewhere here.2
    | _ => rfl
  · intro ℓ here
    rw [writes]
    cases ℓ with
    | slot k' b j =>
      obtain rfl : b = a := here
      simp only [Location.within?, and_true]
      by_cases kind : k' = k
      · subst kind
        simp only [Sequence.slots?_cell, Option.bind_some, ↓reduceIte]
        rw [slot]
        simp only [Option.map_map]
        congr 1
        funext s
        cases new j <;> rfl
      · simp [kind, Sequence.slots?_cell_ne kind]
    | _ => cases k <;> rfl
  · intro k'
    by_cases kind : k' = k
    · subst kind
      simp [Sequence.slots?_cell, size]
    · simp [Sequence.slots?_cell_ne kind]

theorem explains_pair {a : Addr} {x y : Object} (car cdr : Option Object)
    (found : h.cell? a = some (.pair x y))
    (writes : ∀ ℓ, op.writes? ℓ = match ℓ with
      | .car b => if b = a then car.map .object else none
      | .cdr b => if b = a then cdr.map .object else none
      | .slot .. => none) :
    (⟨op, .ok .done⟩ : Step).Explains h (h.write a (.pair (car.getD x) (cdr.getD y))) := by
  refine explains_write found ?_ ?_ fun k => by cases k <;> rfl
  · intro ℓ elsewhere
    rw [writes]
    cases ℓ with
    | car b => exact if_neg elsewhere
    | cdr b => exact if_neg elsewhere
    | slot => rfl
  · intro ℓ here
    rw [writes]
    cases ℓ with
    | car b =>
      obtain rfl : b = a := here
      cases car <;> simp [Location.within?]
    | cdr b =>
      obtain rfl : b = a := here
      cases cdr <;> simp [Location.within?]
    | slot k b j => cases k <;> rfl

theorem explains_setCar (o : Option Object) (value : Object) :
    (⟨.setCar o value, (h.setCar o value).1.map fun _ => .done⟩ : Step).Explains h
      (h.setCar o value).2 := by
  rcases h.pair_or_missing o with ⟨a, x, y, rfl, found⟩ | missing
  · rw [Heap.setCar_of_pair found]
    exact explains_pair (some value) none found fun ℓ => by
      cases ℓ <;> simp [Operation.writes?, eq_comm]
  · rw [Heap.setCar_of_missing missing]
    exact explains_error _

theorem explains_setCdr (o : Option Object) (value : Object) :
    (⟨.setCdr o value, (h.setCdr o value).1.map fun _ => .done⟩ : Step).Explains h
      (h.setCdr o value).2 := by
  rcases h.pair_or_missing o with ⟨a, x, y, rfl, found⟩ | missing
  · rw [Heap.setCdr_of_pair found]
    exact explains_pair none (some value) found fun ℓ => by
      cases ℓ <;> simp [Operation.writes?, eq_comm]
  · rw [Heap.setCdr_of_missing missing]
    exact explains_error _

theorem explains_setAt (k : Sequence) (o : Option Object) (i : Int64) (value : k.Element) :
    (⟨.setAt k o i value, (h.setAt k o i value).1.map fun _ => .done⟩ : Step).Explains h
      (h.setAt k o i value).2 := by
  rcases h.setAt_cases k o i value with ⟨a, slots, changed, rfl, cell, set, done⟩ | ⟨e, done⟩
  · rw [done]
    refine explains_slots (fun j => if i = j then some value else none) cell
      (Sequence.size_of_set set) ?_ ?_
    · intro j
      rw [Sequence.slotAt?_of_set set]
      split <;> rfl
    · intro ℓ
      cases ℓ with
      | slot k' b j =>
        by_cases same : i = j <;>
          simp [Operation.writes?, Sequence.object_inj, same, eq_comm]
      | _ => rfl
  · rw [done]
    exact explains_error _

theorem explains_fill (k : Sequence) (o : Object) (value : k.Element) :
    (⟨.fill k o value, (h.fill k o value).1.map fun _ => .done⟩ : Step).Explains h
      (h.fill k o value).2 := by
  rcases h.fill_cases k o value with ⟨a, slots, changed, rfl, cell, filled, done⟩ | ⟨e, done⟩
  · rw [done]
    refine explains_slots (fun _ => some value) cell (Sequence.size_of_fill filled) ?_ ?_
    · intro j
      exact Sequence.slotAt?_of_fill filled j
    · intro ℓ
      cases ℓ with
      | slot k' b j => simp [Operation.writes?, Sequence.object_inj, eq_comm]
      | _ => rfl
  · rw [done]
    exact explains_error _

theorem explains_make (k : Sequence) (length : Int64) (value : k.Element) (allocates : Nat → Bool) :
    (⟨.make k length value allocates,
      (h.makeSequence allocates k length value).1.map .object⟩ : Step).Explains h
      (h.makeSequence allocates k length value).2 := by
  unfold Heap.makeSequence
  split
  · rename_i slots done
    refine explains_sequence (fun ℓ => rfl) (fun o => rfl) ?_ ?_
    · intro o ℓ
      cases ℓ with
      | slot k' a i =>
        simp only [Sequence.slotAt?_of_makeFrom done]
        by_cases within : 0 ≤ i ∧ i < length <;> simp [Operation.makes?, within]
      | _ => rfl
    · intro o k' a
      rw [Sequence.size_of_makeFrom done]
      rfl
  · exact explains_error _

theorem explains_observer (observes : op.observes = true) (answer : Except Condition Answer) :
    (⟨op, answer⟩ : Step).Explains h h := by
  cases answer with
  | error e => exact explains_error e
  | ok answer =>
    cases op <;> cases observes <;>
      exact explains_idle (fun _ => rfl) (fun _ => by cases answer <;> rfl)
        (fun _ _ => by cases answer <;> rfl) (by cases answer <;> rfl)

theorem explains_cons (x y : Object) :
    (⟨.cons x y, .ok (.object (h.cons x y).1)⟩ : Step).Explains h (h.cons x y).2 := by
  change (⟨.cons x y, .ok (.object (.pair h.size))⟩ : Step).Explains h (h.alloc (.pair x y)).2
  refine explains_alloc rfl (fun _ => rfl) rfl ?_ ?_
  · intro ℓ
    cases ℓ with
    | car a =>
      by_cases new : a = h.size <;>
        simp [Operation.makes?, Location.address, Location.within?, new, eq_comm]
    | cdr a =>
      by_cases new : a = h.size <;>
        simp [Operation.makes?, Location.address, Location.within?, new, eq_comm]
    | slot k a i => cases k <;> simp [Operation.makes?, Location.within?, Sequence.slots?]
  · intro k a
    cases k <;> simp [Operation.lengthMade?, Sequence.slots?]

theorem explains (table : Interner) (h : Heap) (op : Operation) :
    (⟨op, (op.apply table h).1⟩ : Step).Explains h (op.apply table h).2 := by
  cases op with
  | cons x y => exact explains_cons x y
  | list items => exact explains_list items
  | sequence k slots =>
    refine explains_sequence (fun _ => rfl) (fun _ => rfl) ?_ (fun _ _ _ => rfl)
    intro o ℓ
    cases ℓ with
    | slot k' a i => simp only [Operation.makes?, Sequence.get_toOption]
    | _ => rfl
  | make k length value allocates => exact explains_make k length value allocates
  | inputPort bytes =>
    exact explains_port (c := .inputPort bytes) rfl (fun _ _ => by simp)
      (fun k => by cases k <;> rfl) (fun _ => rfl) rfl (fun _ => rfl) (fun _ _ => rfl)
  | outputPort =>
    exact explains_port (c := .outputPort #[]) rfl (fun _ _ => by simp)
      (fun k => by cases k <;> rfl) (fun _ => rfl) rfl (fun _ => rfl) (fun _ _ => rfl)
  | setCar o value => exact explains_setCar o value
  | setCdr o value => exact explains_setCdr o value
  | setAt k o i value => exact explains_setAt k o i value
  | fill k o value => exact explains_fill k o value
  | car | cdr | refAt | same | equal | isList | write => exact explains_observer rfl _

end Step

/-! An operation that only looks, or that fails, leaves the heap as it was. -/

namespace Operation

theorem ok_of_map {α β : Type} {f : α → β} {result : Except Condition α} {b : β}
    (mapped : result.map f = .ok b) : ∃ a, result = .ok a ∧ f a = b := by
  cases result with
  | ok a => exact ⟨a, rfl, Except.ok.inj mapped⟩
  | error e => cases mapped

theorem apply_of_observes {table : Interner} {h : Heap} {op : Operation}
    (observes : op.observes = true) : (op.apply table h).2 = h := by
  cases op <;> cases observes <;> rfl

theorem error_of_map {α β : Type} {f : α → β} {result : Except Condition α} {e : Condition}
    (mapped : result.map f = .error e) : result = .error e := by
  cases result with
  | ok a => cases mapped
  | error e =>
    cases mapped
    rfl

theorem apply_of_error {table : Interner} {h : Heap} {op : Operation} {e : Condition}
    (failed : (op.apply table h).1 = .error e) : (op.apply table h).2 = h := by
  cases op with
  | make => exact Heap.makeSequence_of_error (error_of_map failed)
  | setCar => exact Heap.setCar_of_error (error_of_map failed)
  | setCdr => exact Heap.setCdr_of_error (error_of_map failed)
  | setAt => exact Heap.setAt_of_error (error_of_map failed)
  | fill => exact Heap.fill_of_error (error_of_map failed)
  | _ => first | rfl | cases failed

end Operation

end SchemeCore
