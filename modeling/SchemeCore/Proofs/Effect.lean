import SchemeCore.Circle
import SchemeCore.Proofs.Acyclic
import SchemeCore.Proofs.Step

/-! What each operation can do to the heap: leave it as it is, add the cell of the object that it
answers with or the pairs of a list, or write over the cell of its target. New cells hold operands
of the operation only, and a write adds only what the operation stores. -/

namespace SchemeCore

namespace Sequence

variable {k : Sequence} {slots changed : Array k.Slot} {value e : k.Element}

theorem items_cell (k : Sequence) (slots : Array k.Slot) :
    (k.cell slots).items = (k.elements slots).flatMap k.objects := by
  cases k with
  | vector =>
    rw [elements, List.flatMap_map]
    exact (List.flatMap_singleton' slots.toList).symm
  | string | bytes => simp [cell, Cell.items, objects]

theorem suits_cell (k : Sequence) (slots : Array k.Slot) (a : Addr) :
    (k.cell slots).suits (k.object a) := by
  cases k <;> rfl

theorem suits_cell_of_cell {o : Object} (changed : Array k.Slot)
    (suits : (k.cell slots).suits o) : (k.cell changed).suits o := by
  cases k <;> cases o <;> first | rfl | cases suits

theorem eq_of_mem_elements_replicate {n : Nat} {slot : k.Slot} (stored : k.store value = .ok slot)
    (inside : e ∈ k.elements (Array.replicate n slot)) : e = value := by
  rw [elements, Array.toList_replicate, List.map_replicate, load_of_store stored] at inside
  exact List.eq_of_mem_replicate inside

theorem eq_of_mem_makeFrom {allocates : Nat → Bool} {length : Int64}
    (done : k.makeFrom allocates length value = .ok slots) (inside : e ∈ k.elements slots) :
    e = value :=
  List.eq_of_mem_replicate (elements_of_makeFrom done ▸ inside)

theorem eq_of_mem_fill (done : k.fill slots value = .ok changed)
    (inside : e ∈ k.elements changed) : e = value := by
  unfold fill at done
  split at done
  · cases done
  · rename_i stored
    cases done
    exact eq_of_mem_elements_replicate stored inside

theorem mem_or_eq_of_mem_set {i : Int64} (done : k.set slots i value = .ok changed)
    (inside : e ∈ k.elements changed) : e ∈ k.elements slots ∨ e = value := by
  unfold set at done
  split at done
  · cases done
  · split at done
    · cases done
    · rename_i stored
      cases done
      rw [elements, Array.toList_set, List.map_set, load_of_store stored] at inside
      exact List.mem_or_eq_of_mem_set inside

end Sequence

namespace Operation

variable {h : Heap} {op : Operation}

inductive Effect (op : Operation) (h : Heap) : Except Condition Answer → Heap → Prop
  | kept {answer : Except Condition Answer} (none : (⟨op, answer⟩ : Step).allocated = []) :
      Effect op h answer h
  | alloc {o : Object} {c : Cell} (address : o.address? = some h.size) (suits : c.suits o)
      (items : ∀ p ∈ c.items, p ∈ op.operands) (allocates : op.allocates o = [o]) :
      Effect op h (.ok (.object o)) (h.alloc c).2
  | list {items : List Object} (same : op = .list items) :
      Effect op h (.ok (.object (h.list items).1)) (h.list items).2
  | write {o : Object} {a : Addr} {c c' : Cell} (target : o ∈ op.target?)
      (address : o.address? = some a) (found : h.cell? a = some c) (suits : c.suits o)
      (kind : ∀ q, c.suits q → c'.suits q) (items : ∀ p ∈ c'.items, p ∈ c.items ∨ p ∈ op.stored) :
      Effect op h (.ok .done) (h.write a c')

theorem effect_error (e : Condition) : op.Effect h (.error e) h := .kept rfl

theorem effect_sequence {k : Sequence} {slots : Array k.Slot}
    (elements : ∀ e ∈ k.elements slots, ∀ p ∈ k.objects e, p ∈ op.operands)
    (allocates : ∀ o, op.allocates o = [o]) :
    op.Effect h (.ok (.object (h.sequence k slots).1)) (h.sequence k slots).2 := by
  refine .alloc (k.object_address? h.size) (k.suits_cell slots h.size) ?_ (allocates _)
  intro p inside
  rw [Sequence.items_cell] at inside
  obtain ⟨e, element, held⟩ := List.mem_flatMap.mp inside
  exact elements e element p held

theorem effect_make (k : Sequence) (length : Int64) (value : k.Element) (allocates : Nat → Bool) :
    (Operation.make k length value allocates).Effect h
      ((h.makeSequence allocates k length value).1.map .object)
      (h.makeSequence allocates k length value).2 := by
  unfold Heap.makeSequence
  split
  · rename_i done
    refine effect_sequence (fun e element p held => ?_) fun _ => rfl
    exact Sequence.eq_of_mem_makeFrom done element ▸ held
  · exact effect_error _

theorem effect_slots {k : Sequence} {a : Addr} {slots changed : Array k.Slot} {value : k.Element}
    (target : k.object a ∈ op.target?) (found : h.cell? a = some (k.cell slots))
    (stored : op.stored = k.objects value)
    (elements : ∀ e ∈ k.elements changed, e ∈ k.elements slots ∨ e = value) :
    op.Effect h (.ok .done) (h.write a (k.cell changed)) := by
  refine .write target (k.object_address? a) found (k.suits_cell slots a)
    (fun _ => Sequence.suits_cell_of_cell changed) fun p inside => ?_
  rw [Sequence.items_cell] at inside ⊢
  obtain ⟨e, element, held⟩ := List.mem_flatMap.mp inside
  rw [stored]
  rcases elements e element with old | rfl
  · exact .inl (List.mem_flatMap.mpr ⟨e, old, held⟩)
  · exact .inr held

theorem effect_setAt (k : Sequence) (o : Option Object) (i : Int64) (value : k.Element) :
    (Operation.setAt k o i value).Effect h ((h.setAt k o i value).1.map fun _ => .done)
      (h.setAt k o i value).2 := by
  rcases h.setAt_cases k o i value with ⟨a, slots, changed, rfl, cell, set, done⟩ | ⟨e, done⟩
  · rw [done]
    exact effect_slots rfl cell rfl fun e => Sequence.mem_or_eq_of_mem_set set
  · rw [done]
    exact effect_error _

theorem effect_fill (k : Sequence) (o : Object) (value : k.Element) :
    (Operation.fill k o value).Effect h ((h.fill k o value).1.map fun _ => .done)
      (h.fill k o value).2 := by
  rcases h.fill_cases k o value with ⟨a, slots, changed, rfl, cell, filled, done⟩ | ⟨e, done⟩
  · rw [done]
    exact effect_slots rfl cell rfl fun e inside => .inr (Sequence.eq_of_mem_fill filled inside)
  · rw [done]
    exact effect_error _

theorem effect_pair {a : Addr} {x y x' y' value : Object} (target : .pair a ∈ op.target?)
    (found : h.cell? a = some (.pair x y)) (stored : op.stored = [value])
    (parts : x' = value ∧ y' = y ∨ x' = x ∧ y' = value) :
    op.Effect h (.ok .done) (h.write a (.pair x' y')) := by
  refine .write target rfl found rfl (fun q suits => ?_) fun p inside => ?_
  · cases q <;> first | rfl | cases suits
  · rw [stored, List.mem_singleton]
    rcases parts with ⟨rfl, rfl⟩ | ⟨rfl, rfl⟩
    · rcases List.mem_pair.mp inside with rfl | rfl
      · exact .inr rfl
      · exact .inl (List.mem_pair.mpr (.inr rfl))
    · rcases List.mem_pair.mp inside with rfl | rfl
      · exact .inl (List.mem_pair.mpr (.inl rfl))
      · exact .inr rfl

theorem effect_setCar (o : Option Object) (value : Object) :
    (Operation.setCar o value).Effect h ((h.setCar o value).1.map fun _ => .done)
      (h.setCar o value).2 := by
  rcases h.pair_or_missing o with ⟨a, x, y, rfl, found⟩ | missing
  · rw [Heap.setCar_of_pair found]
    exact effect_pair rfl found rfl (.inl ⟨rfl, rfl⟩)
  · rw [Heap.setCar_of_missing missing]
    exact effect_error _

theorem effect_setCdr (o : Option Object) (value : Object) :
    (Operation.setCdr o value).Effect h ((h.setCdr o value).1.map fun _ => .done)
      (h.setCdr o value).2 := by
  rcases h.pair_or_missing o with ⟨a, x, y, rfl, found⟩ | missing
  · rw [Heap.setCdr_of_pair found]
    exact effect_pair rfl found rfl (.inr ⟨rfl, rfl⟩)
  · rw [Heap.setCdr_of_missing missing]
    exact effect_error _

theorem effect_observer (observes : op.observes = true) (answer : Except Condition Answer) :
    op.Effect h answer h := by
  refine .kept ?_
  cases answer with
  | error e => rfl
  | ok answer => cases op <;> cases observes <;> cases answer <;> rfl

theorem effect_apply (table : Interner) (h : Heap) (op : Operation) :
    op.Effect h (op.apply table h).1 (op.apply table h).2 := by
  cases op with
  | cons x y => exact .alloc (c := .pair x y) rfl rfl (fun _ => id) rfl
  | list items => exact .list rfl
  | sequence k slots =>
    refine effect_sequence (fun e element p held => ?_) fun _ => rfl
    exact List.mem_flatMap.mpr ⟨e, element, held⟩
  | make k length value allocates => exact effect_make k length value allocates
  | inputPort bytes => exact .alloc (c := .inputPort bytes) rfl rfl nofun rfl
  | outputPort => exact .alloc (c := .outputPort #[]) rfl rfl nofun rfl
  | setCar o value => exact effect_setCar o value
  | setCdr o value => exact effect_setCdr o value
  | setAt k o i value => exact effect_setAt k o i value
  | fill k o value => exact effect_fill k o value
  | car | cdr | refAt | same | equal | isList | write => exact effect_observer rfl _

theorem mem_operands_of_stored {p : Object} (stored : p ∈ op.stored) : p ∈ op.operands := by
  cases op with
  | setCar | setCdr | setAt => exact List.mem_append_right _ stored
  | fill => exact List.mem_cons_of_mem _ stored
  | _ => cases stored

namespace Effect

variable {answer : Except Condition Answer} {h' : Heap}

theorem leads {o : Object} (effect : op.Effect h answer h') (leads : h.leads o) : h'.leads o := by
  cases effect with
  | kept => exact leads
  | alloc => exact Heap.leads_alloc leads
  | list => exact Heap.leads_list _ leads
  | write _ _ found _ kind => exact Heap.leads_write found kind leads

theorem leads_allocated (effect : op.Effect h answer h') :
    ∀ o ∈ (⟨op, answer⟩ : Step).allocated, h'.leads o := by
  cases effect with
  | kept none => simp [none]
  | alloc address suits _ allocates =>
    simp only [Step.allocated, allocates, List.mem_singleton, forall_eq]
    exact Heap.leads_new address suits
  | list same =>
    subst same
    rw [Step.allocated_list]
    exact Heap.leads_pair_of_list _
  | write => simp [Step.allocated]

/-- Only a write can close a circle, and only one of an object that reaches the target. -/
theorem founded (effect : op.Effect h answer h') (founded : h.Founded)
    (operands : ∀ o ∈ op.operands, h.leads o)
    (straight : answer = .ok .done → ∀ o ∈ op.target?, ∀ value ∈ op.stored,
      h'.Holds o value → ¬h.Reaches value o) : h'.Founded := by
  cases effect with
  | kept => exact founded
  | alloc _ _ items => exact founded.alloc fun p inside => operands p (items p inside)
  | list same =>
    subst same
    exact founded.list operands
  | @write o a c c' target address found suits kind items =>
    refine founded.write address found suits kind fun p inside => ?_
    refine (items p inside).imp_right fun stored => ⟨operands p (mem_operands_of_stored stored), ?_⟩
    refine straight rfl o target p stored (Heap.holds_iff.mpr ⟨a, c', address, ?_, inside⟩)
    rw [Heap.cell?_write, if_pos rfl, found, Option.map_some]

end Effect

end Operation

end SchemeCore
