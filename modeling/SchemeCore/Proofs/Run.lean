import SchemeCore.Proofs.Access
import Mathlib.Data.List.Induction

/-! Every run agrees with its record. The heap of a run holds at each location the value of the last
write to it, or else the value it was made with; this is an invariant because what is new has an
address that no earlier write can have had. Addresses are given out in order, so the allocations of
a run are the cells of its heap and no two of them are identical. Programs that use only what was
made are handed only what was made: what they read is what they wrote. -/

namespace SchemeCore

namespace History

variable (history : History) (s : Step)

theorem lastWrite?_concat (ℓ : Location) :
    lastWrite? (history ++ [s]) ℓ = (s.written? ℓ).or (lastWrite? history ℓ) := by
  rw [lastWrite?, List.reverse_append, List.findSome?_append]
  simp [lastWrite?]

theorem initial?_concat (ℓ : Location) :
    initial? (history ++ [s]) ℓ = (initial? history ℓ).or (s.made? ℓ) := by
  simp [initial?, List.findSome?_append]

theorem length?_concat (k : Sequence) (a : Addr) :
    length? (history ++ [s]) k a = (length? history k a).or (s.lengthMade? k a) := by
  simp [length?, List.findSome?_append]

theorem allocations_concat : allocations (history ++ [s]) = allocations history ++ s.allocated := by
  simp [allocations]

end History

namespace Run

/-- A heap is what its history says. -/
structure Recorded (r : Run) : Prop where
  holds : ∀ ℓ, r.heap.holds? ℓ =
    (r.history.initial? ℓ).map fun v => (r.history.lastWrite? ℓ).getD v
  written_lt : ∀ ℓ v, r.history.lastWrite? ℓ = some v → ℓ.address < r.heap.size
  lengths : ∀ k a, r.heap.length? k a = r.history.length? k a
  allocations : r.history.allocations.map Object.address? = (List.range r.heap.size).map some

theorem recorded_start : start.Recorded where
  holds _ := rfl
  written_lt _ _ some := by cases some
  lengths k a := by cases k <;> rfl
  allocations := rfl

theorem Recorded.next {r : Run} (recorded : r.Recorded) (table : Interner) (op : Operation) :
    (r.next table op).Recorded := by
  have step := Step.explains table r.heap op
  constructor
  · intro ℓ
    simp only [Run.next, History.initial?_concat, History.lastWrite?_concat]
    rw [step.holds, recorded.holds]
    cases old : r.history.initial? ℓ with
    | some v => cases Step.written? _ ℓ <;> simp
    | none =>
      cases new : Step.made? _ ℓ with
      | none => simp
      | some v =>
        have unwritten : r.history.lastWrite? ℓ = none := by
          refine Option.eq_none_iff_forall_ne_some.mpr fun w written => ?_
          exact absurd (recorded.written_lt ℓ w written) (Nat.not_lt.mpr (step.le_made ℓ v new))
        simp [unwritten]
  · intro ℓ v written
    simp only [Run.next, History.lastWrite?_concat, Option.or_eq_some_iff] at written
    rcases written with now | ⟨-, before⟩
    · exact Nat.lt_of_lt_of_le (step.written_lt ℓ v now) (step.size ▸ Nat.le_add_right ..)
    · exact Nat.lt_of_lt_of_le (recorded.written_lt ℓ v before) (step.size ▸ Nat.le_add_right ..)
  · intro k a
    simp only [Run.next, History.length?_concat]
    rw [step.lengths, recorded.lengths]
  · simp only [Run.next, History.allocations_concat, List.map_append]
    rw [recorded.allocations, step.allocated, step.size, List.range_eq_range', List.range_eq_range',
      ← List.map_append, ← List.range'_append_1, Nat.zero_add]

theorem of_concat (table : Interner) (ops : List Operation) (op : Operation) :
    of table (ops ++ [op]) = (of table ops).next table op := by
  rw [of, List.foldl_append]
  rfl

theorem recorded (table : Interner) (ops : List Operation) : (of table ops).Recorded := by
  induction ops using List.reverseRecOn with
  | nil => exact recorded_start
  | append_singleton ops op ih =>
    rw [of_concat]
    exact ih.next table op

/-! What a program meets in a run. -/

theorem byte_of_refAt {h : Heap} {o : Option Object} {i n : Int64}
    (read : h.refAt .bytes o i = .ok n) : 0 ≤ n ∧ n ≤ 255 := by
  unfold Heap.refAt Sequence.get at read
  split at read
  · split at read
    · cases read
      exact Sequence.load_bytes_within _
    · cases read
  · cases read

theorem Recorded.address?_allocation {r : Run} (recorded : r.Recorded) (i : Nat)
    (hi : i < r.history.allocations.length) : r.history.allocations[i].address? = some i := by
  have at_i := congrArg (·[i]?) recorded.allocations
  simp only [List.getElem?_map, List.getElem?_eq_getElem hi, Option.map_some] at at_i
  rw [List.getElem?_eq_getElem, List.getElem_range] at at_i
  · exact Option.some.inj at_i
  · have := congrArg List.length recorded.allocations
    simp only [List.length_map, List.length_range] at this
    simpa using this ▸ hi

theorem Recorded.same_iff {r : Run} (recorded : r.Recorded) (i j : Nat)
    (hi : i < r.history.allocations.length) (hj : j < r.history.allocations.length) :
    r.history.allocations[i].same r.history.allocations[j] = true ↔ i = j := by
  have at_i := recorded.address?_allocation i hi
  have at_j := recorded.address?_allocation j hj
  rw [Object.same_iff_of_address at_i]
  constructor
  · intro one
    rw [one, at_j] at at_i
    exact (Option.some.inj at_i).symm
  · rintro rfl
    rfl

end Run

/-! Programs hold only compounds that were made. -/

namespace History

variable {history : History} {s : Step} {ℓ : Location} {v : Answer} {o : Object}

theorem mem_allocations (mem : s ∈ history) (made : o ∈ s.allocated) : o ∈ history.allocations :=
  List.mem_flatMap.mpr ⟨s, mem, made⟩

theorem Scoped.operand (inScope : history.Scoped) (mem : s ∈ history)
    (operand : o ∈ s.operation.operands) (compound : o.address?.isSome) :
    o ∈ history.allocations := by
  obtain ⟨before, after, rfl⟩ := List.append_of_mem mem
  have earlier := inScope before s after rfl o operand compound
  rw [allocations, List.flatMap_append]
  exact List.mem_append_left _ earlier

theorem operand_of_writes? {op : Operation} (written : op.writes? ℓ = some v)
    (held : o ∈ v.objects) : o ∈ op.operands := by
  cases op with
  | setCar p value =>
    cases ℓ with
    | car a =>
      obtain ⟨-, ⟨⟩⟩ := Option.ite_none_right_eq_some.mp written
      exact List.mem_append_right _ held
    | _ => cases written
  | setCdr p value =>
    cases ℓ with
    | cdr a =>
      obtain ⟨-, ⟨⟩⟩ := Option.ite_none_right_eq_some.mp written
      exact List.mem_append_right _ held
    | _ => cases written
  | setAt k p i value =>
    cases ℓ with
    | slot k' a j =>
      obtain ⟨-, ⟨⟩⟩ := Option.ite_none_right_eq_some.mp written
      exact List.mem_append_right _ held
    | _ => cases written
  | fill k p value =>
    cases ℓ with
    | slot k' a j =>
      obtain ⟨-, ⟨⟩⟩ := Option.ite_none_right_eq_some.mp written
      exact List.mem_cons_of_mem _ held
    | _ => cases written
  | _ => cases written

theorem operand_of_written? (written : s.written? ℓ = some v) (held : o ∈ v.objects) :
    o ∈ s.operation.operands := by
  obtain ⟨op, answer⟩ := s
  cases answer with
  | error e => cases written
  | ok answer => exact operand_of_writes? written held

theorem mem_of_pairOfList? {items : List Object} {a b : Addr} {x tail : Object}
    (found : Operation.pairOfList? items a b = some (x, tail)) : x ∈ items ∧ (tail = .null ∨
      ∃ c, tail = .pair c ∧ c ∈ List.range' (a + 1 - items.length) items.length) := by
  induction items generalizing a with
  | nil => cases found
  | cons item items ih =>
    rw [Operation.pairOfList?] at found
    split at found
    · cases found
      refine ⟨List.mem_cons_self, ?_⟩
      cases items with
      | nil => exact .inl rfl
      | cons next items =>
        refine .inr ⟨a - 1, rfl, ?_⟩
        simp only [List.mem_range'_1, List.length_cons]
        omega
    · obtain ⟨mem, null | ⟨c, eq, within⟩⟩ := ih found
      · exact ⟨List.mem_cons_of_mem _ mem, .inl null⟩
      · refine ⟨List.mem_cons_of_mem _ mem, .inr ⟨c, eq, ?_⟩⟩
        simp only [List.mem_range'_1, List.length_cons] at within ⊢
        omega

theorem operand_or_allocated_of_list {items : List Object} {p : Object}
    (made : (Operation.list items).makes? p ℓ = some v) (held : o ∈ v.objects)
    (compound : o.address?.isSome) :
    o ∈ (Operation.list items).operands ∨ o ∈ (Operation.list items).allocates p := by
  cases p with
  | pair a =>
    cases ℓ with
    | car b =>
      obtain ⟨⟨x, tail⟩, found, rfl⟩ := Option.map_eq_some_iff.mp made
      obtain rfl := List.mem_singleton.mp held
      exact .inl (mem_of_pairOfList? found).1
    | cdr b =>
      obtain ⟨⟨x, tail⟩, found, rfl⟩ := Option.map_eq_some_iff.mp made
      obtain rfl := List.mem_singleton.mp held
      obtain ⟨-, rfl | ⟨c, rfl, within⟩⟩ := mem_of_pairOfList? found
      · cases compound
      · exact .inr (List.mem_map_of_mem within)
    | slot => cases made
  | _ => cases made

theorem operand_or_allocated_of_makes? {op : Operation} {p : Object}
    (made : op.makes? p ℓ = some v) (held : o ∈ v.objects) (compound : o.address?.isSome) :
    o ∈ op.operands ∨ o ∈ op.allocates p := by
  cases op with
  | cons x y =>
    cases ℓ with
    | car a =>
      obtain ⟨-, ⟨⟩⟩ := Option.ite_none_right_eq_some.mp made
      exact .inl (List.mem_cons.mpr (.inl (List.mem_singleton.mp held)))
    | cdr a =>
      obtain ⟨-, ⟨⟩⟩ := Option.ite_none_right_eq_some.mp made
      exact .inl (List.mem_cons_of_mem _ held)
    | slot => cases made
  | list items => exact operand_or_allocated_of_list made held compound
  | sequence k slots =>
    cases ℓ with
    | slot k' a i =>
      obtain ⟨-, made⟩ := Option.ite_none_right_eq_some.mp made
      obtain ⟨e, read, rfl⟩ := Option.map_eq_some_iff.mp made
      cases got : k.get slots i with
      | error c => rw [got] at read; cases read
      | ok e' =>
        rw [got] at read
        cases read
        exact .inl (List.mem_flatMap.mpr ⟨e, Sequence.mem_elements_of_get got, held⟩)
    | _ => cases made
  | make k length value =>
    cases ℓ with
    | slot k' a i =>
      obtain ⟨-, ⟨⟩⟩ := Option.ite_none_right_eq_some.mp made
      exact .inl held
    | _ => cases made
  | _ => cases made

theorem operand_or_allocated_of_made? (made : s.made? ℓ = some v) (held : o ∈ v.objects)
    (compound : o.address?.isSome) : o ∈ s.operation.operands ∨ o ∈ s.allocated := by
  obtain ⟨op, answer⟩ := s
  cases answer with
  | error e => cases made
  | ok answer =>
    cases answer with
    | object p => exact operand_or_allocated_of_makes? made held compound
    | _ => cases made

theorem held_of_scoped {r : Run} (recorded : r.Recorded) (inScope : r.history.Scoped)
    (holds : r.heap.holds? ℓ = some v) (held : o ∈ v.objects) (compound : o.address?.isSome) :
    o ∈ r.history.allocations := by
  rw [recorded.holds, Option.map_eq_some_iff] at holds
  obtain ⟨first, initial, rfl⟩ := holds
  cases last : r.history.lastWrite? ℓ with
  | some w =>
    rw [last] at held
    obtain ⟨s, mem, written⟩ := List.exists_of_findSome?_eq_some last
    exact inScope.operand (List.mem_reverse.mp mem) (operand_of_written? written held) compound
  | none =>
    rw [last] at held
    obtain ⟨s, mem, made⟩ := List.exists_of_findSome?_eq_some initial
    rcases operand_or_allocated_of_made? made held compound with operand | allocated
    · exact inScope.operand mem operand compound
    · exact mem_allocations mem allocated

theorem Scoped.of_concat (inScope : Scoped (history ++ [s])) : history.Scoped := by
  rintro before s' after rfl
  exact inScope before s' (after ++ [s]) (by simp)

end History

namespace Run

/-! An operation that reads with success is the reading of a location. -/

theorem pair_of_bind {h : Heap} {o : Option Object} {p : Object × Object}
    (found : o.bind h.pair? = some p) : ∃ a, o = some (.pair a) := by
  obtain ⟨o, rfl, found⟩ := Option.bind_eq_some_iff.mp found
  obtain ⟨a, rfl, -⟩ := Heap.pair?_eq_some_iff.mp found
  exact ⟨a, rfl⟩

theorem pair_of_car {h : Heap} {o : Option Object} {x : Object} (read : h.car o = .ok x) :
    ∃ a, o = some (.pair a) := by
  unfold Heap.car at read
  split at read
  · exact pair_of_bind ‹_›
  · cases read

theorem pair_of_cdr {h : Heap} {o : Option Object} {y : Object} (read : h.cdr o = .ok y) :
    ∃ a, o = some (.pair a) := by
  unfold Heap.cdr at read
  split at read
  · exact pair_of_bind ‹_›
  · cases read

theorem sequence_of_refAt {h : Heap} {k : Sequence} {o : Option Object} {i : Int64} {e : k.Element}
    (read : h.refAt k o i = .ok e) : ∃ a, o = some (k.object a) := by
  unfold Heap.refAt at read
  split at read
  · rename_i found
    obtain ⟨p, rfl, found⟩ := Option.bind_eq_some_iff.mp found
    obtain ⟨rfl, -⟩ := Heap.sequence?_eq_some_iff.mp found
    exact ⟨_, rfl⟩
  · cases read

theorem holds?_of_read {table : Interner} {h : Heap} {ℓ : Location} {answer : Answer}
    (answered : (ℓ.read.apply table h).1 = .ok answer) : h.holds? ℓ = some answer := by
  rw [← Heap.read_toOption table, answered]
  rfl

theorem mem_allocated_of_object {op : Operation} {p o : Object}
    (allocates : ∀ p, op.allocates p = [p]) (handed : o ∈ (Answer.object p).objects) :
    o ∈ (⟨op, .ok (.object p)⟩ : Step).allocated := by
  change o ∈ op.allocates p
  rw [allocates]
  exact handed

theorem allocated_or_held {table : Interner} {h : Heap} {op : Operation} {answer : Answer}
    {o : Object} (answered : (op.apply table h).1 = .ok answer) (handed : o ∈ answer.objects)
    (compound : o.address?.isSome) : o ∈ (⟨op, .ok answer⟩ : Step).allocated ∨
      ∃ ℓ, h.holds? ℓ = some answer := by
  cases op with
  | cons | sequence | inputPort | outputPort =>
    cases answered
    exact .inl (mem_allocated_of_object (fun _ => rfl) handed)
  | make =>
    obtain ⟨p, -, rfl⟩ := Operation.ok_of_map answered
    exact .inl (mem_allocated_of_object (fun _ => rfl) handed)
  | list items =>
    obtain rfl : .object (h.list items).1 = answer := Except.ok.inj answered
    obtain rfl := List.mem_singleton.mp handed
    refine .inl ?_
    rw [Step.allocated_list]
    rw [Heap.list_fst] at compound ⊢
    cases items with
    | nil => cases compound
    | cons item items => exact List.mem_map_of_mem (by simp)
  | car p =>
    obtain ⟨x, read, -⟩ := Operation.ok_of_map answered
    obtain ⟨a, rfl⟩ := pair_of_car read
    exact .inr ⟨.car a, holds?_of_read answered⟩
  | cdr p =>
    obtain ⟨y, read, -⟩ := Operation.ok_of_map answered
    obtain ⟨a, rfl⟩ := pair_of_cdr read
    exact .inr ⟨.cdr a, holds?_of_read answered⟩
  | refAt k p i =>
    obtain ⟨e, read, -⟩ := Operation.ok_of_map answered
    obtain ⟨a, rfl⟩ := sequence_of_refAt read
    exact .inr ⟨.slot k a i, holds?_of_read answered⟩
  | setCar | setCdr | setAt | fill =>
    obtain ⟨-, -, rfl⟩ := Operation.ok_of_map answered
    cases handed
  | same | equal | isList | write =>
    cases answered
    cases handed

theorem mem_allocations_of_answer {table : Interner} {ops : List Operation}
    (inScope : (of table ops).history.Scoped) {s : Step} (mem : s ∈ (of table ops).history)
    {answer : Answer} (answered : s.answer = .ok answer) {o : Object} (handed : o ∈ answer.objects)
    (compound : o.address?.isSome) : o ∈ (of table ops).history.allocations := by
  induction ops using List.reverseRecOn with
  | nil => cases mem
  | append_singleton ops op ih =>
    rw [of_concat] at *
    simp only [next] at inScope mem ⊢
    rw [History.allocations_concat]
    rcases List.mem_append.mp mem with before | now
    · exact List.mem_append_left _ (ih inScope.of_concat before)
    · obtain rfl := List.mem_singleton.mp now
      have answered : (op.apply table (of table ops).heap).1 = .ok answer := answered
      rw [answered]
      rcases allocated_or_held answered handed compound with made | ⟨ℓ, holds⟩
      · exact List.mem_append_right _ made
      · exact List.mem_append_left _
          (History.held_of_scoped (recorded table ops) inScope.of_concat holds handed compound)

theorem read_eq_ok_iff {table : Interner} {h : Heap} {ℓ : Location} {v : Answer} :
    (ℓ.read.apply table h).1 = .ok v ↔ h.holds? ℓ = some v := by
  constructor
  · exact holds?_of_read
  · intro holds
    rw [← Heap.read_toOption table] at holds
    cases read : (ℓ.read.apply table h).1 with
    | error e => rw [read] at holds; cases holds
    | ok w =>
      rw [read] at holds
      exact congrArg Except.ok (Option.some.inj holds)

structure Agrees (table : Interner) (r : Run) : Prop where
  reads : ∀ ℓ : Location, (ℓ.read.apply table r.heap).1.toOption =
    (r.history.initial? ℓ).map fun v => (r.history.lastWrite? ℓ).getD v
  untouched : ∀ op : Operation, (op.observes = true ∨ ∃ e, (op.apply table r.heap).1 = .error e) →
    (op.apply table r.heap).2 = r.heap
  succeeds : ∀ op : Operation, (∃ answer, (op.apply table r.heap).1 = .ok answer) ↔
    op.Allowed (fun a => (r.history.initial? (.car a)).isSome) r.history.length?
  kept : ∀ (op : Operation) (ℓ : Location) v, (ℓ.read.apply table r.heap).1 = .ok v →
    (⟨op, (op.apply table r.heap).1⟩ : Step).written? ℓ = none →
    (ℓ.read.apply table (op.apply table r.heap).2).1 = .ok v
  lengths : ∀ k a, r.heap.length? k a = r.history.length? k a
  bytes : ∀ o i n, r.heap.refAt .bytes o i = .ok n → 0 ≤ n ∧ n ≤ 255
  allocations : r.history.allocations.map Object.address? = (List.range r.heap.size).map some
  identity : ∀ (i j : Nat) (hi : i < r.history.allocations.length)
    (hj : j < r.history.allocations.length),
    r.history.allocations[i].same r.history.allocations[j] = true ↔ i = j
  handed : r.history.Scoped → ∀ s ∈ r.history, ∀ answer, s.answer = .ok answer →
    ∀ o ∈ answer.objects, o.address?.isSome → o ∈ r.history.allocations

/-- Every run, of any operations in any order, agrees with its record. -/
theorem agrees_with_record (table : Interner) (ops : List Operation) :
    (of table ops).Agrees table := by
  have recorded := recorded table ops
  constructor
  case reads =>
    intro ℓ
    rw [Heap.read_toOption, recorded.holds]
  case untouched =>
    rintro op (observes | ⟨e, failed⟩)
    · exact Operation.apply_of_observes observes
    · exact Operation.apply_of_error failed
  case succeeds =>
    intro op
    have pairs : (fun a => ((of table ops).heap.holds? (.car a)).isSome) =
        fun a => ((of table ops).history.initial? (.car a)).isSome := by
      funext a
      rw [recorded.holds, Option.isSome_map]
    have lengths : (of table ops).heap.length? = (of table ops).history.length? :=
      funext₂ recorded.lengths
    rw [Operation.exists_apply_iff, ← pairs, ← lengths]
  case kept =>
    intro op ℓ v read unwritten
    have step := (Step.explains table (of table ops).heap op).holds ℓ
    rw [read_eq_ok_iff] at read ⊢
    rw [step, read, unwritten]
    rfl
  case lengths => exact recorded.lengths
  case bytes => exact fun o i n => byte_of_refAt
  case allocations => exact recorded.allocations
  case identity => exact recorded.same_iff
  case handed =>
    intro inScope s mem answer answered o handed compound
    exact mem_allocations_of_answer inScope mem answered handed compound

end Run

end SchemeCore
