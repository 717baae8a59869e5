import SchemeCore.Proofs.Exact

/-! The worklist against the recursion. The loop gives up the same handles as the recursive drop, in
an order of its own: objects that hold nothing at once, the others from the end of the worklist, and
what a shell held before the shell itself. As the order does not matter, both leave the same state. -/

namespace SchemeCore.Counted

variable {s t : Counted} {o : Object} {outside : Multiset Object}

theorem SurrendersAll.handles_le {x y : Counted × Multiset Object} (steps : SurrendersAll x y) :
    y.1.heap.contents.length + y.2.card ≤ x.1.heap.contents.length + x.2.card := by
  induction steps with
  | refl => exact le_rfl
  | @tail y z _ step ih =>
    obtain ⟨u, collection⟩ := y
    obtain ⟨o, others, rfl, rfl⟩ := (surrenders_iff u).mp step
    have conserved := contents_surrender_length u o
    simp only [Multiset.card_cons, Multiset.card_add, Multiset.coe_card] at ih ⊢
    omega

theorem held_eq (s : Counted) : s.held = s.heap.contents.length := by
  rw [held, Heap.contents, List.length_flatMap, ← Array.foldl_toList]
  have sum : ∀ (cells : List Cell) (n : Nat), cells.foldl (fun n c => n + c.items.length) n =
      n + (cells.map fun c => c.items.length).sum := by
    intro cells
    induction cells with
    | nil => intro n; rfl
    | cons c cells ih => intro n; rw [List.foldl_cons, ih, List.map_cons, List.sum_cons, add_assoc]
  rw [sum, zero_add]

/-! Moving the objects out of a cell. -/

theorem defer_of_nests (pending : List Object) (nests : o.nests = true) :
    s.defer pending o = (s, o :: pending) := by
  cases o <;> first | rfl | cases nests

theorem defer_of_flat (pending : List Object) (flat : o.nests = false) :
    s.defer pending o = ((s.surrender o).1, pending) := by
  rw [defer, surrender]
  cases o.address? with
  | none => rfl
  | some a => simp [flat]

theorem surrender_of_flat (leads : s.heap.leads o) (flat : o.nests = false) :
    (s.surrender o).2 = [] := by
  cases found : o.address? with
  | none => rw [surrender_of_none found]
  | some a =>
    obtain ⟨c, cell, suits⟩ := Heap.leads_iff.mp leads a found
    simp only [surrender_of_some found, giveUp_snd, cell]
    split
    · exact Cell.items_of_suits suits flat
    · rfl

theorem takeItems_steps (c : Cell) (pending : List Object)
    (exact : s.Exact (c.items + pending + outside)) :
    SurrendersAll (s, (c.items : Multiset Object) + pending)
      ((s.takeItems pending c).1, ((s.takeItems pending c).2 : Multiset Object)) := by
  rw [takeItems]
  generalize c.items = os at exact
  induction os generalizing s pending with
  | nil => rw [Multiset.coe_nil, zero_add]; exact .refl
  | cons o os ih =>
    rw [← Multiset.cons_coe, Multiset.cons_add] at exact ⊢
    simp only [List.foldl_cons]
    cases kind : o.nests with
    | true =>
      rw [defer_of_nests pending kind, ← Multiset.add_cons, Multiset.cons_coe]
      rw [← Multiset.add_cons, Multiset.cons_coe] at exact
      exact ih (o :: pending) exact
    | false =>
      rw [Multiset.cons_add] at exact
      have bare := surrender_of_flat exact.leads_head kind
      have after := exact.surrender
      have step := Surrenders.one s o ((os : Multiset Object) + pending)
      rw [bare, Multiset.coe_nil, zero_add] at after step
      rw [defer_of_flat pending kind]
      exact .head step (ih pending after)

theorem takeItems_surrendersAll {c : Cell} {pending : List Object}
    (exact : s.Exact (c.items + pending + outside)) :
    let left := s.takeItems pending c
    SurrendersAll (s, (c.items : Multiset Object) + pending) (left.1, (left.2 : Multiset Object)) ∧
      left.1.Exact (left.2 + outside) ∧ left.1.heap.contents.length + left.2.length ≤
        s.heap.contents.length + (c.items.length + pending.length) := by
  have steps := takeItems_steps c pending exact
  have bound := steps.handles_le
  simp only [Multiset.card_add, Multiset.coe_card] at bound
  exact ⟨steps, (exact.surrendersAll steps).1, bound⟩

theorem items_emptied (c : Cell) : ∃ n, c.emptied.items = List.replicate n .null := by
  cases c with
  | pair car cdr => exact ⟨2, rfl⟩
  | vector items => exact ⟨items.size, Array.toList_replicate⟩
  | _ => exact ⟨0, rfl⟩

theorem takeItems_emptied (s : Counted) (pending : List Object) (c : Cell) :
    s.takeItems pending c.emptied = (s, pending) := by
  obtain ⟨n, nulls⟩ := items_emptied c
  rw [takeItems, nulls]
  clear nulls
  induction n with
  | zero => rfl
  | succ n ih => rw [List.replicate_succ, List.foldl_cons]; exact ih

theorem dropShell_emptied (fuel level deepest : Nat) (s : Counted) (c : Cell) :
    (dropShell fuel level deepest s c.emptied).1 = s := by
  cases fuel with
  | zero => rfl
  | succ fuel =>
    rw [dropShell, takeItems_emptied]
    cases fuel <;> rfl

/-- By induction on the rounds: the loop gives up all that is on the worklist and all that follows
from it, if it may take a round for each handle there is. -/
theorem releaseWithin_surrendersAll (fuel level deepest : Nat) {s : Counted}
    {pending : List Object} (exact : s.Exact (pending + outside))
    (enough : s.heap.contents.length + pending.length < fuel) :
    SurrendersAll (s, (pending : Multiset Object))
      ((releaseWithin fuel level deepest s pending).1, 0) := by
  induction fuel generalizing level deepest s pending with
  | zero => omega
  | succ fuel ih =>
    cases pending with
    | nil => exact .refl
    | cons o pending =>
      have conserved := contents_surrender_length s o
      rw [← Multiset.cons_coe, Multiset.cons_add] at exact
      have after := exact.surrender
      rw [List.length_cons] at enough
      rw [← Multiset.cons_coe, releaseWithin]
      refine .head (.one s o pending) ?_
      cases found : o.address? with
      | none =>
        simp only [surrender_of_none found, Multiset.coe_nil, zero_add] at after ⊢
        exact ih level deepest after (by omega)
      | some a =>
        rcases gone : s.giveUp a with ⟨t, _ | c⟩
        · simp only [gone, surrender_of_kept found gone, Multiset.coe_nil, zero_add,
            List.length_nil] at after conserved ⊢
          exact ih level deepest after (by omega)
        · simp only [gone, surrender_of_freed found gone, ← add_assoc] at after conserved ⊢
          obtain ⟨taken, exact', bound⟩ := takeItems_surrendersAll after
          rw [dropShell_emptied]
          exact taken.trans (ih level _ exact' (by omega))

theorem drop_surrendersAll (exact : s.Exact (o ::ₘ outside)) :
    SurrendersAll (s, {o}) (s.drop o, 0) := by
  have step := Surrenders.one s o 0
  have after := exact.surrender
  have conserved := contents_surrender_length s o
  rw [add_zero] at step
  refine .head step ?_
  rw [drop, dropWithDepth]
  cases found : o.address? with
  | none => rw [surrender_of_none found]; exact .refl
  | some a =>
    have bare := surrender_of_flat exact.leads_head
    rcases gone : s.giveUp a with ⟨t, _ | c⟩
    · simp only [gone, surrender_of_kept found gone]
      exact .refl
    · simp only [gone, surrender_of_freed found gone] at after conserved bare ⊢
      cases kind : o.nests with
      | false => rw [bare kind]; exact .refl
      | true =>
        have shell : t.Exact (c.items + ([] : List Object) + outside) := by
          rw [Multiset.coe_nil, add_zero]
          exact after
        obtain ⟨taken, exact', bound⟩ := takeItems_surrendersAll shell
        rw [Multiset.coe_nil, add_zero] at taken
        rw [List.length_nil] at bound
        exact taken.trans (releaseWithin_surrendersAll (s.held + 2) 1 (max 1 0) exact'
          (by rw [held_eq]; omega))

/-- Dropping a handle, when the counts are the numbers of handles: the worklist leaves the state that
the recursive drop ends in, and the counts are exact for the handles that remain. Each cell is as it
was or was live and is freed once; what the remaining handles reach is as it was; and in an acyclic
heap the cells freed are those that the remaining handles do not reach. -/
theorem drop_agrees_with_recursion (s : Counted) (o : Object) (outside : Multiset Object)
    (exact : s.Exact (o ::ₘ outside)) :
    (∀ t, s.Drops [o] t ↔ t = s.drop o) ∧
    (s.drop o).Exact outside ∧
    (∀ a, s.Untouched (s.drop o) a ∨ s.FreedOnce (s.drop o) a) ∧
    (∀ a, s.heap.ReachedFrom outside a → s.Untouched (s.drop o) a) ∧
    (s.heap.Acyclic → ∀ a, s.FreedOnce (s.drop o) a ↔
      s.heap.isLive a ∧ ¬s.heap.ReachedFrom outside a) := by
  have loop : SurrendersAll (s, {o}) (s.drop o, 0) := drop_surrendersAll exact
  have recursion : ∀ {t}, s.Drops [o] t → t = s.drop o := fun drops =>
    SurrendersAll.unique (drops.surrendersAll 0) loop
  obtain ⟨exact', fate⟩ : (s.drop o).Exact (0 + outside) ∧ _ := exact.surrendersAll loop
  rw [zero_add] at exact'
  refine ⟨fun t => ⟨recursion, ?_⟩, exact', fate, fun a => untouched_of_reachedFrom exact' fate,
    fun acyclic a => freedOnce_iff exact' fate acyclic⟩
  rintro rfl
  obtain ⟨t, drops⟩ := exists_drops s [o]
  exact recursion drops ▸ drops

/-- A pair that holds one vector twice, a vector that holds one pair twice, a string held in both and
outside, and a pair in a circle that the vector leads to. -/
def tangled : Counted := ofHeap
  ⟨#[.pair (.vector 1) (.vector 1), .vector #[.pair 2, .string 3, .pair 2, .pair 4],
    .pair (.string 3) .null, .string #['s'], .pair (.pair 4) (.string 5), .string #[]]⟩
  [.pair 0, .string 3]

/-- The circle stays, as it holds a handle to itself. -/
def untangled : Counted :=
  ⟨⟨#[.freed, .freed, .freed, .string #['s'], .pair (.pair 4) (.string 5), .string #[]]⟩,
    #[0, 0, 0, 1, 1, 1], #[1, 1, 1, 0, 0, 0]⟩

theorem drop_agrees_with_recursion_of_tangled :
    tangled.Exact (.pair 0 ::ₘ {.string 3}) ∧ tangled.drop (.pair 0) = untangled ∧
    tangled.Drops [.pair 0] untangled ∧ untangled.Exact {.string 3} ∧
    tangled.FreedOnce untangled 2 ∧ tangled.Untouched untangled 3 := by
  have exact : tangled.Exact (.pair 0 ::ₘ {.string 3}) :=
    exact_ofHeap _ [.pair 0, .string 3] (by decide) (by decide)
  have dropped : tangled.drop (.pair 0) = untangled := by decide
  have reached : tangled.heap.ReachedFrom {.string 3} 3 :=
    ⟨.string 3, Multiset.mem_singleton_self _, .string 3, .refl, rfl⟩
  obtain ⟨drops, exact', -, untouched, -⟩ := drop_agrees_with_recursion tangled (.pair 0)
    {.string 3} exact
  rw [dropped] at drops exact' untouched
  exact ⟨exact, dropped, (drops untangled).mpr rfl, exact', by unfold FreedOnce; decide,
    untouched 3 reached⟩

end SchemeCore.Counted
