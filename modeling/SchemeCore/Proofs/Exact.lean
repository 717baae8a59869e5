import SchemeCore.Proofs.Surrender
import Mathlib.Order.WellFoundedSet

/-! Exact counts stay exact while handles are given up, and keep the heap safe. A handle in hand is
always one of those counted, so its cell is live; and a cell whose last handle was given up is led to
by no other. Hence each cell is freed at most once, what can be reached from the handles that remain
is left as it was, and of an acyclic heap only what can be reached from them is left. -/

namespace SchemeCore

namespace Cell

variable {c : Cell} {o : Object}

theorem ne_freed_of_suits (suits : c.suits o) : c ≠ .freed := by
  rintro rfl
  cases suits

theorem items_of_suits (suits : c.suits o) (flat : o.nests = false) : c.items = [] := by
  cases o <;> simp only [Object.nests, Bool.true_eq_false] at flat <;> cases c <;>
    first | rfl | cases suits

end Cell

namespace Heap

variable {h : Heap} {a : Addr} {o : Object}

theorem mem_contents_iff : o ∈ h.contents ↔ ∃ a c, h.cell? a = some c ∧ o ∈ c.items := by
  simp only [contents, List.mem_flatMap, Array.mem_toList_iff, Array.mem_iff_getElem?, cell?]
  constructor
  · rintro ⟨c, ⟨a, found⟩, held⟩
    exact ⟨a, c, found, held⟩
  · rintro ⟨a, c, found, held⟩
    exact ⟨c, ⟨a, found⟩, held⟩

theorem holds_iff {p : Object} :
    h.Holds o p ↔ ∃ a c, o.address? = some a ∧ h.cell? a = some c ∧ p ∈ c.items := by
  rw [Holds, items]
  cases o.address? with
  | none => simp
  | some a => cases found : h.cell? a <;> simp [found]

theorem isLive_iff : h.isLive a ↔ ∃ c, h.cell? a = some c ∧ c ≠ .freed := by
  simp [isLive, Option.any_eq_true]

theorem not_isLive_of_freed (freed : h.cell? a = some .freed) : ¬h.isLive a := by
  rw [isLive, freed]
  decide

theorem leads_iff : h.leads o ↔
    ∀ a, o.address? = some a → ∃ c, h.cell? a = some c ∧ c.suits o := by
  rw [leads]
  cases o.address? with
  | none => simp
  | some a => simp [Option.any_eq_true]

theorem isLive_of_leads (leads : h.leads o) (found : o.address? = some a) : h.isLive a := by
  obtain ⟨c, cell, suits⟩ := leads_iff.mp leads a found
  exact isLive_iff.mpr ⟨c, cell, Cell.ne_freed_of_suits suits⟩

theorem induction_of_irrefl {edge : Addr → Addr → Prop} {size : Nat}
    (irrefl : ∀ a, ¬Relation.TransGen edge a a) (within : ∀ {a b}, edge a b → a < size)
    {motive : Addr → Prop} (step : ∀ a, (∀ b, edge b a → motive b) → motive a) (a : Addr) :
    motive a := by
  have : IsStrictOrder Addr (Relation.TransGen edge) :=
    { irrefl := irrefl, trans := fun _ _ _ => .trans }
  have wellFounded : {b | b < size}.WellFoundedOn (Relation.TransGen edge) :=
    (Set.finite_lt_nat size).wellFoundedOn
  have inside : ∀ b < size, motive b := fun b lt =>
    wellFounded.induction lt fun c _ ih => step c fun d points =>
      ih d (within points) (.single points)
  exact step a fun b points => inside b (within points)

theorem Acyclic.induction (acyclic : h.Acyclic) {motive : Addr → Prop}
    (step : ∀ a, (∀ b, h.PointsTo b a → motive b) → motive a) (a : Addr) : motive a :=
  induction_of_irrefl acyclic (fun ⟨_, found, _⟩ => lt_size_of_cell? found) step a

end Heap

namespace Counted

variable {s t u : Counted} {a : Addr} {o p : Object} {outside : Multiset Object}

section Effects

variable (s o a)

theorem count_surrender :
    (s.surrender o).1.count a = s.count a - if o.address? = some a then 1 else 0 := by
  cases found : o.address? with
  | none => simp [surrender_of_none found]
  | some b =>
    rw [surrender_of_some found, count_giveUp]
    by_cases same : b = a <;> simp [same]

theorem cell?_surrender : (s.surrender o).1.heap.cell? a =
    if o.address? = some a ∧ s.count a = 1 then (s.heap.cell? a).map fun _ => .freed
    else s.heap.cell? a := by
  cases found : o.address? with
  | none => simp [surrender_of_none found]
  | some b =>
    rw [surrender_of_some found, cell?_giveUp]
    by_cases same : b = a <;> simp [same]

theorem timesFreed_surrender (inside : o.address? = some a → a < s.frees.size) :
    (s.surrender o).1.timesFreed a =
      s.timesFreed a + if o.address? = some a ∧ s.count a ≤ 1 then 1 else 0 := by
  cases found : o.address? with
  | none => simp [surrender_of_none found]
  | some b =>
    rw [surrender_of_some found, giveUp_fst, timesFreed, timesFreed]
    by_cases same : b = a
    · subst same
      have within : b < s.frees.size := inside found
      by_cases last : s.count b ≤ 1 <;> simp [last, within, Array.getElem_modify]
    · by_cases last : s.count b ≤ 1 <;> simp [last, same, Array.getElem?_modify]

theorem size_surrender : (s.surrender o).1.heap.size = s.heap.size := by
  cases found : o.address? with
  | none => rw [surrender_of_none found]
  | some b =>
    rw [surrender_of_some found, giveUp_fst]
    dsimp only
    split
    · exact Heap.size_write b .freed
    · rfl

theorem frees_size_surrender : (s.surrender o).1.frees.size = s.frees.size := by
  cases found : o.address? with
  | none => rw [surrender_of_none found]
  | some b =>
    rw [surrender_of_some found, giveUp_fst]
    dsimp only
    split
    · exact Array.size_modify
    · rfl

theorem handles_surrender : (s.surrender o).1.handles ((s.surrender o).2 + outside) =
    s.handles outside := by
  have moved := Multiset.coe_eq_coe.mpr (contents_surrender s o)
  rw [handles, handles, ← moved, ← Multiset.coe_add, add_left_comm outside, add_assoc]

end Effects

theorem handles_cons : s.handles (o ::ₘ outside) = o ::ₘ s.handles outside :=
  Multiset.cons_add ..

theorem handlesTo_cons {handles : Multiset Object} : handlesTo a (o ::ₘ handles) =
    handlesTo a handles + if o.address? = some a then 1 else 0 :=
  Multiset.countP_cons ..

theorem handlesTo_pos {handles : Multiset Object} :
    0 < handlesTo a handles ↔ ∃ o ∈ handles, o.address? = some a := Multiset.countP_pos

namespace Exact

theorem leads_head (exact : s.Exact (o ::ₘ outside)) : s.heap.leads o := by
  refine exact.leads o ?_
  rw [handles_cons]
  exact Multiset.mem_cons_self ..

theorem isLive (exact : s.Exact (o ::ₘ outside)) (found : o.address? = some a) :
    s.heap.isLive a := Heap.isLive_of_leads exact.leads_head found

theorem count_cons (exact : s.Exact (o ::ₘ outside)) (a : Addr) : s.count a =
    handlesTo a (s.handles outside) + if o.address? = some a then 1 else 0 := by
  rw [exact.count_eq, handles_cons, handlesTo_cons]

theorem surrender (exact : s.Exact (o ::ₘ outside)) :
    (s.surrender o).1.Exact ((s.surrender o).2 + outside) where
  count_eq a := by
    rw [count_surrender, handles_surrender, exact.count_cons, Nat.add_sub_cancel]
  leads p held := by
    rw [handles_surrender] at held
    have before : p ∈ s.handles (o ::ₘ outside) := by
      rw [handles_cons]
      exact Multiset.mem_cons_of_mem held
    refine Heap.leads_iff.mpr fun a found => ?_
    -- were the cell freed now, the handle to it would be one more than were counted
    have counted : 0 < handlesTo a (s.handles outside) := handlesTo_pos.mpr ⟨p, held, found⟩
    have stays : ¬(o.address? = some a ∧ s.count a = 1) := by
      rintro ⟨same, one⟩
      rw [exact.count_cons, if_pos same] at one
      omega
    rw [cell?_surrender, if_neg stays]
    exact Heap.leads_iff.mp (exact.leads p before) a found
  kept a live := by
    obtain ⟨c, cell, notFreed⟩ := Heap.isLive_iff.mp live
    rw [cell?_surrender] at cell
    rw [count_surrender]
    split_ifs at cell with last
    · obtain ⟨-, -, rfl⟩ := Option.map_eq_some_iff.mp cell
      exact absurd rfl notFreed
    · have counted := exact.kept a (Heap.isLive_iff.mpr ⟨c, cell, notFreed⟩)
      split_ifs with same
      · have more : s.count a ≠ 1 := fun one => last ⟨same, one⟩
        omega
      · exact counted
  recorded := by rw [frees_size_surrender, size_surrender, exact.recorded]

theorem surrender_untouched_or_freedOnce (exact : s.Exact (o ::ₘ outside)) (a : Addr) :
    s.Untouched (s.surrender o).1 a ∨ s.FreedOnce (s.surrender o).1 a := by
  have inside : o.address? = some a → a < s.frees.size := by
    intro found
    obtain ⟨c, cell, -⟩ := Heap.isLive_iff.mp (exact.isLive found)
    exact exact.recorded ▸ Heap.lt_size_of_cell? cell
  by_cases last : o.address? = some a ∧ s.count a = 1
  · have live := exact.isLive last.1
    obtain ⟨c, cell, -⟩ := Heap.isLive_iff.mp live
    refine .inr ⟨live, ?_, ?_⟩
    · rw [cell?_surrender, if_pos last, cell, Option.map_some]
    · rw [timesFreed_surrender s a o inside, if_pos ⟨last.1, last.2.le⟩]
  · refine .inl ⟨?_, ?_⟩
    · rw [cell?_surrender, if_neg last]
    · rw [timesFreed_surrender s a o inside, if_neg, add_zero]
      rintro ⟨found, le⟩
      have counted := exact.kept a (exact.isLive found)
      exact last ⟨found, by omega⟩

end Exact

theorem Untouched.isLive_eq (untouched : s.Untouched t a) : t.heap.isLive a = s.heap.isLive a := by
  rw [Heap.isLive, untouched.1, Heap.isLive]

theorem untouched_or_freedOnce_trans (first : s.Untouched t a ∨ s.FreedOnce t a)
    (second : t.Untouched u a ∨ t.FreedOnce u a) : s.Untouched u a ∨ s.FreedOnce u a := by
  rcases second with ⟨cell, frees⟩ | ⟨live, freed, frees⟩
  · rw [Untouched, FreedOnce, cell, frees]
    exact first
  · rcases first with untouched | ⟨-, freed', -⟩
    · exact .inr ⟨untouched.isLive_eq ▸ live, freed, untouched.2 ▸ frees⟩
    · exact absurd live (Heap.not_isLive_of_freed freed')

theorem Exact.surrendersAll {pending rest : Multiset Object}
    (steps : SurrendersAll (s, pending) (t, rest)) (exact : s.Exact (pending + outside)) :
    t.Exact (rest + outside) ∧ ∀ a, s.Untouched t a ∨ s.FreedOnce t a := by
  generalize last : (t, rest) = y at steps
  induction steps generalizing t rest with
  | refl =>
    cases last
    exact ⟨exact, fun _ => .inl ⟨rfl, rfl⟩⟩
  | @tail y z _ step ih =>
    subst last
    obtain ⟨u, collection⟩ := y
    obtain ⟨o, others, rfl, same⟩ := (surrenders_iff u).mp step
    obtain ⟨rfl, rfl⟩ := Prod.mk.inj same
    obtain ⟨between, fate⟩ := ih rfl
    rw [Multiset.cons_add] at between
    have after := between.surrender
    rw [← add_assoc] at after
    exact ⟨after, fun a => untouched_or_freedOnce_trans (fate a)
      (between.surrender_untouched_or_freedOnce a)⟩

section Reach

variable (exact : t.Exact outside) (fate : ∀ a, s.Untouched t a ∨ s.FreedOnce t a)

include fate

theorem cell?_eq_of_isLive (live : t.heap.isLive a) : t.heap.cell? a = s.heap.cell? a := by
  rcases fate a with ⟨cell, -⟩ | ⟨-, freed, -⟩
  · exact cell
  · exact absurd live (Heap.not_isLive_of_freed freed)

include exact

theorem leads_of_reaches (held : o ∈ outside) (reaches : s.heap.Reaches o p) :
    t.heap.leads p := by
  induction reaches with
  | refl => exact exact.leads o (Multiset.mem_add.mpr (.inl held))
  | @tail q p _ holds ih =>
    obtain ⟨a, c, address, cell, inside⟩ := Heap.holds_iff.mp holds
    have live := Heap.isLive_of_leads ih address
    have same : t.heap.cell? a = some c := (cell?_eq_of_isLive fate live).trans cell
    have kept : p ∈ t.heap.contents := Heap.mem_contents_iff.mpr ⟨a, c, same, inside⟩
    exact exact.leads p (Multiset.mem_add.mpr (.inr (Multiset.mem_coe.mpr kept)))

theorem untouched_of_reachedFrom (reached : s.heap.ReachedFrom outside a) : s.Untouched t a := by
  obtain ⟨o, held, p, reaches, address⟩ := reached
  have leads := leads_of_reaches exact fate held reaches
  rcases fate a with untouched | ⟨-, freed, -⟩
  · exact untouched
  · exact absurd (Heap.isLive_of_leads leads address) (Heap.not_isLive_of_freed freed)

/-- By induction against the handles: what is live has a handle, and this is held outside or in a
cell that is itself reached. -/
theorem reachedFrom_of_isLive (acyclic : s.heap.Acyclic) (live : t.heap.isLive a) :
    s.heap.ReachedFrom outside a := by
  induction a using acyclic.induction with
  | step a ih =>
    have counted := exact.kept a live
    rw [exact.count_eq] at counted
    obtain ⟨o, held, address⟩ := handlesTo_pos.mp counted
    rcases Multiset.mem_add.mp held with outer | inner
    · exact ⟨o, outer, o, .refl, address⟩
    · obtain ⟨b, c, found, inside⟩ := Heap.mem_contents_iff.mp (Multiset.mem_coe.mp inner)
      have notFreed : c ≠ .freed := by
        rintro rfl
        cases inside
      have live' := Heap.isLive_iff.mpr ⟨c, found, notFreed⟩
      have before : s.heap.cell? b = some c := (cell?_eq_of_isLive fate live').symm.trans found
      obtain ⟨q, outer, p, reaches, address'⟩ := ih b ⟨c, before, o, inside, address⟩ live'
      have holds : s.heap.Holds p o := Heap.holds_iff.mpr ⟨b, c, address', before, inside⟩
      exact ⟨q, outer, o, reaches.tail holds, address⟩

theorem freedOnce_iff (acyclic : s.heap.Acyclic) :
    s.FreedOnce t a ↔ s.heap.isLive a ∧ ¬s.heap.ReachedFrom outside a := by
  constructor
  · rintro ⟨live, freed, -⟩
    refine ⟨live, fun reached => Heap.not_isLive_of_freed freed ?_⟩
    exact (untouched_of_reachedFrom exact fate reached).isLive_eq ▸ live
  · rintro ⟨live, unreached⟩
    rcases fate a with untouched | freed
    · have still : t.heap.isLive a := untouched.isLive_eq ▸ live
      exact absurd (reachedFrom_of_isLive exact fate acyclic still) unreached
    · exact freed

end Reach

/-! Counts taken of a heap. -/

theorem size_tally (counts : Array Nat) (handles : List Object) :
    (tally counts handles).size = counts.size := by
  induction handles generalizing counts with
  | nil => rfl
  | cons o handles ih =>
    rw [tally, List.foldl_cons]
    refine (ih _).trans ?_
    split
    · exact Array.size_modify
    · rfl

theorem getD_tally (counts : Array Nat) (handles : List Object) (within : a < counts.size) :
    (tally counts handles).getD a 0 = counts.getD a 0 + handlesTo a handles := by
  induction handles generalizing counts with
  | nil => rfl
  | cons o handles ih =>
    rw [← Multiset.cons_coe, handlesTo_cons, tally, List.foldl_cons]
    cases found : o.address? with
    | none =>
      rw [if_neg nofun, add_zero]
      exact ih counts within
    | some b =>
      refine (ih (counts.modify b (· + 1)) (by rwa [Array.size_modify])).trans ?_
      by_cases same : b = a
      · subst same
        simp [within, Array.getElem_modify, add_assoc, add_comm 1]
      · simp [same, Array.getElem?_modify]

theorem ofHeap_counts (h : Heap) (outside : List Object) : (ofHeap h outside).counts =
    tally (Array.replicate h.size 0) (outside ++ h.contents) := by
  have appended : tally (Array.replicate h.size 0) (outside ++ h.contents) =
      tally (tally (Array.replicate h.size 0) outside) h.contents := List.foldl_append ..
  rw [appended, ofHeap, ← Array.foldl_toList]
  exact List.foldl_flatMap.symm

/-- Counting the handles of a heap gives exact counts, if each handle leads to a cell of its kind and
each cell has a handle. -/
theorem exact_ofHeap (h : Heap) (outside : List Object)
    (leads : ∀ o ∈ outside ++ h.contents, h.leads o)
    (kept : ∀ a < h.size, h.isLive a → 0 < handlesTo a (outside ++ h.contents : List Object)) :
    (ofHeap h outside).Exact outside := by
  have all : (ofHeap h outside).handles outside = (outside ++ h.contents : List Object) :=
    Multiset.coe_add ..
  have count_eq : ∀ a, (ofHeap h outside).count a =
      handlesTo a (outside ++ h.contents : List Object) := by
    intro a
    rw [count, ofHeap_counts]
    by_cases within : a < h.size
    · rw [getD_tally _ _ (by rwa [Array.size_replicate])]
      simp [within]
    · rw [Array.getD_eq_getD_getElem?, Array.getElem?_eq_none, Option.getD_none]
      · refine (Nat.eq_zero_of_not_pos fun counted => ?_).symm
        obtain ⟨o, held, found⟩ := handlesTo_pos.mp counted
        obtain ⟨c, cell, -⟩ := Heap.leads_iff.mp (leads o (Multiset.mem_coe.mp held)) a found
        exact within (Heap.lt_size_of_cell? cell)
      · rw [size_tally, Array.size_replicate]
        exact Nat.le_of_not_lt within
  refine ⟨fun a => by rw [count_eq, all], fun o held => ?_, fun a live => ?_, ?_⟩
  · rw [all] at held
    exact leads o (Multiset.mem_coe.mp held)
  · obtain ⟨c, cell, -⟩ := Heap.isLive_iff.mp live
    rw [count_eq]
    exact kept a (Heap.lt_size_of_cell? cell) live
  · exact Array.size_replicate

end Counted

end SchemeCore
