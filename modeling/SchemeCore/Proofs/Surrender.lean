import SchemeCore.Drop
import SchemeCore.Proofs.Heap
import Mathlib.Algebra.Order.Group.Multiset

/-! Handles can be given up in any order. Giving up two handles one after the other leaves the same
state, and the same handles to give up next, whichever comes first; so every order in which a
collection of handles is given up to the end, with all that the freed cells held, ends in one state.
The recursive drop is one such order and always ends. -/

namespace SchemeCore

namespace Heap

variable {h : Heap} {a b : Addr}

theorem write_comm (c d : Cell) (apart : a ≠ b) :
    (h.write a c).write b d = (h.write b d).write a c :=
  congrArg Heap.mk (Array.setIfInBounds_comm c d apart)

theorem write_of_cell?_eq_none (c : Cell) (missing : h.cell? a = none) : h.write a c = h :=
  congrArg Heap.mk (Array.setIfInBounds_eq_of_size_le (Array.getElem?_eq_none_iff.mp missing))

theorem contents_write_freed {c : Cell} (found : h.cell? a = some c) :
    (c.items ++ (h.write a .freed).contents).Perm h.contents := by
  have freed : ∀ (cells : List Cell) (i : Nat), cells[i]? = some c →
      (c.items ++ (cells.set i .freed).flatMap Cell.items).Perm (cells.flatMap Cell.items) := by
    intro cells
    induction cells with
    | nil => intro i found; cases found
    | cons d cells ih =>
      intro i found
      cases i with
      | zero =>
        obtain rfl : d = c := Option.some.inj found
        exact List.Perm.refl _
      | succ i => exact (List.perm_append_comm_assoc ..).trans ((ih i found).append_left d.items)
  rw [contents, contents, write, Array.toList_setIfInBounds]
  exact freed h.cells.toList a (by rw [Array.getElem?_toList]; exact found)

end Heap

namespace Counted

variable (s : Counted) (a b : Addr) (o p : Object)

theorem giveUp_fst : (s.giveUp a).1 =
    ⟨if s.count a = 1 then s.heap.write a .freed else s.heap,
      s.counts.setIfInBounds a (s.count a - 1),
      if s.count a ≤ 1 then s.frees.modify a (· + 1) else s.frees⟩ := by
  rw [giveUp]
  split
  · rename_i none
    have unchanged : s.counts.setIfInBounds a 0 = s.counts := by
      refine Array.ext_getElem? fun i => ?_
      rw [count, Array.getD_eq_getD_getElem?] at none
      rw [Array.getElem?_setIfInBounds]
      grind
    simp [none, unchanged]
  · rename_i one
    simp [one]
  · rename_i n more
    simp [more]

theorem giveUp_snd : (s.giveUp a).2 = if s.count a = 1 then s.heap.cell? a else none := by
  rw [giveUp]
  split <;> simp [*]

theorem count_giveUp :
    (s.giveUp a).1.count b = if a = b then s.count a - 1 else s.count b := by
  rw [giveUp_fst, count, Array.getD_eq_getD_getElem?, Array.getElem?_setIfInBounds]
  simp only [count, Array.getD_eq_getD_getElem?]
  grind

theorem cell?_giveUp : (s.giveUp a).1.heap.cell? b =
    if a = b ∧ s.count a = 1 then (s.heap.cell? b).map fun _ => .freed else s.heap.cell? b := by
  rw [giveUp_fst]
  by_cases last : s.count a = 1
  · simp only [last, and_true]
    exact Heap.cell?_write a .freed b
  · simp only [last, and_false, if_false]

theorem giveUp_comm (apart : a ≠ b) :
    ((s.giveUp a).1.giveUp b).1 = ((s.giveUp b).1.giveUp a).1 := by
  have modify_comm : (s.frees.modify a (· + 1)).modify b (· + 1) =
      (s.frees.modify b (· + 1)).modify a (· + 1) := by
    refine Array.ext_getElem? fun i => ?_
    simp only [Array.getElem?_modify]
    grind
  rw [giveUp_fst (s.giveUp a).1, giveUp_fst (s.giveUp b).1, count_giveUp, count_giveUp,
    if_neg apart, if_neg apart.symm, giveUp_fst, giveUp_fst]
  congr 1
  · simp only
    split_ifs
    · exact Heap.write_comm .freed .freed apart
    all_goals rfl
  · exact Array.setIfInBounds_comm _ _ apart
  · simp only
    split_ifs
    · exact modify_comm
    all_goals rfl

theorem giveUp_snd_of_ne (apart : a ≠ b) : ((s.giveUp a).1.giveUp b).2 = (s.giveUp b).2 := by
  have cell : (s.giveUp a).1.heap.cell? b = s.heap.cell? b := by
    rw [cell?_giveUp, if_neg fun both => apart both.1]
  rw [giveUp_snd, giveUp_snd, count_giveUp, if_neg apart, cell]

variable {s o p}

theorem surrender_of_none (bare : o.address? = none) : s.surrender o = (s, []) := by
  rw [surrender, bare]

theorem surrender_of_some {a : Addr} (found : o.address? = some a) :
    s.surrender o = ((s.giveUp a).1, (s.giveUp a).2.elim [] Cell.items) := by
  rw [surrender, found]

theorem surrender_of_kept {a : Addr} {t : Counted} (found : o.address? = some a)
    (gone : s.giveUp a = (t, none)) : s.surrender o = (t, []) := by
  rw [surrender_of_some found, gone]
  rfl

theorem surrender_of_freed {a : Addr} {t : Counted} {c : Cell} (found : o.address? = some a)
    (gone : s.giveUp a = (t, some c)) : s.surrender o = (t, c.items) := by
  rw [surrender_of_some found, gone]
  rfl

theorem surrender_congr (same : o.address? = p.address?) : s.surrender o = s.surrender p := by
  rw [surrender, same, surrender]

variable (s o p)

theorem surrender_comm :
    ((s.surrender o).1.surrender p).1 = ((s.surrender p).1.surrender o).1 ∧
    (((s.surrender o).1.surrender p).2 + (s.surrender o).2 : Multiset Object) =
      ((s.surrender p).1.surrender o).2 + (s.surrender p).2 := by
  by_cases same : o.address? = p.address?
  · rw [surrender_congr same, surrender_congr same]
    exact ⟨rfl, rfl⟩
  · cases left : o.address? with
    | none =>
      rw [surrender_of_none left, surrender_of_none left]
      exact ⟨rfl, add_comm ..⟩
    | some a =>
      cases right : p.address? with
      | none =>
        rw [surrender_of_none right, surrender_of_none right]
        exact ⟨rfl, add_comm ..⟩
      | some b =>
        have apart : a ≠ b := fun eq => same (by rw [left, right, eq])
        simp only [surrender_of_some left, surrender_of_some right]
        rw [giveUp_snd_of_ne s a b apart, giveUp_snd_of_ne s b a apart.symm]
        exact ⟨giveUp_comm s a b apart, add_comm ..⟩

theorem contents_surrender :
    ((s.surrender o).2 ++ (s.surrender o).1.heap.contents).Perm s.heap.contents := by
  cases found : o.address? with
  | none => rw [surrender_of_none found]; exact List.Perm.refl _
  | some a =>
    simp only [surrender_of_some found, giveUp_snd, giveUp_fst]
    split
    · cases cell : s.heap.cell? a with
      | none => rw [Heap.write_of_cell?_eq_none .freed cell]; exact List.Perm.refl _
      | some c => exact Heap.contents_write_freed cell
    · exact List.Perm.refl _

theorem contents_surrender_length :
    (s.surrender o).2.length + (s.surrender o).1.heap.contents.length = s.heap.contents.length := by
  rw [← List.length_append]
  exact (contents_surrender s o).length_eq

/-- One handle of a collection is given up, and what its cell held comes into the collection. -/
inductive Surrenders : Counted × Multiset Object → Counted × Multiset Object → Prop
  | one (s : Counted) (o : Object) (rest : Multiset Object) :
      Surrenders (s, o ::ₘ rest) ((s.surrender o).1, ((s.surrender o).2 : Multiset Object) + rest)

theorem surrenders_iff {handles : Multiset Object} {x : Counted × Multiset Object} :
    Surrenders (s, handles) x ↔ ∃ o rest, handles = o ::ₘ rest ∧
      x = ((s.surrender o).1, ((s.surrender o).2 : Multiset Object) + rest) := by
  constructor
  · rintro ⟨⟩
    exact ⟨_, _, rfl, rfl⟩
  · rintro ⟨o, rest, rfl, rfl⟩
    exact .one s o rest

theorem Surrenders.diamond {x y z : Counted × Multiset Object} (first : Surrenders x y)
    (second : Surrenders x z) : y = z ∨ ∃ w, Surrenders y w ∧ Surrenders z w := by
  obtain ⟨s, handles⟩ := x
  obtain ⟨o, rest, rfl, rfl⟩ := (surrenders_iff s).mp first
  obtain ⟨p, rest', one, rfl⟩ := (surrenders_iff s).mp second
  rcases Multiset.cons_eq_cons.mp one with ⟨rfl, rfl⟩ | ⟨-, both, rfl, rfl⟩
  · exact .inl rfl
  · refine .inr ⟨(((s.surrender o).1.surrender p).1,
      (((s.surrender o).1.surrender p).2 : Multiset Object) + ((s.surrender o).2 + both)), ?_, ?_⟩
    · rw [Multiset.add_cons]
      exact .one _ p _
    · obtain ⟨state, pending⟩ := surrender_comm s o p
      rw [Multiset.add_cons, ← add_assoc, pending, add_assoc, state]
      exact .one _ o _

abbrev SurrendersAll := Relation.ReflTransGen Surrenders

variable {s o p}

theorem SurrendersAll.unique {x : Counted × Multiset Object} {t u : Counted}
    (first : SurrendersAll x (t, 0)) (second : SurrendersAll x (u, 0)) : t = u := by
  have finished : ∀ {v : Counted} {y}, SurrendersAll (v, 0) y → y = (v, 0) := by
    intro v y steps
    rcases steps.cases_head with done | ⟨z, step, -⟩
    · exact done.symm
    · obtain ⟨o, rest, impossible, -⟩ := (surrenders_iff v).mp step
      exact absurd impossible.symm Multiset.cons_ne_zero
  obtain ⟨w, left, right⟩ := Relation.church_rosser (fun x y z first second => by
    rcases first.diamond second with rfl | ⟨w, left, right⟩
    · exact ⟨y, .refl, .refl⟩
    · exact ⟨w, .single left, .single right⟩) first second
  have same : (t, (0 : Multiset Object)) = (u, 0) := (finished left).symm.trans (finished right)
  exact congrArg Prod.fst same

theorem Drops.surrendersAll {os : List Object} {t : Counted} (drops : Drops s os t)
    (rest : Multiset Object) : SurrendersAll (s, (os : Multiset Object) + rest) (t, rest) := by
  induction drops generalizing rest with
  | nil => rw [Multiset.coe_nil, zero_add]
  | @cons s t u o os _ _ inner after =>
    rw [← Multiset.cons_coe, Multiset.cons_add]
    exact .head (.one s o _) ((inner _).trans (after rest))

/-- The recursive drop ends, as each handle given up is one less in hand and in the cells. -/
theorem exists_drops (s : Counted) (os : List Object) : ∃ t, Drops s os t := by
  have within : ∀ (n : Nat) (s : Counted) (os : List Object),
      s.heap.contents.length + os.length ≤ n →
      ∃ t, Drops s os t ∧ t.heap.contents.length ≤ s.heap.contents.length := by
    intro n
    induction n with
    | zero =>
      intro s os bound
      obtain rfl : os = [] := List.length_eq_zero_iff.mp (by omega)
      exact ⟨s, .nil, le_rfl⟩
    | succ n ih =>
      intro s os bound
      cases os with
      | nil => exact ⟨s, .nil, le_rfl⟩
      | cons o os =>
        have conserved := contents_surrender_length s o
        rw [List.length_cons] at bound
        obtain ⟨t, inner, le⟩ := ih (s.surrender o).1 (s.surrender o).2 (by omega)
        obtain ⟨u, rest, le'⟩ := ih t os (by omega)
        exact ⟨u, .cons inner rest, by omega⟩
  obtain ⟨t, drops, -⟩ := within _ s os le_rfl
  exact ⟨t, drops⟩

end Counted

end SchemeCore
