import SchemeCore.Unwinding
import SchemeCore.Proofs.Teardown

/-! Dropping ends and is never nested deep. Every step has its cost, and the objects in the cells
and in the hands of the calls pay for all steps to come, whatever leads where; an iteration of a
loop takes one of these objects for good. A shell that is dropped in a loop holds null in all its
slots, so that the call inside the loop has nothing to do and calls nothing in turn. -/

namespace SchemeCore

variable {s t : Counted} {o : Object} {own moved left pending : List Object}
  {call : DropCall} {outer : List DropCall} {k : Nat}

namespace Counted

theorem surrender_eq (s : Counted) (o : Object) :
    s.surrender o = ((s.letGo o).1, (s.letGo o).2.elim [] Cell.items) := by
  rw [surrender, letGo]
  cases o.address? <;> rfl

theorem surrender_of_letGo_none (kept : s.letGo o = (t, none)) : s.surrender o = (t, []) := by
  rw [surrender_eq, kept]
  rfl

theorem surrender_of_letGo_some {c : Cell} (freed : s.letGo o = (t, some c)) :
    s.surrender o = (t, c.items) := by
  rw [surrender_eq, freed]
  rfl

theorem held_surrender (s : Counted) (o : Object) :
    (s.surrender o).2.length + (s.surrender o).1.held = s.held := by
  rw [held_eq, held_eq]
  exact contents_surrender_length s o

theorem held_of_kept (kept : s.letGo o = (t, none)) : t.held = s.held := by
  have whole := held_surrender s o
  rw [surrender_of_letGo_none kept] at whole
  simpa using whole

theorem held_of_freed {c : Cell} (freed : s.letGo o = (t, some c)) :
    t.held + c.items.length = s.held := by
  have whole := held_surrender s o
  rwa [surrender_of_letGo_some freed, Nat.add_comm] at whole

theorem dropWithDepth_eq (s : Counted) (o : Object) : s.dropWithDepth o =
    match s.letGo o with
    | (t, none) => (t, 0)
    | (t, some c) => if o.nests then dropShell (s.held + 3) 1 0 t c else (t, 0) := by
  rw [dropWithDepth, letGo]
  cases o.address? <;> rfl

theorem discard_cases (s : Counted) (o : Object) (calls : List DropCall) :
    (∃ t, s.discard o calls = ⟨t, calls⟩ ∧ t.held = s.held ∧ t = (s.surrender o).1) ∨
    ∃ t items, s.discard o calls = ⟨t, .moving none [] items [] :: calls⟩ ∧
      t.held + items.length ≤ s.held ∧ t = (s.surrender o).1 ∧ (o.nests = false → items = []) := by
  rw [discard]
  rcases gone : s.letGo o with ⟨t, _ | c⟩
  · exact .inl ⟨t, rfl, held_of_kept gone, by rw [surrender_of_letGo_none gone]⟩
  · have whole := held_of_freed gone
    refine .inr ⟨t, _, rfl, ?_, by rw [surrender_of_letGo_some gone], fun flat => by simp [flat]⟩
    split
    · omega
    · rw [List.length_nil]
      omega

end Counted

/-! What the steps cost. -/

/-- How many steps a call can still take, with all that becomes of what it has in hand. -/
def DropCall.cost : DropCall → Nat
  | .moving none moved left pending =>
    3 + 4 * moved.length + 10 * left.length + 5 * pending.length
  | .moving (some own) moved left pending =>
    6 + 4 * own.length + 10 * moved.length + 16 * left.length + 5 * pending.length
  | .releasing own pending => 2 + 4 * own.length + 5 * pending.length
  | .clearing own => 1 + 4 * own.length

namespace Unwinding

def cost (m : Unwinding) : Nat := 16 * m.state.held + (m.calls.map DropCall.cost).sum

theorem cost_cons (s : Counted) (call : DropCall) (calls : List DropCall) :
    cost ⟨s, call :: calls⟩ = call.cost + cost ⟨s, calls⟩ := by
  rw [cost, cost, List.map_cons, List.sum_cons, Nat.add_left_comm]

theorem cost_le (held : t.held + k ≤ s.held) (calls : List DropCall) :
    cost ⟨t, calls⟩ + 16 * k ≤ cost ⟨s, calls⟩ := by
  simp only [cost]
  omega

theorem cost_discard (s : Counted) (o : Object) (calls : List DropCall) :
    (s.discard o calls).cost ≤ 3 + cost ⟨s, calls⟩ := by
  rcases s.discard_cases o calls with ⟨t, goes, held, -⟩ | ⟨t, items, called, held, -⟩
  · rw [goes]
    exact (cost_le (k := 0) held.le calls).trans (Nat.le_add_left ..)
  · have paid := cost_le held calls
    simp only [called, cost_cons, DropCall.cost, List.length_nil]
    omega

theorem cost_step (call : DropCall) (s : Counted) (outer : List DropCall) :
    (call.step s outer).cost < cost ⟨s, call :: outer⟩ := by
  have dropped (o : Object) (next : DropCall) := cost_discard s o (next :: outer)
  simp only [cost_cons] at dropped ⊢
  cases call with
  | moving own moved left pending =>
    cases left with
    | nil =>
      cases own <;> simp only [DropCall.step, cost_cons, DropCall.cost, List.length_nil] <;> omega
    | cons o left =>
      rw [DropCall.step]
      split
      · cases own <;> simp only [cost_cons, DropCall.cost, List.length_append, List.length_cons,
          List.length_nil] <;> omega
      · refine (dropped o _).trans_lt ?_
        cases own <;> simp only [DropCall.cost, List.length_append, List.length_cons,
          List.length_nil] <;> omega
  | releasing own pending =>
    cases pending with
    | nil =>
      simp only [DropCall.step, cost_cons, DropCall.cost]
      omega
    | cons o pending =>
      rw [DropCall.step]
      split
      · rcases gone : s.letGo o with ⟨t, _ | c⟩
        · have paid := cost_le (k := 0) (Counted.held_of_kept gone).le outer
          simp only [cost_cons, DropCall.cost, List.length_cons]
          omega
        · have paid := cost_le (Counted.held_of_freed gone).le outer
          simp only [cost_cons, DropCall.cost, List.length_cons, List.length_nil]
          omega
      · refine (dropped o _).trans_lt ?_
        simp only [DropCall.cost, List.length_cons]
        omega
  | clearing own =>
    cases own with
    | nil =>
      simp only [DropCall.step, DropCall.cost]
      omega
    | cons o own =>
      refine (dropped o _).trans_lt ?_
      simp only [DropCall.cost, List.length_cons]
      omega

theorem iterate_of_ended (n : Nat) (s : Counted) : step^[n] ⟨s, []⟩ = ⟨s, []⟩ :=
  Function.iterate_fixed rfl n

theorem exists_ended (n : Nat) (m : Unwinding) (enough : m.cost ≤ n) :
    ∃ t, step^[n] m = ⟨t, []⟩ := by
  induction n generalizing m with
  | zero =>
    obtain ⟨s, _ | ⟨call, outer⟩⟩ := m
    · exact ⟨s, rfl⟩
    · exact absurd ((cost_step call s outer).trans_le enough) (Nat.not_lt_zero _)
  | succ n ih =>
    obtain ⟨s, _ | ⟨call, outer⟩⟩ := m
    · exact ⟨s, iterate_of_ended _ s⟩
    · rw [Function.iterate_succ_apply]
      exact ih _ (Nat.le_of_lt_succ ((cost_step call s outer).trans_le enough))

end Unwinding

/-! What an iteration consumes. -/

namespace DropCall

theorem used_append (front back : List Object) : used (front ++ back) = used front + used back :=
  List.countP_append

theorem used_null : used [.null] = 0 := rfl

theorem used_cons_le (o : Object) (slots : List Object) : used slots ≤ used (o :: slots) :=
  (List.sublist_cons_self o slots).countP_le

theorem used_cons_of_nests (slots : List Object) (nests : o.nests = true) :
    used (o :: slots) = used slots + 1 := by
  refine List.countP_cons_of_pos (decide_eq_true ?_)
  rintro rfl
  cases nests

theorem used_le (slots : List Object) : used slots ≤ slots.length := List.countP_le_length

theorem inHand_moving (own : Option (List Object)) (moved left pending : List Object) :
    (moving own moved left pending).inHand =
      pending.length + (used (own.getD []) + (used moved + used left)) := by
  rw [inHand, worklist, slots, used_append, used_append]

theorem inHand_releasing (own pending : List Object) :
    (releasing own pending).inHand = pending.length + used own := rfl

theorem inHand_clearing (own : List Object) : (clearing own).inHand = used own := Nat.zero_add _

end DropCall

namespace Unwinding

theorem objects_cons (s : Counted) (call : DropCall) (calls : List DropCall) :
    objects ⟨s, call :: calls⟩ = call.inHand + objects ⟨s, calls⟩ := by
  rw [objects, objects, List.map_cons, List.sum_cons, Nat.add_left_comm]

theorem objects_le (held : t.held + k ≤ s.held) (calls : List DropCall) :
    objects ⟨t, calls⟩ + k ≤ objects ⟨s, calls⟩ := by
  simp only [objects]
  omega

open DropCall in
theorem objects_discard (s : Counted) (o : Object) (calls : List DropCall) :
    (s.discard o calls).objects ≤ objects ⟨s, calls⟩ := by
  rcases s.discard_cases o calls with ⟨t, goes, held, -⟩ | ⟨t, items, called, held, -⟩
  · rw [goes]
    exact objects_le (k := 0) held.le calls
  · have kept := objects_le held calls
    have few := used_le items
    have none : used [] = 0 := rfl
    simp only [called, objects_cons, inHand_moving, Option.getD_none, none, List.length_nil]
    omega

open DropCall in
theorem objects_step (call : DropCall) (s : Counted) (outer : List DropCall) :
    (call.step s outer).objects + (iterates ⟨s, call :: outer⟩).toNat ≤
      objects ⟨s, call :: outer⟩ := by
  have dropped (o : Object) (next : DropCall) := objects_discard s o (next :: outer)
  have none : used [] = 0 := rfl
  simp only [objects_cons] at dropped ⊢
  cases call with
  | moving own moved left pending =>
    have still : iterates ⟨s, moving own moved left pending :: outer⟩ = false := rfl
    rw [still, Bool.toNat_false, Nat.add_zero]
    cases left with
    | nil =>
      cases own <;> simp only [DropCall.step, objects_cons, inHand_moving, inHand_releasing,
        Option.getD, none, List.length_nil] <;> omega
    | cons o left =>
      rw [DropCall.step]
      split
      · rename_i nests
        simp only [objects_cons, inHand_moving, used_append, used_cons_of_nests _ nests, used_null,
          List.length_cons]
        omega
      · have fewer := used_cons_le o left
        refine (dropped o _).trans ?_
        simp only [inHand_moving, used_append, used_null]
        omega
  | releasing own pending =>
    cases pending with
    | nil =>
      have still : iterates ⟨s, releasing own [] :: outer⟩ = false := rfl
      rw [still, Bool.toNat_false, DropCall.step, objects_cons, inHand_releasing, inHand_clearing]
      omega
    | cons o pending =>
      have turns : iterates ⟨s, releasing own (o :: pending) :: outer⟩ = true := rfl
      rw [turns, Bool.toNat_true, DropCall.step]
      split
      · rcases gone : s.letGo o with ⟨t, _ | c⟩
        · have kept := objects_le (k := 0) (Counted.held_of_kept gone).le outer
          simp only [objects_cons, inHand_releasing, List.length_cons]
          omega
        · have kept := objects_le (Counted.held_of_freed gone).le outer
          have few := used_le c.items
          simp only [objects_cons, inHand_moving, inHand_releasing, Option.getD_some, none,
            List.length_cons]
          omega
      · refine (Nat.add_le_add_right (dropped o _) 1).trans ?_
        simp only [inHand_releasing, List.length_cons]
        omega
  | clearing own =>
    cases own with
    | nil => exact Nat.le_add_left ..
    | cons o own =>
      have fewer := used_cons_le o own
      refine (dropped o _).trans ?_
      simp only [inHand_clearing]
      omega

end Unwinding

/-! How deep calls are nested. -/

def Nulls (slots : List Object) : Prop := ∀ o ∈ slots, o = .null

theorem nulls_nil : Nulls [] := nofun

theorem nulls_append {front back : List Object} (first : Nulls front) (second : Nulls back) :
    Nulls (front ++ back) :=
  fun o inside => (List.mem_append.mp inside).elim (first o) (second o)

theorem nulls_null : Nulls [.null] := fun _ => List.eq_of_mem_singleton

theorem nulls_replicate (n : Nat) : Nulls (List.replicate n .null) :=
  fun _ => List.eq_of_mem_replicate

theorem Nulls.not_nests (nulls : Nulls own) : ∀ o ∈ own, o.nests = false := by
  intro o inside
  rw [nulls o inside]
  rfl

namespace DropCall

def Emptied : DropCall → Prop
  | .moving own moved _ _ => Nulls (own.getD []) ∧ Nulls moved
  | .releasing own _ => Nulls own
  | .clearing own => Nulls own

def Idle : DropCall → Prop
  | .moving none moved left pending => Nulls moved ∧ Nulls left ∧ pending = []
  | .moving (some _) _ _ _ => False
  | .releasing own pending => Nulls own ∧ pending = []
  | .clearing own => Nulls own

theorem idle_moving (nulls : Nulls left) : (moving none [] left []).Idle :=
  ⟨nulls_nil, nulls, rfl⟩

theorem Idle.worklist_eq (idle : call.Idle) : call.worklist = [] := by
  cases call with
  | moving own =>
    cases own with
    | none => exact idle.2.2
    | some own => exact idle.elim
  | releasing => exact idle.2
  | clearing => rfl

theorem Idle.nulls (idle : call.Idle) : Nulls call.slots := by
  cases call with
  | moving own =>
    cases own with
    | none => exact nulls_append nulls_nil (nulls_append idle.1 idle.2.1)
    | some own => exact idle.elim
  | releasing => exact idle.1
  | clearing => exact idle

theorem Idle.step (idle : call.Idle) (s : Counted) (outer : List DropCall) :
    call.step s outer = ⟨s, outer⟩ ∨
      ∃ next, next.Idle ∧ call.step s outer = ⟨s, next :: outer⟩ := by
  cases call with
  | moving own moved left pending =>
    cases own with
    | some own => exact idle.elim
    | none =>
      obtain ⟨behind, ahead, rfl⟩ := idle
      cases left with
      | nil => exact .inr ⟨.releasing moved [], ⟨behind, rfl⟩, rfl⟩
      | cons o left =>
        obtain ⟨rfl, others⟩ := List.forall_mem_cons.mp ahead
        exact .inr ⟨.moving none (moved ++ [.null]) left [],
          ⟨nulls_append behind nulls_null, others, rfl⟩, rfl⟩
  | releasing own pending =>
    obtain ⟨nulls, rfl⟩ := idle
    exact .inr ⟨.clearing own, nulls, rfl⟩
  | clearing own =>
    cases own with
    | nil => exact .inl rfl
    | cons o own =>
      obtain ⟨rfl, nulls⟩ := List.forall_mem_cons.mp idle
      exact .inr ⟨.clearing own, nulls, rfl⟩

end DropCall

namespace Unwinding

/-- No more than two calls, of which the inner one has nothing to do. -/
inductive Shallow : Unwinding → Prop
  | ended (s : Counted) : Shallow ⟨s, []⟩
  | one (s : Counted) {call : DropCall} (emptied : call.Emptied) : Shallow ⟨s, [call]⟩
  | two (s : Counted) {inner call : DropCall} (idle : inner.Idle) (emptied : call.Emptied) :
      Shallow ⟨s, [inner, call]⟩

theorem shallow_discard (s : Counted) (flat : o.nests = false) (emptied : call.Emptied) :
    (s.discard o [call]).Shallow := by
  rcases s.discard_cases o [call] with ⟨t, goes, -⟩ | ⟨t, items, called, -, -, bare⟩
  · exact goes ▸ .one t emptied
  · rw [called, bare flat]
    exact .two t (DropCall.idle_moving nulls_nil) emptied

theorem shallow_step_one (s : Counted) (emptied : call.Emptied) : (call.step s []).Shallow := by
  cases call with
  | moving own moved left pending =>
    obtain ⟨aside, behind⟩ := emptied
    cases left with
    | nil =>
      cases own with
      | none => exact .one s behind
      -- the shell was emptied, so that its drop is idle
      | some own => exact .two s (DropCall.idle_moving behind) aside
    | cons o left =>
      have further (pending : List Object) :
          (DropCall.moving own (moved ++ [.null]) left pending).Emptied :=
        ⟨aside, nulls_append behind nulls_null⟩
      rw [DropCall.step]
      split
      · exact .one s (further _)
      · rename_i flat
        exact shallow_discard s (Bool.not_eq_true _ ▸ flat) (further _)
  | releasing own pending =>
    cases pending with
    | nil => exact .one s emptied
    | cons o pending =>
      rw [DropCall.step]
      split
      · rcases s.letGo o with ⟨t, _ | c⟩
        · exact .one t emptied
        · exact .one t ⟨emptied, nulls_nil⟩
      · rename_i flat
        exact shallow_discard s (Bool.not_eq_true _ ▸ flat) emptied
  | clearing own =>
    cases own with
    | nil => exact .ended s
    | cons o own =>
      obtain ⟨rfl, nulls⟩ := List.forall_mem_cons.mp emptied
      exact .one s nulls

theorem Shallow.next {m : Unwinding} (shallow : m.Shallow) : m.step.Shallow := by
  cases shallow with
  | ended s => exact .ended s
  | one s emptied => exact shallow_step_one s emptied
  | @two s inner call idle emptied =>
    change (inner.step s [call]).Shallow
    rcases idle.step s [call] with returns | ⟨next, idle', goesOn⟩
    · exact returns ▸ .one s emptied
    · exact goesOn ▸ .two s idle' emptied

theorem Shallow.iterate {m : Unwinding} (shallow : m.Shallow) (n : Nat) :
    (step^[n] m).Shallow := by
  induction n with
  | zero => exact shallow
  | succ n ih =>
    rw [Function.iterate_succ_apply']
    exact ih.next

/-! Where the steps lead. -/

def Reaches (m n : Unwinding) : Prop := ∃ k, step^[k] m = n

theorem Reaches.refl (m : Unwinding) : m.Reaches m := ⟨0, rfl⟩

theorem Reaches.head {m n : Unwinding} (rest : m.step.Reaches n) : m.Reaches n := by
  obtain ⟨k, rfl⟩ := rest
  exact ⟨k + 1, Function.iterate_succ_apply ..⟩

theorem Reaches.trans {l m n : Unwinding} (front : l.Reaches m) (back : m.Reaches n) :
    l.Reaches n := by
  obtain ⟨j, rfl⟩ := front
  obtain ⟨k, rfl⟩ := back
  exact ⟨k + j, Function.iterate_add_apply ..⟩

theorem Reaches.eq_of_ended {m : Unwinding} {n : Nat} (reaches : m.Reaches ⟨t, []⟩)
    (ended : step^[n] m = ⟨s, []⟩) : s = t := by
  obtain ⟨k, reached⟩ := reaches
  have one := Function.iterate_add_apply step k n m
  rw [ended, iterate_of_ended, Nat.add_comm, Function.iterate_add_apply, reached,
    iterate_of_ended] at one
  exact congrArg state one.symm

theorem reaches_of_idle (idle : call.Idle) : Reaches ⟨s, call :: outer⟩ ⟨s, outer⟩ := by
  -- by induction on the cost: an idle call returns
  induction cheap : call.cost using Nat.strong_induction_on generalizing call with
  | _ n ih =>
    have less := cost_step call s outer
    refine .head ?_
    change (call.step s outer).Reaches _
    rcases idle.step s outer with returns | ⟨next, idle', goesOn⟩
    · exact returns ▸ .refl _
    · rw [goesOn, cost_cons, cost_cons] at less
      rw [goesOn]
      exact ih next.cost (by omega) idle' rfl

theorem reaches_of_discard (flat : o.nests = false) :
    (s.discard o outer).Reaches ⟨(s.surrender o).1, outer⟩ := by
  rcases s.discard_cases o outer with ⟨t, goes, -, rfl⟩ | ⟨t, items, called, -, rfl, bare⟩
  · exact goes ▸ .refl _
  · rw [called, bare flat]
    exact reaches_of_idle (DropCall.idle_moving nulls_nil)

end Unwinding

namespace Counted

def deferAll (s : Counted) (pending os : List Object) : Counted × List Object :=
  os.foldl (fun (s, pending) o => s.defer pending o) (s, pending)

theorem deferAll_cons (s : Counted) (pending : List Object) (o : Object) (os : List Object) :
    s.deferAll pending (o :: os) = (s.defer pending o).1.deferAll (s.defer pending o).2 os := rfl

theorem deferAll_held (s : Counted) (pending os : List Object) :
    (s.deferAll pending os).1.held + (s.deferAll pending os).2.length ≤
      s.held + (os.length + pending.length) := by
  induction os generalizing s pending with
  | nil => simp [deferAll]
  | cons o os ih =>
    have rest := ih (s.defer pending o).1 (s.defer pending o).2
    rw [deferAll_cons, List.length_cons]
    cases kind : o.nests with
    | true =>
      simp only [defer_of_nests pending kind, List.length_cons] at rest ⊢
      omega
    | false =>
      have whole := held_surrender s o
      simp only [defer_of_flat pending kind] at rest ⊢
      omega

theorem nests_of_deferAll (nests : ∀ o ∈ pending, o.nests = true) (os : List Object) :
    ∀ o ∈ (s.deferAll pending os).2, o.nests = true := by
  induction os generalizing s pending with
  | nil => exact nests
  | cons o os ih =>
    rw [deferAll_cons]
    cases kind : o.nests with
    | true =>
      rw [defer_of_nests pending kind]
      exact ih (List.forall_mem_cons.mpr ⟨kind, nests⟩)
    | false =>
      rw [defer_of_flat pending kind]
      exact ih nests

end Counted

namespace Unwinding

theorem reaches_of_moving (own : Option (List Object)) (moved left pending : List Object) :
    Reaches ⟨s, .moving own moved left pending :: outer⟩
      ⟨(s.deferAll pending left).1, .moving own (moved ++ List.replicate left.length .null) []
        (s.deferAll pending left).2 :: outer⟩ := by
  induction left generalizing s moved pending with
  | nil =>
    rw [List.length_nil, List.replicate_zero, List.append_nil]
    exact .refl _
  | cons o left ih =>
    have rest (t : Counted) (pending : List Object) := @ih t (moved ++ [.null]) pending
    simp only [List.append_assoc, List.singleton_append, ← List.replicate_succ] at rest
    rw [Counted.deferAll_cons]
    refine .head ?_
    change (DropCall.step s outer (.moving own moved (o :: left) pending)).Reaches _
    rw [DropCall.step]
    cases kind : o.nests with
    | true =>
      rw [Counted.defer_of_nests pending kind]
      exact rest s (o :: pending)
    | false =>
      rw [Counted.defer_of_flat pending kind]
      exact (reaches_of_discard kind).trans (rest _ pending)

theorem reaches_of_releasing (fuel level deepest : Nat)
    (nests : ∀ o ∈ pending, o.nests = true) (enough : s.held + pending.length < fuel) :
    Reaches ⟨s, .releasing own pending :: outer⟩
      ⟨(Counted.releaseWithin fuel level deepest s pending).1, .releasing own [] :: outer⟩ := by
  -- by induction on the rounds: the calls do what the rounds of the loop do
  induction fuel generalizing s pending level deepest with
  | zero => omega
  | succ fuel ih =>
    cases pending with
    | nil => exact .refl _
    | cons o pending =>
      obtain ⟨kind, others⟩ := List.forall_mem_cons.mp nests
      rw [List.length_cons] at enough
      refine .head ?_
      change (DropCall.step s outer (.releasing own (o :: pending))).Reaches _
      rw [DropCall.step, if_pos kind, Counted.releaseWithin]
      obtain ⟨a, found⟩ : ∃ a, o.address? = some a := by
        cases o <;> first | exact ⟨_, rfl⟩ | cases kind
      have gives : s.letGo o = s.giveUp a := by rw [Counted.letGo, found]
      simp only [found, gives]
      rcases gone : s.giveUp a with ⟨t, _ | c⟩
      · have held := Counted.held_of_kept (gives.trans gone)
        exact ih level deepest others (by omega)
      · have held := Counted.held_of_freed (gives.trans gone)
        have bound := t.deferAll_held pending c.items
        have fewer : (t.deferAll pending c.items).1.held +
            (t.deferAll pending c.items).2.length < fuel := by omega
        have taken : t.takeItems pending c = t.deferAll pending c.items := rfl
        have shell := DropCall.idle_moving (nulls_replicate c.items.length)
        simp only [taken, Counted.dropShell_emptied]
        exact (reaches_of_moving ..).trans (.head ((reaches_of_idle shell).trans
          (ih level _ (Counted.nests_of_deferAll others c.items) fewer)))

theorem reaches_released (fuel level deepest : Nat) (nulls : Nulls own)
    (nests : ∀ o ∈ pending, o.nests = true) (enough : s.held + pending.length < fuel) :
    Reaches ⟨s, [.releasing own pending]⟩
      ⟨(Counted.releaseWithin fuel level deepest s pending).1, []⟩ :=
  (reaches_of_releasing fuel level deepest nests enough).trans
    (reaches_of_idle ⟨nulls, rfl⟩)

theorem reaches_drop (s : Counted) (o : Object) : (s.discard o []).Reaches ⟨s.drop o, []⟩ := by
  rw [Counted.drop, Counted.dropWithDepth_eq, Counted.discard]
  rcases gone : s.letGo o with ⟨t, _ | c⟩
  · exact .refl _
  · have held := Counted.held_of_freed gone
    cases kind : o.nests with
    | false => exact reaches_of_idle (DropCall.idle_moving nulls_nil)
    | true =>
      have bound := t.deferAll_held [] c.items
      have fewer : (t.deferAll [] c.items).1.held + (t.deferAll [] c.items).2.length <
          s.held + 2 := by
        rw [List.length_nil] at bound
        omega
      have deferred := Counted.nests_of_deferAll (s := t) (List.forall_mem_nil _) c.items
      exact (reaches_of_moving ..).trans (.head (reaches_released (s.held + 2) 1 1
        (nulls_replicate c.items.length) deferred fewer))

end Unwinding

namespace Counted

/-! How deep the loop says that it went. -/

theorem dropShell_emptied_depth (fuel level deepest : Nat) (s : Counted) (c : Cell) :
    (dropShell fuel level deepest s c.emptied).2 = max level deepest := by
  cases fuel with
  | zero => rfl
  | succ fuel =>
    rw [dropShell, takeItems_emptied]
    cases fuel <;> rfl

theorem releaseWithin_depth (fuel level deepest : Nat) (s : Counted) (pending : List Object) :
    (releaseWithin fuel level deepest s pending).2 ≤ max deepest (level + 1) := by
  induction fuel generalizing s pending deepest with
  | zero => exact Nat.le_max_left ..
  | succ fuel ih =>
    cases pending with
    | nil => exact Nat.le_max_left ..
    | cons o pending =>
      rw [releaseWithin]
      split
      · exact ih deepest s pending
      · split
        · exact ih deepest _ pending
        · refine (ih _ _ _).trans ?_
          rw [dropShell_emptied_depth]
          omega

theorem dropWithDepth_depth (s : Counted) (o : Object) : (s.dropWithDepth o).2 ≤ 2 := by
  rw [dropWithDepth_eq]
  rcases s.letGo o with ⟨t, _ | c⟩
  · exact Nat.zero_le _
  · simp only
    split
    · exact releaseWithin_depth ..
    · exact Nat.zero_le _

end Counted

namespace Unwinding

variable {m : Unwinding}

theorem objects_step_le (m : Unwinding) : m.step.objects + m.iterates.toNat ≤ m.objects := by
  obtain ⟨s, _ | ⟨call, outer⟩⟩ := m
  · exact le_rfl
  · exact objects_step call s outer

theorem iterations_add_objects (m : Unwinding) (n : Nat) :
    (List.range n).countP (fun k => (step^[k] m).iterates) + (step^[n] m).objects ≤
      m.objects := by
  induction n with
  | zero => exact (Nat.zero_add _).le
  | succ n ih =>
    have consumed := objects_step_le (step^[n] m)
    have last : [n].countP (fun k => (step^[k] m).iterates) = (step^[n] m).iterates.toNat := by
      cases turns : (step^[n] m).iterates <;> simp [turns]
    rw [List.range_succ, List.countP_append, last, Function.iterate_succ_apply']
    omega

theorem Shallow.depth (shallow : m.Shallow) : m.calls.length ≤ 2 := by
  cases shallow with
  | ended => exact Nat.zero_le _
  | one => exact Nat.le_succ 1
  | two => exact le_rfl

theorem Shallow.shell (shallow : m.Shallow)
    (dropped : m.calls = .moving (some own) moved [] pending :: outer) :
    ∀ o ∈ moved, o.nests = false := by
  cases shallow with
  | ended => cases dropped
  | one s emptied =>
    obtain ⟨rfl, -⟩ := List.cons.inj dropped
    exact emptied.2.not_nests
  | two s idle =>
    obtain ⟨rfl, -⟩ := List.cons.inj dropped
    exact idle.elim

theorem Shallow.nested {inner : DropCall} (shallow : m.Shallow)
    (within : m.calls = inner :: call :: outer) :
    inner.worklist = [] ∧ ∀ o ∈ inner.slots, o.nests = false := by
  cases shallow with
  | ended => cases within
  | one => cases within
  | two s idle =>
    obtain ⟨rfl, -⟩ := List.cons.inj within
    exact ⟨idle.worklist_eq, idle.nulls.not_nests⟩

theorem Shallow.endsIn {bound steps : Nat} (shallow : m.Shallow) (few : m.objects ≤ bound)
    (ended : step^[steps] m = ⟨t, []⟩) : m.EndsIn bound steps t where
  ends := ended
  consumes n := by
    rw [Function.iterate_succ_apply']
    exact objects_step_le _
  iterations n := (Nat.le_add_right ..).trans ((iterations_add_objects m n).trans few)
  depth n := (shallow.iterate n).depth
  shell n _ _ _ _ := (shallow.iterate n).shell
  nested n _ _ _ := (shallow.iterate n).nested

theorem cost_release (s : Counted) (pending : List Object) :
    (release s pending).cost = 16 * s.held + 5 * pending.length + 2 := by
  simp only [release, cost_cons, DropCall.cost, List.length_nil]
  show 2 + 4 * 0 + 5 * pending.length + 16 * s.held = _
  omega

theorem shallow_drop (s : Counted) (o : Object) : (s.discard o []).Shallow := by
  rcases s.discard_cases o [] with ⟨t, goes, -⟩ | ⟨t, items, called, -⟩
  · exact goes ▸ .ended t
  · exact called ▸ .one t ⟨nulls_nil, nulls_nil⟩

/-- Releasing a worklist ends, and so does dropping an object, whatever leads where: each iteration
consumes an object that was in the cells or on the worklist, a shell that is dropped on the way has
no pairs or vectors in its slots, and a drop inside another one never calls a third. On a worklist
of pairs and vectors the rounds of `releaseWithin` end in the same state. -/
theorem release_ends_shallow (s : Counted) (pending : List Object) (o : Object) :
    (∃ t, (release s pending).EndsIn (s.held + pending.length)
        (16 * s.held + 5 * pending.length + 2) t ∧
      ∀ fuel level deepest,
        (Counted.releaseWithin fuel level deepest s pending).2 ≤ max deepest (level + 1) ∧
        ((∀ p ∈ pending, p.nests = true) → s.held + pending.length < fuel →
          (Counted.releaseWithin fuel level deepest s pending).1 = t)) ∧
    (s.discard o []).EndsIn s.held (16 * s.held + 3) (s.drop o) ∧ (s.dropWithDepth o).2 ≤ 2 := by
  refine ⟨?_, ?_, s.dropWithDepth_depth o⟩
  · obtain ⟨t, ended⟩ := exists_ended _ _ (cost_release s pending).le
    have emptied : (DropCall.releasing [] pending).Emptied := nulls_nil
    refine ⟨t, (Shallow.one s emptied).endsIn le_rfl ended, fun fuel level deepest =>
      ⟨Counted.releaseWithin_depth .., fun nests enough => ?_⟩⟩
    exact ((reaches_released fuel level deepest nulls_nil nests enough).eq_of_ended ended).symm
  · have cheap := (cost_discard s o []).trans_eq (Nat.add_comm ..)
    obtain ⟨t, ended⟩ := exists_ended _ _ cheap
    obtain rfl := (reaches_drop s o).eq_of_ended ended
    exact (shallow_drop s o).endsIn (objects_discard s o []) ended

/-- A pair that leads to a circle and holds the only handle to a string. -/
def ringed : Counted :=
  .ofHeap ⟨#[.pair (.pair 1) (.string 2), .pair (.pair 1) .null, .string #['s']]⟩ [.pair 0]

theorem release_ends_shallow_of_ringed : ringed.held + 1 < 6 ∧
    step^[71] (release ringed [.pair 0]) =
      ⟨⟨⟨#[.freed, .pair (.pair 1) .null, .freed]⟩, #[0, 1, 0], #[1, 0, 1]⟩, []⟩ := by
  obtain ⟨⟨t, released, rounds⟩, -⟩ := release_ends_shallow ringed [.pair 0] (.pair 0)
  have few : ringed.held + 1 < 6 := by decide
  obtain rfl := (rounds 6 0 0).2 (by decide) few
  exact ⟨few, released.ends⟩

end Unwinding

end SchemeCore
