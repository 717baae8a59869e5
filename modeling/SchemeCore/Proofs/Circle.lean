import SchemeCore.Proofs.Chain
import SchemeCore.Proofs.Effect
import SchemeCore.Proofs.Ending
import SchemeCore.Proofs.Run
import SchemeCore.Proofs.Written

/-! Runs that close no circle build only trees. Every operation leaves a founded heap founded if it
closes no circle, so by induction all states of such a run have one; then every object of a state
has a tree, and what goes down an object ends where its tree does. -/

namespace SchemeCore

theorem forall_split_concat {α : Type} {p : List α → α → Prop} {l : List α} {a : α} :
    (∀ before x after, l ++ [a] = before ++ x :: after → p before x) ↔
      (∀ before x after, l = before ++ x :: after → p before x) ∧ p l a := by
  constructor
  · refine fun each => ⟨?_, each l a [] rfl⟩
    rintro before x after rfl
    exact each before x (after ++ [a]) (by simp)
  · rintro ⟨each, last⟩ before x after same
    rcases List.eq_nil_or_concat after with rfl | ⟨after, b, rfl⟩
    · obtain ⟨rfl, one⟩ := List.append_inj' same rfl
      exact List.singleton_inj.mp one ▸ last
    · rw [List.concat_eq_append, ← List.cons_append, ← List.append_assoc] at same
      exact each before x after (List.append_inj' same rfl).1

theorem History.scoped_concat {history : History} {s : Step} :
    History.Scoped (history ++ [s]) ↔ history.Scoped ∧
      ∀ o ∈ s.operation.operands, o.address?.isSome → o ∈ history.allocations :=
  forall_split_concat

namespace Run

variable {table : Interner} {r : Run} {ops : List Operation} {op : Operation} {o : Object}

structure Founded (r : Run) : Prop where
  heap : r.heap.Founded
  leads : ∀ o ∈ r.history.allocations, r.heap.leads o

theorem founded_start : start.Founded := ⟨Heap.founded_empty, nofun⟩

namespace Founded

theorem leads_of_knows (founded : r.Founded) (knows : r.Knows o) : r.heap.leads o := by
  cases address : o.address? with
  | none => exact Heap.leads_of_bare address
  | some a => exact founded.leads o (knows (Option.isSome_of_eq_some address))

theorem next (founded : r.Founded) (operands : ∀ o ∈ op.operands, r.Knows o)
    (straight : ¬op.ClosesCircle table r.heap) : (r.next table op).Founded := by
  have effect := op.effect_apply table r.heap
  constructor
  · refine effect.founded founded.heap (fun o operand => ?_) ?_
    · exact founded.leads_of_knows (operands o operand)
    · intro done o target value stored holds reaches
      exact straight ⟨done, o, target, value, stored, holds, reaches⟩
  · intro o made
    rw [Run.next, History.allocations_concat] at made
    rcases List.mem_append.mp made with before | now
    · exact effect.leads (founded.leads o before)
    · exact effect.leads_allocated o now

theorem finite (founded : r.Founded) (table : Interner) : r.Finite table := by
  have unfolds : ∀ o, r.Knows o → ∃ d, r.heap.Unfolds o d := fun o knows =>
    founded.heap.exists_unfolds (founded.leads_of_knows knows)
  constructor
  case unfolds => exact unfolds
  case compares =>
    intro a b known _
    obtain ⟨d, tree⟩ := unfolds a known
    exact Heap.exists_equal? (.inl tree)
  case writes =>
    intro o known
    obtain ⟨d, tree⟩ := unfolds o known
    exact ⟨_, Heap.written?_of_unfolds tree⟩
  case walks =>
    intro o _
    obtain ⟨answer, found, -⟩ := Heap.exists_answer r.heap o
    exact ⟨answer, found⟩

end Founded

theorem straight_concat : Straight table (ops ++ [op]) ↔
    Straight table ops ∧ ¬op.ClosesCircle table (of table ops).heap := forall_split_concat

theorem straight_of_stored (none : ∀ op ∈ ops, op.stored = []) : Straight table ops := by
  rintro before op after rfl ⟨-, o, -, value, stored, -⟩
  rw [none op (by simp)] at stored
  cases stored

theorem founded_of_straight (inScope : (of table ops).history.Scoped)
    (straight : Straight table ops) : ∀ front, front <+: ops → (of table front).Founded := by
  induction ops using List.reverseRecOn with
  | nil =>
    rintro front within
    rw [List.prefix_nil.mp within]
    exact founded_start
  | append_singleton ops op ih =>
    intro front within
    obtain ⟨straight, last⟩ := straight_concat.mp straight
    rw [of_concat] at inScope
    obtain ⟨inScope, known⟩ := History.scoped_concat.mp inScope
    have before := ih inScope straight
    rcases List.prefix_concat_iff.mp within with rfl | shorter
    · rw [of_concat]
      exact (before ops (List.prefix_refl ops)).next known last
    · exact before front shorter

/-- A run that closes no circle, and so any run that stores no objects, has finite objects only: in
each of its states every object has a tree, and every comparison, every writing and every walk down
a list ends. -/
theorem finite_unless_closed (table : Interner) (ops : List Operation)
    (inScope : (of table ops).history.Scoped)
    (straight : Straight table ops ∨ ∀ op ∈ ops, op.stored = []) :
    ∀ front, front <+: ops → (of table front).Finite table := by
  intro front within
  have straight : Straight table ops := straight.elim id straight_of_stored
  exact (founded_of_straight inScope straight front within).finite table

/-- A vector holds a pair twice and fails to hold itself; a list of the vector ends in the pair. -/
def sharing : List Operation :=
  [.cons (.fixnum 1) .null, .sequence .vector #[.pair 0, .pair 0],
    .setAt .vector (some (.vector 1)) 2 (.vector 1), .cons (.vector 1) .null,
    .setCdr (some (.pair 2)) (.pair 0)]

theorem mem_of_reaches {h : Heap} {p q : Object} {s : List Object}
    (closed : ∀ p ∈ s, ∀ q ∈ h.items p, q ∈ s) (inside : p ∈ s) (reaches : h.Reaches p q) :
    q ∈ s := by
  induction reaches with
  | refl => exact inside
  | tail _ holds ih => exact closed _ ih _ holds

theorem straight_sharing : Straight .empty sharing := by
  have made : Straight .empty (sharing.take 2) := straight_of_stored (by decide)
  have refused : Straight .empty (sharing.take 3) := by
    refine straight_concat.mpr ⟨made, fun ⟨done, _⟩ => ?_⟩
    cases done
  have more : Straight .empty (sharing.take 4) := by
    refine straight_concat.mpr ⟨refused, fun ⟨done, _⟩ => ?_⟩
    cases done
  refine straight_concat.mpr ⟨more, fun ⟨_, o, target, value, stored, _, reaches⟩ => ?_⟩
  cases target
  obtain rfl := List.mem_singleton.mp stored
  have inside := mem_of_reaches (s := [.pair 0, .fixnum 1, .null]) (by decide) (by decide) reaches
  revert inside
  decide

theorem inScope_sharing : (of .empty sharing).history.Scoped := by
  have nothing : History.Scoped [] := fun before s after same => by cases before <;> cases same
  refine History.scoped_concat.mpr ⟨?_, by decide⟩
  refine History.scoped_concat.mpr ⟨?_, by decide⟩
  refine History.scoped_concat.mpr ⟨?_, by decide⟩
  refine History.scoped_concat.mpr ⟨?_, by decide⟩
  exact History.scoped_concat.mpr ⟨nothing, by decide⟩

theorem finite_unless_closed_of_sharing : (of .empty sharing).history.Scoped ∧
    Straight .empty sharing ∧ (of .empty sharing).Finite .empty :=
  ⟨inScope_sharing, straight_sharing, finite_unless_closed .empty sharing inScope_sharing
    (.inl straight_sharing) sharing (List.prefix_refl sharing)⟩

end Run

end SchemeCore
