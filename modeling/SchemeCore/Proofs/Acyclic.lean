import SchemeCore.Proofs.Datum
import SchemeCore.Proofs.Exact

/-! Acyclic heaps. A new cell leads to older ones only, so an allocation closes no circle; neither
does a write, unless what is written leads back to the cell. On an acyclic heap every object that
leads to a cell of its kind unfolds to a tree, as all do that its cell holds. -/

namespace SchemeCore

theorem Cell.eq_of_suits {c : Cell} {o p : Object} (left : c.suits o) (right : c.suits p)
    (one : o.address? = p.address?) : o = p := by
  cases c <;> cases o <;> cases left <;> cases p <;> cases right <;> cases one <;> rfl

namespace Heap

open Relation

variable {h : Heap} {a b : Addr} {c c' : Cell} {o p : Object}

/-! Paths with new edges. -/

section Paths

variable {α : Type} {R S : α → α → Prop} {x y z : α}

/-- All new edges leave one node, for nodes that do not lead to it. A path then is an old one, or it
comes to the node and later leaves it for good. -/
theorem transGen_of_edges (edges : ∀ x y, S x y → R x y ∨ x = z ∧ ¬ReflTransGen R y z)
    (path : TransGen S x y) : TransGen R x y ∨
      ReflTransGen R x z ∧ ∃ w, ¬ReflTransGen R w z ∧ ReflTransGen R w y := by
  induction path with
  | single edge =>
    rcases edges _ _ edge with old | ⟨rfl, new⟩
    · exact .inl (.single old)
    · exact .inr ⟨.refl, _, new, .refl⟩
  | tail _ edge ih =>
    rcases edges _ _ edge with old | ⟨rfl, new⟩
    · rcases ih with path | ⟨start, w, leaves, path⟩
      · exact .inl (path.tail old)
      · exact .inr ⟨start, w, leaves, path.tail old⟩
    · rcases ih with path | ⟨start, w, leaves, path⟩
      · exact .inr ⟨path.to_reflTransGen, _, new, .refl⟩
      · exact absurd path leaves

theorem irrefl_of_edges (edges : ∀ x y, S x y → R x y ∨ x = z ∧ ¬ReflTransGen R y z)
    (acyclic : ∀ x, ¬TransGen R x x) (x : α) : ¬TransGen S x x := by
  intro circle
  rcases transGen_of_edges edges circle with old | ⟨start, w, leaves, path⟩
  · exact acyclic x old
  · exact leaves (path.trans start)

end Paths

/-! What a new cell and a write change. -/

def AllBut (h h' : Heap) (z : Addr) (c : Cell) : Prop :=
  ∀ a d, h'.cell? a = some d → h.cell? a = some d ∨ a = z ∧ d = c

theorem allBut_alloc (h : Heap) (c : Cell) : h.AllBut (h.alloc c).2 h.size c := by
  intro a d found
  rw [cell?_alloc] at found
  split at found
  · exact .inr ⟨‹_›, (Option.some.inj found).symm⟩
  · exact .inl found

theorem allBut_write (h : Heap) (a : Addr) (c : Cell) : h.AllBut (h.write a c) a c := by
  intro b d found
  rw [cell?_write] at found
  split at found
  · rename_i here
    obtain ⟨-, -, same⟩ := Option.map_eq_some_iff.mp found
    exact .inr ⟨here.symm, same.symm⟩
  · exact .inl found

namespace AllBut

variable {h' : Heap} {z : Addr}

theorem mem_contents (all : h.AllBut h' z c) (held : o ∈ h'.contents) :
    o ∈ h.contents ∨ o ∈ c.items := by
  obtain ⟨a, d, found, inside⟩ := mem_contents_iff.mp held
  rcases all a d found with old | ⟨-, rfl⟩
  · exact .inl (mem_contents_iff.mpr ⟨a, d, old, inside⟩)
  · exact .inr inside

theorem pointsTo (all : h.AllBut h' z c) (points : h'.PointsTo a b) :
    h.PointsTo a b ∨ a = z ∧ ∃ p ∈ c.items, p.address? = some b := by
  obtain ⟨d, found, p, inside, address⟩ := points
  rcases all a d found with old | ⟨here, rfl⟩
  · exact .inl ⟨d, old, p, inside, address⟩
  · exact .inr ⟨here, p, inside, address⟩

theorem acyclic (all : h.AllBut h' z c) (acyclic : h.Acyclic)
    (items : ∀ p ∈ c.items, ∀ b, p.address? = some b →
      h.PointsTo z b ∨ ¬ReflTransGen h.PointsTo b z) : h'.Acyclic := by
  refine irrefl_of_edges (z := z) (fun a b points => ?_) acyclic
  rcases all.pointsTo points with old | ⟨rfl, p, inside, address⟩
  · exact .inl old
  · exact (items p inside b address).imp_right fun straight => ⟨rfl, straight⟩

end AllBut

/-! Handles go on to lead to cells of their kind. -/

theorem leads_of_bare (bare : o.address? = none) : h.leads o := by rw [leads, bare]

theorem leads_alloc (leads : h.leads o) : (h.alloc c).2.leads o := by
  rw [leads_iff] at leads ⊢
  intro a address
  obtain ⟨d, found, suits⟩ := leads a address
  refine ⟨d, ?_, suits⟩
  rw [cell?_alloc, if_neg (Nat.ne_of_lt (lt_size_of_cell? found)), found]

theorem leads_new (address : o.address? = some h.size) (suits : c.suits o) :
    (h.alloc c).2.leads o := by
  rw [leads_iff]
  intro a address'
  obtain rfl := Option.some.inj (address.symm.trans address')
  exact ⟨c, by rw [cell?_alloc, if_pos rfl], suits⟩

theorem leads_write (found : h.cell? a = some c) (kind : ∀ q, c.suits q → c'.suits q)
    (leads : h.leads o) : (h.write a c').leads o := by
  rw [leads_iff] at leads ⊢
  intro b address
  obtain ⟨d, found', suits⟩ := leads b address
  rw [cell?_write]
  split
  · rename_i here
    subst here
    cases found.symm.trans found'
    exact ⟨c', by rw [found]; rfl, kind o suits⟩
  · exact ⟨d, found', suits⟩

theorem leads_list (items : List Object) (leads : h.leads o) : (h.list items).2.leads o := by
  induction items with
  | nil => exact leads
  | cons item items ih => exact leads_alloc ih

theorem leads_pair_of_list (items : List Object) :
    ∀ p ∈ (List.range' h.size items.length).map Object.pair, (h.list items).2.leads p := by
  induction items with
  | nil => simp
  | cons item items ih =>
    intro p made
    rw [List.length_cons, List.range'_1_concat, List.map_append] at made
    rcases List.mem_append.mp made with before | first
    · exact leads_alloc (ih p before)
    · rw [List.mem_singleton.mp first, ← size_list]
      exact leads_new rfl rfl

theorem leads_list_fst (items : List Object) : (h.list items).2.leads (h.list items).1 := by
  cases items with
  | nil => exact leads_of_bare rfl
  | cons item items => exact leads_new rfl rfl

/-! Founded heaps. -/

/-- Every handle in a cell leads to a cell of its kind, and none leads in a circle. -/
structure Founded (h : Heap) : Prop where
  leads : ∀ o ∈ h.contents, h.leads o
  acyclic : h.Acyclic

theorem founded_empty : empty.Founded where
  leads _ held := by cases held
  acyclic _ circle := by
    obtain ⟨_, ⟨_, found, _⟩, _⟩ := TransGen.head'_iff.mp circle
    cases found

namespace Founded

theorem lt_size_of_pointsTo (founded : h.Founded) (points : h.PointsTo a b) : b < h.size := by
  obtain ⟨c, found, p, inside, address⟩ := points
  have leads := founded.leads p (mem_contents_iff.mpr ⟨a, c, found, inside⟩)
  obtain ⟨d, found', -⟩ := leads_iff.mp leads b address
  exact lt_size_of_cell? found'

theorem exists_reaches (founded : h.Founded) (leads : h.leads p) (address : p.address? = some b)
    (path : ReflTransGen h.PointsTo b a) :
    ∃ q, h.Reaches p q ∧ q.address? = some a ∧ h.leads q := by
  induction path with
  | refl => exact ⟨p, .refl, address, leads⟩
  | tail _ points ih =>
    obtain ⟨q, reaches, here, -⟩ := ih
    obtain ⟨c, found, r, inside, there⟩ := points
    refine ⟨r, reaches.tail (holds_iff.mpr ⟨_, c, here, found, inside⟩), there, ?_⟩
    exact founded.leads r (mem_contents_iff.mpr ⟨_, c, found, inside⟩)

theorem alloc (founded : h.Founded) (items : ∀ p ∈ c.items, h.leads p) :
    (h.alloc c).2.Founded where
  leads o held := by
    rcases (allBut_alloc h c).mem_contents held with old | new
    · exact leads_alloc (founded.leads o old)
    · exact leads_alloc (items o new)
  acyclic := by
    refine (allBut_alloc h c).acyclic founded.acyclic fun p inside b address => .inr fun path => ?_
    obtain ⟨d, found, -⟩ := leads_iff.mp (items p inside) b address
    rcases path.cases_tail with same | ⟨a, -, last⟩
    · exact absurd (lt_size_of_cell? found) (same ▸ Nat.lt_irrefl _)
    · exact absurd (founded.lt_size_of_pointsTo last) (Nat.lt_irrefl _)

theorem write (founded : h.Founded) (address : o.address? = some a) (found : h.cell? a = some c)
    (suits : c.suits o) (kind : ∀ q, c.suits q → c'.suits q)
    (items : ∀ p ∈ c'.items, p ∈ c.items ∨ h.leads p ∧ ¬h.Reaches p o) :
    (h.write a c').Founded where
  leads q held := by
    refine leads_write found kind ?_
    rcases (allBut_write h a c').mem_contents held with old | new
    · exact founded.leads q old
    · rcases items q new with old | ⟨leads, -⟩
      · exact founded.leads q (mem_contents_iff.mpr ⟨a, c, found, old⟩)
      · exact leads
  acyclic := by
    refine (allBut_write h a c').acyclic founded.acyclic fun p inside b there => ?_
    rcases items p inside with old | ⟨leads, straight⟩
    · exact .inl ⟨c, found, p, old, there⟩
    -- a path back ends in an object at the address, and by its kind this is the one written to
    · refine .inr fun path => straight ?_
      obtain ⟨q, reaches, here, leads'⟩ := founded.exists_reaches leads there path
      obtain ⟨d, found', suits'⟩ := leads_iff.mp leads' a here
      cases found.symm.trans found'
      exact Cell.eq_of_suits suits' suits (here.trans address.symm) ▸ reaches

theorem list (founded : h.Founded) {items : List Object} (leads : ∀ p ∈ items, h.leads p) :
    (h.list items).2.Founded := by
  induction items with
  | nil => exact founded
  | cons item items ih =>
    refine Founded.alloc (ih fun p inside => leads p (List.mem_cons_of_mem item inside)) ?_
    intro p inside
    rcases List.mem_pair.mp inside with rfl | rfl
    · exact leads_list items (leads p List.mem_cons_self)
    · exact leads_list_fst items

theorem descent (founded : h.Founded) {motive : Addr → Prop}
    (step : ∀ a, (∀ b, h.PointsTo a b → motive b) → motive a) (a : Addr) : motive a :=
  induction_of_irrefl (fun b circle => founded.acyclic b (transGen_swap.mp circle))
    (fun points => founded.lt_size_of_pointsTo points) step a

end Founded

/-! Trees. -/

theorem exists_unfolds_of_bare (bare : o.address? = none) : ∃ d, h.Unfolds o d :=
  ⟨.leaf o, .leaf (by cases o <;> first | rfl | cases bare)⟩

theorem exists_unfolds_of_vector {slots : Array Object}
    (found : h.sequence? .vector o = some (a, slots))
    (each : ∀ p ∈ slots.toList, ∃ d, h.Unfolds p d) : ∃ d, h.Unfolds o d := by
  have tree : ∀ n : Fin slots.size, ∃ d, h.Unfolds slots[n] d := fun n =>
    each _ (Array.getElem_mem_toList n.isLt)
  choose item unfolds using tree
  refine ⟨.vector (List.ofFn item), .vector found (List.length_ofFn).symm fun n hs hi => ?_⟩
  rw [List.getElem_ofFn]
  exact unfolds ⟨n, hs⟩

theorem exists_unfolds_of_items (found : h.cell? a = some c) (address : o.address? = some a)
    (suits : c.suits o) (each : ∀ p ∈ c.items, ∃ d, h.Unfolds p d) : ∃ d, h.Unfolds o d := by
  cases o with
  | pair =>
    cases address
    cases c with
    | pair x xs =>
      obtain ⟨car, left⟩ := each x List.mem_cons_self
      obtain ⟨cdr, right⟩ := each xs (List.mem_cons_of_mem x List.mem_cons_self)
      exact ⟨.pair car cdr, .pair (pair?_eq_some_iff.mpr ⟨a, rfl, found⟩) left right⟩
    | _ => cases suits
  | string =>
    cases address
    cases c with
    | string chars => exact ⟨_, .string (sequence?_eq_some_iff.mpr ⟨rfl, found⟩)⟩
    | _ => cases suits
  | vector =>
    cases address
    cases c with
    | vector slots => exact exists_unfolds_of_vector (sequence?_eq_some_iff.mpr ⟨rfl, found⟩) each
    | _ => cases suits
  | bytes =>
    cases address
    cases c with
    | bytes octets => exact ⟨_, .bytes (sequence?_eq_some_iff.mpr ⟨rfl, found⟩)⟩
    | _ => cases suits
  | _ => exact ⟨_, .leaf rfl⟩

theorem Founded.exists_unfolds (founded : h.Founded) (leads : h.leads o) :
    ∃ d, h.Unfolds o d := by
  have below : ∀ a o, o.address? = some a → h.leads o → ∃ d, h.Unfolds o d := by
    intro a
    induction a using founded.descent with
    | step a ih =>
      intro o address leads
      obtain ⟨c, found, suits⟩ := leads_iff.mp leads a address
      refine exists_unfolds_of_items found address suits fun p inside => ?_
      cases address' : p.address? with
      | none => exact exists_unfolds_of_bare address'
      | some b =>
        refine ih b ⟨c, found, p, inside, address'⟩ p address' ?_
        exact founded.leads p (mem_contents_iff.mpr ⟨a, c, found, inside⟩)
  cases address : o.address? with
  | none => exact exists_unfolds_of_bare address
  | some a => exact below a o address leads

end Heap

end SchemeCore
