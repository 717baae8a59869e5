import SchemeCore.Proofs.Chain
import SchemeCore.Proofs.Ending
import SchemeCore.Proofs.Acyclic

/-! Lists and vectors told by their items. A list is a chain of new pairs, one for each item, and
all that was there before is still there after them. The pairs of two lists, or the cells of two
vectors, are apart, so that a comparison cannot stop early at a shared one. It comes down to the
items, one by one, and finds of them what it would have found before they were put together. -/

namespace SchemeCore.Heap

variable {h h' : Heap} {o p : Object} {xs ys : List Object}

/-! Cells that are added change nothing about the objects that were there. -/

def Within (h h' : Heap) : Prop := ∀ a c, h.cell? a = some c → h'.cell? a = some c

theorem Within.trans {h'' : Heap} (first : h.Within h') (second : h'.Within h'') : h.Within h'' :=
  fun a c found => second a c (first a c found)

theorem within_alloc (h : Heap) (c : Cell) : h.Within (h.alloc c).2 := by
  intro a d found
  rw [cell?_alloc, if_neg (Nat.ne_of_lt (lt_size_of_cell? found)), found]

theorem within_list (h : Heap) (items : List Object) : h.Within (h.list items).2 := by
  induction items with
  | nil => exact fun _ _ found => found
  | cons item items ih => exact ih.trans (within_alloc _ _)

section Within

variable (within : h.Within h')

include within

theorem Within.pair? {q : Object × Object} (found : h.pair? o = some q) : h'.pair? o = some q := by
  obtain ⟨a, rfl, cell⟩ := pair?_eq_some_iff.mp found
  exact pair?_eq_some_iff.mpr ⟨a, rfl, within a _ cell⟩

theorem Within.sequence? {k : Sequence} {q : Addr × Array k.Slot}
    (found : h.sequence? k o = some q) : h'.sequence? k o = some q := by
  obtain ⟨rfl, cell⟩ := sequence?_eq_some_iff.mp found
  exact sequence?_eq_some_iff.mpr ⟨rfl, within _ _ cell⟩

theorem Within.unfolds {d : Datum} (unfolds : h.Unfolds o d) : h'.Unfolds o d := by
  induction unfolds with
  | leaf bare => exact .leaf bare
  | pair found _ _ car cdr => exact .pair (within.pair? found) car cdr
  | string found => exact .string (within.sequence? found)
  | vector found size _ item => exact .vector (within.sequence? found) size item
  | bytes found => exact .bytes (within.sequence? found)

theorem Within.equal (derivation : Equal h o p) : Equal h' o p := by
  induction derivation with
  | same identical => exact .same identical
  | pair left right _ _ car cdr => exact .pair (within.pair? left) (within.pair? right) car cdr
  | vector left right size _ item =>
    exact .vector (within.sequence? left) (within.sequence? right) size item
  | string left right => exact .string (within.sequence? left) (within.sequence? right)
  | bytes left right => exact .bytes (within.sequence? left) (within.sequence? right)

theorem Within.cell?_of_unfolds {d : Datum} {a : Addr} {c : Cell} (unfolds : h.Unfolds o d)
    (address : o.address? = some a) (contents : o.hasContents = true)
    (found : h'.cell? a = some c) : h.cell? a = some c := by
  cases unfolds with
  | leaf bare =>
    rw [bare] at contents
    cases contents
  | pair before =>
    obtain ⟨b, rfl, cell⟩ := pair?_eq_some_iff.mp before
    cases address
    rw [cell, ← within _ _ cell, found]
  | string before | vector before | bytes before =>
    obtain ⟨rfl, cell⟩ := sequence?_eq_some_iff.mp before
    cases address
    rw [cell, ← within _ _ cell, found]

theorem Within.pair?_of_unfolds {d : Datum} {q : Object × Object} (unfolds : h.Unfolds o d)
    (found : h'.pair? o = some q) : h.pair? o = some q := by
  obtain ⟨a, rfl, cell⟩ := pair?_eq_some_iff.mp found
  exact pair?_eq_some_iff.mpr ⟨a, rfl, within.cell?_of_unfolds unfolds rfl rfl cell⟩

theorem Within.sequence?_of_unfolds {k : Sequence} {d : Datum} {q : Addr × Array k.Slot}
    (unfolds : h.Unfolds o d) (found : h'.sequence? k o = some q) : h.sequence? k o = some q := by
  obtain ⟨rfl, cell⟩ := sequence?_eq_some_iff.mp found
  have contents : (k.object q.1).hasContents = true := by cases k <;> rfl
  exact sequence?_eq_some_iff.mpr
    ⟨rfl, within.cell?_of_unfolds unfolds (k.object_address? q.1) contents cell⟩

theorem Within.equal_of_equal {d e : Datum} (left : h.Unfolds o d) (right : h.Unfolds p e)
    (derivation : Equal h' o p) : Equal h o p := by
  induction left generalizing p e with
  | leaf bare => exact .same (derivation.same_of_scalar bare)
  | pair found _ _ car cdr =>
    rcases derivation.of_pair (within.pair? found) with rfl | ⟨y, ys, found', cars, cdrs⟩
    · obtain ⟨a, rfl, -⟩ := pair?_eq_some_iff.mp found
      exact .refl_of_address rfl
    · have before := within.pair?_of_unfolds right found'
      obtain ⟨_, _, -, left', right'⟩ := right.of_pair before
      exact .pair found before (car left' cars) (cdr right' cdrs)
  | string found =>
    rcases derivation.of_sequence (k := .string) (within.sequence? found) with
      rfl | ⟨j, slots, found', size, chars⟩
    · exact .string found found
    · exact equal_of_slots found (within.sequence?_of_unfolds right found') size chars
  | @vector o i xs items found size _ item =>
    rcases derivation.of_sequence (k := .vector) (within.sequence? found) with
      rfl | ⟨j, ys, found', sizes, equals⟩
    · obtain ⟨rfl, -⟩ := sequence?_eq_some_iff.mp found
      exact .refl_of_address rfl
    · have before := within.sequence?_of_unfolds right found'
      obtain ⟨items', -, size', each'⟩ := right.of_vector before
      refine .vector found before sizes fun n hx hy => ?_
      exact item n hx (size ▸ hx) (each' n hy (size' ▸ hy)) (equals n hx hy)
  | bytes found =>
    rcases derivation.of_sequence (k := .bytes) (within.sequence? found) with
      rfl | ⟨j, slots, found', size, octets⟩
    · exact .bytes found found
    · exact equal_of_slots found (within.sequence?_of_unfolds right found') size octets

end Within

/-! Chains with the addresses of their pairs. -/

/-- A chain of pairs at some addresses holds the items and ends in the empty list. -/
inductive Chains (h : Heap) : Object → List Object → List Addr → Prop
  | nil : Chains h .null [] []
  | cons {a : Addr} {x rest : Object} {xs : List Object} {as : List Addr}
      (found : h.pair? (.pair a) = some (x, rest)) (chains : Chains h rest xs as) :
      Chains h (.pair a) (x :: xs) (a :: as)

theorem tail?_of_pair? {x rest : Object} (found : h.pair? o = some (x, rest)) (n : Nat) :
    h.tail? o (n + 1) = h.tail? rest n := by
  have step : h.cdr? o = some rest := by rw [cdr?, found, Option.map_some]
  rw [Nat.add_comm, tail?_of_tail? (show h.tail? o 1 = some rest from step)]

namespace Chains

variable {as bs : List Addr}

theorem of_within (within : h.Within h') (chains : h.Chains o xs as) : h'.Chains o xs as := by
  induction chains with
  | nil => exact .nil
  | cons found _ ih => exact .cons (within.pair? found) ih

theorem length_eq (chains : h.Chains o xs as) : as.length = xs.length := by
  induction chains with
  | nil => rfl
  | cons _ _ ih => rw [List.length_cons, ih, List.length_cons]

theorem tail?_eq_null (chains : h.Chains o xs as) : h.tail? o xs.length = some .null := by
  induction chains with
  | nil => rfl
  | cons found _ ih =>
    rw [List.length_cons, tail?_of_pair? found, ih]

theorem tail?_eq_pair (chains : h.Chains o xs as) (i : Nat) (lt : i < as.length)
    (lt' : i < xs.length) :
    h.tail? o i = some (.pair as[i]) ∧ ∃ rest, h.pair? (.pair as[i]) = some (xs[i], rest) := by
  induction chains generalizing i with
  | nil => cases lt
  | cons found _ ih =>
    cases i with
    | zero => exact ⟨rfl, _, found⟩
    | succ i =>
      rw [tail?_of_pair? found]
      exact ih i (Nat.lt_of_succ_lt_succ lt) (Nat.lt_of_succ_lt_succ lt')

theorem exists_unfolds (chains : h.Chains o xs as) (each : ∀ x ∈ xs, ∃ d, h.Unfolds x d) :
    ∃ d, h.Unfolds o d := by
  induction chains with
  | nil => exact ⟨_, .leaf rfl⟩
  | @cons a x rest xs as found _ ih =>
    obtain ⟨car, left⟩ := each x List.mem_cons_self
    obtain ⟨cdr, right⟩ := ih fun y inside => each y (List.mem_cons_of_mem x inside)
    exact ⟨.pair car cdr, .pair found left right⟩

theorem equal_iff (left : h.Chains o xs as) (right : h.Chains p ys bs) (apart : as.Disjoint bs) :
    Equal h o p ↔ List.Forall₂ (Equal h) xs ys := by
  induction left generalizing p ys bs with
  | nil =>
    cases right with
    | nil => exact iff_of_true (.same rfl) .nil
    | cons => exact iff_of_false (fun equal => by cases equal.same_of_scalar rfl) nofun
  | @cons a x rest xs as found _ ih =>
    cases right with
    | nil =>
      refine iff_of_false (fun equal => ?_) nofun
      rcases equal.of_pair found with same | ⟨_, _, found', -⟩
      · cases same
      · cases found'
    | @cons b y rest' ys bs found' right =>
      have rests : as.Disjoint bs := fun c inside inside' =>
        apart (List.mem_cons_of_mem a inside) (List.mem_cons_of_mem b inside')
      rw [List.forall₂_cons, ← ih right rests]
      constructor
      · intro equal
        rcases equal.of_pair found with same | ⟨_, _, contents, cars, cdrs⟩
        · cases same
          exact absurd List.mem_cons_self (apart List.mem_cons_self)
        · cases found'.symm.trans contents
          exact ⟨cars, cdrs⟩
      · rintro ⟨cars, cdrs⟩
        exact .pair found found' cars cdrs

end Chains

theorem chains_list (h : Heap) (items : List Object) :
    (h.list items).2.Chains (h.list items).1 items (List.range' h.size items.length).reverse := by
  induction items with
  | nil => exact .nil
  | cons item items ih =>
    have first : (h.list (item :: items)).2.pair? (.pair (h.list items).2.size) =
        some (item, (h.list items).1) :=
      pair?_eq_some_iff.mpr ⟨_, rfl, by rw [list_cons, cell?_alloc, if_pos rfl]⟩
    have chain := Chains.cons first (ih.of_within (within_alloc _ _))
    rwa [List.length_cons, List.range'_1_concat, List.reverse_concat, ← size_list]

structure Lists (h h' : Heap) (o : Object) (items : List Object) : Prop where
  size : h'.size = h.size + items.length
  kept : ∀ a < h.size, h'.cell? a = h.cell? a
  item : ∀ i (lt : i < items.length),
    let a := h.size + (items.length - 1 - i)
    h'.tail? o i = some (.pair a) ∧ ∃ rest, h'.pair? (.pair a) = some (items[i], rest)
  ends : h'.tail? o items.length = some .null
  isList : h'.isList? o = some true

theorem isList?_of_endsInNull (ends : EndsInNull h o) : h.isList? o = some true := by
  obtain ⟨answer, said, right⟩ := exists_answer h o
  rw [said, right.mpr ends]

theorem lists_list (h : Heap) (items : List Object) :
    h.Lists (h.list items).2 (h.list items).1 items := by
  have chains := chains_list h items
  refine ⟨size_list items, fun a lt => ?_, fun i lt => ?_, chains.tail?_eq_null,
    isList?_of_endsInNull ⟨_, chains.tail?_eq_null⟩⟩
  · obtain ⟨c, found⟩ : ∃ c, h.cell? a = some c := ⟨_, Array.getElem?_eq_getElem lt⟩
    rw [found, within_list h items a c found]
  · have place := chains.tail?_eq_pair i (chains.length_eq.symm ▸ lt) lt
    simpa [List.getElem_reverse, List.getElem_range'] using place

/-! Comparisons. -/

def listsEqual? (h : Heap) (xs ys : List Object) : Option Bool :=
  let (left, h) := h.list xs
  let (right, h) := h.list ys
  h.equal? left right

def vectorsEqual? (h : Heap) (xs ys : List Object) : Option Bool :=
  let (left, h) := h.sequence .vector xs.toArray
  let (right, h) := h.sequence .vector ys.toArray
  h.equal? left right

def ItemsEqual (h : Heap) : List Object → List Object → Prop :=
  List.Forall₂ fun x y => h.equal? x y = some true

theorem sequence?_sequence (k : Sequence) (slots : Array k.Slot) :
    (h.sequence k slots).2.sequence? k (h.sequence k slots).1 = some (h.size, slots) :=
  sequence?_eq_some_iff.mpr ⟨rfl, by rw [sequence, cell?_alloc, if_pos rfl]⟩

theorem equal_vector_iff {i j : Addr} (left : h.sequence? .vector o = some (i, xs.toArray))
    (right : h.sequence? .vector p = some (j, ys.toArray)) (apart : i ≠ j) :
    Equal h o p ↔ List.Forall₂ (Equal h) xs ys := by
  rw [List.forall₂_iff_get]
  constructor
  · intro equal
    rcases equal.of_sequence (k := .vector) left with rfl | ⟨_, slots, found, size, items⟩
    · cases left.symm.trans right
      exact absurd rfl apart
    · cases right.symm.trans found
      exact ⟨size, items⟩
  · rintro ⟨size, items⟩
    exact .vector left right size items

theorem Within.itemsEqual_iff (within : h.Within h') (left : ∀ x ∈ xs, ∃ d, h.Unfolds x d)
    (right : ∀ y ∈ ys, ∃ d, h.Unfolds y d) :
    List.Forall₂ (Equal h') xs ys ↔ h.ItemsEqual xs ys := by
  rw [ItemsEqual, List.forall₂_iff_zip, List.forall₂_iff_zip]
  refine and_congr_right fun _ => forall₂_congr fun x y => forall_congr' fun inside => ?_
  obtain ⟨d, unfolds⟩ := left x (List.of_mem_zip inside).1
  obtain ⟨e, unfolds'⟩ := right y (List.of_mem_zip inside).2
  rw [equal?_eq_true_iff]
  exact ⟨within.equal_of_equal unfolds unfolds', within.equal⟩

theorem exists_verdict_of_items (within : h.Within h') (left : ∀ x ∈ xs, ∃ d, h.Unfolds x d)
    (right : ∀ y ∈ ys, ∃ d, h.Unfolds y d)
    (whole : (∀ x ∈ xs, ∃ d, h'.Unfolds x d) → ∃ d, h'.Unfolds o d)
    (items : Equal h' o p ↔ List.Forall₂ (Equal h') xs ys) :
    ∃ r, h'.equal? o p = some r ∧ (r = true ↔ h.ItemsEqual xs ys) := by
  obtain ⟨d, unfolds⟩ := whole fun x inside => (left x inside).imp fun _ => within.unfolds
  obtain ⟨r, verdict⟩ := exists_equal? (b := p) (.inl unfolds)
  refine ⟨r, verdict, ?_⟩
  rw [← within.itemsEqual_iff left right, ← items, ← equal?_eq_true_iff, verdict, Option.some_inj]

section Items

variable (left : ∀ x ∈ xs, ∃ d, h.Unfolds x d) (right : ∀ y ∈ ys, ∃ d, h.Unfolds y d)

include left right

theorem exists_listsEqual? :
    ∃ r, h.listsEqual? xs ys = some r ∧ (r = true ↔ h.ItemsEqual xs ys) := by
  have first := within_list h xs
  have second := within_list (h.list xs).2 ys
  have chains := (chains_list h xs).of_within second
  refine exists_verdict_of_items (first.trans second) left right chains.exists_unfolds ?_
  refine chains.equal_iff (chains_list (h.list xs).2 ys) fun a inside inside' => ?_
  rw [List.mem_reverse, List.mem_range'_1] at inside inside'
  rw [size_list] at inside'
  omega

theorem exists_vectorsEqual? :
    ∃ r, h.vectorsEqual? xs ys = some r ∧ (r = true ↔ h.ItemsEqual xs ys) := by
  have first := within_alloc h (.vector xs.toArray)
  have second := within_alloc (h.alloc (.vector xs.toArray)).2 (.vector ys.toArray)
  have slots := second.sequence? (sequence?_sequence .vector xs.toArray)
  have whole := exists_unfolds_of_vector slots
  refine exists_verdict_of_items (first.trans second) left right whole ?_
  refine equal_vector_iff slots (sequence?_sequence .vector ys.toArray) ?_
  exact Nat.ne_of_lt (size_alloc _ ▸ Nat.lt_succ_self _)

end Items

/-- A list of items has them as its cars, in order, in as many new pairs, and leaves alone what was
there. Where the items have finite unfoldings, two lists are equal exactly when they have equally
many items, equal one by one, and so are two vectors. -/
theorem list_holds_items (h : Heap) (xs : List Object) :
    h.Lists (h.list xs).2 (h.list xs).1 xs ∧
    ∀ ys, (∀ x ∈ xs ++ ys, ∃ d, h.Unfolds x d) →
      ∃ r, h.listsEqual? xs ys = some r ∧ h.vectorsEqual? xs ys = some r ∧
        (r = true ↔ h.ItemsEqual xs ys) := by
  refine ⟨lists_list h xs, fun ys finite => ?_⟩
  obtain ⟨left, right⟩ := List.forall_mem_append.mp finite
  obtain ⟨r, lists, yes⟩ := exists_listsEqual? left right
  obtain ⟨r', vectors, yes'⟩ := exists_vectorsEqual? left right
  obtain rfl : r = r' := Bool.eq_iff_iff.mpr (yes.trans yes'.symm)
  exact ⟨r, lists, vectors, yes⟩

def copyBesideCircle : Heap := ⟨#[.string #['s'], .string #['s'], .pair (.fixnum 1) (.pair 2)]⟩

theorem list_holds_items_of_copies :
    copyBesideCircle.Lists (copyBesideCircle.list [.pair 2, .string 0]).2 (.pair 4)
      [.pair 2, .string 0] ∧
    copyBesideCircle.listsEqual? [.string 0, .null] [.string 1, .null] = some true ∧
    copyBesideCircle.vectorsEqual? [.string 0, .null] [.string 1] = some false := by
  obtain ⟨lists, -⟩ := list_holds_items copyBesideCircle [.pair 2, .string 0]
  obtain ⟨-, compared⟩ := list_holds_items copyBesideCircle [.string 0, .null]
  have text {a : Addr} {chars : Array Char}
      (found : copyBesideCircle.sequence? .string (.string a) = some (a, chars)) :
      ∃ d, copyBesideCircle.Unfolds (.string a) d := ⟨_, .string found⟩
  have finite : ∀ o ∈ [Object.string 0, .null, .string 1, .null],
      ∃ d, copyBesideCircle.Unfolds o d := by
    simp only [List.forall_mem_cons, List.not_mem_nil, false_imp_iff, implies_true, and_true]
    exact ⟨text rfl, exists_unfolds_of_bare rfl, text rfl, exists_unfolds_of_bare rfl⟩
  have shorter : ∀ o ∈ [Object.string 0, .null, .string 1], ∃ d, copyBesideCircle.Unfolds o d :=
    fun o inside => finite o (List.mem_append_left [Object.null] inside)
  obtain ⟨r, same, -, yes⟩ := compared [.string 1, .null] finite
  obtain ⟨r', -, differ, no⟩ := compared [.string 1] shorter
  obtain rfl : r = true := yes.mpr (.cons (by decide) (.cons (by decide) .nil))
  obtain rfl : r' = false := Bool.eq_false_iff.mpr (mt no.mp (by simp [ItemsEqual]))
  exact ⟨lists, same, differ⟩

end SchemeCore.Heap
