import SchemeCore.Proofs.Datum

/-! The text of an object is the text of its tree. Writing goes down one level for each object and
one more where a chain ends in something other than the empty list, so twice the height of the tree
is deep enough, and heights do not exceed the number of cells. -/

namespace SchemeCore.Heap

variable {table : Interner} {h : Heap} {o : Object} {d : Datum}

def Adds (done : String) (chars : List Char) (attempt : Option String) : Prop :=
  ∃ s, attempt = some s ∧ s.toList = done.toList ++ chars

theorem Adds.push {done : String} {chars : List Char} {attempt : Option String} (c : Char)
    (adds : Adds done chars attempt) : Adds done (chars ++ [c]) (attempt.map (·.push c)) := by
  obtain ⟨s, rfl, added⟩ := adds
  exact ⟨s.push c, rfl, by rw [String.toList_push, added, List.append_assoc]⟩

theorem adds_append (done text : String) : Adds done text.toList (some (done ++ text)) :=
  ⟨_, rfl, String.toList_append⟩

/-! Items with blanks between them. -/

theorem intercalate_cons (item : List Char) (items : List (List Char)) :
    [' '].intercalate (item :: items) = item ++ items.flatMap (' ' :: ·) := by
  induction items generalizing item with
  | nil => simp
  | cons next items ih => rw [List.intercalate_cons_cons, ih]; simp

section Separated

variable {write : String → Object → Option String} {text : Datum → List Char}
  {slots : List Object} {items : List Datum}

def WritesEach (write : String → Object → Option String) (text : Datum → List Char)
    (slots : List Object) (items : List Datum) : Prop :=
  ∀ n (hs : n < slots.length) (hi : n < items.length) done,
    Adds done (text items[n]) (write done slots[n])

theorem WritesEach.head {slot : Object} {item : Datum}
    (each : WritesEach write text (slot :: slots) (item :: items)) (done : String) :
    Adds done (text item) (write done slot) :=
  each 0 (Nat.zero_lt_succ _) (Nat.zero_lt_succ _) done

theorem WritesEach.tail {slot : Object} {item : Datum}
    (each : WritesEach write text (slot :: slots) (item :: items)) :
    WritesEach write text slots items := fun n hs hi =>
  each (n + 1) (Nat.succ_lt_succ hs) (Nat.succ_lt_succ hi)

theorem adds_foldlM (size : slots.length = items.length) (each : WritesEach write text slots items)
    (done : String) : Adds done ((items.map text).flatMap (' ' :: ·))
      (slots.foldlM (fun done slot => write (done.push ' ') slot) done) := by
  induction slots generalizing items done with
  | nil =>
    obtain rfl := List.length_eq_zero_iff.mp size.symm
    exact ⟨done, rfl, by simp⟩
  | cons slot slots ih =>
    cases items with
    | nil => cases size
    | cons item items =>
      obtain ⟨s, written, added⟩ := each.head (done.push ' ')
      obtain ⟨t, rest, more⟩ := ih (Nat.succ.inj size) each.tail s
      refine ⟨t, ?_, ?_⟩
      · rw [List.foldlM_cons, written]
        exact rest
      · rw [more, added, String.toList_push]
        simp

theorem adds_writeSeparated (size : slots.length = items.length)
    (each : WritesEach write text slots items) (done : String) :
    Adds done ([' '].intercalate (items.map text)) (writeSeparated write done slots) := by
  cases slots with
  | nil =>
    obtain rfl := List.length_eq_zero_iff.mp size.symm
    exact ⟨done, rfl, by simp⟩
  | cons slot slots =>
    cases items with
    | nil => cases size
    | cons item items =>
      obtain ⟨s, written, added⟩ := each.head done
      obtain ⟨t, rest, more⟩ := adds_foldlM (Nat.succ.inj size) each.tail s
      refine ⟨t, ?_, ?_⟩
      · rw [writeSeparated, written]
        exact rest
      · rw [more, added, List.map_cons, intercalate_cons, List.append_assoc]

end Separated

/-! One level of writing. -/

theorem adds_atom (bare : o.hasContents = false) (done : String) :
    Adds done (Datum.text table (.leaf o)) ((o.atom? table).map (done ++ ·)) := by
  obtain ⟨t, atom⟩ : ∃ t, o.atom? table = some t := by
    cases o with
    | pair | string | vector | bytes => cases bare
    | _ => exact ⟨_, rfl⟩
  rw [Datum.text, atom]
  exact adds_append done t

theorem writeWithin_bare (bare : o.hasContents = false) (depth : Nat) (done : String) :
    writeWithin table h (depth + 1) done o = (o.atom? table).map (done ++ ·) := by
  cases o with
  | pair | string | vector | bytes => cases bare
  | _ => rfl

theorem toList_writtenString (chars : Array Char) :
    (writtenString chars).toList = Datum.text table (.string chars.toList) := by
  rw [writtenString, Datum.text, String.toList_ofList]

theorem toList_writtenBytes (octets : Array UInt8) :
    (writtenBytes octets).toList = Datum.text table (.bytes octets.toList) := by
  rw [writtenBytes, Datum.text, Datum.enclosed, String.toList_append, String.toList_append,
    String.toList_intercalate, List.map_map]
  rfl

theorem writeTail_end (other : o ≠ .null) (single : ∀ a, o ≠ .pair a) (depth : Nat)
    (done : String) : writeTail table h (depth + 1) done o =
      (writeWithin table h depth (done ++ " . ") o).map (·.push ')') := by
  rw [writeTail]
  · exact other
  · exact single

/-- An object is written where there are levels enough, and so is a chain that goes on with it. -/
structure Written (table : Interner) (h : Heap) (o : Object) (d : Datum) : Prop where
  within : ∀ depth done, 2 * d.height ≤ depth →
    Adds done (d.text table) (writeWithin table h (depth + 1) done o)
  tail : ∀ depth done, 2 * d.height + 1 ≤ depth →
    Adds done (d.tail table) (writeTail table h (depth + 1) done o)

theorem written_of_within (other : o ≠ .null) (single : ∀ a, o ≠ .pair a)
    (otherDatum : d ≠ .leaf .null)
    (singleDatum : ∀ car cdr, d ≠ .pair car cdr)
    (within : ∀ depth done, 2 * d.height ≤ depth →
      Adds done (d.text table) (writeWithin table h (depth + 1) done o)) :
    Written table h o d := by
  refine ⟨within, fun depth done deep => ?_⟩
  obtain ⟨depth, rfl⟩ := Nat.exists_eq_succ_of_ne_zero (Nat.ne_zero_of_lt deep)
  obtain ⟨s, ended, added⟩ := (within depth (done ++ " . ") (Nat.le_of_succ_le_succ deep)).push ')'
  refine ⟨s, (writeTail_end other single (depth + 1) done).trans ended, ?_⟩
  rw [added, Datum.tail.eq_3 table d otherDatum singleDatum, String.toList_append]
  simp

theorem written_null : Written table h .null (.leaf .null) where
  within depth done _ := adds_atom rfl done
  tail depth done _ := ⟨done.push ')', rfl, by rw [String.toList_push, Object.null, Datum.tail]⟩

theorem written_leaf (bare : o.hasContents = false) : Written table h o (.leaf o) := by
  by_cases null : o = .null
  · subst null
    exact written_null
  · refine written_of_within null ?_ (fun same => null (Datum.leaf.inj same))
      (fun _ _ => nofun) fun depth done _ => ?_
    · rintro a rfl
      cases bare
    · rw [writeWithin_bare bare]
      exact adds_atom bare done

theorem written_string {a : Addr} {chars : Array Char}
    (found : h.sequence? .string o = some (a, chars)) :
    Written table h o (.string chars.toList) := by
  obtain ⟨rfl, -⟩ := sequence?_eq_some_iff.mp found
  refine written_of_within nofun (fun _ => nofun) nofun (fun _ _ => nofun) fun depth done _ => ?_
  rw [Sequence.object] at found ⊢
  rw [writeWithin, found, ← toList_writtenString]
  exact adds_append done (writtenString chars)

theorem written_bytes {a : Addr} {octets : Array UInt8}
    (found : h.sequence? .bytes o = some (a, octets)) :
    Written table h o (.bytes octets.toList) := by
  obtain ⟨rfl, -⟩ := sequence?_eq_some_iff.mp found
  refine written_of_within nofun (fun _ => nofun) nofun (fun _ _ => nofun) fun depth done _ => ?_
  rw [Sequence.object] at found ⊢
  rw [writeWithin, found, ← toList_writtenBytes]
  exact adds_append done (writtenBytes octets)

section Pair

variable {x xs : Object} {car cdr : Datum} {depth : Nat}

theorem adds_parts (left : Written table h x car) (right : Written table h xs cdr)
    (deep : 2 * max car.height cdr.height + 1 ≤ depth) (done : String) (c : Char) :
    Adds done (c :: (car.text table ++ cdr.tail table))
      (match writeWithin table h (depth + 1) (done.push c) x with
      | none => none
      | some done => writeTail table h (depth + 1) done xs) := by
  obtain ⟨s, written, added⟩ := left.within depth (done.push c) (by omega)
  obtain ⟨t, ended, more⟩ := right.tail depth s (by omega)
  refine ⟨t, by rw [written]; exact ended, ?_⟩
  rw [more, added, String.toList_push]
  simp

theorem written_pair (found : h.pair? o = some (x, xs)) (left : Written table h x car)
    (right : Written table h xs cdr) : Written table h o (.pair car cdr) := by
  obtain ⟨a, rfl, -⟩ := pair?_eq_some_iff.mp found
  refine ⟨fun depth done deep => ?_, fun depth done deep => ?_⟩ <;> rw [Datum.height] at deep <;>
    obtain ⟨depth, rfl⟩ := Nat.exists_eq_succ_of_ne_zero (by omega : depth ≠ 0)
  · rw [writeWithin, found, Datum.text]
    exact adds_parts left right (by omega) done '('
  · rw [writeTail, found, Datum.tail]
    exact adds_parts left right (by omega) done ' '

end Pair

theorem written_vector {a : Addr} {slots : Array Object} {items : List Datum}
    (found : h.sequence? .vector o = some (a, slots)) (size : slots.size = items.length)
    (each : ∀ n (hs : n < slots.size) (hi : n < items.length), Written table h slots[n] items[n]) :
    Written table h o (.vector items) := by
  obtain ⟨rfl, -⟩ := sequence?_eq_some_iff.mp found
  refine written_of_within nofun (fun _ => nofun) nofun (fun _ _ => nofun) fun depth done deep => ?_
  rw [Datum.height] at deep
  obtain ⟨depth, rfl⟩ := Nat.exists_eq_succ_of_ne_zero (by omega : depth ≠ 0)
  have items : WritesEach (writeWithin table h (depth + 1)) (Datum.text table) slots.toList items :=
    fun n hs hi done => by
      have below := Datum.le_foldr_max (List.getElem_mem hi)
      exact (each n hs hi).within depth done (by omega)
  obtain ⟨s, written, added⟩ := (adds_writeSeparated size items (done ++ "#(")).push ')'
  refine ⟨s, ?_, ?_⟩
  · rw [Sequence.object, writeWithin]
    rw [Sequence.object] at found
    rw [found]
    exact written
  · rw [added, Datum.text, Datum.enclosed, String.toList_append]
    simp

theorem written_of_unfolds (unfolds : h.Unfolds o d) : Written table h o d := by
  induction unfolds with
  | leaf bare => exact written_leaf bare
  | pair found _ _ left right => exact written_pair found left right
  | vector found size _ each => exact written_vector found size each
  | string found => exact written_string found
  | bytes found => exact written_bytes found

theorem written?_of_unfolds (unfolds : h.Unfolds o d) :
    h.written? table o = some (String.ofList (d.text table)) := by
  have written : Written table h o d := written_of_unfolds unfolds
  have deep : 2 * d.height ≤ 2 * h.size + 1 := by
    have := unfolds.height_le
    omega
  obtain ⟨s, attempt, added⟩ := written.within (2 * h.size + 1) "" deep
  have text : s = String.ofList (d.text table) :=
    String.toList_inj.mp (added.trans String.toList_ofList.symm)
  exact text ▸ attempt

end SchemeCore.Heap
