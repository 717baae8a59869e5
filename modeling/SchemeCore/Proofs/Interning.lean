import SchemeCore.Interning
import SchemeCore.Proofs.Name
import Mathlib.Data.List.Induction
import Mathlib.Data.List.Nodup

/-! What the table holds after a history of texts. Each shard lists the different texts that went to
it in the order in which they came first, and its map sends each of them to its place in that list.
One more text keeps this: a known one changes nothing and a new one is put at the end. -/

namespace SchemeCore.Interner

variable {texts more : List String} {s : String} {i : Fin Name.shardCount}

/-! The members of a shard after one more text. -/

theorem eraseDups_concat_of_mem (known : s ∈ texts) :
    (texts ++ [s]).eraseDups = texts.eraseDups := by
  simp [List.eraseDups_append, List.removeAll, known]

theorem eraseDups_concat_of_not_mem (new : s ∉ texts) :
    (texts ++ [s]).eraseDups = texts.eraseDups ++ [s] := by
  simp [List.eraseDups_append, List.removeAll, new, List.eraseDups_cons]

theorem members_concat_of_mem (known : s ∈ texts) : members (texts ++ [s]) i = members texts i := by
  rw [members, eraseDups_concat_of_mem known, members]

theorem members_concat_of_not_mem (new : s ∉ texts) :
    members (texts ++ [s]) i = members texts i ++ if shardOf s = i then [s] else [] := by
  rw [members, eraseDups_concat_of_not_mem new, List.filter_append, members]
  by_cases here : shardOf s = i <;> simp [here]

theorem mem_members : s ∈ members texts i ↔ s ∈ texts ∧ shardOf s = i := by
  simp [members]

theorem members_append (texts more : List String) (i : Fin Name.shardCount) :
    ∃ late, members (texts ++ more) i = members texts i ++ late := by
  rw [members, List.eraseDups_append, List.filter_append]
  exact ⟨_, rfl⟩

theorem Fits.of_append (fits : Fits (texts ++ more)) : Fits texts := by
  intro i
  obtain ⟨late, all⟩ := members_append texts more i
  have whole := fits i
  rw [all, List.length_append] at whole
  omega

/-! The rank of a text is its place among the members of its shard. -/

theorem rank_first {before : List String} (new : s ∉ before) (after : List String) :
    rank (before ++ s :: after) s = (members before (shardOf s)).length := by
  have others : ∀ t ∈ before, (t != s) = true := fun t found =>
    bne_iff_ne.mpr (ne_of_mem_of_not_mem found new)
  rw [rank, List.takeWhile_append_of_pos others, List.takeWhile_cons_of_neg (by simp),
    List.append_nil]

theorem rank_append_of_mem (known : s ∈ texts) : rank (texts ++ more) s = rank texts s := by
  obtain ⟨before, after, rfl, new⟩ := List.eq_append_cons_of_mem known
  rw [List.append_assoc, List.cons_append, rank_first new, rank_first new]

theorem idxOf?_append (front back : List String) (s : String) :
    (front ++ back).idxOf? s = (front.idxOf? s).or ((back.idxOf? s).map (· + front.length)) :=
  List.findIdx?_append

theorem idxOf?_members (known : s ∈ texts) :
    (members texts (shardOf s)).idxOf? s = some (rank texts s) := by
  obtain ⟨before, after, rfl, new⟩ := List.eq_append_cons_of_mem known
  obtain ⟨late, all⟩ := members_append (before ++ [s]) after (shardOf s)
  have missing : s ∉ members before (shardOf s) := fun found => new (mem_members.mp found).1
  rw [rank_first new, List.append_cons, all, members_concat_of_not_mem new, if_pos rfl,
    List.append_assoc, idxOf?_append, List.idxOf?_eq_none_iff.mpr missing]
  simp [List.idxOf?_cons]

theorem rank_lt_of_mem (fits : Fits texts) (known : s ∈ texts) : rank texts s < capacity := by
  obtain ⟨within, -⟩ := List.idxOf?_eq_some_iff.mp (idxOf?_members known)
  exact Nat.lt_of_lt_of_le within (fits (shardOf s))

/-! The table after a history. -/

structure Holds (t : Interner) (texts : List String) : Prop where
  listed : ∀ i : Fin Name.shardCount, t.shards[i].texts.toList = members texts i
  placed : ∀ (i : Fin Name.shardCount) s, t.shards[i].slots[s]? = (members texts i).idxOf? s
  counted : t.count = texts.eraseDups.length

theorem holds_empty : Holds empty [] := by
  refine ⟨fun i => ?_, fun i s => ?_, rfl⟩
  · simp [empty, members]
  · simp [empty, members]

variable {t : Interner}

theorem unplaced_of_not_mem (held : Holds t texts) (new : s ∉ texts) :
    t.shards[i].slots[s]? = none := by
  rw [held.placed, List.idxOf?_eq_none_iff]
  exact fun found => new (mem_members.mp found).1

def extended (t : Interner) (i : Fin Name.shardCount) (s : String) : Interner :=
  let shard := t.shards[i]
  ⟨t.shards.set i ⟨shard.slots.insert s shard.texts.size, shard.texts.push s⟩, t.count + 1⟩

theorem holds_extended (held : Holds t texts) (new : s ∉ texts) :
    Holds (t.extended (shardOf s) s) (texts ++ [s]) := by
  refine ⟨fun i => ?_, fun i s' => ?_, ?_⟩
  · rw [members_concat_of_not_mem new, ← held.listed i]
    by_cases here : shardOf s = i
    · subst here
      simp [extended]
    · have apart : (shardOf s : Nat) ≠ i := Fin.val_ne_of_ne here
      simp [extended, here, apart]
  · rw [members_concat_of_not_mem new]
    by_cases here : shardOf s = i
    · subst here
      have size : t.shards[shardOf s].texts.size = (members texts (shardOf s)).length := by
        rw [← held.listed, Array.length_toList]
      rw [if_pos rfl, idxOf?_append, ← held.placed, List.idxOf?_singleton, ← size]
      by_cases same : s = s'
      · subst same
        have unplaced := unplaced_of_not_mem (i := shardOf s) held new
        simp only [Fin.getElem_fin] at unplaced
        simp [extended, unplaced]
      · simp [extended, Std.HashMap.getElem?_insert, same]
    · have apart : (shardOf s : Nat) ≠ i := Fin.val_ne_of_ne here
      have placed := held.placed i s'
      simpa [extended, here, apart] using placed
  · rw [eraseDups_concat_of_not_mem new, List.length_append, ← held.counted]
    rfl

theorem intern_of_mem (held : Holds t texts) (known : s ∈ texts) :
    t.intern s = .ok (nameIn texts s, t) := by
  have found : t.shards[shardOf s].slots[s]? = some (rank texts s) :=
    (held.placed _ s).trans (idxOf?_members known)
  simp only [intern, found, nameIn]

theorem intern_of_not_mem (held : Holds t texts) (new : s ∉ texts)
    (room : (members texts (shardOf s)).length < capacity) :
    t.intern s = .ok (nameIn (texts ++ [s]) s, t.extended (shardOf s) s) := by
  have missing := unplaced_of_not_mem (i := shardOf s) held new
  have next : t.shards[shardOf s].texts.size = rank (texts ++ [s]) s := by
    rw [rank_first new, ← held.listed, Array.length_toList]
  have free : rank (texts ++ [s]) s ≤ Name.maxSlot.toNat := by
    rw [rank_first new]
    exact Nat.le_of_lt_succ room
  simp only [intern, missing, next, free, ↓reduceIte, nameIn, extended]

theorem nameIn_append_of_mem (known : s ∈ texts) : nameIn (texts ++ more) s = nameIn texts s := by
  rw [nameIn, rank_append_of_mem known, nameIn]

theorem holds_concat_of_mem (held : Holds t texts) (known : s ∈ texts) :
    Holds t (texts ++ [s]) := by
  refine ⟨fun i => ?_, fun i s' => ?_, ?_⟩
  · rw [members_concat_of_mem known, held.listed]
  · rw [members_concat_of_mem known, held.placed]
  · rw [eraseDups_concat_of_mem known, held.counted]

theorem intern_of_holds (held : Holds t texts) (fits : Fits (texts ++ [s])) :
    ∃ t', t.intern s = .ok (nameIn (texts ++ [s]) s, t') ∧ Holds t' (texts ++ [s]) := by
  by_cases known : s ∈ texts
  · refine ⟨t, ?_, holds_concat_of_mem held known⟩
    rw [nameIn_append_of_mem known, intern_of_mem held known]
  · have room : (members texts (shardOf s)).length < capacity := by
      have whole := fits (shardOf s)
      rwa [members_concat_of_not_mem known, if_pos rfl, List.length_append] at whole
    exact ⟨_, intern_of_not_mem held known room, holds_extended held known⟩

theorem internAll_of_holds (held : Holds t texts) (fits : Fits (texts ++ more)) :
    ∃ t', t.internAll more = .ok (more.map (nameIn (texts ++ more)), t') ∧
      Holds t' (texts ++ more) := by
  induction more generalizing t texts with
  | nil => exact ⟨t, rfl, by rwa [List.append_nil]⟩
  | cons s more ih =>
    rw [List.append_cons] at fits ⊢
    obtain ⟨next, interned, held⟩ := intern_of_holds held fits.of_append
    obtain ⟨last, all, held⟩ := ih held fits
    have name : nameIn (texts ++ [s] ++ more) s = nameIn (texts ++ [s]) s :=
      nameIn_append_of_mem (by simp)
    exact ⟨last, by simp only [internAll, interned, all, List.map_cons, name], held⟩

/-! Where a history has come through, no name was given out twice. -/

section Known

variable {t' : Interner} {name : Name} {names : List Name}

theorem holds_of_intern (held : Holds t texts) (interned : t.intern s = .ok (name, t')) :
    Holds t' (texts ++ [s]) := by
  by_cases known : s ∈ texts
  · rw [intern_of_mem held known] at interned
    cases interned
    exact holds_concat_of_mem held known
  · simp only [intern, unplaced_of_not_mem (i := shardOf s) held known] at interned
    split at interned
    · cases interned
      exact holds_extended held known
    · cases interned

theorem holds_of_internAll (held : Holds t texts) (all : t.internAll more = .ok (names, t')) :
    Holds t' (texts ++ more) := by
  induction more generalizing t texts names with
  | nil =>
    cases all
    rwa [List.append_nil]
  | cons s more ih =>
    rw [internAll] at all
    split at all
    · cases all
    · rename_i interned
      split at all
      · cases all
      · rename_i rest
        cases all
        rw [List.append_cons]
        exact ih (holds_of_intern held interned) rest

theorem nodup_eraseDups (texts : List String) : texts.eraseDups.Nodup := by
  induction texts using List.reverseRecOn with
  | nil => exact .nil
  | append_singleton texts s ih =>
    by_cases known : s ∈ texts
    · rwa [eraseDups_concat_of_mem known]
    · rw [eraseDups_concat_of_not_mem known, ← List.concat_eq_append]
      exact ih.concat (by simpa using known)

theorem lookup?_of_holds (held : Holds t texts) (found : t.lookup? name = some s) :
    name.shard = shardOf s ∧ (members texts (shardOf s))[name.slot]? = some s := by
  obtain ⟨shard, there, slot⟩ := Option.bind_eq_some_iff.mp found
  obtain ⟨within, rfl⟩ := Vector.getElem?_eq_some_iff.mp there
  have member : (members texts ⟨name.shard, within⟩)[name.slot]? = some s := by
    rw [← held.listed, Array.getElem?_toList]
    exact slot
  have shard := (mem_members.mp (List.mem_of_getElem? member)).2
  rw [shard]
  exact ⟨rfl, member⟩

theorem name_inj {name' : Name} (held : Holds t texts) (found : t.lookup? name = some s)
    (found' : t.lookup? name' = some s) : name = name' := by
  obtain ⟨shard, slot⟩ := lookup?_of_holds held found
  obtain ⟨shard', slot'⟩ := lookup?_of_holds held found'
  have distinct : (members texts (shardOf s)).Nodup := (nodup_eraseDups texts).filter _
  refine Name.eq_of_parts (shard.trans shard'.symm) ?_
  exact (List.getElem?_inj (List.getElem?_eq_some_iff.mp slot).1 distinct).mp
    (slot.trans slot'.symm)

end Known

/-! A name given out tells its shard and its slot, as no rank is too large for a slot. -/

section Parts

variable {slot slot' : Nat} {j : Fin Name.shardCount}

theorem toNat_parts (i : Fin Name.shardCount) (within : slot < capacity) :
    (UInt32.ofNat i).toNat = i ∧ (UInt32.ofNat slot).toNat = slot := by
  have shard : (i : Nat) < 16 := i.isLt
  have low : slot < 2 ^ 28 := within
  constructor <;> exact UInt32.toNat_ofNat_of_lt' (by rw [UInt32.size]; omega)

theorem fits_parts (i : Fin Name.shardCount) (within : slot < capacity) :
    Name.Fits (UInt32.ofNat i) (UInt32.ofNat slot) := by
  obtain ⟨shard, word⟩ := toNat_parts i within
  exact ⟨by rw [shard]; exact i.isLt, by rw [word]; exact Nat.le_of_lt_succ within⟩

theorem shard_nameAt (i : Fin Name.shardCount) (within : slot < capacity) :
    (nameAt i slot).shard = i := by
  rw [nameAt, Name.shard_ofParts (fits_parts i within), (toNat_parts i within).1]

theorem slot_nameAt (i : Fin Name.shardCount) (within : slot < capacity) :
    (nameAt i slot).slot = slot := by
  rw [nameAt, Name.slot_ofParts (fits_parts i within), (toNat_parts i within).2]

theorem compare_nameAt (within : slot < capacity) (within' : slot' < capacity) :
    compare (nameAt i slot) (nameAt j slot') =
      (compare i.val j.val).then (compare slot slot') := by
  obtain ⟨shard, word⟩ := toNat_parts i within
  obtain ⟨shard', word'⟩ := toNat_parts j within'
  rw [nameAt, nameAt, Name.compare_ofParts (fits_parts i within) (fits_parts j within'), shard,
    shard', word, word']

end Parts

theorem lookup?_nameIn (held : Holds t texts) (fits : Fits texts) (known : s ∈ texts) :
    t.lookup? (nameIn texts s) = some s := by
  have within : rank texts s < capacity := rank_lt_of_mem fits known
  obtain ⟨place, found, -⟩ := List.idxOf?_eq_some_iff.mp (idxOf?_members known)
  have shard : t.shards[(nameIn texts s).shard]? = some t.shards[shardOf s] := by
    rw [nameIn, shard_nameAt _ within]
    exact Vector.getElem?_eq_getElem (shardOf s).isLt
  rw [lookup?, shard, nameIn, slot_nameAt _ within]
  show t.shards[shardOf s].texts[rank texts s]? = some s
  rw [← Array.getElem?_toList, held.listed, List.getElem?_eq_getElem place, found]

theorem isEmpty_iff (held : Holds t texts) : t.isEmpty = true ↔ texts = [] := by
  rw [isEmpty, beq_iff_eq, held.counted, List.length_eq_zero_iff]
  cases texts with
  | nil => simp
  | cons s texts => simp [List.eraseDups_cons]

/-- In a history that no shard is too small for, each text gets the name made of its shard and of
the number of texts of that shard that came first before it did, whenever it comes; afterwards a
text of the history changes nothing, the count is that of the different texts, and the names are
ordered by shard and then by first coming. -/
theorem names_tell_first_coming (texts : List String) (fits : Fits texts) :
    ∃ t, empty.internAll texts = .ok (texts.map (nameIn texts), t) ∧
      (∀ s ∈ texts, t.intern s = .ok (nameIn texts s, t)) ∧
      (∀ s ∈ texts, (nameIn texts s).shard = shardOf s ∧ (nameIn texts s).slot = rank texts s) ∧
      t.count = texts.eraseDups.length ∧ (t.isEmpty = true ↔ texts = []) ∧
      ∀ s ∈ texts, ∀ s' ∈ texts, compare (nameIn texts s) (nameIn texts s') =
        (compare (shardOf s).val (shardOf s').val).then
          (compare (rank texts s) (rank texts s')) := by
  obtain ⟨t, all, held⟩ := internAll_of_holds holds_empty fits
  have within {s : String} (known : s ∈ texts) : rank texts s < capacity :=
    rank_lt_of_mem fits known
  refine ⟨t, all, fun s known => intern_of_mem held known, fun s known => ?_, held.counted,
    isEmpty_iff held, fun s known s' known' => ?_⟩
  · exact ⟨shard_nameAt _ (within known), slot_nameAt _ (within known)⟩
  · exact compare_nameAt (within known) (within known')

/-- Texts of one shard, as only their first eight bytes choose it, with another shard between. -/
def sharedStarts : List String := ["", "lambda-1b", "a", "lambda-1c", "", "lambda-1b"]

theorem names_tell_first_coming_of_sharedStarts :
    Fits sharedStarts ∧ nameIn sharedStarts "lambda-1c" = nameAt (shardOf "lambda-1b") 1 ∧
    ∃ t, empty.internAll sharedStarts = .ok (sharedStarts.map (nameIn sharedStarts), t) ∧
      t.count = 4 := by
  have fits : Fits sharedStarts := by
    unfold Fits
    decide
  obtain ⟨t, all, -, -, count, -⟩ := names_tell_first_coming sharedStarts fits
  exact ⟨fits, by decide, t, all, count⟩

end SchemeCore.Interner
