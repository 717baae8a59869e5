import SchemeCore.Request
import SchemeCore.Proofs.Equivalence
import SchemeCore.Proofs.Interning
import SchemeCore.Proofs.Written

/-! What names and symbols stand for in a run of requests. At every point the table holds the texts
that names were handed out for so far, each once, and the name of each is the one that their list
gives it. A request adds its text at the end of the list or leaves the table as it is, so names stay
what they are. -/

namespace SchemeCore

namespace Interner

variable {t : Interner} {texts more : List String} {s : String} {name : Name}

theorem lookup?_eq_some_iff (held : Holds t texts) (fits : Fits texts) :
    t.lookup? name = some s ↔ s ∈ texts ∧ name = nameIn texts s := by
  constructor
  · intro found
    have member := List.mem_of_getElem? (lookup?_of_holds held found).2
    have known : s ∈ texts := (mem_members.mp member).1
    exact ⟨known, name_inj held found (lookup?_nameIn held fits known)⟩
  · rintro ⟨known, rfl⟩
    exact lookup?_nameIn held fits known

theorem Fits.of_subset (fits : Fits more) (subset : texts ⊆ more) : Fits texts := by
  intro i
  have distinct : (members texts i).Nodup := (nodup_eraseDups texts).filter _
  have inside : members texts i ⊆ members more i := fun s found => by
    rw [mem_members] at found ⊢
    exact ⟨subset found.1, found.2⟩
  exact Nat.le_trans (distinct.subperm inside).length_le (fits i)

theorem fits_of_intern {p : Name × Interner} (held : Holds t texts) (fits : Fits texts)
    (interned : t.intern s = .ok p) : Fits (texts ++ [s]) := by
  intro i
  by_cases known : s ∈ texts
  · rw [members_concat_of_mem known]
    exact fits i
  · rw [members_concat_of_not_mem known, List.length_append]
    by_cases here : shardOf s = i
    · subst here
      have size : t.shards[shardOf s].texts.size = (members texts (shardOf s)).length := by
        rw [← held.listed, Array.length_toList]
      simp only [intern, unplaced_of_not_mem (i := shardOf s) held known, size] at interned
      rw [if_pos rfl]
      split at interned
      · rename_i free
        exact Nat.succ_le_succ free
      · cases interned
    · rw [if_neg here]
      exact fits i

theorem intern_cases (held : Holds t texts) (fits : Fits texts) (s : String) :
    (∃ t', t.intern s = .ok (nameIn (texts ++ [s]) s, t') ∧ Holds t' (texts ++ [s]) ∧
      Fits (texts ++ [s])) ∨ (∃ o, t.intern s = .error o) ∧ ¬Fits (texts ++ [s]) := by
  cases interned : t.intern s with
  | ok p =>
    have room := fits_of_intern held fits interned
    obtain ⟨t', named, held'⟩ := intern_of_holds held room
    exact .inl ⟨t', interned.symm.trans named, held', room⟩
  | error o =>
    refine .inr ⟨⟨o, rfl⟩, fun room => ?_⟩
    obtain ⟨t', named, -⟩ := intern_of_holds held room
    cases interned.symm.trans named

end Interner

namespace Request

open Interner

variable {requests : List Request} {r : Request} {i j k : Nat} {name name' : Name} {s s' : String}

theorem table_concat (requests : List Request) (r : Request) :
    table (requests ++ [r]) = (r.serve (table requests)).2 := by
  rw [table, List.foldl_append]
  rfl

theorem handsOut_of_getElem? (there : requests[k]? = some r) :
    HandsOut requests k name s ↔ r.text? = some s ∧
      (r.serve (table (requests.take k))).1 = .named name := by
  rw [HandsOut, outcome?, there, Option.map_some, Option.bind_some, Option.some_inj]

theorem HandsOut.getElem? (handed : HandsOut requests k name s) : ∃ r, requests[k]? = some r := by
  obtain ⟨r, there, -⟩ := Option.bind_eq_some_iff.mp handed.1
  exact ⟨r, there⟩

section Serve

variable {t : Interner} {texts : List String}

theorem serve_cases (held : Holds t texts) (fits : Fits texts) (r : Request) :
    (∃ s, r.text? = some s ∧ (r.serve t).1 = .named (nameIn (texts ++ [s]) s) ∧
      Holds (r.serve t).2 (texts ++ [s]) ∧ Fits (texts ++ [s])) ∨
    (∀ name, (r.serve t).1 ≠ .named name) ∧ (r.serve t).2 = t ∧
      ∀ s, r.text? = some s → ¬Fits (texts ++ [s]) := by
  cases r with
  | intern s | tryIntern s =>
    rw [serve]
    rcases intern_cases held fits s with ⟨t', named, held', room⟩ | ⟨⟨o, refused⟩, full⟩
    · rw [named]
      exact .inl ⟨s, rfl, rfl, held', room⟩
    · rw [refused]
      exact .inr ⟨nofun, rfl, fun s' text => Option.some.inj text ▸ full⟩
  | lookup name =>
    rw [serve]
    split
    · exact .inr ⟨nofun, rfl, nofun⟩
    · exact .inr ⟨nofun, rfl, nofun⟩

end Serve

/-- What a table knows at a point of a run: the texts that names were handed out for before. -/
structure Known (requests : List Request) (k : Nat) (texts : List String) : Prop where
  held : Holds (table (requests.take k)) texts
  fits : Fits texts
  mem_iff : ∀ s, s ∈ texts ↔ ∃ i < k, ∃ name, HandsOut requests i name s
  named : ∀ i < k, ∀ name s, HandsOut requests i name s → name = nameIn texts s

theorem known_zero (requests : List Request) : Known requests 0 [] where
  held := holds_empty
  fits i := Nat.zero_le _
  mem_iff s := by simp
  named i lt := absurd lt (Nat.not_lt_zero i)

theorem table_take_succ (there : requests[k]? = some r) :
    table (requests.take (k + 1)) = (r.serve (table (requests.take k))).2 := by
  rw [List.take_add_one, there, Option.toList_some, table_concat]

theorem exists_handsOut_succ : (∃ i < k + 1, ∃ name, HandsOut requests i name s) ↔
    (∃ i < k, ∃ name, HandsOut requests i name s) ∨ ∃ name, HandsOut requests k name s := by
  constructor
  · rintro ⟨i, lt, handed⟩
    rcases Nat.lt_succ_iff_lt_or_eq.mp lt with before | rfl
    · exact .inl ⟨i, before, handed⟩
    · exact .inr handed
  · rintro (⟨i, before, handed⟩ | handed)
    · exact ⟨i, Nat.lt_succ_of_lt before, handed⟩
    · exact ⟨k, Nat.lt_succ_self k, handed⟩

theorem Known.next {texts : List String} (known : Known requests k texts)
    (there : requests[k]? = some r) : ∃ texts', Known requests (k + 1) texts' := by
  rcases serve_cases known.held known.fits r with
    ⟨s, text, answered, held, fits⟩ | ⟨unnamed, kept, -⟩
  · have now {name : Name} {s' : String} : HandsOut requests k name s' ↔
        s' = s ∧ name = nameIn (texts ++ [s]) s := by
      rw [handsOut_of_getElem? there, text, answered, Option.some_inj, Outcome.named.injEq,
        eq_comm, @eq_comm _ name]
    refine ⟨texts ++ [s], table_take_succ there ▸ held, fits, fun s' => ?_, ?_⟩
    · rw [exists_handsOut_succ, ← known.mem_iff, List.mem_append, List.mem_singleton]
      simp only [now, exists_and_left, exists_eq, and_true]
    · intro i lt name s' handed
      rcases Nat.lt_succ_iff_lt_or_eq.mp lt with before | rfl
      · have old : s' ∈ texts := (known.mem_iff s').mpr ⟨i, before, name, handed⟩
        rw [nameIn_append_of_mem old]
        exact known.named i before name s' handed
      · obtain ⟨rfl, name⟩ := now.mp handed
        exact name
  · have never {name : Name} {s' : String} : ¬HandsOut requests k name s' := fun handed =>
      unnamed name ((handsOut_of_getElem? there).mp handed).2
    refine ⟨texts, ?_, known.fits, fun s' => ?_, ?_⟩
    · rw [table_take_succ there, kept]
      exact known.held
    · rw [exists_handsOut_succ, ← known.mem_iff]
      simp only [never, exists_false, or_false]
    · intro i lt name s' handed
      rcases Nat.lt_succ_iff_lt_or_eq.mp lt with before | rfl
      · exact known.named i before name s' handed
      · exact absurd handed never

theorem exists_known (requests : List Request) {k : Nat} (le : k ≤ requests.length) :
    ∃ texts, Known requests k texts := by
  induction k with
  | zero => exact ⟨[], known_zero requests⟩
  | succ k ih =>
    obtain ⟨texts, known⟩ := ih (Nat.le_of_lt le)
    exact known.next (List.getElem?_eq_getElem le)

theorem lookup?_table (le : k ≤ requests.length) :
    (table (requests.take k)).lookup? name = some s ↔ ∃ i < k, HandsOut requests i name s := by
  obtain ⟨texts, known⟩ := exists_known requests le
  rw [lookup?_eq_some_iff known.held known.fits, known.mem_iff]
  constructor
  · rintro ⟨⟨i, lt, name', handed⟩, rfl⟩
    rw [← known.named i lt name' s handed]
    exact ⟨i, lt, handed⟩
  · rintro ⟨i, lt, handed⟩
    exact ⟨⟨i, lt, name, handed⟩, known.named i lt name s handed⟩

theorem HandsOut.lt_length (handed : HandsOut requests k name s) : k < requests.length := by
  obtain ⟨r, there⟩ := handed.getElem?
  exact (List.getElem?_eq_some_iff.mp there).1

theorem HandsOut.name_eq_iff (handed : HandsOut requests i name s)
    (handed' : HandsOut requests j name' s') : name = name' ↔ s = s' := by
  obtain ⟨texts, known⟩ := exists_known requests (Nat.le_refl requests.length)
  have named := known.named i handed.lt_length name s handed
  have named' := known.named j handed'.lt_length name' s' handed'
  constructor
  · rintro rfl
    have found := (lookup?_table (Nat.le_refl _)).mpr ⟨i, handed.lt_length, handed⟩
    have found' := (lookup?_table (Nat.le_refl _)).mpr ⟨j, handed'.lt_length, handed'⟩
    exact Option.some.inj (found.symm.trans found')
  · rintro rfl
    exact named.trans named'.symm

theorem exists_handsOut (fits : Fits (requests.filterMap text?))
    (text : requests[k]?.bind text? = some s) : ∃ name, HandsOut requests k name s := by
  obtain ⟨r, there, here⟩ := Option.bind_eq_some_iff.mp text
  have lt : k < requests.length := (List.getElem?_eq_some_iff.mp there).1
  have requested {i : Nat} {s : String} (text : requests[i]?.bind text? = some s) :
      s ∈ requests.filterMap text? := by
    obtain ⟨r, there, here⟩ := Option.bind_eq_some_iff.mp text
    exact List.mem_filterMap.mpr ⟨r, List.mem_of_getElem? there, here⟩
  obtain ⟨texts, known⟩ := exists_known requests (Nat.le_of_lt lt)
  have subset : texts ++ [s] ⊆ requests.filterMap text? := by
    intro s' mem
    rcases List.mem_append.mp mem with before | now
    · obtain ⟨i, -, name, handed⟩ := (known.mem_iff s').mp before
      exact requested handed.1
    · exact List.mem_singleton.mp now ▸ requested text
  rcases serve_cases known.held known.fits r with ⟨s', text', answered, -⟩ | ⟨-, -, full⟩
  · cases here.symm.trans text'
    exact ⟨_, (handsOut_of_getElem? there).mpr ⟨here, answered⟩⟩
  · exact absurd (fits.of_subset subset) (full s here)

structure Resolves (requests : List Request) : Prop where
  handed : Fits (requests.filterMap text?) → ∀ k s, requests[k]?.bind text? = some s →
    ∃ name, HandsOut requests k name s
  found : ∀ k name, requests[k]? = some (.lookup name) → ∀ i < k, ∀ s,
    HandsOut requests i name s → outcome? requests k = some (.found s)
  lost : ∀ k name, requests[k]? = some (.lookup name) →
    (∀ i < k, ∀ s, ¬HandsOut requests i name s) → outcome? requests k = some .panics
  names : ∀ i j name name' s s', HandsOut requests i name s → HandsOut requests j name' s' →
    (name = name' ↔ s = s')

theorem outcome?_lookup (there : requests[k]? = some (.lookup name)) : outcome? requests k =
    some (match (table (requests.take k)).lookup? name with
      | some s => .found s
      | none => .panics) := by
  rw [outcome?, there, Option.map_some, serve]
  cases (table (requests.take k)).lookup? name <;> rfl

theorem resolves (requests : List Request) : Resolves requests where
  handed fits k s text := exists_handsOut fits text
  found k name there i lt s handed := by
    have le : k ≤ requests.length := Nat.le_of_lt (List.getElem?_eq_some_iff.mp there).1
    rw [outcome?_lookup there, (lookup?_table le).mpr ⟨i, lt, handed⟩]
  lost k name there never := by
    have le : k ≤ requests.length := Nat.le_of_lt (List.getElem?_eq_some_iff.mp there).1
    have missing : (table (requests.take k)).lookup? name = none :=
      Option.eq_none_iff_forall_ne_some.mpr fun s found => by
        obtain ⟨i, lt, handed⟩ := (lookup?_table le).mp found
        exact never i lt s handed
    rw [outcome?_lookup there, missing]
  names i j name name' s s' handed handed' := handed.name_eq_iff handed'

end Request

namespace Symbol.Call

def request (c : Call) : Request :=
  match c.entry with
  | .tryIntern => .tryIntern c.text
  | _ => .intern c.text

variable {calls : List Call} {k : Nat} {s : Symbol} {text : String}

theorem request_text? (c : Call) : c.request.text? = some c.text := by
  obtain ⟨entry, text⟩ := c
  cases entry <;> rfl

theorem enter_eq (t : Interner) (c : Call) : (c.enter t).2 = (c.request.serve t).2 ∧
    ∀ s, (c.enter t).1 = c.entry.gives s ↔ (c.request.serve t).1 = .named s.name := by
  obtain ⟨entry, text⟩ := c
  cases interned : t.intern text with
  | ok p =>
    obtain ⟨name, t'⟩ := p
    have one (s : Symbol) : (⟨name⟩ : Symbol) = s ↔ name = s.name := by cases s; simp
    cases entry <;>
      simp [enter, Symbol.intern, request, Request.serve, interned, Entry.gives, one]
  | error o =>
    cases entry <;>
      simp [enter, Symbol.intern, request, Request.serve, interned, Entry.gives, Entry.fails]

theorem table_eq (calls : List Call) : table calls = Request.table (calls.map request) := by
  have steps : (fun (t : Interner) (c : Call) => (c.enter t).2) =
      fun t c => (c.request.serve t).2 := by
    funext t c
    exact (enter_eq t c).1
  rw [table, Request.table, List.foldl_map, steps]

theorem gives_iff :
    Gives calls k s text ↔ Request.HandsOut (calls.map request) k s.name text := by
  rw [Gives, Request.HandsOut, Request.outcome?, List.getElem?_map, ← List.map_take, ← table_eq]
  cases calls[k]? with
  | none => simp
  | some c => simp [request_text?, (enter_eq _ c).2, eq_comm]

structure Stands (calls : List Call) : Prop where
  given : Interner.Fits (calls.map Call.text) → ∀ k c, calls[k]? = some c →
    ∃ s, Gives calls k s c.text
  symbols : ∀ i j s s' text text', Gives calls i s text → Gives calls j s' text' →
    (s = s' ↔ text = text') ∧ (Object.same (.symbol s) (.symbol s') = true ↔ text = text') ∧
    ∀ h : Heap, h.equal? (.symbol s) (.symbol s') = some (decide (text = text'))
  written : ∀ k ≤ calls.length, ∀ i < k, ∀ s text, Gives calls i s text →
    ∀ h : Heap, h.written? (table (calls.take k)) (.symbol s) = some text
  counted : ∀ k ≤ calls.length, ∃ texts : List String, texts.Nodup ∧
    (∀ text, text ∈ texts ↔ ∃ i < k, ∃ s, Gives calls i s text) ∧
    (table (calls.take k)).count = texts.length

theorem written?_symbol {t : Interner} (found : t.lookup? s.name = some text) (h : Heap) :
    h.written? t (.symbol s) = some text := by
  rw [Heap.written?_of_unfolds (.leaf rfl), Datum.text]
  simp [Object.atom?, Symbol.text, Symbol.text?, found]

theorem same_symbol (s s' : Symbol) :
    Object.same (.symbol s) (.symbol s') = decide (s = s') := by
  show (Object.symbol s == .symbol s') = _
  rw [beq_eq_decide]
  simp only [Object.symbol.injEq]

theorem stands (calls : List Call) : Stands calls where
  given fits k c there := by
    have texts : (calls.map request).filterMap Request.text? = calls.map Call.text := by
      rw [List.filterMap_map, ← List.filterMap_eq_map]
      congr 1
      funext c
      exact c.request_text?
    have here : (calls.map request)[k]?.bind Request.text? = some c.text := by
      rw [List.getElem?_map, there]
      exact c.request_text?
    obtain ⟨name, handed⟩ := Request.exists_handsOut (texts ▸ fits) here
    exact ⟨⟨name⟩, gives_iff.mpr handed⟩
  symbols i j s s' text text' gives gives' := by
    have names := (gives_iff.mp gives).name_eq_iff (gives_iff.mp gives')
    have symbols : s = s' ↔ text = text' := by
      rw [← names]
      cases s
      cases s'
      simp
    refine ⟨symbols, ?_, fun h => ?_⟩
    · rw [same_symbol, decide_eq_true_iff, symbols]
    · rw [Heap.equal?_of_scalar (.inl rfl), same_symbol]
      simp only [symbols]
  written k le i lt s text gives := by
    have le' : k ≤ (calls.map request).length := by rwa [List.length_map]
    have found := (Request.lookup?_table le').mpr ⟨i, lt, gives_iff.mp gives⟩
    rw [← List.map_take, ← table_eq] at found
    exact written?_symbol found
  counted k le := by
    have le' : k ≤ (calls.map request).length := by rwa [List.length_map]
    obtain ⟨texts, known⟩ := Request.exists_known (calls.map request) le'
    refine ⟨texts.eraseDups, Interner.nodup_eraseDups texts, fun text => ?_, ?_⟩
    · rw [List.mem_eraseDups, known.mem_iff]
      simp only [gives_iff]
      exact ⟨fun ⟨i, lt, name, handed⟩ => ⟨i, lt, ⟨name⟩, handed⟩,
        fun ⟨i, lt, s, handed⟩ => ⟨i, lt, s.name, handed⟩⟩
    · have count := known.held.counted
      rwa [← List.map_take, ← table_eq] at count

end Symbol.Call

/-- In every run of requests a name is found from the point on where it was handed out, always with
the text it was handed out for, and no other name is; names and symbols are equal exactly when the
texts are; symbols are written as their texts, and the table counts them. -/
theorem names_stand_for_texts (requests : List Request) (calls : List Symbol.Call) :
    Request.Resolves requests ∧ Symbol.Call.Stands calls :=
  ⟨Request.resolves requests, Symbol.Call.stands calls⟩

end SchemeCore
