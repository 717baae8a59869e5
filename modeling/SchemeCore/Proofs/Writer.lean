import SchemeCore.Session.Script

/-! What a writer does with texts. However few bytes it takes in one call and however many calls
are interrupted, it takes of each text as much as it has room for, and it flushes once for each
text that it took whole. A text that it has no room for and a flush that fails are the only
failures. -/

namespace SchemeCore.Session.Writer

variable {w v : Writer} {bytes : List UInt8} {text : String} {texts : List String}

def taking (w : Writer) (bytes : List UInt8) (interruptNext : Bool) : Writer :=
  { w with
    room := w.room.map (· - bytes.length), interruptNext, accepted := w.accepted ++ bytes }

theorem taking_nil (i : Bool) : w.taking [] i = { w with interruptNext := i } := by
  simp [taking]

theorem taking_taking (front back : List UInt8) (i j : Bool) :
    (w.taking front i).taking back j = w.taking (front ++ back) j := by
  have room (r : Nat) : r - front.length - back.length = r - (front ++ back).length := by
    rw [List.length_append, Nat.sub_sub]
  have accepted : w.accepted ++ front ++ back = w.accepted ++ (front ++ back) :=
    Array.ext' (by simp)
  simp only [taking, Option.map_map, Function.comp_def, room, accepted]

def space (w : Writer) (bytes : List UInt8) : Nat := min bytes.length (w.room.getD bytes.length)

theorem space_of_full (full : w.room = some 0) (bytes : List UInt8) : w.space bytes = 0 := by
  simp [space, full]

theorem space_append (front back : List UInt8) (i : Bool)
    (within : ∀ room ∈ w.room, front.length ≤ room) :
    w.space (front ++ back) = front.length + (w.taking front i).space back := by
  cases found : w.room with
  | none => simp [space, taking, found]
  | some room =>
    have enough : front.length ≤ room := within room found
    simp only [space, taking, found, Option.map_some, Option.getD_some, List.length_append]
    omega

def refusal (w : Writer) : Acceptance :=
  match w.shortage with
  | .fails cause => .failed cause
  | .takesNothing => .took 0

theorem portion_of_patient (patient : w.chunk ≠ some 0) (roomy : w.room ≠ some 0) (b : UInt8)
    (bs : List UInt8) :
    ∃ n ≤ bs.length, w.portion (b :: bs) = n + 1 ∧ ∀ room ∈ w.room, n + 1 ≤ room := by
  have chunk : 0 < w.chunk.getD (b :: bs).length := by
    cases chunk : w.chunk with
    | none => exact Nat.succ_pos _
    | some c => exact Nat.pos_of_ne_zero fun zero => patient (zero ▸ chunk)
  have room : 0 < w.room.getD (b :: bs).length := by
    cases room : w.room with
    | none => exact Nat.succ_pos _
    | some r => exact Nat.pos_of_ne_zero fun zero => roomy (zero ▸ room)
  have portion : w.portion (b :: bs) =
      min (bs.length + 1) (min (w.chunk.getD (bs.length + 1)) (w.room.getD (bs.length + 1))) := rfl
  rw [List.length_cons] at chunk room
  refine ⟨w.portion (b :: bs) - 1, by omega, by omega, fun r found => ?_⟩
  have here : w.room.getD (bs.length + 1) = r := by rw [Option.mem_def.mp found, Option.getD_some]
  omega

theorem write_of_patient (patient : w.chunk ≠ some 0) (b : UInt8) (bs : List UInt8) :
    w.write (b :: bs) = (.interrupted, w.taking [] false) ∨
    w.room = some 0 ∧ w.write (b :: bs) = (w.refusal, w.taking [] true) ∨
    ∃ n ≤ bs.length, (∀ room ∈ w.room, n + 1 ≤ room) ∧
      w.write (b :: bs) = (.took (n + 1), w.taking (b :: bs.take n) true) := by
  unfold write
  split
  · exact .inl (by rw [taking_nil])
  · by_cases full : w.room = some 0
    · refine .inr (.inl ⟨full, ?_⟩)
      cases short : w.shortage <;> simp [full, short, refusal, taking, portion]
    · obtain ⟨n, within, portion, enough⟩ := portion_of_patient patient full b bs
      refine .inr (.inr ⟨n, within, enough, ?_⟩)
      have length : (b :: bs.take n).length = n + 1 := by simp [within]
      simp only
      split
      · rename_i empty _
        exact absurd empty full
      · have portion : ({ w with interruptNext := true } : Writer).portion (b :: bs) = n + 1 :=
          portion
        simp only [portion, taking, length, List.take_succ_cons]

def verdict (w : Writer) (bytes : List UInt8) : Except String Unit :=
  if w.space bytes = bytes.length then .ok () else .error w.shortage.cause

def WritesAll (w : Writer) (bytes : List UInt8) (answer : Except String Unit × Writer) : Prop :=
  ∃ i, answer = (w.verdict bytes, w.taking (bytes.take (w.space bytes)) i)

theorem writesAll_nil (w : Writer) : w.WritesAll [] (.ok (), w) :=
  ⟨w.interruptNext, by simp [verdict, space, taking_nil]⟩

theorem writesAll_of_full (full : w.room = some 0) (b : UInt8) (bs : List UInt8) :
    w.WritesAll (b :: bs) (.error w.shortage.cause, w.taking [] true) := by
  have nothing : w.space (b :: bs) = 0 := space_of_full full _
  exact ⟨true, by simp [verdict, nothing]⟩

theorem writesAll_append {front back : List UInt8} {i : Bool} {answer : Except String Unit × Writer}
    (within : ∀ room ∈ w.room, front.length ≤ room)
    (rest : (w.taking front i).WritesAll back answer) : w.WritesAll (front ++ back) answer := by
  obtain ⟨j, rfl⟩ := rest
  have space := space_append front back i within
  refine ⟨j, Prod.ext ?_ ?_⟩
  · simp only [verdict, space, List.length_append, Nat.add_left_cancel_iff]
    rfl
  · rw [taking_taking, space, List.take_length_add_append]

theorem writeAll_cons (w : Writer) (b : UInt8) (bs : List UInt8) :
    w.writeAll (b :: bs) =
      match w.write (b :: bs) with
      | (.interrupted, w) => w.writeAll (b :: bs)
      | (.failed cause, w) => (.error cause, w)
      | (.took 0, w) => (.error "failed to write whole buffer", w)
      | (.took (n + 1), w) => w.writeAll (bs.drop n) := by
  rw [writeAll]
  split <;> rename_i called <;> rw [called]

/-- By induction on the calls still to be made: what is left to write shrinks, and an interrupted
call is not interrupted again. -/
theorem writeAll_of_patient (patient : w.chunk ≠ some 0) (bytes : List UInt8) :
    w.WritesAll bytes (w.writeAll bytes) := by
  induction left : 2 * bytes.length + w.interruptNext.toNat using Nat.strongRecOn
    generalizing w bytes with
  | ind left ih =>
    cases bytes with
    | nil =>
      rw [writeAll]
      exact w.writesAll_nil
    | cons b bs =>
      rw [writeAll_cons]
      rcases write_of_patient patient b bs with again | ⟨full, refused⟩ | ⟨n, le, within, took⟩
      · have fewer := interruptNext_of_interrupted again
        have rest : (w.taking [] false).WritesAll (b :: bs)
            ((w.taking [] false).writeAll (b :: bs)) := by
          refine ih _ ?_ (w := w.taking [] false) patient (b :: bs) rfl
          rw [← left, fewer.1, fewer.2]
          exact Nat.add_lt_add_left Nat.zero_lt_one _
        rw [again]
        exact writesAll_append (fun _ _ => Nat.zero_le _) rest
      · have nothing := writesAll_of_full full b bs
        rw [refused, refusal]
        cases short : w.shortage <;> rwa [short] at nothing
      · have whole : b :: bs.take n ++ bs.drop n = b :: bs := by
          rw [List.cons_append, List.take_append_drop]
        have size : (b :: bs.take n).length = n + 1 := by simp [le]
        have rest : (w.taking (b :: bs.take n) true).WritesAll (bs.drop n)
            ((w.taking (b :: bs.take n) true).writeAll (bs.drop n)) := by
          refine ih _ ?_ (w := w.taking (b :: bs.take n) true) patient (bs.drop n) rfl
          have bit : (w.taking (b :: bs.take n) true).interruptNext.toNat = 1 := rfl
          rw [← left, bit, List.length_drop, List.length_cons]
          omega
        rw [took]
        exact whole ▸ writesAll_append (fun room found => size ▸ within room found) rest

/-! Texts one after another. -/

structure Sent (w : Writer) (texts : List String) (v : Writer) : Prop where
  accepted : v.accepted.toList = w.accepted.toList ++ texts.flatMap Utf8.encode
  flushes : v.flushes = w.flushes + texts.length
  room : v.room = w.room.map (· - (texts.flatMap Utf8.encode).length)
  chunk : v.chunk = w.chunk
  shortage : v.shortage = w.shortage
  flushFailure : v.flushFailure = w.flushFailure

theorem Sent.nil (w : Writer) : w.Sent [] w := by
  refine ⟨by simp, rfl, ?_, rfl, rfl, rfl⟩
  cases w.room <;> rfl

theorem Sent.append {u : Writer} {more : List String} (front : w.Sent texts u)
    (back : u.Sent more v) : w.Sent (texts ++ more) v where
  accepted := by rw [back.accepted, front.accepted, List.flatMap_append, List.append_assoc]
  flushes := by rw [back.flushes, front.flushes, List.length_append, Nat.add_assoc]
  room := by
    rw [back.room, front.room, Option.map_map, List.flatMap_append, List.length_append]
    congr 1
    funext room
    exact Nat.sub_sub ..
  chunk := back.chunk.trans front.chunk
  shortage := back.shortage.trans front.shortage
  flushFailure := back.flushFailure.trans front.flushFailure

structure Takes (w : Writer) (texts : List String) : Prop where
  room : ∀ room ∈ w.room, (texts.flatMap Utf8.encode).length ≤ room
  flush : ∀ n < texts.length, ¬w.FlushFails (n + 1)

theorem verdict_eq_ok (within : ∀ room ∈ w.room, bytes.length ≤ room) :
    w.verdict bytes = .ok () ∧ bytes.take (w.space bytes) = bytes := by
  have all : w.space bytes = bytes.length := by
    cases found : w.room with
    | none => simp [space, found]
    | some room => simp [space, found, within room found]
  rw [verdict, if_pos all, all, List.take_length]
  exact ⟨rfl, rfl⟩

theorem flush_of_not_flushFails (goesOn : ¬w.FlushFails 1) :
    w.flush = (.ok (), { w with flushes := w.flushes + 1 }) := by
  cases failing : w.flushFailure with
  | none => simp [flush, failing]
  | some fault =>
    obtain ⟨n, cause⟩ := fault
    have other : w.flushes + 1 ≠ n := fun same => goesOn ⟨cause, same ▸ failing⟩
    simp [flush, failing, other]

theorem flush_of_flushFails {cause : String}
    (fails : w.flushFailure = some (w.flushes + 1, cause)) :
    w.flush = (.error cause, { w with flushes := w.flushes + 1 }) := by simp [flush, fails]

theorem send_of_room (patient : w.chunk ≠ some 0) (within : ∀ room ∈ w.room, bytes.length ≤ room) :
    ∃ i, Sink.send w bytes = (w.taking bytes i).flush := by
  obtain ⟨i, written⟩ := writeAll_of_patient patient bytes
  obtain ⟨ok, all⟩ := verdict_eq_ok within
  rw [ok, all] at written
  exact ⟨i, by simp only [Sink.send, written]⟩

theorem send_of_takes (patient : w.chunk ≠ some 0) (takes : w.Takes [text]) :
    ∃ v, Sink.send w (Utf8.encode text) = (.ok (), v) ∧ w.Sent [text] v := by
  have encoded : [text].flatMap Utf8.encode = Utf8.encode text := List.flatMap_singleton ..
  obtain ⟨i, sent⟩ := send_of_room patient (encoded ▸ takes.room)
  have flushed := flush_of_not_flushFails (w := w.taking (Utf8.encode text) i)
    (takes.flush 0 Nat.zero_lt_one)
  refine ⟨_, sent.trans flushed, ?_, rfl, ?_, rfl, rfl, rfl⟩
  · simp [taking]
  · rw [encoded]
    rfl

theorem send_of_flushFails {cause : String} (patient : w.chunk ≠ some 0)
    (within : ∀ room ∈ w.room, bytes.length ≤ room)
    (fails : w.flushFailure = some (w.flushes + 1, cause)) :
    ∃ v, Sink.send w bytes = (.error cause, v) ∧
      v.accepted.toList = w.accepted.toList ++ bytes ∧ v.flushes = w.flushes + 1 := by
  obtain ⟨i, sent⟩ := send_of_room patient within
  have flushed := flush_of_flushFails (w := w.taking bytes i) fails
  exact ⟨_, sent.trans flushed, by simp [taking], rfl⟩

theorem send_of_overrun {room : Nat} (patient : w.chunk ≠ some 0) (found : w.room = some room)
    (overrun : room < bytes.length) :
    ∃ v, Sink.send w bytes = (.error w.shortage.cause, v) ∧
      v.accepted.toList = w.accepted.toList ++ bytes.take room ∧ v.flushes = w.flushes := by
  obtain ⟨i, written⟩ := writeAll_of_patient patient bytes
  have space : w.space bytes = room := by
    simp [space, found, Nat.min_eq_right (Nat.le_of_lt overrun)]
  rw [verdict, space, if_neg (Nat.ne_of_lt overrun)] at written
  exact ⟨w.taking (bytes.take room) i, by simp only [Sink.send, written], by simp [taking], rfl⟩

structure AcceptsAll (w : Writer) : Prop where
  roomy : w.room = none
  patient : w.chunk ≠ some 0
  flushing : w.flushFailure = none

structure Took (w : Writer) (texts : List String) (v : Writer) : Prop where
  accepted : v.accepted.toList = w.accepted.toList ++ texts.flatMap Utf8.encode
  flushes : v.flushes = w.flushes + texts.length
  acceptsAll : v.AcceptsAll

theorem AcceptsAll.took_nil (accepts : w.AcceptsAll) : w.Took [] w := ⟨by simp, rfl, accepts⟩

theorem Took.append {u v : Writer} {texts more : List String} (front : w.Took texts u)
    (back : u.Took more v) : w.Took (texts ++ more) v where
  accepted := by
    rw [back.accepted, front.accepted, List.flatMap_append, List.append_assoc]
  flushes := by rw [back.flushes, front.flushes, List.length_append, Nat.add_assoc]
  acceptsAll := back.acceptsAll

theorem AcceptsAll.takes (accepts : w.AcceptsAll) (texts : List String) : w.Takes texts := by
  refine ⟨fun room found => ?_, fun n _ ⟨cause, fails⟩ => ?_⟩
  · rw [accepts.roomy] at found
    cases found
  · rw [accepts.flushing] at fails
    cases fails

theorem Sent.took (sent : w.Sent texts v) (accepts : w.AcceptsAll) : w.Took texts v where
  accepted := sent.accepted
  flushes := sent.flushes
  acceptsAll :=
    { roomy := by rw [sent.room, accepts.roomy, Option.map_none]
      patient := sent.chunk ▸ accepts.patient
      flushing := sent.flushFailure.trans accepts.flushing }

theorem play_of_acceptsAll (accepts : w.AcceptsAll) (texts : List String) :
    ∃ v, play w texts = (.ok (), v) ∧ w.Took texts v := by
  induction texts generalizing w with
  | nil => exact ⟨w, rfl, accepts.took_nil⟩
  | cons text texts ih =>
    obtain ⟨u, sent, taken⟩ := send_of_takes accepts.patient (accepts.takes [text])
    have first := taken.took accepts
    obtain ⟨v, played, more⟩ := ih first.acceptsAll
    exact ⟨v, by rw [play, sent]; exact played, first.append more⟩

end SchemeCore.Session.Writer
