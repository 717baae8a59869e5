import SchemeCore.Proofs.Chunking
import SchemeCore.Proofs.Fault
import SchemeCore.Session.Pipe

/-! Ports with buffers. A source that is read through a buffer offers the marks it had. A pipe is
flushed after each text, so that its buffer is empty between two of them and it does with a text
what its device does: a session on a pipe goes as on the device itself. -/

namespace SchemeCore.Session

namespace Source

theorem flatten_portions (capacity : Nat) (bytes : List UInt8) :
    (portions capacity bytes).flatten = bytes := by
  induction bytes using portions.induct capacity with
  | case1 => rw [portions, List.flatten_nil]
  | case2 b bytes ih =>
    rw [portions, List.flatten_cons, ih, List.cons_append, List.take_append_drop]

theorem marks_portions (capacity : Nat) (bytes : List UInt8) :
    marks ((portions capacity bytes).map .data) = bytes.map .byte := by
  have pieces : marks ((portions capacity bytes).map .data) =
      ((portions capacity bytes).map (List.map Mark.byte)).flatten := by
    rw [marks, List.flatMap_map]
    rfl
  rw [pieces, ← List.map_flatten, flatten_portions]

theorem marks_buffered (capacity : Nat) (source : Source) :
    (source.buffered capacity).marks = source.marks := by
  induction source with
  | nil => rfl
  | cons event source ih =>
    cases event with
    | data bytes =>
      rw [marks_data, ← ih, ← marks_portions capacity]
      exact List.flatMap_append
    | interrupted => exact ih
    | endMark => exact congrArg (Mark.endMark :: ·) ih
    | fail cause => exact congrArg (Mark.fail cause :: ·) ih

theorem stream_buffered (capacity : Nat) (source : Source) :
    (source.buffered capacity).stream = source.stream :=
  stream_of_marks (marks_buffered capacity source)

end Source

namespace Pipe

def unbuffered (full : Option String) : Writer :=
  match full with
  | none => .unlimited
  | some cause => { Writer.unlimited with room := some 0, shortage := .fails cause }

variable {p : Pipe} {w : Writer} {cause : String}

theorem deliver_of_open (isOpen : p.full = none) (bytes : Array UInt8) :
    p.deliver bytes = (.ok (), { p with delivered := p.delivered ++ bytes }) := by
  rw [deliver]
  split
  · rename_i empty
    rw [Array.isEmpty_iff.mp empty, Array.append_empty]
  · rw [isOpen]

theorem flush_of_clean (clean : p.buffered = #[]) : p.flush = (.ok (), p) := by
  obtain ⟨full, buffered, delivered⟩ := p
  subst clean
  rfl

theorem deliver_of_full (full : p.full = some cause) {bytes : Array UInt8}
    (filled : bytes ≠ #[]) : p.deliver bytes = (.error cause, p) := by
  rw [deliver, if_neg (mt Array.isEmpty_iff.mp filled), full]

theorem flush_of_open (isOpen : p.full = none) :
    p.flush = (.ok (), { p with buffered := #[], delivered := p.delivered ++ p.buffered }) := by
  rw [flush, deliver_of_open isOpen]

theorem flush_of_full (full : p.full = some cause) (filled : p.buffered ≠ #[]) :
    p.flush = (.error cause, p) := by rw [flush, deliver_of_full full filled]

theorem write_of_clean (clean : p.buffered = #[]) (bytes : List UInt8) :
    p.write bytes = (.ok (), { p with buffered := bytes.toArray }) ∨
      p.write bytes = p.deliver bytes.toArray := by
  unfold write
  split
  · exact .inl (by simp [clean])
  · rename_i large
    have large : ¬bytes.length < capacity := by
      rw [clean, Array.size_empty] at large
      omega
    rw [flush_of_clean clean]
    exact .inr (if_neg large)

theorem send_of_write {bytes : List UInt8} {q : Pipe} (written : p.write bytes = (.ok (), q)) :
    Sink.send p bytes = q.flush := by simp only [Sink.send, written]

theorem send_of_open (isOpen : p.full = none) (clean : p.buffered = #[]) (bytes : List UInt8) :
    ∃ q, Sink.send p bytes = (.ok (), q) ∧ q.full = none ∧ q.buffered = #[] ∧
      q.delivered.toList = p.delivered.toList ++ bytes := by
  rcases write_of_clean clean bytes with fits | large
  · have sent := (send_of_write fits).trans (flush_of_open isOpen)
    exact ⟨_, sent, isOpen, rfl, by simp⟩
  · rw [deliver_of_open isOpen] at large
    rw [send_of_write large]
    exact ⟨_, flush_of_clean clean, isOpen, clean, by simp⟩

theorem send_of_full (full : p.full = some cause) (clean : p.buffered = #[]) {bytes : List UInt8}
    (filled : bytes ≠ []) :
    ∃ q, Sink.send p bytes = (.error cause, q) ∧ q.delivered = p.delivered := by
  have filled : bytes.toArray ≠ #[] := by simpa using filled
  rcases write_of_clean clean bytes with fits | large
  · have sent := (send_of_write fits).trans (flush_of_full full filled)
    exact ⟨_, sent, rfl⟩
  · rw [deliver_of_full full filled] at large
    exact ⟨p, by simp only [Sink.send, large], rfl⟩

theorem send_nil (clean : p.buffered = #[]) : Sink.send p [] = (.ok (), p) := by
  obtain ⟨full, buffered, delivered⟩ := p
  subst clean
  rfl

/-- A pipe and a writer that have passed on the same bytes to devices of one kind. -/
structure Mirrors (p : Pipe) (w : Writer) : Prop where
  clean : p.buffered = #[]
  passed : p.delivered.toList = w.accepted.toList
  room : w.room = p.full.map fun _ => 0
  shortage : ∀ cause ∈ p.full, w.shortage = .fails cause
  patient : w.chunk ≠ some 0
  flushing : w.flushFailure = none

theorem mirrors_start (full : Option String) : (start full).Mirrors (unbuffered full) := by
  cases full with
  | none => exact ⟨rfl, rfl, rfl, nofun, nofun, rfl⟩
  | some cause =>
    refine ⟨rfl, rfl, rfl, fun cause' same => ?_, nofun, rfl⟩
    cases same
    rfl

inductive SameAnswers : Except String Unit × Pipe → Except String Unit × Writer → Prop
  | ok {p : Pipe} {w : Writer} (mirrors : p.Mirrors w) : SameAnswers (.ok (), p) (.ok (), w)
  | failed {p : Pipe} {w : Writer} (cause : String)
      (passed : p.delivered.toList = w.accepted.toList) :
      SameAnswers (.error cause, p) (.error cause, w)

namespace Mirrors

theorem sent (mirrors : p.Mirrors w) {q : Pipe} {v : Writer} {text : String}
    (taken : w.Sent [text] v) (full : q.full = p.full) (clean : q.buffered = #[])
    (delivered : q.delivered.toList = p.delivered.toList ++ Utf8.encode text) : q.Mirrors v where
  clean := clean
  passed := by rw [delivered, taken.accepted, mirrors.passed, List.flatMap_singleton]
  room := by
    rw [taken.room, mirrors.room, full, Option.map_map]
    congr 1
    funext cause
    exact Nat.zero_sub _
  shortage cause refuses := taken.shortage.trans (mirrors.shortage cause (full ▸ refuses))
  patient := taken.chunk ▸ mirrors.patient
  flushing := taken.flushFailure.trans mirrors.flushing

theorem takes (mirrors : p.Mirrors w) {text : String}
    (light : p.full = none ∨ Utf8.encode text = []) : w.Takes [text] := by
  refine ⟨fun room found => ?_, fun n _ ⟨cause, fails⟩ => ?_⟩
  · rw [List.flatMap_singleton]
    rcases light with isOpen | empty
    · rw [mirrors.room, isOpen] at found
      cases found
    · rw [empty]
      exact Nat.zero_le room
  · rw [mirrors.flushing] at fails
    cases fails

theorem send (mirrors : p.Mirrors w) (text : String) :
    SameAnswers (Sink.send p (Utf8.encode text)) (Sink.send w (Utf8.encode text)) := by
  cases full : p.full with
  | none =>
    obtain ⟨q, handed, isOpen, clean, delivered⟩ :=
      send_of_open full mirrors.clean (Utf8.encode text)
    obtain ⟨v, accepted, taken⟩ := Writer.send_of_takes mirrors.patient (mirrors.takes (.inl full))
    rw [handed, accepted]
    exact .ok (mirrors.sent taken (isOpen.trans full.symm) clean delivered)
  | some cause =>
    by_cases empty : Utf8.encode text = []
    · obtain ⟨v, accepted, taken⟩ :=
        Writer.send_of_takes mirrors.patient (mirrors.takes (.inr empty))
      rw [accepted, empty, send_nil mirrors.clean]
      exact .ok (mirrors.sent taken rfl mirrors.clean (by rw [empty, List.append_nil]))
    · obtain ⟨q, handed, delivered⟩ := send_of_full full mirrors.clean empty
      have noRoom : w.room = some 0 := by rw [mirrors.room, full, Option.map_some]
      obtain ⟨v, refused, accepted, -⟩ := Writer.send_of_overrun mirrors.patient noRoom
        (List.length_pos_iff.mpr empty)
      rw [handed, refused, mirrors.shortage cause full]
      refine .failed cause ?_
      rw [delivered, accepted, mirrors.passed, List.take_zero, List.append_nil]

theorem perform (mirrors : p.Mirrors w) (t : Script) (sendings : List Sending) :
    (perform t.report p sendings).result = (perform t.report w sendings).result ∧
      (perform t.report p sendings).rest = (perform t.report w sendings).rest ∧
      (perform t.report p sendings).sink.delivered.toList =
        (perform t.report w sendings).sink.accepted.toList := by
  induction sendings generalizing p w with
  | nil => exact ⟨rfl, rfl, mirrors.passed⟩
  | cons sending sendings ih =>
    have answers := mirrors.send sending.text
    rw [Session.perform, Session.perform]
    generalize Sink.send p _ = answer, Sink.send w _ = answer' at answers
    cases answers with
    | ok mirrors => exact ih mirrors
    | failed cause passed => exact ⟨rfl, rfl, passed⟩

end Mirrors

/-- A session with buffers on both sides has the result and the output of one without, and reads as
much. -/
theorem run_buffered (s : Settings) (input : Source) (full : Option String) (capacity : Nat) :
    (run s (start full) (input.buffered capacity)).result = (run s (unbuffered full) input).result ∧
      (run s (start full) (input.buffered capacity)).rest.stream =
        (run s (unbuffered full) input).rest.stream ∧
      (run s (start full) (input.buffered capacity)).sink.delivered.toList =
        (run s (unbuffered full) input).sink.accepted.toList := by
  have mirrors := mirrors_start full
  obtain ⟨result, rest, passed⟩ := mirrors.perform (Script.of s (input.buffered capacity))
    (Script.of s (input.buffered capacity)).sendings
  rw [← run_eq_perform, ← run_eq_perform] at result rest passed
  have alike : (unbuffered full).Alike (unbuffered full) :=
    ⟨rfl, rfl, rfl, rfl, rfl, mirrors.patient, mirrors.patient⟩
  have reports := alike_run s alike (Source.stream_buffered capacity input)
  exact ⟨result.trans reports.result, by rw [rest, reports.rest],
    by rw [passed, reports.sink.accepted]⟩

end Pipe

end SchemeCore.Session
