import SchemeCore.Proofs.Source
import SchemeCore.Proofs.Writer

/-! How its bytes are cut makes no difference to a session. A source is read mark by mark, so that
of two sources with one stream each reading says the same; a writer takes of a text what it has room
for, so that two writers of one room and one faulty flush are alike after every text. Two sessions
that start alike are alike after every turn. -/

namespace SchemeCore.Session

/-! Sources of one stream. -/

namespace Source

/-- The marks that a source offers one after another, with an end for ever after the last. -/
def stream (source : Source) (n : Nat) : Mark := source.marks[n]?.getD .endMark

variable {source source' rest rest' : Source}

theorem stream_of_marks (same : source.marks = source'.marks) : source.stream = source'.stream := by
  funext n
  rw [stream, stream, same]

theorem stream_of_tail (tail : rest.marks = source.marks.tail) (n : Nat) :
    rest.stream n = source.stream (n + 1) := by
  rw [stream, stream, tail, List.getElem?_tail]

theorem stream_tail_eq (same : source.stream = source'.stream)
    (tail : rest.marks = source.marks.tail) (tail' : rest'.marks = source'.marks.tail) :
    rest.stream = rest'.stream := by
  funext n
  rw [stream_of_tail tail, stream_of_tail tail', same]

theorem readOn_eq (taken : List UInt8) (source : Source) :
    ∃ rest : Source, rest.marks = source.marks.tail ∧ readOn taken source =
      match source.stream 0 with
      | .byte b => if b = lineFeed then .line taken rest else readOn (taken ++ [b]) rest
      | .endMark => stopped taken rest
      | .fail cause => .failed cause rest := by
  induction source with
  | nil => exact ⟨[], rfl, rfl⟩
  | cons event source ih =>
    cases event with
    | interrupted => exact ih
    | endMark | fail => exact ⟨source, rfl, rfl⟩
    | data bytes =>
      cases bytes with
      | nil =>
        obtain ⟨rest, tail, read⟩ := ih
        refine ⟨rest, tail, ?_⟩
        have nothing : readOn taken (.data [] :: source) = readOn taken source := by simp [readOn]
        exact nothing.trans read
      | cons b bytes =>
        refine ⟨.data bytes :: source, rfl, ?_⟩
        have first : stream (.data (b :: bytes) :: source) 0 = .byte b := rfl
        rw [first]
        by_cases feed : b = lineFeed
        · simp [readOn, feed]
        · have goesOn : (b != lineFeed) = true := bne_iff_ne.mpr feed
          simp only [readOn, feed, ↓reduceIte, goesOn, List.dropWhile_cons_of_pos,
            List.takeWhile_cons_of_pos, List.append_assoc, List.singleton_append]

/-! Streams tell all bytes, as after the marks of a source there are none. -/

theorem bytes_eq_nil {marks : List Mark} (ends : ∀ n : Nat, marks[n]?.getD .endMark = Mark.endMark) :
    marks.filterMap Mark.byte? = [] := by
  rw [List.filterMap_eq_nil_iff]
  intro m inside
  obtain ⟨n, lt, rfl⟩ := List.getElem_of_mem inside
  have here := ends n
  rw [List.getElem?_eq_getElem lt, Option.getD_some] at here
  rw [here]
  rfl

theorem bytes_eq {marks marks' : List Mark}
    (same : ∀ n : Nat, marks[n]?.getD Mark.endMark = marks'[n]?.getD Mark.endMark) :
    marks.filterMap Mark.byte? = marks'.filterMap Mark.byte? := by
  induction marks generalizing marks' with
  | nil => exact (bytes_eq_nil fun n => (same n).symm).symm
  | cons m marks ih =>
    cases marks' with
    | nil => exact bytes_eq_nil same
    | cons m' marks' =>
      obtain rfl : m = m' := same 0
      have rest := ih fun n => same (n + 1)
      rw [List.filterMap_cons, List.filterMap_cons, rest]

theorem unread_of_stream (same : source.stream = source'.stream) :
    source.unread = source'.unread := by
  rw [unread_eq, unread_eq]
  exact bytes_eq (congrFun same)

end Source

inductive Reading.Alike : Reading → Reading → Prop
  | line {rest rest' : Source} (bytes : List UInt8) (left : rest.stream = rest'.stream) :
      Alike (.line bytes rest) (.line bytes rest')
  | ended {rest rest' : Source} (left : rest.stream = rest'.stream) :
      Alike (.ended rest) (.ended rest')
  | failed {rest rest' : Source} (cause : String) (left : rest.stream = rest'.stream) :
      Alike (.failed cause rest) (.failed cause rest')

section Reading

variable {source source' rest rest' : Source}

theorem alike_stopped (taken : List UInt8) (left : rest.stream = rest'.stream) :
    (Source.stopped taken rest).Alike (Source.stopped taken rest') := by
  unfold Source.stopped
  split
  · exact .ended left
  · exact .line taken left

theorem alike_readOn (taken : List UInt8) (same : source.stream = source'.stream) :
    (Source.readOn taken source).Alike (Source.readOn taken source') := by
  induction marks : source.marks generalizing source source' taken with
  | nil =>
    obtain ⟨rest, tail, read⟩ := source.readOn_eq taken
    obtain ⟨rest', tail', read'⟩ := source'.readOn_eq taken
    have left : rest.stream = rest'.stream := Source.stream_tail_eq same tail tail'
    have ended : source.stream 0 = .endMark := by rw [Source.stream, marks]; rfl
    rw [read, read', ← same, ended]
    exact alike_stopped taken left
  | cons m marks ih =>
    obtain ⟨rest, tail, read⟩ := source.readOn_eq taken
    obtain ⟨rest', tail', read'⟩ := source'.readOn_eq taken
    have left : rest.stream = rest'.stream := Source.stream_tail_eq same tail tail'
    rw [read, read', ← same]
    cases source.stream 0 with
    | byte b =>
      simp only
      split
      · exact .line taken left
      · exact ih (taken ++ [b]) left (by rw [tail, ‹source.marks = _›]; rfl)
    | endMark => exact alike_stopped taken left
    | fail cause => exact .failed cause left

end Reading

inductive Turn.Alike : Turn → Turn → Prop
  | reply {rest rest' : Source} (texts : List String) (left : rest.stream = rest'.stream) :
      Alike (.reply texts rest) (.reply texts rest')
  | closing {rest rest' : Source} (texts : List String) (left : rest.stream = rest'.stream) :
      Alike (.closing texts rest) (.closing texts rest')
  | broken {rest rest' : Source} (cause : String) (left : rest.stream = rest'.stream) :
      Alike (.broken cause rest) (.broken cause rest')

theorem alike_turn (s : Settings) {source source' : Source}
    (same : source.stream = source'.stream) : (turn s source).Alike (turn s source') := by
  have read : source.readLine.Alike source'.readLine := alike_readOn [] same
  unfold turn
  generalize source.readLine = reading, source'.readLine = reading' at read
  cases read with
  | line bytes left => exact .reply _ left
  | ended left => exact .closing _ left
  | failed cause left => exact .broken cause left

/-! Writers of one room and one faulty flush. -/

/-- Writers that differ at most in how many bytes a call takes, none of them never any, and in which
calls are interrupted. -/
structure Writer.Alike (w v : Writer) : Prop where
  room : w.room = v.room
  shortage : w.shortage = v.shortage
  flushFailure : w.flushFailure = v.flushFailure
  accepted : w.accepted = v.accepted
  flushes : w.flushes = v.flushes
  patient : w.chunk ≠ some 0
  patient' : v.chunk ≠ some 0

namespace Writer

variable {w v : Writer}

theorem Alike.taking (alike : w.Alike v) (bytes : List UInt8) (i j : Bool) :
    (w.taking bytes i).Alike (v.taking bytes j) :=
  { alike with
    room := by simp only [Writer.taking, alike.room]
    accepted := by simp only [Writer.taking, alike.accepted] }

inductive AlikeAnswers : Except String Unit × Writer → Except String Unit × Writer → Prop
  | ok {w v : Writer} (alike : w.Alike v) : AlikeAnswers (.ok (), w) (.ok (), v)
  | failed {w v : Writer} (cause : String) (alike : w.Alike v) :
      AlikeAnswers (.error cause, w) (.error cause, v)

theorem Alike.flush (alike : w.Alike v) : AlikeAnswers w.flush v.flush := by
  have counted : ({ w with flushes := w.flushes + 1 } : Writer).Alike
      { v with flushes := v.flushes + 1 } := { alike with flushes := by simp only [alike.flushes] }
  have due : v.FlushFails 1 ↔ w.FlushFails 1 := by
    rw [FlushFails, FlushFails, alike.flushFailure, alike.flushes]
  by_cases fails : w.FlushFails 1
  · obtain ⟨cause, fault⟩ := fails
    have fault' : v.flushFailure = some (v.flushes + 1, cause) := by
      rw [← alike.flushFailure, ← alike.flushes, fault]
    rw [flush_of_flushFails fault, flush_of_flushFails fault']
    exact .failed cause counted
  · rw [flush_of_not_flushFails fails, flush_of_not_flushFails (mt due.mp fails)]
    exact .ok counted

theorem Alike.writeAll (alike : w.Alike v) (bytes : List UInt8) :
    AlikeAnswers (w.writeAll bytes) (v.writeAll bytes) := by
  obtain ⟨i, written⟩ := writeAll_of_patient alike.patient bytes
  obtain ⟨j, written'⟩ := writeAll_of_patient alike.patient' bytes
  have space : w.space bytes = v.space bytes := by rw [Writer.space, Writer.space, alike.room]
  have taken := alike.taking (bytes.take (v.space bytes)) i j
  rw [written, written', verdict, verdict, space, alike.shortage]
  split
  · exact .ok taken
  · exact .failed _ taken

theorem Alike.send (alike : w.Alike v) (bytes : List UInt8) :
    AlikeAnswers (Sink.send w bytes) (Sink.send v bytes) := by
  have written := alike.writeAll bytes
  simp only [Sink.send]
  generalize w.writeAll bytes = answer, v.writeAll bytes = answer' at written
  cases written with
  | ok alike => exact alike.flush
  | failed cause alike => exact .failed cause alike

theorem Alike.play (alike : w.Alike v) (texts : List String) :
    AlikeAnswers (play w texts) (play v texts) := by
  induction texts generalizing w v with
  | nil => exact .ok alike
  | cons text texts ih =>
    have sent := alike.send (Utf8.encode text)
    rw [Session.play, Session.play]
    generalize Sink.send w _ = answer, Sink.send v _ = answer' at sent
    cases sent with
    | ok alike => exact ih alike
    | failed cause alike => exact .failed cause alike

end Writer

/-! Sessions. -/

variable {s : Settings} {source source' : Source} {w v : Writer}

structure Report.Alike (report report' : Report Writer) : Prop where
  result : report.result = report'.result
  sink : report.sink.Alike report'.sink
  rest : report.rest.stream = report'.rest.stream

theorem alike_last (texts : List String) (alike : w.Alike v)
    (left : source.stream = source'.stream) :
    (Report.last w texts source).Alike (Report.last v texts source') := by
  have played := alike.play texts
  unfold Report.last
  generalize play w texts = answer, play v texts = answer' at played
  cases played with
  | ok alike => exact ⟨rfl, alike, left⟩
  | failed cause alike => exact ⟨rfl, alike, left⟩

theorem alike_converse (alike : w.Alike v) (same : source.stream = source'.stream) :
    (converse s w source).Alike (converse s v source') := by
  induction left : source.weight using Nat.strongRecOn generalizing w v source source' with
  | _ n ih =>
    subst left
    have turns := alike_turn s same
    have less : ∀ texts rest, turn s source = .reply texts rest → rest.weight < source.weight :=
      fun _ _ => weight_of_turn
    rw [converse.eq_def s w source, converse.eq_def s v source']
    generalize turn s source = next, turn s source' = next' at turns less
    cases turns with
    | broken cause left => exact ⟨rfl, alike, left⟩
    | closing texts left => exact alike_last texts alike left
    | @reply rest rest' texts left =>
      have played := alike.play texts
      simp only
      generalize play w texts = answer, play v texts = answer' at played
      cases played with
      | ok alike => exact ih rest.weight (less texts rest rfl) alike left rfl
      | failed cause alike => exact ⟨rfl, alike, left⟩

theorem alike_run (s : Settings) (alike : w.Alike v) (same : source.stream = source'.stream) :
    (run s w source).Alike (run s v source') := by
  have played := alike.play (opening s)
  unfold run
  generalize play w (opening s) = answer, play v (opening s) = answer' at played
  cases played with
  | ok alike => exact alike_converse alike same
  | failed cause alike => exact ⟨rfl, alike, same⟩

/-- Two sources that offer one stream of bytes, ends and failures, and two writers that differ at most
in what single calls do, make sessions with the same output, the same number of flushes, the same
result and the same bytes left unread. -/
theorem run_of_one_stream (s : Settings) (source source' : Source) (w v : Writer)
    (same : source.stream = source'.stream) (alike : w.Alike v) :
    let report := run s w source
    let report' := run s v source'
    report.sink.accepted = report'.sink.accepted ∧ report.sink.flushes = report'.sink.flushes ∧
      report.result = report'.result ∧ report.rest.unread = report'.rest.unread := by
  intro report report'
  have ended : report.Alike report' := alike_run s alike same
  exact ⟨ended.sink.accepted, ended.sink.flushes, ended.result, Source.unread_of_stream ended.rest⟩

def whole : Source := [.data [0xC3, 0xA9, 0x0D, 0x0A, 0x62], .fail "gone", .data [0x63]]

def cut : Source := [.data [0xC3], .interrupted, .data [], .data [0xA9, 0x0D], .interrupted,
  .data [0x0A, 0x62], .fail "gone", .data [0x63], .endMark]

def halting : Writer :=
  ⟨some 5, .fails "no room", some 1, true, some (4, "flush failed"), true, #[], 0⟩

def flowing : Writer := { halting with chunk := none, interrupts := false }

theorem run_of_one_stream_of_cut : whole.stream = cut.stream ∧ halting.Alike flowing ∧
    (run { header := "" } halting whole).result = (run { header := "" } flowing cut).result ∧
    (run { header := "" } halting whole).rest.unread =
      (run { header := "" } flowing cut).rest.unread := by
  have same : whole.stream = cut.stream := by
    funext n
    rcases n with _ | _ | _ | _ | _ | _ | _ | _ | n <;> rfl
  have alike : halting.Alike flowing := by constructor <;> decide
  obtain ⟨-, -, result, unread⟩ :=
    run_of_one_stream { header := "" } whole cut halting flowing same alike
  exact ⟨same, alike, result, unread⟩

end SchemeCore.Session
