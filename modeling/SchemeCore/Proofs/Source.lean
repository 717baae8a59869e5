import SchemeCore.Session.Transcript

/-! Reading a line of a source takes from it the marks that the first line of its transcript is made
of. What was not read is left in the same order, so a reading tells how the transcript goes on. -/

namespace SchemeCore.Session

def Reading.transcript : Reading → Transcript
  | .line bytes rest => (Transcript.of [] rest.marks).prepend bytes
  | .ended rest => ⟨[], none, rest.marks⟩
  | .failed cause rest => ⟨[], some cause, rest.marks⟩

theorem Transcript.of_data (taken bytes : List UInt8) (marks : List Mark) :
    of taken (bytes.map .byte ++ marks) =
      match bytes.dropWhile (· != lineFeed) with
      | [] => of (taken ++ bytes) marks
      | _ :: after => (of [] (after.map .byte ++ marks)).prepend
          (taken ++ bytes.takeWhile (· != lineFeed)) := by
  induction bytes generalizing taken with
  | nil => simp
  | cons b bytes ih =>
    rw [List.map_cons, List.cons_append, of]
    by_cases feed : b = lineFeed
    · simp [feed]
    · have goesOn : (b != lineFeed) = true := bne_iff_ne.mpr feed
      rw [if_neg feed, ih, List.dropWhile_cons_of_pos (p := (· != lineFeed)) goesOn,
        List.takeWhile_cons_of_pos (p := (· != lineFeed)) goesOn]
      simp only [List.append_assoc, List.singleton_append]

namespace Source

theorem marks_data (bytes : List UInt8) (rest : Source) :
    marks (.data bytes :: rest) = bytes.map .byte ++ rest.marks := List.flatMap_cons

theorem unread_eq (source : Source) : source.unread = source.marks.filterMap Mark.byte? := by
  induction source with
  | nil => rfl
  | cons event source ih =>
    cases event with
    | data bytes =>
      have all : (bytes.map Mark.byte).filterMap Mark.byte? = bytes := by
        rw [List.filterMap_map]
        exact List.filterMap_some
      rw [unread, marks_data, List.filterMap_append, all, ih]
    | interrupted | endMark | fail => exact ih

theorem transcript_stopped (taken : List UInt8) (rest : Source) :
    (stopped taken rest).transcript = Transcript.of taken (.endMark :: rest.marks) := by
  rw [stopped, Transcript.of]
  split <;> rfl

theorem transcript_readOn (taken : List UInt8) (source : Source) :
    (readOn taken source).transcript = Transcript.of taken source.marks := by
  induction source generalizing taken with
  | nil =>
    show (stopped taken []).transcript = Transcript.of taken []
    rw [stopped, Transcript.of]
    split <;> rfl
  | cons event source ih =>
    cases event with
    | interrupted => exact ih taken
    | endMark => exact transcript_stopped taken source
    | fail cause => rfl
    | data bytes =>
      rw [readOn, marks_data, Transcript.of_data]
      cases bytes.dropWhile (· != lineFeed) with
      | nil => exact ih (taken ++ bytes)
      | cons b after =>
        show (Transcript.of [] (marks (.data after :: source))).prepend _ = _
        rw [marks_data]

theorem transcript_readLine (source : Source) :
    source.readLine.transcript = Transcript.of [] source.marks := transcript_readOn [] source

end Source

end SchemeCore.Session
