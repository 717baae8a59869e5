import SchemeCore.Proofs.Source
import SchemeCore.Proofs.Writer

/-! A session over a writer that takes everything tells the transcript of its source. Each turn
reads the first line of what is left of the transcript and sends the texts for it; the induction is
on the turns. That the prompt for a line is sent at the end of the turn before it makes no
difference to the output as a whole. -/

namespace SchemeCore.Session

variable {s : Settings} {w : Writer}

theorem shown_evaluate (line : String) : shown (evaluate line) = line := by
  have found : (evaluate line).2.sequence? .string (evaluate line).1 =
      some (0, line.toList.toArray) := rfl
  simp [shown, Heap.displayed?, found]

theorem transcript_turn (s : Settings) (source : Source) :
    match turn s source with
    | .reply texts rest => ∃ line, texts = reply s (Utf8.decode (trimReturn line)) ∧
        Transcript.of [] source.marks = (Transcript.of [] rest.marks).prepend line
    | .closing texts rest => texts = closing s ∧
        Transcript.of [] source.marks = ⟨[], none, rest.marks⟩
    | .broken cause rest => Transcript.of [] source.marks = ⟨[], some cause, rest.marks⟩ := by
  rw [← Source.transcript_readLine, turn]
  cases source.readLine with
  | line bytes rest => exact ⟨bytes, rfl, rfl⟩
  | ended rest => exact ⟨rfl, rfl⟩
  | failed cause rest => rfl

def Transcript.texts (s : Settings) (t : Transcript) : List String :=
  t.lines.flatMap (fun line => reply s (Utf8.decode (trimReturn line))) ++
    if t.failure?.isSome then [] else closing s

theorem Transcript.texts_prepend (line : List UInt8) (t : Transcript) :
    (t.prepend line).texts s = reply s (Utf8.decode (trimReturn line)) ++ t.texts s := by
  rw [texts, prepend, List.flatMap_cons, List.append_assoc]
  rfl

structure Tells (s : Settings) (w : Writer) (t : Transcript) (r : Report Writer) : Prop where
  result : r.result = t.result
  sink : w.Took (t.texts s) r.sink
  rest : r.rest.marks = t.rest

theorem Tells.prepend {v : Writer} {line : List UInt8} {t : Transcript} {r : Report Writer}
    (first : w.Took (reply s (Utf8.decode (trimReturn line))) v) (more : Tells s v t r) :
    Tells s w (t.prepend line) r where
  result := more.result
  sink := Transcript.texts_prepend line t ▸ first.append more.sink
  rest := more.rest

theorem converse_tells (accepts : w.AcceptsAll) (source : Source) :
    Tells s w (Transcript.of [] source.marks) (converse s w source) := by
  fun_induction converse s w source with
  | case1 w source cause rest broken =>
    have transcript := transcript_turn s source
    rw [broken] at transcript
    rw [transcript]
    exact ⟨rfl, accepts.took_nil, rfl⟩
  | case2 w source texts rest closed =>
    have transcript := transcript_turn s source
    rw [closed] at transcript
    obtain ⟨rfl, transcript⟩ := transcript
    obtain ⟨v, played, took⟩ := Writer.play_of_acceptsAll accepts (closing s)
    rw [transcript, Report.last, played]
    exact ⟨rfl, took, rfl⟩
  | case3 w source texts rest replied v played ih =>
    have transcript := transcript_turn s source
    rw [replied] at transcript
    obtain ⟨line, rfl, transcript⟩ := transcript
    obtain ⟨v', played', took⟩ := Writer.play_of_acceptsAll accepts _
    obtain rfl : v = v' := congrArg Prod.snd (played.symm.trans played')
    rw [transcript]
    exact (ih took.acceptsAll).prepend took
  | case4 w source texts rest replied cause v failed =>
    obtain ⟨v', played, -⟩ := Writer.play_of_acceptsAll accepts texts
    cases failed.symm.trans played

theorem run_tells (accepts : w.AcceptsAll) (source : Source) :
    (run s w source).result = (Transcript.of [] source.marks).result ∧
      w.Took (opening s ++ (Transcript.of [] source.marks).texts s) (run s w source).sink ∧
      (run s w source).rest.marks = (Transcript.of [] source.marks).rest := by
  obtain ⟨v, played, opened⟩ := Writer.play_of_acceptsAll accepts (opening s)
  have goesOn : run s w source = converse s v source := by rw [run, played]
  have tells := converse_tells (s := s) opened.acceptsAll source
  rw [goesOn]
  exact ⟨tells.result, opened.append tells.sink, tells.rest⟩

/-! The texts as one output. -/

theorem encode_append (front back : String) :
    Utf8.encode (front ++ back) = Utf8.encode front ++ Utf8.encode back := by
  rw [Utf8.encode, String.toList_append, List.flatMap_append]
  rfl

theorem encode_join (texts : List String) :
    Utf8.encode (String.join texts) = texts.flatMap Utf8.encode := by
  induction texts with
  | nil => rfl
  | cons text texts ih => rw [String.join_cons, encode_append, ih, List.flatMap_cons]

theorem encode_reply (s : Settings) (line : List UInt8) :
    (reply s (Utf8.decode (trimReturn line))).flatMap Utf8.encode =
      Utf8.encode (Transcript.echo line) ++ (prompting s).flatMap Utf8.encode := by
  simp [reply, shown_evaluate, Transcript.echo, encode_append]

/-- Prompts after each turn and before the first are prompts before each turn and after the last. -/
theorem encode_replies (s : Settings) (lines : List (List UInt8)) :
    (prompting s).flatMap Utf8.encode ++
        (lines.flatMap fun line => reply s (Utf8.decode (trimReturn line))).flatMap Utf8.encode =
      (lines.flatMap fun line =>
        (prompting s).flatMap Utf8.encode ++ Utf8.encode (Transcript.echo line)) ++
        (prompting s).flatMap Utf8.encode := by
  induction lines with
  | nil => simp
  | cons line lines ih =>
    simp only [List.flatMap_cons, List.flatMap_append, List.append_assoc, encode_reply, ih]

theorem encode_closing (s : Settings) (t : Transcript) (loud : s.quiet = false) :
    (if t.failure?.isSome then [] else closing s).flatMap Utf8.encode =
      Utf8.encode (if t.failure?.isSome then "" else "\n" ++ s.footer ++ "\n") := by
  split
  · rfl
  · simp [closing, loud, encode_append]

theorem encode_texts (s : Settings) (t : Transcript) :
    (opening s ++ t.texts s).flatMap Utf8.encode = Utf8.encode (t.output s) := by
  have turns := encode_replies s t.lines
  cases quiet : s.quiet with
  | true =>
    have silent : prompting s = [] := if_pos quiet
    rw [silent] at turns
    simp only [opening, closing, silent, Transcript.texts, Transcript.output, quiet, ↓reduceIte,
      List.nil_append, List.append_nil, ite_self, encode_join, List.flatMap_map]
    exact turns.trans (List.append_nil _)
  | false =>
    have prompts : prompting s = [s.prompt] := by simp [prompting, quiet]
    rw [prompts] at turns
    rw [opening, Transcript.texts, prompts, List.append_assoc, ← List.append_assoc [s.prompt],
      List.flatMap_append, List.flatMap_append, List.flatMap_append, turns,
      encode_closing s t quiet, Transcript.output]
    simp only [quiet, Bool.false_eq_true, ↓reduceIte, List.flatMap_singleton, encode_append,
      encode_join, List.flatMap_map, List.append_assoc]

theorem length_texts (s : Settings) (t : Transcript) :
    (opening s ++ t.texts s).length = t.flushes s := by
  have turns : (t.lines.flatMap fun line => reply s (Utf8.decode (trimReturn line))).length =
      (2 + (prompting s).length) * t.lines.length := by
    induction t.lines with
    | nil => rfl
    | cons line lines ih =>
      have first : (reply s (Utf8.decode (trimReturn line))).length = 2 + (prompting s).length := by
        rw [reply, List.length_append]
        rfl
      rw [List.flatMap_cons, List.length_append, first, ih, List.length_cons, Nat.mul_succ,
        Nat.add_comm]
  rw [opening, Transcript.texts, List.length_append, List.length_append, List.length_append, turns,
    Transcript.flushes, prompting, closing]
  split <;> split <;> simp <;> omega

/-- The whole session: its result, its output, how often it flushes and what it leaves unread. -/
theorem run_tells_transcript (s : Settings) (source : Source) (w : Writer)
    (accepts : w.AcceptsAll) :
    let t := Transcript.of [] source.marks
    let report := run s w source
    report.result = t.result ∧
      report.sink.accepted.toList = w.accepted.toList ++ Utf8.encode (t.output s) ∧
      report.sink.flushes = w.flushes + t.flushes s ∧
      report.rest.marks = t.rest ∧ report.rest.unread = t.rest.filterMap Mark.byte? := by
  intro t report
  obtain ⟨result, took, rest⟩ := run_tells (s := s) accepts source
  rw [← encode_texts, ← length_texts]
  refine ⟨result, took.accepted, took.flushes, rest, ?_⟩
  rw [Source.unread_eq, rest]

theorem run_tells_transcript_of_broken_line : Writer.unlimited.AcceptsAll ∧
    (run { quiet := true } Writer.unlimited
      [.data [0x61, 0x0D], .interrupted, .data [0x0A, 0x62], .fail "gone", .data [0x63]]).result =
        .error (.read "gone") ∧
    (run { quiet := true } Writer.unlimited
      [.data [0x61, 0x0D], .interrupted, .data [0x0A, 0x62], .fail "gone", .data [0x63]]
      ).sink.accepted.toList = [0x61, 0x0A] := by
  have accepts : Writer.unlimited.AcceptsAll := ⟨rfl, by decide, rfl⟩
  obtain ⟨result, accepted, -⟩ := run_tells_transcript { quiet := true }
    [.data [0x61, 0x0D], .interrupted, .data [0x0A, 0x62], .fail "gone", .data [0x63]]
    Writer.unlimited accepts
  exact ⟨accepts, result, accepted.trans (by decide)⟩

end SchemeCore.Session
