import SchemeCore.Proofs.Lossy
import SchemeCore.Proofs.Transcript
import SchemeCore.Session.Echo

/-! A quiet session decodes its input line by line and shows what decoding all of it at once gives.
A line feed ends any character that was begun before it, so that neither the cuts at line feeds nor
the carriage returns taken out before them change how many replacement characters there are. -/

namespace SchemeCore.Session

variable {line bytes rest taken : List UInt8} {s : Settings} {w : Writer}

/-! Carriage returns. -/

theorem trimReturn_cons (b : UInt8) (more : line ≠ []) :
    trimReturn (b :: line) = b :: trimReturn line := by
  have last : (b :: line).getLast? = line.getLast? := List.getLast?_cons_of_ne_nil more
  rw [trimReturn, trimReturn, last, List.dropLast_cons_of_ne_nil more]
  split <;> rfl

theorem withoutReturns_cons {b : UInt8} (more : line ≠ []) (whole : lineFeed ∉ line) :
    withoutReturns (b :: (line ++ rest)) = b :: withoutReturns (line ++ rest) := by
  obtain ⟨c, line, rfl⟩ := List.exists_cons_of_ne_nil more
  refine if_neg fun both => ?_
  rcases both.2 with feed | none
  · exact whole (Option.some.inj feed ▸ List.mem_cons_self)
  · cases none

theorem withoutReturns_line (whole : lineFeed ∉ line) : withoutReturns line = trimReturn line := by
  induction line with
  | nil => rfl
  | cons b line ih =>
    have rest : lineFeed ∉ line := List.not_mem_of_not_mem_cons whole
    by_cases more : line = []
    · subst more
      by_cases same : b = carriageReturn <;> simp [withoutReturns, trimReturn, same]
    · have apart : withoutReturns (b :: (line ++ [])) = b :: withoutReturns (line ++ []) :=
        withoutReturns_cons more rest
      rw [List.append_nil] at apart
      rw [apart, ih rest, trimReturn_cons b more]

theorem withoutReturns_append (whole : lineFeed ∉ line) (rest : List UInt8) :
    withoutReturns (line ++ lineFeed :: rest) =
      trimReturn line ++ lineFeed :: withoutReturns rest := by
  have feed : withoutReturns (lineFeed :: rest) = lineFeed :: withoutReturns rest :=
    if_neg fun both => absurd both.1 (by decide)
  induction line with
  | nil => exact feed
  | cons b line ih =>
    have others : lineFeed ∉ line := List.not_mem_of_not_mem_cons whole
    by_cases more : line = []
    · subst more
      rw [List.singleton_append, withoutReturns, feed]
      by_cases same : b = carriageReturn <;> simp [trimReturn, same]
    · rw [List.cons_append, withoutReturns_cons more others, ih others, trimReturn_cons b more]
      rfl

theorem withoutReturns_of_not_mem (never : carriageReturn ∉ bytes) :
    withoutReturns bytes = bytes := by
  induction bytes with
  | nil => rfl
  | cons b bytes ih =>
    have other : b ≠ carriageReturn := fun same => never (same ▸ List.mem_cons_self)
    rw [withoutReturns, if_neg fun both => other both.1, ih (List.not_mem_of_not_mem_cons never)]

/-! Lines. -/

theorem echoed_line (filled : line ≠ []) (whole : lineFeed ∉ line) :
    echoed line = Transcript.echo line := by
  have unended : line.getLast? ≠ some lineFeed := fun last => whole (List.mem_of_getLast? last)
  rw [echoed, Transcript.echo, withoutReturns_line whole, lastEnding,
    if_neg (not_or.mpr ⟨filled, unended⟩)]

theorem lastEnding_append (line rest : List UInt8) :
    lastEnding (line ++ lineFeed :: rest) = lastEnding rest := by
  have nonempty : line ++ lineFeed :: rest ≠ [] := List.append_ne_nil_of_right_ne_nil _ nofun
  rw [lastEnding, lastEnding, List.getLast?_append]
  cases rest with
  | nil => simp
  | cons b rest => simp [List.getLast?_cons_cons]

theorem echoed_append (whole : lineFeed ∉ line) (rest : List UInt8) :
    echoed (line ++ lineFeed :: rest) = Transcript.echo line ++ echoed rest := by
  have feed : (Utf8.decode (trimReturn line)).push (Char.ofNat lineFeed.toNat) =
      Transcript.echo line := by
    rw [← String.append_singleton]
    rfl
  rw [echoed, lastEnding_append, withoutReturns_append whole,
    Utf8.decode_append_of_ascii _ _ (by decide), feed, echoed, String.append_assoc]

theorem join_echo (taken bytes : List UInt8) (whole : lineFeed ∉ taken) :
    String.join ((Transcript.of taken (bytes.map .byte)).lines.map Transcript.echo) =
      echoed (taken ++ bytes) := by
  -- by induction on the bytes: those taken so far hold no line feed
  induction bytes generalizing taken with
  | nil =>
    rw [List.map_nil, Transcript.of, List.append_nil]
    split
    · rename_i none
      rw [List.isEmpty_iff.mp none]
      rfl
    · rename_i filled
      have line := echoed_line (mt List.isEmpty_iff.mpr filled) whole
      rw [line, List.map_cons, String.join_cons]
      exact String.append_empty
  | cons b bytes ih =>
    rw [List.map_cons, Transcript.of]
    split
    · rename_i feed
      rw [Transcript.prepend, List.map_cons, String.join_cons, ih [] List.not_mem_nil, feed,
        echoed_append whole]
      rfl
    · rename_i other
      rw [ih (taken ++ [b]) (by simp [whole, Ne.symm other]), List.append_assoc]
      rfl

theorem failure?_of_bytes (taken bytes : List UInt8) :
    (Transcript.of taken (bytes.map .byte)).failure? = none := by
  induction bytes generalizing taken with
  | nil => rfl
  | cons b bytes ih =>
    rw [List.map_cons, Transcript.of]
    split
    · exact ih []
    · exact ih (taken ++ [b])

theorem accepted_run (quiet : s.quiet = true) (accepts : w.AcceptsAll) (source : Source) :
    (run s w source).result = (Transcript.of [] source.marks).result ∧
    (run s w source).sink.accepted.toList = w.accepted.toList ++ Utf8.encode
      (String.join ((Transcript.of [] source.marks).lines.map Transcript.echo)) := by
  have texts := encode_texts s (Transcript.of [] source.marks)
  rw [Transcript.output, if_pos quiet] at texts
  obtain ⟨result, took, -⟩ := run_tells (s := s) accepts source
  exact ⟨result, by rw [took.accepted, texts]⟩

/-- A quiet session over bytes, however they come, succeeds and shows them as decoding all of them
at once does, with one replacement character for each broken start of a character; bytes of whole
lines that encode a text without returns come back as they are. -/
theorem run_echoes_input (s : Settings) (source : Source) (w : Writer) (bytes : List UInt8)
    (quiet : s.quiet = true) (accepts : w.AcceptsAll) (plain : source.marks = bytes.map .byte) :
    let report := run s w source
    report.result = .ok () ∧
      report.sink.accepted.toList = w.accepted.toList ++ Utf8.encode (echoed bytes) ∧
      Utf8.Replaces (withoutReturns bytes) (Utf8.decode (withoutReturns bytes)).toList ∧
      ∀ text, bytes = Utf8.encode text → carriageReturn ∉ bytes →
        bytes = [] ∨ bytes.getLast? = some lineFeed →
        report.sink.accepted.toList = w.accepted.toList ++ bytes := by
  obtain ⟨result, accepted⟩ := accepted_run quiet accepts source
  rw [plain, join_echo [] bytes List.not_mem_nil, List.nil_append] at accepted
  rw [plain, Transcript.result, failure?_of_bytes] at result
  have replaced := Utf8.replaces_iff.mpr
    (String.ofList_toList (s := Utf8.decode (withoutReturns bytes))).symm
  refine ⟨result, accepted, replaced, fun text encodes never ended => ?_⟩
  have same : echoed bytes = text := by
    rw [echoed, withoutReturns_of_not_mem never, lastEnding, if_pos ended, encodes,
      Utf8.decode_encode, String.append_empty]
  rw [accepted, same, encodes]

theorem run_echoes_input_of_cut_characters : Writer.unlimited.AcceptsAll ∧
    (run { quiet := true } Writer.unlimited
      [.data [0x68, 0xE2], .interrupted, .data [0x82, 0x0D, 0x0A, 0x0D]]).sink.accepted.toList =
        [0x68, 0xEF, 0xBF, 0xBD, 0x0A, 0x0A] ∧
    (run { quiet := true } Writer.unlimited
      [.data [0xC3], .interrupted, .data [0xA9, 0x0A]]).sink.accepted.toList =
        [0xC3, 0xA9, 0x0A] := by
  have accepts : Writer.unlimited.AcceptsAll := ⟨rfl, by decide, rfl⟩
  obtain ⟨-, broken, -, -⟩ := run_echoes_input { quiet := true }
    [.data [0x68, 0xE2], .interrupted, .data [0x82, 0x0D, 0x0A, 0x0D]] Writer.unlimited
    [0x68, 0xE2, 0x82, 0x0D, 0x0A, 0x0D] rfl accepts rfl
  obtain ⟨-, -, -, same⟩ := run_echoes_input { quiet := true }
    [.data [0xC3], .interrupted, .data [0xA9, 0x0A]] Writer.unlimited [0xC3, 0xA9, 0x0A]
    rfl accepts rfl
  exact ⟨accepts, broken.trans (by decide),
    same "é\n" (by decide) (by decide) (.inr (by decide))⟩

end SchemeCore.Session
