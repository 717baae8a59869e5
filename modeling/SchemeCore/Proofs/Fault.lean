import SchemeCore.Proofs.Script
import SchemeCore.Proofs.Writer

/-! A session on a writer that fails. Up to the first text for which there is no room or whose flush
fails, the session goes as if the writer never failed; there it ends, and of the text that did not
fit the writer has as much as it had room for. -/

namespace SchemeCore.Session

variable {w v : Writer} {texts : List String}

namespace Writer

theorem Takes.front {front back : List String} (takes : w.Takes (front ++ back)) :
    w.Takes front where
  room room found := by
    have whole := takes.room room found
    rw [List.flatMap_append, List.length_append] at whole
    omega
  flush n lt := takes.flush n (by rw [List.length_append]; omega)

theorem Takes.back {front back : List String} (takes : w.Takes (front ++ back))
    (sent : w.Sent front v) : v.Takes back where
  room room found := by
    rw [sent.room] at found
    obtain ⟨all, before, rfl⟩ := Option.map_eq_some_iff.mp found
    have whole := takes.room all before
    rw [List.flatMap_append, List.length_append] at whole
    omega
  flush n lt fails := by
    obtain ⟨cause, fails⟩ := fails
    rw [sent.flushFailure, sent.flushes] at fails
    refine takes.flush (front.length + n) (by rw [List.length_append]; omega) ⟨cause, ?_⟩
    rw [fails]
    congr 2
    omega

theorem takes_of_not_failsAt {n : Nat} (le : n ≤ texts.length)
    (flawless : ∀ i < n, ¬w.FailsAt texts (i + 1)) : w.Takes (texts.take n) where
  room room found := by
    cases n with
    | zero => simp
    | succ n =>
      have fits : ¬room < ((texts.take (n + 1)).flatMap Utf8.encode).length := fun overrun =>
        flawless n (Nat.lt_succ_self n) (.inl ⟨room, found, overrun⟩)
      exact Nat.le_of_not_lt fits
  flush i lt fails := by
    rw [List.length_take, Nat.min_eq_left le] at lt
    exact flawless i lt (.inr fails)

end Writer

theorem perform_of_takes (goOn : Writer → Report Writer) (sendings : List Sending)
    (patient : w.chunk ≠ some 0) (takes : w.Takes (sendings.map (·.text))) :
    ∃ v, w.Sent (sendings.map (·.text)) v ∧ perform goOn w sendings = goOn v := by
  induction sendings generalizing w with
  | nil => exact ⟨w, .nil w, rfl⟩
  | cons sending sendings ih =>
    rw [List.map_cons, ← List.singleton_append] at takes ⊢
    obtain ⟨u, accepted, first⟩ := Writer.send_of_takes patient takes.front
    obtain ⟨v, more, performed⟩ := ih (first.chunk ▸ patient) (takes.back first)
    refine ⟨v, first.append more, ?_⟩
    rw [perform, accepted]
    exact performed

section Faulty

variable {t : Script} {n : Nat}

theorem texts_getElem (h : n < t.sendings.length) (h' : n < t.texts.length) :
    t.texts[n] = t.sendings[n].text := List.getElem_map ..

theorem length_take_texts (h : n < t.sendings.length) : (t.texts.take n).length = n := by
  rw [List.length_take, Script.texts, List.length_map, Nat.min_eq_left (Nat.le_of_lt h)]

theorem encode_take_succ (h : n < t.sendings.length) :
    (t.texts.take (n + 1)).flatMap Utf8.encode =
      (t.texts.take n).flatMap Utf8.encode ++ Utf8.encode t.sendings[n].text := by
  have h' : n < t.texts.length := by rwa [Script.texts, List.length_map]
  rw [List.take_succ_eq_append_getElem h', List.flatMap_append, List.flatMap_singleton,
    texts_getElem h h']

theorem perform_of_flawless (patient : w.chunk ≠ some 0) (h : n < t.sendings.length)
    (flawless : ∀ i < n, ¬w.FailsAt t.texts (i + 1)) :
    w.Takes (t.texts.take n) ∧ ∃ v, w.Sent (t.texts.take n) v ∧
      ∀ cause u, Sink.send v (Utf8.encode t.sendings[n].text) = (.error cause, u) →
        perform t.report w t.sendings = ⟨.error (.print cause), u, t.sendings[n].rest⟩ := by
  have takes : w.Takes (t.texts.take n) :=
    Writer.takes_of_not_failsAt (by rw [Script.texts, List.length_map]; omega) flawless
  have sent : (t.sendings.take n).map (·.text) = t.texts.take n := List.map_take
  rw [← sent] at takes ⊢
  obtain ⟨v, took, performed⟩ :=
    perform_of_takes (perform t.report · (t.sendings.drop n)) (t.sendings.take n) patient takes
  refine ⟨takes, v, took, fun cause u failed => ?_⟩
  rw [List.drop_eq_getElem_cons h] at performed
  calc perform t.report w t.sendings
      = perform t.report w (t.sendings.take n ++ t.sendings[n] :: t.sendings.drop (n + 1)) := by
        rw [← List.drop_eq_getElem_cons h, List.take_append_drop]
    _ = perform t.report v (t.sendings[n] :: t.sendings.drop (n + 1)) := by
        rw [perform_append, performed]
    _ = ⟨.error (.print cause), u, t.sendings[n].rest⟩ := by rw [perform, failed]

theorem perform_of_overruns (patient : w.chunk ≠ some 0) (h : n < t.sendings.length)
    (flawless : ∀ i < n, ¬w.FailsAt t.texts (i + 1)) (overrun : w.Overruns t.texts (n + 1)) :
    ∃ room u, w.room = some room ∧
      perform t.report w t.sendings =
        ⟨.error (.print w.shortage.cause), u, t.sendings[n].rest⟩ ∧
      u.accepted.toList =
        w.accepted.toList ++ ((t.texts.take (n + 1)).flatMap Utf8.encode).take room ∧
      u.flushes = w.flushes + n := by
  obtain ⟨room, found, overrun⟩ := overrun
  obtain ⟨takes, v, took, failing⟩ := perform_of_flawless patient h flawless
  have le := takes.room room found
  rw [encode_take_succ h, List.length_append] at overrun
  have left : v.room = some (room - ((t.texts.take n).flatMap Utf8.encode).length) := by
    rw [took.room, found, Option.map_some]
  have short : room - ((t.texts.take n).flatMap Utf8.encode).length <
      (Utf8.encode t.sendings[n].text).length := by omega
  obtain ⟨u, failed, accepted, flushes⟩ :=
    Writer.send_of_overrun (took.chunk ▸ patient) left short
  refine ⟨room, u, found, ?_, ?_, ?_⟩
  · rw [failing _ u failed, took.shortage]
  · rw [accepted, took.accepted, encode_take_succ h, List.take_append, List.take_of_length_le le,
      List.append_assoc]
  · rw [flushes, took.flushes, length_take_texts h]

theorem perform_of_flushFails (patient : w.chunk ≠ some 0) (h : n < t.sendings.length)
    (flawless : ∀ i < n, ¬w.FailsAt t.texts (i + 1)) (fits : ¬w.Overruns t.texts (n + 1))
    (fails : w.FlushFails (n + 1)) :
    ∃ cause u, w.flushFailure = some (w.flushes + (n + 1), cause) ∧
      perform t.report w t.sendings = ⟨.error (.print cause), u, t.sendings[n].rest⟩ ∧
      u.accepted.toList = w.accepted.toList ++ (t.texts.take (n + 1)).flatMap Utf8.encode ∧
      u.flushes = w.flushes + (n + 1) := by
  obtain ⟨cause, fails⟩ := fails
  obtain ⟨-, v, took, failing⟩ := perform_of_flawless patient h flawless
  have within : ∀ room ∈ v.room, (Utf8.encode t.sendings[n].text).length ≤ room := by
    intro room left
    rw [took.room] at left
    obtain ⟨all, found, rfl⟩ := Option.map_eq_some_iff.mp left
    have enough : ¬all < ((t.texts.take (n + 1)).flatMap Utf8.encode).length :=
      fun overrun => fits ⟨all, found, overrun⟩
    rw [encode_take_succ h, List.length_append] at enough
    omega
  have next : v.flushes + 1 = w.flushes + (n + 1) := by
    rw [took.flushes, length_take_texts h, Nat.add_assoc]
  have now : v.flushFailure = some (v.flushes + 1, cause) := by
    rw [took.flushFailure, fails, next]
  obtain ⟨u, failed, accepted, flushes⟩ :=
    Writer.send_of_flushFails (took.chunk ▸ patient) within now
  refine ⟨cause, u, fails, failing _ u failed, ?_, flushes.trans next⟩
  rw [accepted, took.accepted, encode_take_succ h, List.append_assoc]

theorem perform_of_flawless_all (patient : w.chunk ≠ some 0)
    (flawless : ∀ n < t.texts.length, ¬w.FailsAt t.texts (n + 1)) :
    ∃ v, w.Sent t.texts v ∧ perform t.report w t.sendings = t.report v := by
  have takes := Writer.takes_of_not_failsAt (Nat.le_refl _) flawless
  rw [List.take_length] at takes
  exact perform_of_takes t.report t.sendings patient takes

end Faulty

theorem Writer.not_failsAt_faultless (n : Nat) : ¬w.faultless.FailsAt texts n := by
  rintro (⟨room, found, -⟩ | ⟨cause, fails⟩)
  · cases found
  · cases fails

/-- The faultless session sends its texts one by one and ends well or with a failure of its source.
A session whose writer fails nowhere in them has the same report. Otherwise, at the first text
where the writer fails, the session ends with what was unread then: for want of room, the writer
has as many bytes of the texts up to there as it had room for and was not flushed after the last;
at a failing flush, it has all of them. -/
theorem run_until_first_fault (s : Settings) (source : Source) (w : Writer)
    (patient : w.chunk ≠ some 0) :
    let t := Script.of s source
    let faultless := run s w.faultless source
    let report := run s w source
    ((run s (Log.mk []) source).sink.sent = t.texts.map Utf8.encode ∧
      faultless.sink.accepted.toList = w.accepted.toList ++ t.texts.flatMap Utf8.encode ∧
      faultless.sink.flushes = w.flushes + t.texts.length ∧
      (faultless.result = .ok () ∨ ∃ cause, faultless.result = .error (.read cause))) ∧
    ((∀ n < t.texts.length, ¬w.FailsAt t.texts (n + 1)) →
      report.sink.accepted = faultless.sink.accepted ∧
      report.sink.flushes = faultless.sink.flushes ∧
      report.rest = faultless.rest ∧ report.result = faultless.result) ∧
    ∀ n (h : n < t.sendings.length), (∀ i < n, ¬w.FailsAt t.texts (i + 1)) →
      (w.Overruns t.texts (n + 1) → ∃ room, w.room = some room ∧
        report.sink.accepted.toList =
          w.accepted.toList ++ ((t.texts.take (n + 1)).flatMap Utf8.encode).take room ∧
        report.sink.flushes = w.flushes + n ∧
        report.rest = t.sendings[n].rest ∧
        report.result = .error (.print w.shortage.cause)) ∧
      (¬w.Overruns t.texts (n + 1) → w.FlushFails (n + 1) →
        ∃ cause, w.flushFailure = some (w.flushes + (n + 1), cause) ∧
        report.sink.accepted.toList =
          w.accepted.toList ++ (t.texts.take (n + 1)).flatMap Utf8.encode ∧
        report.sink.flushes = w.flushes + (n + 1) ∧
        report.rest = t.sendings[n].rest ∧ report.result = .error (.print cause)) := by
  intro t faultless report
  have performed : report = perform t.report w t.sendings := run_eq_perform w source
  obtain ⟨v, sent, freely⟩ := perform_of_flawless_all (w := w.faultless) (t := t) patient
    fun n _ => Writer.not_failsAt_faultless (n + 1)
  have free : faultless = t.report v := (run_eq_perform w.faultless source).trans freely
  refine ⟨?_, fun flawless => ?_, fun n h flawless => ⟨fun overrun => ?_, fun fits fails => ?_⟩⟩
  · rw [free]
    exact ⟨sent_of_run s source, sent.accepted, sent.flushes, result_of s source⟩
  · obtain ⟨u, sent', whole⟩ := perform_of_flawless_all patient flawless
    have accepted : u.accepted = v.accepted :=
      Array.toList_inj.mp (sent'.accepted.trans sent.accepted.symm)
    rw [free, performed, whole]
    exact ⟨accepted, sent'.flushes.trans sent.flushes.symm, rfl, rfl⟩
  · obtain ⟨room, u, found, ended, accepted, flushes⟩ :=
      perform_of_overruns patient h flawless overrun
    rw [performed, ended]
    exact ⟨room, found, accepted, flushes, rfl, rfl⟩
  · obtain ⟨cause, u, found, ended, accepted, flushes⟩ :=
      perform_of_flushFails patient h flawless fits fails
    rw [performed, ended]
    exact ⟨cause, found, accepted, flushes, rfl, rfl⟩

/-- A writer that takes one byte in every other call and has room for two. -/
def cramped : Writer :=
  ⟨some 2, .fails "no room", some 1, true, some (1, "flush failed"), true, #[], 0⟩

theorem run_until_first_fault_of_cramped : cramped.chunk ≠ some 0 ∧
    (run { header := "hé" } cramped [.data [0x61]]).sink.accepted.toList = [0x68, 0xC3] ∧
    (run { header := "hé" } cramped [.data [0x61]]).rest = [.data [0x61]] ∧
    (run { header := "hé" } cramped [.data [0x61]]).result = .error (.print "no room") := by
  have patient : cramped.chunk ≠ some 0 := by decide
  obtain ⟨-, -, failing⟩ := run_until_first_fault { header := "hé" } [.data [0x61]] cramped patient
  have first : 0 < (Script.of { header := "hé" } [.data [0x61]]).sendings.length := Nat.succ_pos _
  have overrun : cramped.Overruns (Script.of { header := "hé" } [.data [0x61]]).texts 1 :=
    ⟨2, rfl, by decide⟩
  obtain ⟨short, -⟩ := failing 0 first (fun i lt => absurd lt (Nat.not_lt_zero i))
  obtain ⟨room, found, accepted, -, rest, result⟩ := short overrun
  cases found
  exact ⟨patient, accepted, rest, result⟩

end SchemeCore.Session
