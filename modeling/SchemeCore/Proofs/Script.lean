import SchemeCore.Session.Script

/-! A session on any sink performs its script. The script is the same for all sinks, so that two
sinks make a difference only where one of them refuses a text. -/

namespace SchemeCore.Session

variable {σ : Type} [Sink σ] {s : Settings}

theorem perform_append (goOn : σ → Report σ) (sink : σ) (front back : List Sending) :
    perform goOn sink (front ++ back) = perform (perform goOn · back) sink front := by
  induction front generalizing sink with
  | nil => rfl
  | cons sending front ih =>
    simp only [List.cons_append, perform]
    split
    · exact ih _
    · rfl

theorem perform_texts (goOn : σ → Report σ) (sink : σ) (texts : List String) (rest : Source) :
    perform goOn sink (texts.map (⟨·, rest⟩)) =
      match play sink texts with
      | (.ok (), sink) => goOn sink
      | (.error cause, sink) => ⟨.error (.print cause), sink, rest⟩ := by
  induction texts generalizing sink with
  | nil => rfl
  | cons text texts ih =>
    simp only [List.map_cons, perform, play]
    cases Sink.send sink (Utf8.encode text) with
    | mk verdict sink =>
      cases verdict with
      | ok => exact ih sink
      | error cause => rfl

theorem perform_prepend (sink : σ) (texts : List String) (rest : Source) (t : Script) :
    perform (t.prepend texts rest).report sink (t.prepend texts rest).sendings =
      match play sink texts with
      | (.ok (), sink) => perform t.report sink t.sendings
      | (.error cause, sink) => ⟨.error (.print cause), sink, rest⟩ := by
  rw [Script.prepend, perform_append, perform_texts]
  rfl

theorem converse_eq_perform (sink : σ) (source : Source) :
    converse s sink source =
      perform (Script.ofTurns s source).report sink (Script.ofTurns s source).sendings := by
  fun_induction converse s sink source with
  | case1 sink source cause rest broken =>
    rw [Script.ofTurns, broken]
    rfl
  | case2 sink source texts rest closed =>
    rw [Script.ofTurns, closed, perform_prepend]
    rfl
  | case3 sink source texts rest replied next played ih =>
    rw [Script.ofTurns, replied, perform_prepend, played]
    exact ih
  | case4 sink source texts rest replied cause next failed =>
    rw [Script.ofTurns, replied, perform_prepend, failed]

theorem run_eq_perform (sink : σ) (source : Source) :
    run s sink source = perform (Script.of s source).report sink (Script.of s source).sendings := by
  rw [Script.of, perform_prepend, run]
  cases play sink (opening s) with
  | mk verdict sink =>
    cases verdict with
    | ok => exact converse_eq_perform sink source
    | error cause => rfl

theorem result_of (s : Settings) (source : Source) :
    (Script.of s source).result = .ok () ∨
      ∃ cause, (Script.of s source).result = .error (.read cause) := by
  show (Script.ofTurns s source).result = .ok () ∨
    ∃ cause, (Script.ofTurns s source).result = .error (.read cause)
  fun_induction Script.ofTurns s source with
  | case1 source cause rest broken => exact .inr ⟨cause, rfl⟩
  | case2 source texts rest closed => exact .inl rfl
  | case3 source texts rest replied ih => exact ih

theorem sent_of_perform (t : Script) (log : Log) (sendings : List Sending) :
    (perform t.report log sendings).sink.sent =
      log.sent ++ sendings.map fun sending => Utf8.encode sending.text := by
  induction sendings generalizing log with
  | nil => simp [perform, Script.report]
  | cons sending more ih => simp [perform, Sink.send, ih]

theorem sent_of_run (s : Settings) (source : Source) :
    (run s (Log.mk []) source).sink.sent = (Script.of s source).texts.map Utf8.encode := by
  rw [run_eq_perform, sent_of_perform, Script.texts, List.map_map]
  rfl

end SchemeCore.Session
