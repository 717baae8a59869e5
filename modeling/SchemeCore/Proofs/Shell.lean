import SchemeCore.Proofs.Pipe
import SchemeCore.Shell

/-! One run of the program against the session on ports without buffers. The session gives the
output, and its result the exit status and what is written of a failure. On a full output the first
text that is not empty breaks the session off, and only a quiet one on empty input has none. -/

namespace SchemeCore

namespace Session

variable {s : Settings} {source rest : Source} {taken : List UInt8} {cause : String}

theorem encode_eq_nil_iff {text : String} : Utf8.encode text = [] ↔ text = "" := by
  rw [Utf8.encode, List.flatMap_eq_nil_iff, ← String.toList_inj, String.toList_empty,
    List.eq_nil_iff_forall_not_mem]
  exact forall₂_congr fun c _ => iff_of_false String.utf8EncodeChar_ne_nil id

namespace Source

theorem nil_of_stopped {left : Source} (ended : stopped taken left = .ended rest) : taken = [] := by
  unfold stopped at ended
  split at ended
  · exact List.isEmpty_iff.mp ‹_›
  · cases ended

theorem nil_of_readOn (ended : readOn taken source = .ended rest) : taken = [] := by
  induction source generalizing taken with
  | nil => exact nil_of_stopped ended
  | cons event source ih =>
    cases event with
    | interrupted => exact ih ended
    | endMark => exact nil_of_stopped ended
    | fail => cases ended
    | data bytes =>
      rw [readOn] at ended
      split at ended
      · exact (List.append_eq_nil_iff.mp (ih ended)).1
      · cases ended

theorem readLine_ended_iff :
    (∃ rest, source.readLine = .ended rest) ↔ source.stream 0 = .endMark := by
  obtain ⟨rest, -, read⟩ := source.readOn_eq []
  rw [readLine, read]
  cases source.stream 0 with
  | endMark => exact iff_of_true ⟨rest, rfl⟩ rfl
  | fail cause => exact iff_of_false nofun nofun
  | byte b =>
    refine iff_of_false ?_ nofun
    rintro ⟨rest', ended⟩
    simp only at ended
    split at ended
    · cases ended
    · exact absurd (nil_of_readOn ended) (List.cons_ne_nil b [])

end Source

namespace Script

def Silent (t : Script) : Prop := ∀ sending ∈ t.sendings, sending.text = ""

theorem silent_prepend {texts : List String} {t : Script} : (t.prepend texts rest).Silent ↔
    (∀ text ∈ texts, text = "") ∧ t.Silent := by
  simp [Silent, prepend, or_imp, forall_and]

theorem silent_opening_iff : (∀ text ∈ opening s, text = "") ↔ s.quiet = true := by
  cases quiet : s.quiet with
  | true => simp [opening, prompting, quiet]
  | false =>
    refine iff_of_false (fun silent => ?_) nofun
    have header : s.header ++ "\n" = "" := silent _ (by simp [opening, quiet])
    simp at header

theorem not_silent_reply (line : String) : ¬∀ text ∈ reply s line, text = "" := by
  intro silent
  have feed : "\n" = "" := silent _ (by simp [reply])
  exact absurd feed (by decide)

theorem silent_ok_iff : (Script.of s source).Silent ∧ (Script.of s source).result = .ok () ↔
    s.quiet = true ∧ source.stream 0 = .endMark := by
  rw [Script.of, silent_prepend, silent_opening_iff, and_assoc, ← Source.readLine_ended_iff]
  refine and_congr_right fun quiet => ?_
  change (ofTurns s source).Silent ∧ (ofTurns s source).result = .ok () ↔ _
  cases read : source.readLine with
  | ended rest =>
    have closed : turn s source = .closing [] rest := by rw [turn, read, closing, if_pos quiet]
    rw [ofTurns, closed]
    exact iff_of_true ⟨silent_prepend.mpr (by simp [Silent]), rfl⟩ ⟨rest, rfl⟩
  | failed cause rest =>
    have broken : turn s source = .broken cause rest := by rw [turn, read]
    rw [ofTurns, broken]
    refine iff_of_false (fun ends => ?_) (fun ends => ?_)
    · cases ends.2
    · obtain ⟨_, ended⟩ := ends
      cases ended
  | line bytes rest =>
    have replied : turn s source = .reply (reply s (Utf8.decode (trimReturn bytes))) rest := by
      rw [turn, read]
    rw [ofTurns, replied, silent_prepend]
    refine iff_of_false (fun ends => not_silent_reply _ ends.1.1) (fun ends => ?_)
    obtain ⟨_, ended⟩ := ends
    cases ended

end Script

/-! Sessions without a buffer. -/

section Unbuffered

variable {full : Option String} {sendings front back : List Sending} {sending : Sending}

theorem encode_of_silent (silent : ∀ sending ∈ sendings, sending.text = "") :
    (sendings.map (·.text)).flatMap Utf8.encode = [] := by
  rw [List.flatMap_map, List.flatMap_eq_nil_iff]
  exact fun sending inside => encode_eq_nil_iff.mpr (silent sending inside)

theorem patient_unbuffered (full : Option String) : (Pipe.unbuffered full).chunk ≠ some 0 :=
  (Pipe.mirrors_start full).patient

theorem takes_unbuffered (light : full = none ∨ ∀ sending ∈ sendings, sending.text = "") :
    (Pipe.unbuffered full).Takes (sendings.map (·.text)) := by
  cases full with
  | none => exact Writer.AcceptsAll.takes ⟨rfl, patient_unbuffered none, rfl⟩ _
  | some cause =>
    have silent := light.resolve_left (Option.some_ne_none cause)
    refine ⟨fun room _ => ?_, fun n _ ⟨cause, fails⟩ => by cases fails⟩
    rw [encode_of_silent silent]
    exact Nat.zero_le room

theorem run_unbuffered_of_light (s : Settings) (source : Source) (full : Option String)
    (light : full = none ∨ (Script.of s source).Silent) :
    (run s (Pipe.unbuffered full) source).result = (Script.of s source).result ∧
      (run s (Pipe.unbuffered full) source).sink.accepted.toList =
        (Script.of s source).texts.flatMap Utf8.encode := by
  obtain ⟨v, sent, performed⟩ := perform_of_takes (Script.of s source).report
    (Script.of s source).sendings (patient_unbuffered full) (takes_unbuffered light)
  have nothing : (Pipe.unbuffered full).accepted.toList = [] := by cases full <;> rfl
  rw [run_eq_perform, performed]
  exact ⟨rfl, by rw [Script.report, sent.accepted, nothing]; rfl⟩

theorem run_unbuffered_of_shown (first : (Script.of s source).sendings = front ++ sending :: back)
    (silent : ∀ sending ∈ front, sending.text = "") (shown : sending.text ≠ "") :
    (run s (Pipe.unbuffered (some cause)) source).result = .error (.print cause) ∧
      (run s (Pipe.unbuffered (some cause)) source).rest = sending.rest ∧
      (run s (Pipe.unbuffered (some cause)) source).sink.accepted.toList = [] := by
  obtain ⟨v, sent, performed⟩ := perform_of_takes
    (perform (Script.of s source).report · (sending :: back)) front
    (patient_unbuffered (some cause)) (takes_unbuffered (.inr silent))
  have noRoom : v.room = some 0 := by
    rw [sent.room]
    exact congrArg some (Nat.zero_sub _)
  obtain ⟨u, refused, accepted, -⟩ := Writer.send_of_overrun
    (sent.chunk ▸ patient_unbuffered (some cause)) noRoom
    (List.length_pos_iff.mpr (mt encode_eq_nil_iff.mp shown))
  have nothing : v.accepted.toList = [] := by rw [sent.accepted, encode_of_silent silent]; rfl
  rw [run_eq_perform, first, perform_append, performed, perform, refused, sent.shortage]
  exact ⟨rfl, rfl, by rw [accepted, nothing]; rfl⟩

theorem Script.silent_or_shown (t : Script) : t.Silent ∨ ∃ front sending back,
    t.sendings = front ++ sending :: back ∧ (∀ sending ∈ front, sending.text = "") ∧
      sending.text ≠ "" := by
  cases found : t.sendings.find? (·.text ≠ "") with
  | none =>
    refine .inl fun sending inside => ?_
    simpa using List.find?_eq_none.mp found sending inside
  | some sending =>
    obtain ⟨shown, front, back, split, silent⟩ := List.find?_eq_some_iff_append.mp found
    exact .inr ⟨front, sending, back, split, by simpa using silent, by simpa using shown⟩

theorem run_unbuffered_ok_iff : (run s (Pipe.unbuffered (some cause)) source).result = .ok () ↔
    s.quiet = true ∧ source.stream 0 = .endMark := by
  rw [← Script.silent_ok_iff]
  rcases (Script.of s source).silent_or_shown with
    silent | ⟨front, sending, back, first, light, shown⟩
  · rw [(run_unbuffered_of_light s source _ (.inr silent)).1]
    exact ⟨fun ok => ⟨silent, ok⟩, fun ends => ends.2⟩
  · rw [(run_unbuffered_of_shown first light shown).1]
    refine iff_of_false nofun fun ends => shown (ends.1 sending ?_)
    rw [first]
    exact List.mem_append_right _ List.mem_cons_self

end Unbuffered

end Session

namespace Shell

open Session (Source Sending Script Failure)

/-- The session on ports without buffers. -/
def direct (s : Settings) (input : Source) (full : Option String) :
    Session.Report Session.Writer :=
  Session.run s (Session.Pipe.unbuffered full) input

structure Tells (s : Settings) (input : Source) (full : Option String) (outcome : Outcome) :
    Prop where
  output : outcome.output = (direct s input full).sink.accepted.toList
  succeeds : (direct s input full).result = .ok () → outcome.errors = "" ∧ outcome.status = 0
  fails : ∀ e, (direct s input full).result = .error e →
    outcome.errors = "REPL: " ++ e.message ++ "\n" ∧ outcome.status = 1
  working : full = none → (direct s input full).result = .ok () ∨
    ∃ cause, (direct s input full).result = .error (.read cause)
  refused : ∀ cause, full = some cause → ∀ front sending back,
    (Script.of s input).sendings = front ++ sending :: back →
    (∀ sending ∈ front, sending.text = "") → sending.text ≠ "" →
    outcome = ⟨[], "REPL: " ++ (Failure.print cause).message ++ "\n", 1⟩ ∧
      (direct s input full).rest = sending.rest
  silent : (Script.of s input).Silent → outcome.output = [] ∧ outcome = converse s input none
  quits : full ≠ none → (outcome.status = 0 ↔ s.quiet = true ∧ input.stream 0 = .endMark)

section Converse

variable {s : Settings} {input : Source} {full : Option String}

theorem result_session : (session s input full).result = (direct s input full).result :=
  (Session.Pipe.run_buffered s input full Source.capacity).1

theorem delivered_session : (session s input full).sink.delivered.toList =
    (direct s input full).sink.accepted.toList :=
  (Session.Pipe.run_buffered s input full Source.capacity).2.2

theorem converse_of_ok (ended : (direct s input full).result = .ok ()) :
    converse s input full = ⟨(direct s input full).sink.accepted.toList, "", 0⟩ := by
  rw [converse, result_session, ended, ← delivered_session]

theorem converse_of_error {e : Failure} (ended : (direct s input full).result = .error e) :
    converse s input full =
      ⟨(direct s input full).sink.accepted.toList, "REPL: " ++ e.message ++ "\n", 1⟩ := by
  rw [converse, result_session, ended, ← delivered_session]

theorem status_converse_eq_zero_iff :
    (converse s input full).status = 0 ↔ (direct s input full).result = .ok () := by
  cases ended : (direct s input full).result with
  | ok => exact iff_of_true (by rw [converse_of_ok ended]) rfl
  | error e => exact iff_of_false (by rw [converse_of_error ended]; exact nofun) nofun

theorem output_converse :
    (converse s input full).output = (direct s input full).sink.accepted.toList := by
  cases ended : (direct s input full).result with
  | ok => rw [converse_of_ok ended]
  | error e => rw [converse_of_error ended]

theorem converse_congr {full' : Option String}
    (result : (direct s input full).result = (direct s input full').result)
    (output : (direct s input full).sink.accepted.toList =
      (direct s input full').sink.accepted.toList) :
    converse s input full = converse s input full' := by
  rw [converse, converse, result_session, delivered_session, result, output, ← result_session,
    ← delivered_session]

end Converse

theorem tells_converse (s : Settings) (input : Source) (full : Option String) :
    Tells s input full (converse s input full) := by
  constructor
  case output => exact output_converse
  case succeeds =>
    intro ended
    rw [converse_of_ok ended]
    exact ⟨rfl, rfl⟩
  case fails =>
    intro e ended
    rw [converse_of_error ended]
    exact ⟨rfl, rfl⟩
  case working =>
    intro works
    have ended := (Session.run_unbuffered_of_light s input full (.inl works)).1
    rw [direct, ended]
    exact Session.result_of s input
  case refused =>
    rintro cause rfl front sending back first light shown
    obtain ⟨ended, rest, nothing⟩ := Session.run_unbuffered_of_shown first light shown
    refine ⟨(converse_of_error ended).trans ?_, rest⟩
    rw [direct, nothing]
  case silent =>
    intro silent
    obtain ⟨ended, accepted⟩ := Session.run_unbuffered_of_light s input full (.inr silent)
    obtain ⟨ended', accepted'⟩ := Session.run_unbuffered_of_light s input none (.inr silent)
    refine ⟨?_, converse_congr (ended.trans ended'.symm) (accepted.trans accepted'.symm)⟩
    rw [output_converse, direct, accepted]
    exact Session.encode_of_silent silent
  case quits =>
    intro full
    obtain ⟨cause, rfl⟩ := Option.ne_none_iff_exists'.mp full
    exact status_converse_eq_zero_iff.trans Session.run_unbuffered_ok_iff

/-- What the program does with any arguments, any input and either state of its output. -/
theorem invoke_refines_session (arguments : List String) (input : Source) (full : Option String)
    (trace : Breakdown → Trace) :
    (∀ r, Command.parse arguments = .error r → invoke arguments input full trace =
      ⟨[], "error: " ++ r.message ++ "\n\n" ++ Command.usage ++ "\n", 1⟩) ∧
    (Command.parse arguments = .ok .help → full = none → invoke arguments input full trace =
      ⟨Utf8.encode (Command.usage ++ "\n"), "", 0⟩) ∧
    ∀ s, Command.parse arguments = .ok (.session s) →
      Tells s input full (invoke arguments input full trace) := by
  refine ⟨fun r parsed => ?_, fun parsed works => ?_, fun s parsed => ?_⟩ <;> rw [invoke, parsed]
  · rfl
  · rw [works]
    rfl
  · exact tells_converse s input full

theorem invoke_refines_session_of_quiet :
    (invoke ["-q"] [.interrupted] (some "no space")).status = 0 ∧
      (invoke ["-q"] [.data [0x0A]] (some "no space")).status ≠ 0 := by
  have parsed : Command.parse ["-q"] = .ok (.session { quiet := true }) := rfl
  obtain ⟨-, -, empty⟩ := invoke_refines_session ["-q"] [.interrupted] (some "no space") fun _ => .ofUsage
  obtain ⟨-, -, line⟩ := invoke_refines_session ["-q"] [.data [0x0A]] (some "no space") fun _ => .ofUsage
  have full : some "no space" ≠ none := Option.some_ne_none _
  refine ⟨((empty _ parsed).quits full).mpr ⟨rfl, rfl⟩, fun zero => ?_⟩
  cases (((line _ parsed).quits full).mp zero).2

end Shell

end SchemeCore
