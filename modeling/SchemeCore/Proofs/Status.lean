import SchemeCore.Proofs.Shell
import SchemeCore.Proofs.Transcript
import SchemeCore.Proofs.Utf8

/-! How the program tells of failures. In a session a failure to read or to write is reported, with
the status of a failure, and so are arguments that are rejected. But the program breaks off over a
word of its command line that is no text, and over an output that does not take the usage text. -/

namespace SchemeCore

namespace Session.Script

variable {s : Settings} {source : Source}

theorem tells (s : Settings) (source : Source) :
    (Script.of s source).result = (Transcript.of [] source.marks).result ∧
      (Script.of s source).texts.flatMap Utf8.encode =
        Utf8.encode ((Transcript.of [] source.marks).output s) := by
  have accepts : (Pipe.unbuffered none).AcceptsAll := ⟨rfl, by decide, rfl⟩
  obtain ⟨ended, accepted⟩ := run_unbuffered_of_light s source none (.inl rfl)
  obtain ⟨result, took, -⟩ := run_tells (s := s) accepts source
  have all := took.accepted
  rw [accepted, encode_texts] at all
  exact ⟨ended.symm.trans result, all⟩

theorem silent_iff :
    (Script.of s source).Silent ↔ (Transcript.of [] source.marks).output s = "" := by
  rw [← encode_eq_nil_iff, ← (tells s source).2, Script.texts, List.flatMap_map,
    List.flatMap_eq_nil_iff]
  exact forall₂_congr fun sending _ => encode_eq_nil_iff.symm

end Session.Script

namespace Shell

open Session (Source Transcript Script)

/-- The input cannot be read as far as the session goes, or there is something to show that the
output does not take. -/
def SessionFails (s : Settings) (input : Source) (full : Option String) : Prop :=
  let t := Transcript.of [] input.marks
  t.failure? ≠ none ∨ full ≠ none ∧ t.output s ≠ ""

def InvokeFails (arguments : List String) (input : Source) (full : Option String) : Prop :=
  match Command.parse arguments with
  | .error _ => True
  | .ok .help => full ≠ none
  | .ok (.session s) => SessionFails s input full

def StartFails (words : List (List UInt8)) (input : Source) (full : Option String) : Prop :=
  match texts words with
  | .error _ => True
  | .ok texts => InvokeFails (texts.drop 1) input full

def Undecodable (words : List (List UInt8)) : Prop :=
  ∃ word ∈ words, ∀ text, Utf8.encode text ≠ word

def AsksForHelp (words : List (List UInt8)) : Prop :=
  ∃ texts : List String, words = texts.map Utf8.encode ∧ Command.parse (texts.drop 1) = .ok .help

/-- The program ends with one of its two statuses, and with a message and the status of a failure
exactly when something fails. -/
structure Reports (outcome : Outcome) (fails : Prop) : Prop where
  ends : outcome.status = 0 ∨ outcome.status = 1
  status : outcome.status = 1 ↔ fails
  message : outcome.errors ≠ "" ↔ fails

theorem reports_success {fails : Prop} (well : ¬fails) (output : List UInt8) :
    Reports ⟨output, "", 0⟩ fails :=
  ⟨.inl rfl, iff_of_false nofun well, iff_of_false (fun told => told rfl) well⟩

theorem reports_failure {fails : Prop} (failed : fails) (output : List UInt8) {errors : String}
    (told : errors ≠ "") : Reports ⟨output, errors, 1⟩ fails :=
  ⟨.inr rfl, iff_of_true rfl failed, iff_of_true told failed⟩

/-! Sessions. -/

section Session

variable {s : Settings} {input : Source} {full : Option String}

theorem result_direct_eq_ok_iff :
    (direct s input full).result = .ok () ↔ ¬SessionFails s input full := by
  have result : (Script.of s input).result = .ok () ↔
      (Transcript.of [] input.marks).failure? = none := by
    rw [(Script.tells s input).1, Transcript.result]
    cases (Transcript.of [] input.marks).failure? <;> simp
  cases full with
  | none =>
    rw [direct, (Session.run_unbuffered_of_light s input none (.inl rfl)).1, result]
    simp [SessionFails]
  | some cause =>
    rw [direct, Session.run_unbuffered_ok_iff, ← Session.Script.silent_ok_iff, result,
      Script.silent_iff]
    simp [SessionFails, and_comm]

theorem reports_converse : Reports (converse s input full) (SessionFails s input full) := by
  cases ended : (direct s input full).result with
  | ok =>
    rw [converse_of_ok ended]
    exact reports_success (result_direct_eq_ok_iff.mp ended) _
  | error e =>
    have failed := mt result_direct_eq_ok_iff.mpr (by rw [ended]; exact nofun)
    rw [converse_of_error ended]
    exact reports_failure (Classical.not_not.mp failed) _ (by simp)

end Session

/-! The words of the command line. -/

section Words

variable {words : List (List UInt8)} {word : List UInt8} {decoded : List String}

theorem texts_eq_ok_iff : texts words = .ok decoded ↔ words = decoded.map Utf8.encode := by
  induction words generalizing decoded with
  | nil => cases decoded <;> simp [texts]
  | cons word words ih =>
    cases decoded with
    | nil =>
      rw [texts]
      cases Utf8.decode? word <;> cases texts words <;> simp [Except.map]
    | cons first decoded =>
      rw [texts, List.map_cons, List.cons.injEq, ← ih, eq_comm (a := word),
        ← Utf8.decode?_eq_some_iff]
      cases Utf8.decode? word <;> cases texts words <;> simp [Except.map]

theorem undecodable_of_error (failed : texts words = .error word) : Undecodable words := by
  induction words with
  | nil => cases failed
  | cons first words ih =>
    rw [texts] at failed
    cases known : Utf8.decode? first with
    | none =>
      refine ⟨first, List.mem_cons_self, fun text same => ?_⟩
      rw [← same, Utf8.decode?_encode] at known
      cases known
    | some text =>
      cases rest : texts words with
      | ok decoded => simp [known, rest, Except.map] at failed
      | error other =>
        rw [known, rest] at failed
        cases failed
        obtain ⟨word, inside, none⟩ := ih rest
        exact ⟨word, List.mem_cons_of_mem _ inside, none⟩

theorem not_undecodable (told : texts words = .ok decoded) : ¬Undecodable words := by
  rintro ⟨word, inside, none⟩
  rw [texts_eq_ok_iff.mp told] at inside
  obtain ⟨text, -, same⟩ := List.mem_map.mp inside
  exact none text same

theorem asksForHelp_iff (told : texts words = .ok decoded) :
    AsksForHelp words ↔ Command.parse (decoded.drop 1) = .ok .help := by
  constructor
  · rintro ⟨others, same, help⟩
    cases told.symm.trans (texts_eq_ok_iff.mpr same)
    exact help
  · exact fun help => ⟨decoded, texts_eq_ok_iff.mp told, help⟩

end Words

/-! The program as a whole. -/

section Program

variable {arguments : List String} {words : List (List UInt8)} {input : Source}
  {full : Option String} {trace : Breakdown → Trace}

theorem not_reports_broken {fails : Prop} (b : Breakdown) :
    ¬Reports (.broken trace b) fails := by
  intro reports
  rcases reports.ends with success | failure
  · cases success
  · cases failure

theorem reports_invoke (written : ¬(Command.parse arguments = .ok .help ∧ full ≠ none)) :
    Reports (invoke arguments input full trace) (InvokeFails arguments input full) := by
  rw [invoke, InvokeFails]
  cases parsed : Command.parse arguments with
  | error r => exact reports_failure trivial _ (by simp)
  | ok command =>
    cases command with
    | help =>
      obtain rfl := Classical.not_not.mp fun full => written ⟨parsed, full⟩
      exact reports_success (not_not_intro rfl) _
    | session s => exact reports_converse

theorem broken_or_reports (words : List (List UInt8)) (input : Source) (full : Option String)
    (trace : Breakdown → Trace) :
    (Undecodable words ∨ AsksForHelp words ∧ full ≠ none) ∧
        (∃ b, start words input full trace = .broken trace b) ∨
      ¬(Undecodable words ∨ AsksForHelp words ∧ full ≠ none) ∧
        Reports (start words input full trace) (StartFails words input full) := by
  rw [start, StartFails]
  cases told : texts words with
  | error word => exact .inl ⟨.inl (undecodable_of_error told), _, rfl⟩
  | ok decoded =>
    rw [or_iff_right (not_undecodable told), asksForHelp_iff told]
    by_cases unwritten : Command.parse (decoded.drop 1) = .ok .help ∧ full ≠ none
    · obtain ⟨help, lacking⟩ := unwritten
      obtain ⟨cause, rfl⟩ := Option.ne_none_iff_exists'.mp lacking
      refine .inl ⟨⟨help, lacking⟩, .unprinted cause, ?_⟩
      simp only [invoke, help, showUsage]
    · exact .inr ⟨unwritten, reports_invoke unwritten⟩

/-- The program reports what fails, unless a word of its command line is no text or it is the usage
text that cannot be written: then it breaks off, with a status that says neither of success nor of
failure. -/
theorem reports_failures_iff (words : List (List UInt8)) (input : Source) (full : Option String)
    (trace : Breakdown → Trace) :
    (Reports (start words input full trace) (StartFails words input full) ↔
      ¬(Undecodable words ∨ AsksForHelp words ∧ full ≠ none)) ∧
    ((start words input full trace).status = 101 ↔
      Undecodable words ∨ AsksForHelp words ∧ full ≠ none) := by
  rcases broken_or_reports words input full trace with ⟨broken, b, outcome⟩ | ⟨whole, reports⟩
  · rw [outcome]
    exact ⟨iff_of_false (not_reports_broken b) (not_not_intro broken), iff_of_true rfl broken⟩
  · refine ⟨iff_of_true reports whole, iff_of_false (fun abnormal => ?_) whole⟩
    have ends := reports.ends
    omega

theorem not_reports_usage_unwritten :
    ¬Reports
      (start (["scm", "--help"].map Utf8.encode) []
        (some "No space left on device (os error 28)") fun _ => .ofUsage)
      (StartFails (["scm", "--help"].map Utf8.encode) []
        (some "No space left on device (os error 28)")) := by
  have help : AsksForHelp (["scm", "--help"].map Utf8.encode) := ⟨_, rfl, rfl⟩
  rcases broken_or_reports (["scm", "--help"].map Utf8.encode) []
    (some "No space left on device (os error 28)") fun _ => .ofUsage with ⟨-, b, outcome⟩ | ⟨whole, -⟩
  · rw [outcome]
    exact not_reports_broken b
  · exact absurd (.inr ⟨help, Option.some_ne_none _⟩) whole

end Program

end Shell

end SchemeCore
