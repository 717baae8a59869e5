import SchemeCore.Command
import Mathlib.Data.List.Basic
import Mathlib.Data.List.Perm.Basic

/-! What a list of arguments comes to, told without reading it from left to right. The first argument
that decides gives the answer, whatever comes after it. Where none decides, each text for the prompt
replaces the one before and the wish for quiet is never taken back, so that the order of arguments
matters only among those that set the prompt. -/

namespace SchemeCore.Command

def Prompts (argument text : String) : Prop := argument = "--prompt=" ++ text

def Quiets (argument : String) : Prop := argument = "--quiet" ∨ argument = "-q"

def AsksHelp (argument : String) : Prop := argument = "--help" ∨ argument = "-h"

instance (argument : String) : Decidable (Quiets argument) := inferInstanceAs (Decidable (_ ∨ _))

instance (argument : String) : Decidable (AsksHelp argument) := inferInstanceAs (Decidable (_ ∨ _))

/-- An argument decides when it asks for help or sets nothing up. -/
def Decides (argument : String) : Prop :=
  AsksHelp argument ∨ ¬((∃ text, Prompts argument text) ∨ Quiets argument)

def verdict (argument : String) : Except Rejection Command :=
  if AsksHelp argument then .ok .help
  else if argument.toList.head? = some '-' then .error (.unknownOption argument)
  else .error (.unexpectedArgument argument)

def prompts (arguments : List String) : List String := arguments.filterMap promptText?

structure Configures (arguments : List String) (s : Settings) : Prop where
  header : s.header = ({} : Settings).header
  footer : s.footer = ({} : Settings).footer
  quiet : s.quiet = true ↔ ∃ argument ∈ arguments, Quiets argument
  prompt : ∀ front argument text back, arguments = front ++ argument :: back →
    Prompts argument text → (∀ later ∈ back, ∀ other, ¬Prompts later other) → s.prompt = text
  standard : (∀ argument ∈ arguments, ∀ text, ¬Prompts argument text) →
    s.prompt = ({} : Settings).prompt

variable {s : Settings} {argument text : String} {arguments front back rest : List String}

/-! One argument. -/

theorem promptText?_eq_some_iff : promptText? argument = some text ↔ Prompts argument text := by
  rw [promptText?, Option.map_eq_some_iff, Prompts, ← String.toList_inj, String.toList_append]
  simp only [List.isPrefixOf?_eq_some_iff_append_eq]
  constructor
  · rintro ⟨tail, split, rfl⟩
    exact (String.toList_ofList (l := tail)).symm ▸ split.symm
  · intro split
    exact ⟨text.toList, split.symm, String.ofList_toList⟩

theorem promptText?_eq_none_iff :
    promptText? argument = none ↔ ∀ text, ¬Prompts argument text := by
  simp only [Option.eq_none_iff_forall_ne_some, Ne, promptText?_eq_some_iff]

theorem parseWith_of_prompts (sets : Prompts argument text) :
    parseWith s (argument :: rest) = parseWith { s with prompt := text } rest := by
  rw [parseWith, Argument.of, promptText?_eq_some_iff.mpr sets]

theorem not_prompts_of_quiets (quiets : Quiets argument) : promptText? argument = none := by
  rcases quiets with rfl | rfl <;> decide

theorem decides_iff : Decides argument ↔ promptText? argument = none ∧ ¬Quiets argument := by
  rw [Decides, not_or, not_exists, ← promptText?_eq_none_iff]
  refine or_iff_right_of_imp ?_
  rintro (rfl | rfl) <;> decide

instance (argument : String) : Decidable (Decides argument) := decidable_of_iff' _ decides_iff

theorem parseWith_of_quiets (quiets : Quiets argument) :
    parseWith s (argument :: rest) = parseWith { s with quiet := true } rest := by
  have kind : Argument.of argument = .quiet := by
    rw [Argument.of, not_prompts_of_quiets quiets]
    exact if_pos quiets
  rw [parseWith, kind]

theorem parseWith_of_decides (decides : Decides argument) :
    parseWith s (argument :: rest) = verdict argument := by
  have bare := decides_iff.mp decides
  have kind : Argument.of argument =
      if AsksHelp argument then .help
      else if argument.toList.head? = some '-' then .option else .word := by
    rw [Argument.of, bare.1]
    exact if_neg bare.2
  rw [parseWith, kind, verdict]
  split_ifs <;> rfl

theorem sets_of_not_decides (setsUp : ¬Decides argument) :
    (∃ text, Prompts argument text) ∨ Quiets argument :=
  not_not.mp (not_or.mp setsUp).2

/-! All arguments. -/

theorem parseWith_append (undecided : ∀ b ∈ front, ¬Decides b) (decides : Decides argument) :
    parseWith s (front ++ argument :: back) = verdict argument := by
  induction front generalizing s with
  | nil => exact parseWith_of_decides decides
  | cons b front ih =>
    have later : ∀ c ∈ front, ¬Decides c := fun c mem => undecided c (List.mem_cons_of_mem b mem)
    rcases sets_of_not_decides (undecided b List.mem_cons_self) with ⟨text, sets⟩ | quiets
    · rw [List.cons_append, parseWith_of_prompts sets, ih later]
    · rw [List.cons_append, parseWith_of_quiets quiets, ih later]

def configured (s : Settings) (arguments : List String) : Settings :=
  { s with
    prompt := (prompts arguments).getLast?.getD s.prompt
    quiet := s.quiet || arguments.any (decide <| Quiets ·) }

theorem parseWith_of_undecided (undecided : ∀ a ∈ arguments, ¬Decides a) :
    parseWith s arguments = .ok (.session (configured s arguments)) := by
  induction arguments generalizing s with
  | nil => simp [parseWith, configured, prompts]
  | cons a arguments ih =>
    have later : ∀ c ∈ arguments, ¬Decides c := fun c mem =>
      undecided c (List.mem_cons_of_mem a mem)
    rcases sets_of_not_decides (undecided a List.mem_cons_self) with ⟨text, sets⟩ | quiets
    · have found := promptText?_eq_some_iff.mpr sets
      have loud : ¬Quiets a := fun quiets => by
        rw [not_prompts_of_quiets quiets] at found
        cases found
      rw [parseWith_of_prompts sets, ih later]
      simp [configured, prompts, found, loud, List.getLast?_cons]
    · rw [parseWith_of_quiets quiets, ih later]
      simp [configured, prompts, not_prompts_of_quiets quiets, quiets]

theorem configures_configured (arguments : List String) :
    Configures arguments (configured {} arguments) where
  header := rfl
  footer := rfl
  quiet := by simp [configured]
  prompt front argument text back split sets last := by
    have none : prompts back = [] := by
      rw [prompts, List.filterMap_eq_nil_iff]
      exact fun later mem => promptText?_eq_none_iff.mpr (last later mem)
    have found := promptText?_eq_some_iff.mpr sets
    have texts : prompts arguments = prompts front ++ [text] := by
      rw [split, prompts, List.filterMap_append, List.filterMap_cons_some found]
      exact congrArg (prompts front ++ text :: ·) none
    simp [configured, texts]
  standard never := by
    have none : prompts arguments = [] := by
      rw [prompts, List.filterMap_eq_nil_iff]
      exact fun a mem => promptText?_eq_none_iff.mpr (never a mem)
    simp [configured, none]

theorem exists_first_decides (arguments : List String) : (∀ a ∈ arguments, ¬Decides a) ∨
    ∃ front a back, arguments = front ++ a :: back ∧ (∀ b ∈ front, ¬Decides b) ∧ Decides a := by
  induction arguments with
  | nil => exact .inl nofun
  | cons a arguments ih =>
    by_cases decides : Decides a
    · exact .inr ⟨[], a, arguments, rfl, nofun, decides⟩
    · rcases ih with never | ⟨front, b, back, rfl, before, first⟩
      · exact .inl (List.forall_mem_cons.mpr ⟨decides, never⟩)
      · exact .inr ⟨a :: front, b, back, rfl, List.forall_mem_cons.mpr ⟨decides, before⟩, first⟩

theorem undecided_of_session (accepted : parse arguments = .ok (.session s)) :
    ∀ a ∈ arguments, ¬Decides a := by
  rcases exists_first_decides arguments with never | ⟨front, a, back, rfl, before, decides⟩
  · exact never
  · rw [parse, parseWith_append before decides, verdict] at accepted
    split_ifs at accepted
    cases accepted

/-- Reading arguments: the first that decides gives the answer; otherwise all of them set up a
session, in which the order of those that do not set the prompt makes no difference. -/
theorem parse_by_first_deciding (arguments : List String) :
    (∀ front a back, arguments = front ++ a :: back → (∀ b ∈ front, ¬Decides b) → Decides a →
      parse arguments = verdict a) ∧
    ((∀ a ∈ arguments, ¬Decides a) →
      ∃ s, parse arguments = .ok (.session s) ∧ Configures arguments s) ∧
    ∀ s others, parse arguments = .ok (.session s) → others.Perm arguments →
      prompts others = prompts arguments → parse others = .ok (.session s) := by
  refine ⟨?_, fun undecided => ?_, fun s others accepted perm same => ?_⟩
  · rintro front a back rfl before decides
    exact parseWith_append before decides
  · exact ⟨_, parseWith_of_undecided undecided, configures_configured arguments⟩
  · have undecided := undecided_of_session accepted
    have alike : configured {} others = configured {} arguments := by
      rw [configured, configured, same, perm.any_eq]
    rw [parse, parseWith_of_undecided undecided] at accepted
    rw [parse, parseWith_of_undecided fun a mem => undecided a (perm.mem_iff.mp mem), alike,
      accepted]

theorem parse_by_first_deciding_of_lookalikes :
    parse ["--prompt=--help", "-", "-h"] = .error (.unknownOption "-") ∧
    ∃ s : Settings, s.prompt = "" ∧ s.quiet = true ∧
      parse ["--prompt=--help", "-q", "--prompt="] = .ok (.session s) ∧
      parse ["-q", "--prompt=--help", "--prompt="] = .ok (.session s) := by
  obtain ⟨decided, -, -⟩ := parse_by_first_deciding ["--prompt=--help", "-", "-h"]
  obtain ⟨-, accepted, reordered⟩ :=
    parse_by_first_deciding ["--prompt=--help", "-q", "--prompt="]
  obtain ⟨s, parsed, adds⟩ := accepted (by decide)
  have dash := decided ["--prompt=--help"] "-" ["-h"] rfl (by decide) (by decide)
  refine ⟨dash.trans (by decide), s, ?_, ?_, parsed, ?_⟩
  · exact adds.prompt ["--prompt=--help", "-q"] "--prompt=" "" [] rfl rfl nofun
  · exact adds.quiet.mpr ⟨"-q", by simp, .inr rfl⟩
  · exact reordered s _ parsed (.swap ..) (by decide)

end SchemeCore.Command
