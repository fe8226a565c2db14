import LambdaDiagram.Session

/-! How a command line is taken apart. Blanks in front of the command word are skipped only if a space
follows the word. On a line without such a space they belong to the word, which then names no
command. -/
namespace LambdaDiagram

namespace Verb

/-- The words that name a command, short forms included; the empty word enters
a term. -/
def words : List String :=
  ["", "to", "tokenize", "p", "parse", "l", "layout", "s", "step", "b", "beta", "n", "normalize",
    "h", "he", "hel", "help"]

theorem ofWord_of_notMem {word : String} (hWord : word ∉ words) : ofWord word = .unknown word := by
  simp only [words, List.mem_cons, List.not_mem_nil, or_false, not_or] at hWord
  simp [ofWord, hWord]

/-- No command begins with a blank, so a word with blanks in front is unknown
even if the rest of it is not. -/
theorem ofWord_of_blank_first {word : String} {c : Char} (hHead : word.toList.head? = some c)
    (hBlank : Text.isBlank c = true) : ofWord word = .unknown word := by
  apply ofWord_of_notMem
  intro hMem
  have hWords : ∀ known ∈ words, known.toList.head?.any Text.isBlank = false := by decide +kernel
  have hFirst := hWords word hMem
  rw [hHead, Option.any_some, hBlank] at hFirst
  cases hFirst

/-- The complaint quotes the word letter by letter. -/
theorem eq_of_ofWord_eq_unknown {word other : String} (hWord : ofWord word = .unknown other) :
    word = other := by
  unfold ofWord at hWord
  repeat' split at hWord
  all_goals cases hWord
  rfl

end Verb

namespace Command

theorem splitWord_append {word : List Char} (hWord : word ≠ [])
    (hBlank : word.any Text.isBlank = false) (text : List Char) :
    splitWord (word ++ ' ' :: text) = (word, text) := by
  rw [List.any_eq_false] at hBlank
  have hTrimmed : (word ++ ' ' :: text).dropWhile Text.isBlank = word ++ ' ' :: text := by
    cases word with
    | nil => exact absurd rfl hWord
    | cons first word => simp [hBlank first]
  have hNoSpace : ∀ c ∈ word, decide (c ≠ ' ') = true := by
    intro c hMem
    apply decide_eq_true
    rintro rfl
    exact hBlank ' ' hMem (by decide)
  rw [splitWord, hTrimmed, if_pos (by simp), List.takeWhile_append_of_pos hNoSpace,
    List.dropWhile_append_of_pos hNoSpace]
  simp

/-- Without a space behind the word, all that is left of the line is the word,
blanks in front included. -/
theorem splitWord_of_no_space {rest : List Char} (hSpace : ' ' ∉ rest.dropWhile Text.isBlank) :
    splitWord rest = (rest, []) := by
  rw [splitWord, if_neg hSpace]

theorem dropWhile_blanks_append {blanks : List Char} (hBlanks : blanks.all Text.isBlank = true)
    (rest : List Char) : (blanks ++ rest).dropWhile Text.isBlank = rest.dropWhile Text.isBlank :=
  List.dropWhile_append_of_pos (List.all_eq_true.mp hBlanks)

theorem splitWord_blanks_append {blanks rest : List Char} (hBlanks : blanks.all Text.isBlank = true)
    (hSpace : ' ' ∈ rest.dropWhile Text.isBlank) : splitWord (blanks ++ rest) = splitWord rest := by
  rw [splitWord, splitWord, dropWhile_blanks_append hBlanks, if_pos hSpace, if_pos hSpace]

/-- A line that begins with a colon is taken apart into the word and the text
behind it. -/
theorem ofLine_colon (rest : String) :
    ofLine (":" ++ rest) =
      ⟨Verb.ofWord (String.ofList (splitWord rest.toList).1),
        String.ofList (splitWord rest.toList).2⟩ := by
  have hLine : (":" ++ rest).toList = ':' :: rest.toList := by
    rw [String.toList_append]
    rfl
  simp only [ofLine, hLine]

/-- A word without blanks names the command, and all behind the space after it
is the text. -/
theorem ofLine_word {word : String} (hWord : word.toList ≠ [])
    (hBlank : word.toList.any Text.isBlank = false) (text : String) :
    ofLine (":" ++ word ++ " " ++ text) = ⟨Verb.ofWord word, text⟩ := by
  have hLine : (word ++ (" " ++ text)).toList = word.toList ++ ' ' :: text.toList := by
    rw [String.toList_append, String.toList_append]
    rfl
  rw [String.append_assoc, String.append_assoc, ofLine_colon, hLine, splitWord_append hWord hBlank,
    String.ofList_toList, String.ofList_toList]

theorem ofLine_lone_word {word : String} (hSpace : ' ' ∉ word.toList.dropWhile Text.isBlank) :
    ofLine (":" ++ word) = ⟨Verb.ofWord word, ""⟩ := by
  rw [ofLine_colon, splitWord_of_no_space hSpace, String.ofList_toList]

end Command

namespace Session

/-- An unknown command prints the help, is complained about and leaves the
session as it was. -/
theorem handle_of_unknown (session : Session) {line word : String}
    (hVerb : (Command.ofLine line).verb = .unknown word) :
    session.handle line = (session, ⟨[.help], some (.unknownCommand word)⟩) := by
  simp only [handle, perform, hVerb, complaint?]

theorem verb_of_complaint {verb : Verb} {word : String}
    (hComplaint : complaint? verb = some (.unknownCommand word)) : verb = .unknown word := by
  cases verb with
  | unknown other =>
      cases hComplaint
      rfl
  | _ => cases hComplaint

/-- Only a line whose word names no command is complained about as such. -/
theorem verb_of_unknownCommand {session : Session} {line word : String}
    (hReply : (session.handle line).2.diagnostic = some (.unknownCommand word)) :
    (Command.ofLine line).verb = .unknown word := by
  rw [handle] at hReply
  cases hResult : session.perform (Command.ofLine line) with
  | error e => simp [hResult] at hReply
  | ok result =>
      rw [hResult] at hReply
      exact verb_of_complaint hReply

/-- Blanks before a lone word become a part of it, and no command has such a
name. -/
theorem handle_blanks_lone_word (session : Session) {blanks rest : String}
    (hBlanks : Text.isBlankText blanks = true) (hSome : blanks ≠ "")
    (hSpace : ' ' ∉ rest.toList.dropWhile Text.isBlank) :
    session.handle (":" ++ blanks ++ rest) =
      (session, ⟨[.help], some (.unknownCommand (blanks ++ rest))⟩) := by
  have hTrimmed : ' ' ∉ (blanks ++ rest).toList.dropWhile Text.isBlank := by
    rwa [String.toList_append, Command.dropWhile_blanks_append hBlanks]
  have hHead : ∃ c, (blanks ++ rest).toList.head? = some c ∧ Text.isBlank c = true := by
    cases hChars : blanks.toList with
    | nil => exact absurd (String.toList_eq_nil_iff.mp hChars) hSome
    | cons c more =>
        refine ⟨c, by rw [String.toList_append, hChars]; rfl, ?_⟩
        exact List.all_eq_true.mp hBlanks c (by rw [hChars]; exact List.mem_cons_self)
  obtain ⟨c, hFirst, hBlank⟩ := hHead
  apply handle_of_unknown
  rw [String.append_assoc, Command.ofLine_lone_word hTrimmed]
  exact Verb.ofWord_of_blank_first hFirst hBlank

/-- Blanks between the colon and the command word change nothing exactly if a
space follows the word, or if there are none. Otherwise they are taken for a
part of the word: the line is answered as an unknown command, and the session
stays as it was. Since the complaint quotes the word, no other line is
answered in the same way. -/
theorem blanks_before_word_are_skipped_iff (session : Session) (blanks rest : String)
    (hBlanks : Text.isBlankText blanks = true) :
    (session.handle (":" ++ blanks ++ rest) = session.handle (":" ++ rest) ↔
      blanks = "" ∨ ' ' ∈ rest.toList.dropWhile Text.isBlank) ∧
    (blanks ≠ "" → ' ' ∉ rest.toList.dropWhile Text.isBlank →
      session.handle (":" ++ blanks ++ rest) =
        (session, ⟨[.help], some (.unknownCommand (blanks ++ rest))⟩)) := by
  refine ⟨⟨?_, ?_⟩, fun hSome => session.handle_blanks_lone_word hBlanks hSome⟩
  · intro hSame
    by_cases hSpace : ' ' ∈ rest.toList.dropWhile Text.isBlank
    · exact Or.inr hSpace
    · refine Or.inl (Decidable.byContradiction fun hSome => hSome ?_)
      rw [session.handle_blanks_lone_word hBlanks hSome hSpace] at hSame
      have hVerb := verb_of_unknownCommand (congrArg (·.2.diagnostic) hSame.symm)
      rw [Command.ofLine_lone_word hSpace] at hVerb
      have hLength := congrArg String.length (Verb.eq_of_ofWord_eq_unknown hVerb)
      rw [String.length_append] at hLength
      exact String.length_eq_zero_iff.mp (by omega)
  · rintro (rfl | hSpace)
    · rw [String.append_empty]
    · have hCommand : Command.ofLine (":" ++ blanks ++ rest) = Command.ofLine (":" ++ rest) := by
        rw [String.append_assoc, Command.ofLine_colon, Command.ofLine_colon, String.toList_append,
          Command.splitWord_blanks_append hBlanks hSpace]
      rw [handle, handle, hCommand]

/-- A tab and a space in front of the word are skipped, because a space
follows it. -/
theorem blanks_before_word_with_argument_are_skipped :
    let session : Session := ⟨10, none⟩
    (Text.isBlankText "\t " = true ∧ ' ' ∈ "step (λx.x) y".toList.dropWhile Text.isBlank) ∧
      session.handle (":" ++ "\t " ++ "step (λx.x) y") = session.handle (":" ++ "step (λx.x) y") := by
  intro session
  have hBlanks : Text.isBlankText "\t " = true := by decide
  have hSpace : ' ' ∈ "step (λx.x) y".toList.dropWhile Text.isBlank := by decide
  exact ⟨⟨hBlanks, hSpace⟩,
    (blanks_before_word_are_skipped_iff session "\t " "step (λx.x) y" hBlanks).1.mpr (Or.inr hSpace)⟩

/-- The space in front of the word makes the line an unknown command; without
it a step is taken. -/
theorem blank_before_lone_word_is_not_skipped :
    let session : Session := ⟨10, some (.app (.abs "x" (.var "x")) (.var "y"))⟩
    Text.isBlankText " " = true ∧
      session.handle (":" ++ " " ++ "step") =
        (session, ⟨[.help], some (.unknownCommand " step")⟩) ∧
      (session.handle (":" ++ "step")).1.current = some (.var "y") ∧
      session.handle (":" ++ " " ++ "step") ≠ session.handle (":" ++ "step") := by
  decide +kernel

end Session

end LambdaDiagram
