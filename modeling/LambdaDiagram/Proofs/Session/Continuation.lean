import LambdaDiagram.Program
import LambdaDiagram.Proofs.Session.Refusal
import LambdaDiagram.Proofs.Text.Stream

/-! Inputs that are entered over several lines. A dialogue takes its lines in groups, each made up of
lines to be continued and one that completes the input, so every text can be entered by continuing it
at each of its line feeds. The only inputs that a dialogue does not get past are those that lead to a
report on an empty source. -/
namespace LambdaDiagram

namespace Session

def exchanges (session : Session) : List String → List Exchange
  | [] => []
  | input :: rest =>
    ⟨input, (session.respond input).2⟩ :: (session.respond input).1.exchanges rest

def after (session : Session) : List String → Session
  | [] => session
  | input :: rest => (session.respond input).1.after rest

/-- Inputs can be answered in two parts, the second one by the session that
the first one leads to. -/
theorem exchanges_append (session : Session) (front back : List String) :
    session.exchanges (front ++ back) =
      session.exchanges front ++ (session.after front).exchanges back := by
  induction front generalizing session with
  | nil => rfl
  | cons input rest ih => simp only [List.cons_append, exchanges, after, ih]

/-- None of the inputs leads to a report on an empty source, so all reports
can be drawn. -/
def DrawsReports (session : Session) (inputs : List String) : Prop :=
  ∀ exchange ∈ session.exchanges inputs, exchange.reply.reportSource? ≠ some ""

/-- The condition for a list of inputs is one for each input, given the
session at that point. -/
theorem drawsReports_cons {session : Session} {input : String} {rest : List String} :
    session.DrawsReports (input :: rest) ↔
      (session.respond input).2.reportSource? ≠ some "" ∧
        (session.respond input).1.DrawsReports rest :=
  List.forall_mem_cons

theorem drawsReports_append {session : Session} {front back : List String} :
    session.DrawsReports (front ++ back) ↔
      session.DrawsReports front ∧ (session.after front).DrawsReports back := by
  rw [DrawsReports, exchanges_append]
  exact List.forall_mem_append

/-- An answer is all there is to an evaluation if no report on an empty source
is called for. -/
theorem evaluate_of_drawn {session : Session} {input : String}
    (hDrawn : (session.respond input).2.reportSource? ≠ some "") :
    session.evaluate input = .ok (session.respond input) := by
  rw [Reply.reportSource?] at hDrawn
  cases hRejection : (session.respond input).2.rejection? with
  | none => simp only [evaluate, hRejection]
  | some rejection =>
      rw [hRejection, Option.map_some] at hDrawn
      have hSource : rejection.source ≠ "" := fun hEmpty => hDrawn (congrArg some hEmpty)
      simp only [evaluate, hRejection, if_neg hSource]

/-- The only report on an empty source is the one that the source is empty,
and an evaluation that calls for it fails. -/
theorem evaluate_of_undrawn {session : Session} {input : String}
    (hUndrawn : (session.respond input).2.reportSource? = some "") :
    session.evaluate input = .error ⟨"", .emptyText 0⟩ := by
  obtain ⟨rejection, hRejection, hSource⟩ := Option.map_eq_some_iff.mp hUndrawn
  have hReply : (session.respond input).2.diagnostic = some (.rejected rejection) := by
    rw [Reply.rejection?] at hRejection
    split at hRejection
    · next rejection' hDiagnostic => rw [hDiagnostic, Option.some.inj hRejection]
    · cases hRejection
  have hError : Term.parse rejection.source = .error rejection.error := by
    rw [respond] at hReply
    split at hReply
    · cases hReply
    · obtain ⟨-, hText, hFailed⟩ := handle_of_rejected hReply
      rw [hText]
      exact (perform_error hFailed).2
  have hEmpty : Term.parse "" = .error (.emptyText 0) := by decide +kernel
  obtain ⟨source, e⟩ := rejection
  obtain rfl : source = "" := hSource
  rw [hEmpty] at hError
  cases hError
  simp only [evaluate, hRejection, if_pos]

/-- To evaluate an input is to answer it, except for reports on an empty
source. -/
theorem evaluate_eq (session : Session) (input : String) :
    session.evaluate input =
      if (session.respond input).2.reportSource? = some "" then .error ⟨"", .emptyText 0⟩
      else .ok (session.respond input) := by
  by_cases hUndrawn : (session.respond input).2.reportSource? = some ""
  · rw [if_pos hUndrawn, evaluate_of_undrawn hUndrawn]
  · rw [if_neg hUndrawn, evaluate_of_drawn hUndrawn]

end Session

/-- An input as it is entered: the lines to be continued, without the
backslashes at their ends, and the line that completes it. -/
structure Entry where
  continued : List String
  last : String
  last_completes : last.toList.getLast? ≠ some '\\'

namespace Entry

def lines (entry : Entry) : List String :=
  entry.continued.map (· ++ "\\") ++ [entry.last]

/-- The input that the lines make up. Every continued line contributes its
text and a line feed. -/
def input (entry : Entry) : String :=
  String.join (entry.continued.map (· ++ "\n")) ++ entry.last

def prepend (text : String) (entry : Entry) : Entry :=
  { entry with continued := text :: entry.continued }

end Entry

theorem exists_eq_append_backslash {line : String} (hLast : line.toList.getLast? = some '\\') :
    ∃ text, line = text ++ "\\" := by
  obtain ⟨front, hFront⟩ := List.getLast?_eq_some_iff.mp hLast
  refine ⟨String.ofList front, String.toList_inj.mp ?_⟩
  simpa using hFront

/-- Lines form entries one after the other, up to some lines at the end that
are never continued. -/
theorem exists_entries (lines : List String) :
    ∃ (entries : List Entry) (pending : List String),
      lines = entries.flatMap Entry.lines ++ pending.map (· ++ "\\") := by
  induction lines with
  | nil => exact ⟨[], [], rfl⟩
  | cons line rest ih =>
      obtain ⟨entries, pending, rfl⟩ := ih
      by_cases hLast : line.toList.getLast? = some '\\'
      · obtain ⟨text, rfl⟩ := exists_eq_append_backslash hLast
        cases entries with
        | nil => exact ⟨[], text :: pending, rfl⟩
        | cons entry entries => exact ⟨entry.prepend text :: entries, pending, rfl⟩
      · exact ⟨⟨[], line, hLast⟩ :: entries, pending, rfl⟩

namespace Dialogue

theorem continued?_append_backslash (text : String) :
    continued? (text ++ "\\") = some (text ++ "\n") := by
  have hLast : (text ++ "\\").toList.getLast? = some '\\' := by simp
  have hPart : (text ++ "\\").toList.dropLast ++ ['\n'] = (text ++ "\n").toList := by simp
  rw [continued?, if_pos hLast, hPart, String.ofList_toList]

/-- Continued lines collect in the pending text and lead to no exchange. -/
theorem run_continued (saveError : Option String) (session : Session) (pending : String)
    (continued : List String) (rest : List (Except Text.LineError String)) :
    run saveError ⟨session, pending⟩ ((continued.map (· ++ "\\")).map .ok ++ rest) =
      run saveError ⟨session, pending ++ String.join (continued.map (· ++ "\n"))⟩ rest := by
  induction continued generalizing pending with
  | nil => simp
  | cons text continued ih =>
      have hTake : take ⟨session, pending⟩ (.ok (text ++ "\\")) =
          ⟨none, .ok ⟨session, pending ++ (text ++ "\n")⟩⟩ := by
        simp only [take, continued?_append_backslash]
      rw [List.map_cons, List.map_cons, List.cons_append, run, hTake]
      simp only [Turn.saved, Turn.toSave?, Option.map_none, Option.filter_none, Option.toList_none,
        List.nil_append, ih, List.map_cons, String.join_cons, String.append_assoc]

/-- The last line of an entry completes its input, which is evaluated with
nothing left pending. -/
theorem take_last (session : Session) (entry : Entry) :
    take ⟨session, String.join (entry.continued.map (· ++ "\n"))⟩ (.ok entry.last) =
      match session.evaluate entry.input with
      | .error rejection => ⟨none, .error (.report rejection)⟩
      | .ok (next, reply) => ⟨some ⟨entry.input, reply⟩, .ok ⟨next, ""⟩⟩ := by
  rw [take, continued?, if_neg entry.last_completes]
  rfl

section Entry

variable {saveError : Option String} {session : Session} {entry : Entry}

/-- The lines of an entry are taken as one: all that counts is the turn of the
last one. -/
theorem run_entry (rest : List (Except Text.LineError String)) :
    run saveError ⟨session, ""⟩ (entry.lines.map .ok ++ rest) =
      run saveError ⟨session, String.join (entry.continued.map (· ++ "\n"))⟩
        (.ok entry.last :: rest) := by
  rw [Entry.lines, List.map_append, List.append_assoc, run_continued, String.empty_append]
  rfl

/-- An entry whose evaluation fails ends the dialogue with a report and
without an exchange. -/
theorem run_entry_of_undrawn {rejection : Rejection}
    (hUndrawn : session.evaluate entry.input = .error rejection)
    (rest : List (Except Text.LineError String)) :
    run saveError ⟨session, ""⟩ (entry.lines.map .ok ++ rest) =
      ⟨[], some (.report rejection)⟩ := by
  rw [run_entry, run, take_last, hUndrawn]
  rfl

/-- An entry that has to be saved and cannot be is answered, and ends the
dialogue then. -/
theorem run_entry_of_unsaved {reason : String}
    (hDrawn : (session.respond entry.input).2.reportSource? ≠ some "") (hInput : entry.input ≠ "")
    (rest : List (Except Text.LineError String)) :
    run (some reason) ⟨session, ""⟩ (entry.lines.map .ok ++ rest) =
      ⟨session.exchanges [entry.input], some (.history reason)⟩ := by
  rw [run_entry, run, take_last, Session.evaluate_of_drawn hDrawn]
  simp only [Turn.saved_of_toSave? (Turn.toSave?_of_input_ne hInput _ _), Option.toList_some,
    Session.exchanges]

/-- Any other entry is answered, and the dialogue goes on with the session
that answered it. -/
theorem run_entry_of_saved (hDrawn : (session.respond entry.input).2.reportSource? ≠ some "")
    (hSaved : saveError = none ∨ entry.input = "") (rest : List (Except Text.LineError String)) :
    run saveError ⟨session, ""⟩ (entry.lines.map .ok ++ rest) =
      let tail := run saveError ⟨(session.respond entry.input).1, ""⟩ rest
      ⟨⟨entry.input, (session.respond entry.input).2⟩ :: tail.exchanges, tail.failure⟩ := by
  have hKept : ∀ reply next, Turn.saved saveError ⟨some ⟨entry.input, reply⟩, next⟩ =
      ⟨some ⟨entry.input, reply⟩, next⟩ := by
    intro reply next
    apply Turn.saved_eq_self
    exact hSaved.imp_right fun hEmpty => by simp [Turn.toSave?, hEmpty]
  rw [run_entry, run, take_last, Session.evaluate_of_drawn hDrawn]
  simp only [hKept, Option.toList_some, List.singleton_append]

end Entry

/-- A dialogue gets past entries as long as it can draw their reports, and as
long as nothing has to be saved that cannot be. -/
theorem run_saved_entries {saveError : Option String} {session : Session} {entries : List Entry}
    (hDrawn : session.DrawsReports (entries.map Entry.input))
    (hSaved : ∀ entry ∈ entries, saveError = none ∨ entry.input = "")
    (rest : List (Except Text.LineError String)) :
    run saveError ⟨session, ""⟩ ((entries.flatMap Entry.lines).map .ok ++ rest) =
      let inputs := entries.map Entry.input
      let tail := run saveError ⟨session.after inputs, ""⟩ rest
      ⟨session.exchanges inputs ++ tail.exchanges, tail.failure⟩ := by
  induction entries generalizing session with
  | nil => rfl
  | cons entry entries ih =>
      obtain ⟨hFirst, hRest⟩ := List.forall_mem_cons.mp hSaved
      obtain ⟨hDrawnFirst, hDrawnRest⟩ := Session.drawsReports_cons.mp hDrawn
      rw [List.flatMap_cons, List.map_append, List.append_assoc,
        run_entry_of_saved hDrawnFirst hFirst]
      simp only [ih hDrawnRest hRest]
      rfl

/-- A dialogue whose inputs can all be saved and whose reports can all be
drawn answers them in order. Lines that are never continued are dropped at the
end. -/
theorem run_entries {session : Session} {entries : List Entry}
    (hDrawn : session.DrawsReports (entries.map Entry.input)) (pending : List String) :
    run none { session } ((entries.flatMap Entry.lines ++ pending.map (· ++ "\\")).map .ok) =
      ⟨session.exchanges (entries.map Entry.input), none⟩ := by
  have hPending : ∀ next : Session,
      run none { session := next } ((pending.map (· ++ "\\")).map .ok) = ⟨[], none⟩ := by
    intro next
    have hContinued := run_continued none next "" pending []
    rwa [List.append_nil] at hContinued
  rw [List.map_append, run_saved_entries hDrawn (fun _ _ => Or.inl rfl)]
  simp only [hPending, List.append_nil]

/-- The first report on an empty source ends a dialogue. Every input before it
has been answered, and none after it is looked at. -/
theorem run_until_undrawn {session : Session} {entries : List Entry} {front others : List String}
    {input : String} (hInputs : entries.map Entry.input = front ++ input :: others)
    (hDrawn : session.DrawsReports front)
    (hUndrawn : ((session.after front).respond input).2.reportSource? = some "")
    (pending : List String) :
    run none { session } ((entries.flatMap Entry.lines ++ pending.map (· ++ "\\")).map .ok) =
      ⟨session.exchanges front, some (.report ⟨"", .emptyText 0⟩)⟩ := by
  obtain ⟨frontEntries, rest, rfl, rfl, hRest⟩ := List.map_eq_append_iff.mp hInputs
  obtain ⟨entry, back, rfl, rfl, rfl⟩ := List.map_eq_cons_iff.mp hRest
  rw [List.flatMap_append, List.flatMap_cons]
  simp only [List.map_append, List.append_assoc]
  rw [run_saved_entries hDrawn (fun _ _ => Or.inl rfl)]
  simp only [run_entry_of_undrawn (Session.evaluate_of_undrawn hUndrawn), List.append_nil]

end Dialogue

/-- A character of a text as it is typed: a line feed needs a backslash before
it. -/
def escape (c : Char) : List Char :=
  if c = '\n' then ['\\', '\n'] else [c]

/-- A text as it is typed in a dialogue: a backslash before every line feed in
it, and a line feed of its own at the end. -/
def typed (text : String) : String :=
  String.ofList (text.toList.flatMap escape) ++ "\n"

theorem flatMap_escape {piece : List Char} (hPiece : '\n' ∉ piece) :
    piece.flatMap escape = piece := by
  induction piece with
  | nil => rfl
  | cons c rest ih =>
      rw [List.mem_cons, not_or] at hPiece
      rw [List.flatMap_cons, ih hPiece.2, escape, if_neg (Ne.symm hPiece.1), List.singleton_append]

/-- A text consists of pieces without line feeds, all but the last one
followed by a line feed. -/
theorem exists_pieces (text : List Char) :
    ∃ (front : List (List Char)) (last : List Char),
      text = front.flatMap (· ++ ['\n']) ++ last ∧
      (∀ piece ∈ front, '\n' ∉ piece) ∧ '\n' ∉ last := by
  induction text with
  | nil => exact ⟨[], [], rfl, by simp, by simp⟩
  | cons c rest ih =>
      obtain ⟨front, last, rfl, hFront, hLast⟩ := ih
      by_cases hChar : c = '\n'
      · refine ⟨[] :: front, last, by simp [hChar], ?_, hLast⟩
        exact List.forall_mem_cons.mpr ⟨by simp, hFront⟩
      · cases front with
        | nil => exact ⟨[], c :: last, by simp, by simp, by simp [Ne.symm hChar, hLast]⟩
        | cons piece front =>
            obtain ⟨hPiece, hRest⟩ := List.forall_mem_cons.mp hFront
            refine ⟨(c :: piece) :: front, last, by simp, ?_, hLast⟩
            exact List.forall_mem_cons.mpr ⟨by simp [Ne.symm hChar, hPiece], hRest⟩

/-- A text is typed piece by piece, with a backslash and a line feed behind
each piece but the last. -/
theorem toList_typed {text : String} {front : List (List Char)} {last : List Char}
    (hText : text.toList = front.flatMap (· ++ ['\n']) ++ last)
    (hFront : ∀ piece ∈ front, '\n' ∉ piece) (hLast : '\n' ∉ last) :
    (typed text).toList = front.flatMap (· ++ ['\\', '\n']) ++ last ++ ['\n'] := by
  have hPieces : (front.flatMap (· ++ ['\n'])).flatMap escape =
      front.flatMap (· ++ ['\\', '\n']) := by
    rw [List.flatMap_assoc, List.flatMap_def, List.flatMap_def]
    apply congrArg List.flatten
    apply List.map_congr_left
    intro piece hPiece
    rw [List.flatMap_append, flatMap_escape (hFront piece hPiece)]
    rfl
  rw [typed, String.toList_append, String.toList_ofList, hText, List.flatMap_append, hPieces,
    flatMap_escape hLast]
  rfl

/-- A piece with the backslash at its end is a line that comes back as it was
written. -/
theorem isLine_append_backslash {piece : List Char} (hNewline : '\n' ∉ piece)
    (hBackspace : Text.backspace ∉ piece) : Text.IsLine (String.ofList piece ++ "\\") where
  no_newline := by simpa using hNewline
  no_backspace := by simpa [Text.backspace] using hBackspace
  no_final_return := by simp

/-- A text is entered by the lines that typing it produces, and they are read
as they were typed. The text ends as its last piece does, unless that piece is
empty; so the last line completes the input. -/
theorem exists_entry_typed {text : String} (hBackspace : Text.backspace ∉ text.toList)
    (hBackslash : text.toList.getLast? ≠ some '\\') (hReturn : text.toList.getLast? ≠ some '\r') :
    ∃ entry : Entry, entry.input = text ∧
      String.join (entry.lines.map (· ++ "\n")) = typed text ∧
      ∀ line ∈ entry.lines, Text.IsLine line := by
  obtain ⟨front, last, hText, hFront, hLast⟩ := exists_pieces text.toList
  have hEnd : ∀ c, text.toList.getLast? ≠ some c → last.getLast? ≠ some c := by
    intro c hOther hSome
    apply hOther
    rw [hText, List.getLast?_append, hSome, Option.some_or]
  rw [hText, List.mem_append, not_or, List.mem_flatMap] at hBackspace
  refine ⟨⟨front.map String.ofList, String.ofList last, ?_⟩, ?_, ?_, ?_⟩
  · simpa using hEnd _ hBackslash
  · apply String.toList_inj.mp
    simp [Entry.input, List.flatMap_map, hText]
  · apply String.toList_inj.mp
    simp [Entry.lines, List.flatMap_map, toList_typed hText hFront hLast]
  · intro line hLine
    rcases List.mem_append.mp hLine with hContinued | hCompleting
    · simp only [List.map_map, List.mem_map, Function.comp_apply] at hContinued
      obtain ⟨piece, hPiece, rfl⟩ := hContinued
      apply isLine_append_backslash (hFront piece hPiece)
      intro hMem
      exact hBackspace.1 ⟨piece, hPiece, List.mem_append_left _ hMem⟩
    · obtain rfl := List.mem_singleton.mp hCompleting
      exact ⟨by simpa using hLast, by simpa using hBackspace.2, by simpa using hEnd _ hReturn⟩

/-- Texts that are typed one after the other are read as the lines of entries
for them. -/
theorem exists_entries_typed {decode : Text.LineReader} (hReads : Text.ReadsLines decode)
    {texts : List String}
    (hTexts : ∀ text ∈ texts, Text.backspace ∉ text.toList ∧
      text.toList.getLast? ∉ [some '\\', some '\r']) :
    ∃ entries : List Entry, entries.map Entry.input = texts ∧
      Text.readLines decode (Text.utf8Bytes (String.join (texts.map typed))) =
        (entries.flatMap Entry.lines).map .ok := by
  have hEntries : ∃ entries : List Entry, entries.map Entry.input = texts ∧
      String.join ((entries.flatMap Entry.lines).map (· ++ "\n")) = String.join (texts.map typed) ∧
      ∀ line ∈ entries.flatMap Entry.lines, Text.IsLine line := by
    induction texts with
    | nil => exact ⟨[], rfl, rfl, by simp⟩
    | cons text texts ih =>
        obtain ⟨hText, hRest⟩ := List.forall_mem_cons.mp hTexts
        simp only [List.mem_cons, List.not_mem_nil, or_false, not_or] at hText
        obtain ⟨entry, hInput, hTyped, hLines⟩ := exists_entry_typed hText.1 hText.2.1 hText.2.2
        obtain ⟨entries, hInputs, hTypedRest, hLinesRest⟩ := ih hRest
        refine ⟨entry :: entries, ?_, ?_, ?_⟩
        · rw [List.map_cons, hInput, hInputs]
        · rw [List.flatMap_cons, List.map_append, String.join_append, hTyped, hTypedRest,
            List.map_cons, String.join_cons]
        · rw [List.flatMap_cons]
          exact List.forall_mem_append.mpr ⟨hLines, hLinesRest⟩
  obtain ⟨entries, hInputs, hTyped, hLines⟩ := hEntries
  refine ⟨entries, hInputs, ?_⟩
  rw [← hTyped, Text.readLines_of_isLine hReads hLines]

/-- Without a command among its arguments the program holds a dialogue, with
the budget and the history that the arguments give. -/
theorem runProgram_eq_ofTranscript {decode : Text.LineReader} {arguments : List String}
    {options : Options} (hArguments : Request.ofArguments arguments = .ok (.run options))
    (hCommand : options.command = none) (saveError : String → Option String)
    (stdin : List UInt8) :
    runProgram decode saveError arguments stdin = .ofTranscript
      (Dialogue.run (saveError options.historyPath) ⟨{ budget := options.budget }, ""⟩
        (Text.readLines decode stdin)) := by
  simp only [runProgram, hArguments, hCommand]

/-- A dialogue that comes to its end prints the banner, its replies in order
and the farewell. -/
theorem Outcome.output_of_completion (exchanges : List Exchange) :
    (ofTranscript ⟨exchanges, none⟩).output =
      banner ++ String.join (exchanges.map fun exchange => exchange.reply.output) ++ farewell := by
  simp only [ofTranscript, ofReplies, List.map_map]
  rfl

/-- To evaluate an input is to answer it, unless the answer is a report on an
empty source. Lines form entries, up to some at the end that are never
continued. A dialogue evaluates the inputs of the entries in order and nothing
else, up to the first one that leads to such a report, if there is one; at
this one it breaks off. Hence texts that are typed one after the other, none
of them with a backspace in it or with a backslash or a carriage return at its
end, and none of them leading to such a report, are evaluated in one session
as they are, between the banner and the farewell. Of the way in which lines
are read it matters only that lines without characters of a special meaning
come back as they were written. -/
theorem dialogue_evaluates_entries_in_order :
    (∀ (session : Session) (input : String), session.evaluate input =
      if (session.respond input).2.reportSource? = some "" then .error ⟨"", .emptyText 0⟩
      else .ok (session.respond input)) ∧
    (∀ lines : List String, ∃ (entries : List Entry) (pending : List String),
      lines = entries.flatMap Entry.lines ++ pending.map (· ++ "\\")) ∧
    (∀ (session : Session) (entries : List Entry) (pending : List String),
      let inputs := entries.map Entry.input
      let transcript := Dialogue.run none { session }
        ((entries.flatMap Entry.lines ++ pending.map (· ++ "\\")).map .ok)
      ((∀ exchange ∈ session.exchanges inputs, exchange.reply.reportSource? ≠ some "") →
        transcript = ⟨session.exchanges inputs, none⟩) ∧
      ∀ front input others, inputs = front ++ input :: others →
        (∀ exchange ∈ session.exchanges front, exchange.reply.reportSource? ≠ some "") →
        ((session.after front).respond input).2.reportSource? = some "" →
        transcript = ⟨session.exchanges front, some (.report ⟨"", .emptyText 0⟩)⟩) ∧
    Text.ReadsLines Text.decodeLine ∧
    ∀ (decode : Text.LineReader) (saveError : String → Option String) (arguments : List String)
      (options : Options) (texts : List String), Text.ReadsLines decode →
      Request.ofArguments arguments = .ok (.run options) →
      options.command = none → saveError options.historyPath = none →
      (∀ text ∈ texts, Text.backspace ∉ text.toList ∧
        text.toList.getLast? ∉ [some '\\', some '\r']) →
      let exchanges := Session.exchanges { budget := options.budget } texts
      (∀ exchange ∈ exchanges, exchange.reply.reportSource? ≠ some "") →
      let outcome :=
        runProgram decode saveError arguments (Text.utf8Bytes (String.join (texts.map typed)))
      outcome.exitCode = 0 ∧
        outcome.output = banner ++
          String.join (exchanges.map fun exchange => exchange.reply.output) ++ "Bye!\n" := by
  refine ⟨Session.evaluate_eq, exists_entries, ?_, Text.readsLines_decodeLine, ?_⟩
  · intro session entries pending inputs transcript
    exact ⟨fun hDrawn => Dialogue.run_entries hDrawn pending,
      fun front input others hInputs hDrawn hUndrawn =>
        Dialogue.run_until_undrawn hInputs hDrawn hUndrawn pending⟩
  · intro decode saveError arguments options texts hReads hArguments hCommand hSaved hTexts exchanges
      hDrawn outcome
    obtain ⟨entries, rfl, hLines⟩ := exists_entries_typed hReads hTexts
    have hRun := Dialogue.run_entries hDrawn []
    rw [List.map_nil, List.append_nil] at hRun
    have hOutcome : outcome = .ofTranscript ⟨exchanges, none⟩ := by
      rw [← hRun, ← hLines, ← hSaved]
      exact runProgram_eq_ofTranscript hArguments hCommand saveError _
    rw [hOutcome]
    exact ⟨rfl, Outcome.output_of_completion exchanges⟩

/-- Of the typed texts, two continue over several lines, one of them after a
carriage return and one after a backslash; the first is a redex, and the last
cannot be read. In a dialogue about an entry of two lines, a command without
an expression and another term, the command is the last input that is looked
at. -/
theorem dialogue_evaluates_entries_in_order_past_returns :
    let texts := ["(λx.x\r\n\n) y", ":step", "", "\\x.\\\n)"]
    let stdin := "(λx.x\r\\\n\\\n) y\n:step\n\n\\x.\\\\\n)\n"
    let session : Session := { budget := 1000 }
    let exchanges := session.exchanges texts
    let outcome := runProgram Text.decodeLine (fun _ => none) [] (Text.utf8Bytes stdin)
    ((∀ text ∈ texts, Text.backspace ∉ text.toList ∧
      text.toList.getLast? ∉ [some '\\', some '\r']) ∧
    exchanges.map (fun exchange => exchange.reply.reportSource?) =
      [none, none, none, some "\\x.\\\n)"] ∧
    outcome.exitCode = 0 ∧
      outcome.output = banner ++
        String.join (exchanges.map fun exchange => exchange.reply.output) ++ "Bye!\n") ∧
    ((session.exchanges ["y\nz", ":parse"]).map (fun exchange => exchange.reply.reportSource?) =
      [none, some ""] ∧
    Dialogue.run none { session } (["y\\", "z", "w\\"].map .ok) =
      ⟨session.exchanges ["y\nz"], none⟩ ∧
    Dialogue.run none { session } (["y\\", "z", ":parse", "x"].map .ok) =
      ⟨session.exchanges ["y\nz"], some (.report ⟨"", .emptyText 0⟩)⟩) := by
  intro texts stdin session exchanges outcome
  have hTexts : ∀ text ∈ texts, Text.backspace ∉ text.toList ∧
      text.toList.getLast? ∉ [some '\\', some '\r'] := by decide +kernel
  have hSources : exchanges.map (fun exchange => exchange.reply.reportSource?) =
      [none, none, none, some "\\x.\\\n)"] := by decide +kernel
  have hDrawn : ∀ exchange ∈ exchanges, exchange.reply.reportSource? ≠ some "" := by
    decide +kernel
  have hStdin : String.join (texts.map typed) = stdin := by decide +kernel
  have hCommand : (session.exchanges ["y\nz", ":parse"]).map
      (fun exchange => exchange.reply.reportSource?) = [none, some ""] := by decide +kernel
  have hFirst : ∀ exchange ∈ session.exchanges ["y\nz"],
      exchange.reply.reportSource? ≠ some "" := by decide +kernel
  have hUndrawn : ((session.after ["y\nz"]).respond ":parse").2.reportSource? = some "" := by
    decide +kernel
  obtain ⟨-, -, hDialogue, hReads, hProgram⟩ := dialogue_evaluates_entries_in_order
  have hRun := hProgram Text.decodeLine (fun _ => none) [] {} texts hReads rfl rfl rfl hTexts hDrawn
  rw [hStdin] at hRun
  have hComplete := (hDialogue session [⟨["y"], "z", by decide⟩] ["w"]).1 hFirst
  have hBroken := (hDialogue session
    [⟨["y"], "z", by decide⟩, ⟨[], ":parse", by decide⟩, ⟨[], "x", by decide⟩] []).2
    ["y\nz"] ":parse" ["x"] rfl hFirst hUndrawn
  exact ⟨⟨hTexts, hSources, hRun⟩, hCommand, hComplete, hBroken⟩

end LambdaDiagram
