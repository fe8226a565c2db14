import LambdaDiagram.Proofs.Session.Farewell
import LambdaDiagram.Proofs.Text.Stream

/-! Dialogues that break off although all their reports can be drawn. There are two ways for this: a
line cannot be read, or an input cannot be saved in the history. The first of the two to happen
decides, and either way every input before it has been answered in full and none after it has been
looked at. How lines are read plays no part in this. -/
namespace LambdaDiagram

namespace Dialogue

/-- An input that has to be saved and cannot be is still answered; it is the
last one. -/
theorem run_until_unsaved {session : Session} {empties : List Entry} {entry : Entry}
    (hDrawn : session.DrawsReports (empties.map Entry.input ++ [entry.input]))
    (hEmpties : ∀ entry ∈ empties, entry.input = "") (hEntry : entry.input ≠ "") (reason : String)
    (rest : List (Except Text.LineError String)) :
    run (some reason) ⟨session, ""⟩
        ((empties.flatMap Entry.lines).map .ok ++ (entry.lines.map .ok ++ rest)) =
      ⟨session.exchanges (empties.map Entry.input ++ [entry.input]), some (.history reason)⟩ := by
  obtain ⟨hFront, hLast⟩ := Session.drawsReports_append.mp hDrawn
  rw [run_saved_entries hFront (fun entry hMem => Or.inr (hEmpties entry hMem))]
  simp only [run_entry_of_unsaved (Session.drawsReports_cons.mp hLast).1 hEntry,
    Session.exchanges_append]

/-- A line that cannot be read ends the dialogue, and the lines that wait to
be continued go with it. -/
theorem run_until_unreadable {saveError : Option String} {session : Session} {entries : List Entry}
    (hDrawn : session.DrawsReports (entries.map Entry.input))
    (hSaved : ∀ entry ∈ entries, saveError = none ∨ entry.input = "") (pending : List String)
    (e : Text.LineError) (rest : List (Except Text.LineError String)) :
    run saveError ⟨session, ""⟩
        ((entries.flatMap Entry.lines ++ pending.map (· ++ "\\")).map .ok ++ .error e :: rest) =
      ⟨session.exchanges (entries.map Entry.input), some (.line e)⟩ := by
  have hTake : ∀ dialogue : Dialogue, (dialogue.take (.error e)).saved saveError =
      ⟨none, .error (.line e)⟩ := fun dialogue => Turn.saved_eq_self (Or.inr rfl)
  rw [List.map_append, List.append_assoc, run_saved_entries hDrawn hSaved]
  simp only [run_continued, run, hTake, Option.toList_none, List.append_nil]

section Stream

variable {decode : Text.LineReader} {stdin : List UInt8} {entries : List Entry}
  {pending : List String}
  (hLines : Text.readLines decode (Text.readablePart decode stdin) =
    (entries.flatMap Entry.lines ++ pending.map (· ++ "\\")).map .ok)

include hLines

/-- A dialogue over a stream ends with the first input that has to be saved
and cannot be. What is behind that input, readable or not, makes no
difference. -/
theorem run_readLines_until_unsaved {session : Session} {empties others : List String}
    {input : String} (hDrawn : session.DrawsReports (empties ++ [input]))
    (hInputs : entries.map Entry.input = empties ++ input :: others)
    (hEmpties : ∀ empty ∈ empties, empty = "") (hInput : input ≠ "") (reason : String) :
    run (some reason) ⟨session, ""⟩ (Text.readLines decode stdin) =
      ⟨session.exchanges (empties ++ [input]), some (.history reason)⟩ := by
  obtain ⟨front, rest, rfl, rfl, hRest⟩ := List.map_eq_append_iff.mp hInputs
  obtain ⟨entry, back, rfl, rfl, rfl⟩ := List.map_eq_cons_iff.mp hRest
  have hUntil := run_until_unsaved hDrawn (List.forall_mem_map.mp hEmpties) hInput reason
    ((back.flatMap Entry.lines ++ pending.map (· ++ "\\")).map .ok ++
      ((Text.rawLines stdin).dropWhile (Text.isReadable decode)).map decode)
  rw [Text.readLines_eq_append, hLines]
  simpa only [List.flatMap_append, List.flatMap_cons, List.map_append, List.append_assoc]
    using hUntil

/-- A dialogue over a stream that is not ended by its history ends with the
first line that cannot be read, for a reason that the bytes of the line tell. -/
theorem run_readLines_until_unreadable (hDecode : Text.RefusesInvalid decode)
    {saveError : Option String} {session : Session}
    (hDrawn : session.DrawsReports (entries.map Entry.input))
    (hSaved : saveError = none ∨ ∀ input ∈ entries.map Entry.input, input = "")
    {raw : List UInt8}
    (hFirst : (Text.rawLines stdin).find? (!Text.isReadable decode ·) = some raw) :
    run saveError ⟨session, ""⟩ (Text.readLines decode stdin) =
      ⟨session.exchanges (entries.map Entry.input), some (.line
        (if String.fromUTF8? raw.toByteArray = none then .invalidText else .splitCharacter))⟩ := by
  obtain ⟨rest, hStdin⟩ := Text.exists_readLines_eq_append_error hDecode hFirst
  have hEntries : ∀ entry ∈ entries, saveError = none ∨ entry.input = "" := by
    intro entry hEntry
    exact hSaved.imp_right (fun hEmpty => hEmpty _ (List.mem_map_of_mem hEntry))
  rw [hStdin, hLines]
  exact run_until_unreadable hDrawn hEntries pending _ rest

end Stream

end Dialogue

/-- What is printed for some of the inputs stands at the beginning of what is
printed for all. -/
theorem Session.printout_append_prefix (session : Session) (front back : List String) :
    (session.printout front).toList <+: (session.printout (front ++ back) ++ farewell).toList := by
  rw [Session.printout, Session.printout, Session.exchanges_append, List.map_append,
    String.join_append]
  simp only [String.toList_append, List.append_assoc]
  exact List.prefix_append_right_inj _ |>.mpr (List.prefix_append _ _)

/-- After a failure nothing is printed any more, so the replies come last. -/
theorem Outcome.output_of_failure (session : Session) (inputs : List String) (failure : Failure) :
    (ofTranscript ⟨session.exchanges inputs, some failure⟩).output = session.printout inputs := by
  simp only [ofTranscript, ofReplies, List.map_map]
  rfl

section Program

variable {decode : Text.LineReader} {arguments : List String} {options : Options}
  (hArguments : Request.ofArguments arguments = .ok (.run options))
  (hCommand : options.command = none)

include hArguments hCommand

/-- The readable part of a stream is a complete dialogue if its inputs can be
saved and its reports can be drawn. -/
theorem runProgram_readablePart {stdin : List UInt8} {entries : List Entry} {pending : List String}
    (hLines : Text.readLines decode (Text.readablePart decode stdin) =
      (entries.flatMap Entry.lines ++ pending.map (· ++ "\\")).map .ok)
    (hDrawn : Session.DrawsReports { budget := options.budget } (entries.map Entry.input)) :
    let complete := runProgram decode (fun _ => none) arguments (Text.readablePart decode stdin)
    complete.exitCode = 0 ∧ complete.output =
      Session.printout { budget := options.budget } (entries.map Entry.input) ++ farewell := by
  intro complete
  have hComplete : complete = .ofTranscript
      ⟨Session.exchanges { budget := options.budget } (entries.map Entry.input), none⟩ := by
    rw [← Dialogue.run_entries hDrawn pending, ← hLines]
    exact runProgram_eq_ofTranscript hArguments hCommand _ _
  rw [hComplete]
  exact ⟨rfl, Outcome.output_of_completion _⟩

/-- A program whose dialogue fails prints the beginning of what it would print
for more inputs, and no farewell. -/
theorem runProgram_of_failure {saveError : String → Option String} {stdin : List UInt8}
    {front : List String} {failure : Failure} (back : List String)
    (hRun : Dialogue.run (saveError options.historyPath) ⟨{ budget := options.budget }, ""⟩
        (Text.readLines decode stdin) =
      ⟨Session.exchanges { budget := options.budget } front, some failure⟩) :
    let session : Session := { budget := options.budget }
    let outcome := runProgram decode saveError arguments stdin
    outcome.exitCode = failure.exitCode ∧ outcome.output = session.printout front ∧
      ¬ "Bye!".toList <:+: outcome.output.toList ∧
      outcome.output.toList <+: (session.printout (front ++ back) ++ farewell).toList := by
  intro session outcome
  have hSession : session.IsSpellable := by
    intro t hCurrent
    cases hCurrent
  have hOutcome : outcome = .ofTranscript ⟨session.exchanges front, some failure⟩ := by
    rw [← hRun]
    exact runProgram_eq_ofTranscript hArguments hCommand _ _
  rw [hOutcome, Outcome.output_of_failure]
  exact ⟨rfl, rfl, hSession.farewell_not_infix front, session.printout_append_prefix front back⟩

end Program

/-- The program blames the bytes of a line exactly if they are not valid
UTF-8. Whatever else a reader of lines does, as long as it does this, the
following holds. The lines of a stream before the first one that cannot be
read form entries, up to some at the end that are never continued. If the
history cannot be saved and one of the inputs is not empty, then the program
evaluates the inputs up to the first such one and exits with code 1.
Otherwise, if there is an unreadable line, it evaluates all of the inputs; the
code is 1 if that line is not valid UTF-8, and 101 if a backspace in it leaves
a part of a character. In both cases the banner and the replies are all that
is printed. They are the beginning of what a program that can save its history
prints for the readable lines, at the end of which it exits with code 0. None
of the inputs may lead to a report on an empty source, which would break the
dialogue off earlier. -/
theorem interrupted_dialogue_answers_whole_inputs :
    Text.RefusesInvalid Text.decodeLine ∧
    ∀ decode : Text.LineReader, Text.RefusesInvalid decode →
    (∀ stdin : List UInt8, ∃ (entries : List Entry) (pending : List String),
      Text.readLines decode (Text.readablePart decode stdin) =
        (entries.flatMap Entry.lines ++ pending.map (· ++ "\\")).map .ok) ∧
    ∀ (saveError : String → Option String) (arguments : List String) (options : Options)
      (stdin : List UInt8) (entries : List Entry) (pending : List String),
      Request.ofArguments arguments = .ok (.run options) → options.command = none →
      Text.readLines decode (Text.readablePart decode stdin) =
        (entries.flatMap Entry.lines ++ pending.map (· ++ "\\")).map .ok →
      let session : Session := { budget := options.budget }
      let inputs := entries.map Entry.input
      (∀ exchange ∈ session.exchanges inputs, exchange.reply.reportSource? ≠ some "") →
      let transcript :=
        Dialogue.run (saveError options.historyPath) { session } (Text.readLines decode stdin)
      let outcome := runProgram decode saveError arguments stdin
      let complete := runProgram decode (fun _ => none) arguments (Text.readablePart decode stdin)
      complete.exitCode = 0 ∧
      (∀ reason empties input others, saveError options.historyPath = some reason →
        inputs = empties ++ input :: others → (∀ empty ∈ empties, empty = "") → input ≠ "" →
        transcript.exchanges = session.exchanges (empties ++ [input]) ∧
        outcome.exitCode = 1 ∧ outcome.output = session.printout (empties ++ [input]) ∧
        ¬ "Bye!".toList <:+: outcome.output.toList ∧
        outcome.output.toList <+: complete.output.toList) ∧
      ∀ raw, (saveError options.historyPath = none ∨ ∀ input ∈ inputs, input = "") →
        (Text.rawLines stdin).find? (!Text.isReadable decode ·) = some raw →
        transcript.exchanges = session.exchanges inputs ∧
        outcome.exitCode = (if String.fromUTF8? raw.toByteArray = none then 1 else 101) ∧
        outcome.output = session.printout inputs ∧
        ¬ "Bye!".toList <:+: outcome.output.toList ∧
        outcome.output.toList <+: complete.output.toList := by
  refine ⟨Text.refusesInvalid_decodeLine, ?_⟩
  intro decode hDecode
  refine ⟨?_, ?_⟩
  · intro stdin
    obtain ⟨lines, hLines⟩ := Text.exists_readLines_readablePart decode stdin
    obtain ⟨entries, pending, rfl⟩ := exists_entries lines
    exact ⟨entries, pending, hLines⟩
  intro saveError arguments options stdin entries pending hArguments hCommand hLines session inputs
    hDrawn transcript outcome complete
  obtain ⟨hExit, hPrinted⟩ := runProgram_readablePart hArguments hCommand hLines hDrawn
  refine ⟨hExit, ?_, ?_⟩
  · intro reason empties input others hUnsaved hInputs hEmpties hInput
    have hAnswered : session.DrawsReports (empties ++ [input]) := by
      have hAll : session.DrawsReports ((empties ++ [input]) ++ others) := by
        rw [List.append_assoc, List.singleton_append, ← hInputs]
        exact hDrawn
      exact (Session.drawsReports_append.mp hAll).1
    have hRun : transcript =
        ⟨session.exchanges (empties ++ [input]), some (.history reason)⟩ := by
      simp only [transcript, hUnsaved]
      exact Dialogue.run_readLines_until_unsaved hLines hAnswered hInputs hEmpties hInput reason
    obtain ⟨hCode, hOutput, hFarewell, hPrefix⟩ :=
      runProgram_of_failure hArguments hCommand others hRun
    rw [List.append_assoc, List.singleton_append, ← hInputs, ← hPrinted] at hPrefix
    exact ⟨by rw [hRun], hCode, hOutput, hFarewell, hPrefix⟩
  · intro raw hSaved hFirst
    have hRun := Dialogue.run_readLines_until_unreadable hLines hDecode hDrawn hSaved hFirst
    obtain ⟨hCode, hOutput, hFarewell, hPrefix⟩ :=
      runProgram_of_failure hArguments hCommand [] hRun
    rw [List.append_nil, ← hPrinted] at hPrefix
    refine ⟨congrArg Transcript.exchanges hRun, ?_, hOutput, hFarewell, hPrefix⟩
    rw [hCode]
    split <;> rfl

/-- An empty input, one of two lines, one of a single line and a line that is
never continued, before a line that is not valid UTF-8. Without a history the
second input is the last one; with it, all three are evaluated and the pending
line is dropped. -/
theorem interrupted_dialogue_answers_whole_inputs_past_empty_input :
    let decode := Text.decodeLine
    let stdin := Text.utf8Bytes "\nx \\\ny\nz\nw\\\n" ++ [255, 10]
    let inputs := ["", "x \ny", "z"]
    let session : Session := { budget := 1000 }
    let unsaved := runProgram decode (fun _ => some "Permission denied (os error 13)") [] stdin
    let saved := runProgram decode (fun _ => none) [] stdin
    let complete := runProgram decode (fun _ => none) [] (Text.readablePart decode stdin)
    complete.exitCode = 0 ∧
    (unsaved.exitCode = 1 ∧ unsaved.output = session.printout ["", "x \ny"] ∧
      ¬ "Bye!".toList <:+: unsaved.output.toList ∧
      unsaved.output.toList <+: complete.output.toList) ∧
    (Text.rawLines stdin).find? (!Text.isReadable decode ·) = some [255, 10] ∧
    String.fromUTF8? [255, 10].toByteArray = none ∧
    saved.exitCode = 1 ∧ saved.output = session.printout inputs ∧
      ¬ "Bye!".toList <:+: saved.output.toList ∧
      saved.output.toList <+: complete.output.toList := by
  intro decode stdin inputs session unsaved saved complete
  let entries : List Entry :=
    [⟨[], "", by decide⟩, ⟨["x "], "y", by decide⟩, ⟨[], "z", by decide⟩]
  have hLines : Text.readLines decode (Text.readablePart decode stdin) =
      (entries.flatMap Entry.lines ++ ["w"].map (· ++ "\\")).map .ok := by decide +kernel
  have hReports : ∀ exchange ∈ session.exchanges (entries.map Entry.input),
      exchange.reply.reportSource? ≠ some "" := by decide +kernel
  have hFirst : (Text.rawLines stdin).find? (!Text.isReadable decode ·) = some [255, 10] := by
    decide +kernel
  have hInvalid : String.fromUTF8? [255, 10].toByteArray = none := by decide +kernel
  obtain ⟨hDecode, hReaders⟩ := interrupted_dialogue_answers_whole_inputs
  obtain ⟨-, hPrograms⟩ := hReaders decode hDecode
  obtain ⟨hExit, hUnsaved, -⟩ := hPrograms (fun _ => some "Permission denied (os error 13)") [] {}
    stdin entries ["w"] rfl rfl hLines hReports
  obtain ⟨-, -, hSaved⟩ := hPrograms (fun _ => none) [] {} stdin entries ["w"] rfl rfl hLines hReports
  obtain ⟨-, hStopped⟩ := hUnsaved _ [""] "x \ny" ["z"] rfl (by decide) (by decide) (by decide)
  obtain ⟨-, hCode, hBroken⟩ := hSaved [255, 10] (Or.inl rfl) hFirst
  rw [if_pos hInvalid] at hCode
  exact ⟨hExit, hStopped, hFirst, hInvalid, hCode, hBroken⟩

/-- Of two lines only the second is not valid UTF-8, but the program does not
get there: the backspace in the first one leaves a part of a character. For
the same reason it does not get to the end of the first line alone. -/
theorem valid_line_breaks_dialogue_off :
    let line := String.ofList ('a' :: List.replicate 128 '\u0301' ++ ['\x08']) ++ "\n"
    let stdin := Text.utf8Bytes line ++ [255]
    (Text.rawLines stdin).map (fun raw => String.fromUTF8? raw.toByteArray) = [some line, none] ∧
      (runProgram Text.decodeLine (fun _ => none) [] stdin).exitCode = 101 ∧
      (runProgram Text.decodeLine (fun _ => none) [] (Text.utf8Bytes line)).exitCode = 101 := by
  intro line stdin
  have hRaw : ∀ rest, Text.rawLines (Text.utf8Bytes line ++ rest) =
      Text.utf8Bytes line :: Text.rawLines rest :=
    Text.rawLines_line_append (Text.newline_notMem_accented 128)
  have hDecode : Text.decodeLine (Text.utf8Bytes line) = .error .splitCharacter :=
    Text.decodeLine_accented
  have hUnreadable : ∀ rest, Text.readLines Text.decodeLine (Text.utf8Bytes line ++ rest) =
      .error .splitCharacter :: Text.readLines Text.decodeLine rest := by
    intro rest
    rw [Text.readLines, hRaw, List.map_cons, hDecode, Text.readLines]
  have hAlone := hUnreadable []
  rw [List.append_nil] at hAlone
  have hInvalid : (Text.rawLines [255]).map (fun raw => String.fromUTF8? raw.toByteArray) =
      [none] := by
    decide +kernel
  refine ⟨?_, ?_, ?_⟩
  · rw [hRaw, List.map_cons, Text.fromUTF8?_utf8Bytes, hInvalid]
  · rw [runProgram_eq_ofTranscript rfl rfl, hUnreadable]
    rfl
  · rw [runProgram_eq_ofTranscript rfl rfl, hAlone]
    rfl

end LambdaDiagram
