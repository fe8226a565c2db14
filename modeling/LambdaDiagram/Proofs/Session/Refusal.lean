import LambdaDiagram.Proofs.Session.Script

/-! Lines that are refused. A command reads its expression before it does anything else, so one that
cannot be read leaves the session as it was, and the report on it is about a final part of the
line. -/
namespace LambdaDiagram

namespace Verb

/-- What a command does about expressions: the others look at none, or only at
the tokens. -/
def readsExpression : Verb → Bool
  | enter | parse | layout | step | normalize => true
  | tokenize | help | unknown _ => false

/-- The words of the commands that read an expression; the empty word enters a
term. -/
def readingWords : List String :=
  ["", "p", "parse", "l", "layout", "s", "step", "b", "beta", "n", "normalize"]

/-- Any other word is one for tokens, for help or for nothing, and no such
command reads an expression. -/
theorem readsExpression_ofWord_eq_false {word : String} (hWord : word ∉ readingWords) :
    (ofWord word).readsExpression = false := by
  simp only [readingWords, List.mem_cons, List.not_mem_nil, or_false, not_or] at hWord
  simp only [ofWord, hWord, List.mem_cons, List.not_mem_nil, or_false, if_false]
  split_ifs <;> rfl

end Verb

namespace Command

theorem verb_ofLine_of_colon {line : String} {rest : List Char} (hLine : line.toList = ':' :: rest) :
    (ofLine line).verb = Verb.ofWord (String.ofList (splitWord rest).1) := by
  rw [ofLine, hLine]
  rfl

theorem text_splitWord_suffix (rest : List Char) : (splitWord rest).2 <:+ rest := by
  have hTrimmed : rest.dropWhile Text.isBlank <:+ rest := List.dropWhile_suffix _
  rw [splitWord]
  split
  · exact ((List.drop_suffix 1 _).trans (List.dropWhile_suffix _)).trans hTrimmed
  · exact List.nil_suffix

/-- The text of a command is a final part of its line, the whole line if it is
no command. -/
theorem text_ofLine_suffix (line : String) : (ofLine line).text.toList <:+ line.toList := by
  rw [ofLine]
  split
  next rest hLine =>
    rw [hLine, String.toList_ofList]
    exact (text_splitWord_suffix rest).trans (List.suffix_cons ':' rest)
  next => exact List.suffix_refl _

end Command

namespace Session

/-- A command that works on a term fails only if its expression cannot be
read. -/
theorem parse_of_onSubject_error {session : Session} {text : String} {e : ParseError}
    {action : Term → Term × List Message}
    (hResult : session.onSubject text action = .error e) : Term.parse text = .error e := by
  rw [onSubject, subject] at hResult
  split at hResult
  · cases hCurrent : session.current <;> simp [hCurrent, bind, Except.bind] at hResult
  · cases hParse : Term.parse text with
    | error e' =>
        rw [hParse] at hResult
        cases hResult
        rfl
    | ok t =>
        rw [hParse] at hResult
        cases hResult

theorem parse_of_bind_error {text : String} {e : ParseError} {report : Term → Session × List Message}
    (hResult : (do let t ← Term.parse text
                   .ok (report t)) = Except.error e) : Term.parse text = .error e := by
  cases hParse : Term.parse text with
  | error e' =>
      rw [hParse] at hResult
      cases hResult
      rfl
  | ok t =>
      rw [hParse] at hResult
      cases hResult

/-- Only commands that read an expression fail, and they fail as reading it
does. -/
theorem perform_error {session : Session} {command : Command} {e : ParseError}
    (hResult : session.perform command = .error e) :
    command.verb.readsExpression = true ∧ Term.parse command.text = .error e := by
  rw [perform] at hResult
  cases hVerb : command.verb with
  | enter | parse =>
      rw [hVerb] at hResult
      exact ⟨rfl, parse_of_bind_error hResult⟩
  | layout | step | normalize =>
      rw [hVerb] at hResult
      exact ⟨rfl, parse_of_onSubject_error hResult⟩
  | tokenize | help | unknown word =>
      rw [hVerb] at hResult
      cases hResult

/-- A command that reads no expression leaves the session alone. -/
theorem perform_of_readsExpression_eq_false (session : Session) {command : Command}
    (hVerb : command.verb.readsExpression = false) :
    ∃ messages, session.perform command = .ok (session, messages) := by
  rw [perform]
  cases hCase : command.verb with
  | enter | parse | layout | step | normalize => simp [hCase, Verb.readsExpression] at hVerb
  | tokenize | help | unknown word => exact ⟨_, rfl⟩

/-- No complaint about a command is a rejection, so rejections come from
reading alone. -/
theorem complaint?_ne_rejected (verb : Verb) (rejection : Rejection) :
    complaint? verb ≠ some (.rejected rejection) := by
  cases verb <;> simp [complaint?]

/-- A reply that reports a rejection reports nothing else, and it comes from a
command that failed. -/
theorem handle_of_rejected {session : Session} {line : String} {rejection : Rejection}
    (hRejected : (session.handle line).2.diagnostic = some (.rejected rejection)) :
    session.handle line = (session, ⟨[], some (.rejected rejection)⟩) ∧
      rejection.source = (Command.ofLine line).text ∧
      session.perform (Command.ofLine line) = .error rejection.error := by
  cases hResult : session.perform (Command.ofLine line) with
  | ok result =>
      have hComplaint : complaint? (Command.ofLine line).verb = some (.rejected rejection) := by
        simpa only [handle, hResult] using hRejected
      exact False.elim (complaint?_ne_rejected _ rejection hComplaint)
  | error e =>
      obtain rfl : ⟨(Command.ofLine line).text, e⟩ = rejection := by
        simpa [handle, hResult] using hRejected
      exact ⟨by simp only [handle, hResult], rfl, rfl⟩

theorem handle_of_readsExpression_eq_false (session : Session) {line : String}
    (hVerb : (Command.ofLine line).verb.readsExpression = false) :
    (session.handle line).1 = session := by
  obtain ⟨messages, hResult⟩ := perform_of_readsExpression_eq_false session hVerb
  simp only [handle, hResult]

/-- A line that is rejected leaves the current term as it was and prints
nothing. The report is about a final part of the line, about all of it if the
line is no command, and says what reading that part says. Commands with other
words than those for reading an expression, be they for tokens, for help or
for nothing, are never rejected and leave the current term alone. No line
changes the step budget. -/
theorem refused_line_changes_nothing (session : Session) (line : String) :
    (∀ rejection, (session.handle line).2.diagnostic = some (.rejected rejection) →
      (session.handle line).1.current = session.current ∧
      (session.handle line).2.output = "" ∧
      rejection.source.toList <:+ line.toList ∧
      (line.toList.head? ≠ some ':' → rejection.source = line) ∧
      Term.parse rejection.source = .error rejection.error) ∧
    (∀ rest, line.toList = ':' :: rest →
      String.ofList (Command.splitWord rest).1 ∉ Verb.readingWords →
      (session.handle line).1.current = session.current ∧
      ∀ rejection, (session.handle line).2.diagnostic ≠ some (.rejected rejection)) ∧
    (session.handle line).1.budget = session.budget := by
  refine ⟨?_, ?_, (session.advances_handle line).budget_eq⟩
  · intro rejection hRejected
    obtain ⟨hReply, hSource, hFailed⟩ := handle_of_rejected hRejected
    obtain ⟨-, hParse⟩ := perform_error hFailed
    refine ⟨by rw [hReply], by rw [hReply]; rfl, ?_, ?_, ?_⟩
    · rw [hSource]
      exact Command.text_ofLine_suffix line
    · intro hHead
      rw [hSource, Command.ofLine_of_head?_ne_colon hHead]
    · rw [hSource]
      exact hParse
  · intro rest hLine hWord
    have hVerb : (Command.ofLine line).verb.readsExpression = false := by
      rw [Command.verb_ofLine_of_colon hLine]
      exact Verb.readsExpression_ofWord_eq_false hWord
    refine ⟨by rw [handle_of_readsExpression_eq_false session hVerb], ?_⟩
    intro rejection hRejected
    obtain ⟨-, -, hFailed⟩ := handle_of_rejected hRejected
    obtain ⟨hReads, -⟩ := perform_error hFailed
    simp [hVerb] at hReads

/-- The parenthesis is never closed, so the step is not taken and the identity
stays current; its tokens can still be listed. -/
theorem refused_line_changes_nothing_on_open_paren :
    let session : Session := ⟨10, some (.abs "x" (.var "x"))⟩
    let line := ": step  (λx.x"
    let rejection : Rejection := ⟨" (λx.x", .unclosedParen 1⟩
    let listing := ": to  (λx.x"
    (session.handle line).2.diagnostic = some (.rejected rejection) ∧
      ((session.handle line).1.current = session.current ∧
        (session.handle line).2.output = "" ∧
        rejection.source.toList <:+ line.toList ∧
        (line.toList.head? ≠ some ':' → rejection.source = line) ∧
        Term.parse rejection.source = .error rejection.error) ∧
      (session.handle listing).1.current = session.current ∧
      ∀ rejection, (session.handle listing).2.diagnostic ≠ some (.rejected rejection) := by
  intro session line rejection listing
  have hRejected : (session.handle line).2.diagnostic = some (.rejected rejection) := by
    decide +kernel
  have hListing : listing.toList = ':' :: " to  (λx.x".toList := by decide
  have hWord : String.ofList (Command.splitWord " to  (λx.x".toList).1 ∉ Verb.readingWords := by
    decide +kernel
  exact ⟨hRejected, (refused_line_changes_nothing session line).1 rejection hRejected,
    (refused_line_changes_nothing session listing).2.1 _ hListing hWord⟩

end Session

end LambdaDiagram
