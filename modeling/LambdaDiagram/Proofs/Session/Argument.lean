import LambdaDiagram.Proofs.Grammar.Rejection
import LambdaDiagram.Proofs.Grammar.RoundTrip
import LambdaDiagram.Proofs.Reduction.Names
import LambdaDiagram.Proofs.Session.CommandWord
import LambdaDiagram.Proofs.Session.Script

/-! Terms that are given to a command. An expression is never taken for a command and is never blank,
so a command reads the term behind its word just as if that term had been entered before. -/
namespace LambdaDiagram

namespace Term

/-- An expression does not look like a command, because a colon has no place
in it. -/
theorem head?_ne_colon_of_parse {text : String} {t : Term} (hParse : parse text = .ok t) :
    text.toList.head? ≠ some ':' := by
  intro hHead
  obtain ⟨rest, hText⟩ := List.head?_eq_some_iff.mp hHead
  have hScan : Lexeme.scan text = [] ++ ⟨.other ':', 0⟩ :: Lexeme.scanFrom 1 rest := by
    rw [Lexeme.scan, hText, Lexeme.scanFrom, if_neg (by decide), if_neg (by decide)]
    rfl
  have hError : parse text = .error (.unexpectedToken ⟨.other ':', 0⟩) :=
    parse_of_refused hScan (Reader.Reads.nil _) rfl
  rw [hError] at hParse
  cases hParse

/-- An expression is not blank, because a blank text is rejected for having no
tokens. -/
theorem isBlankText_of_parse {text : String} {t : Term} (hParse : parse text = .ok t) :
    Text.isBlankText text = false := by
  cases hBlank : Text.isBlankText text with
  | false => rfl
  | true =>
      rw [parse_eq_emptyText_iff.mpr ⟨hBlank, rfl⟩] at hParse
      cases hParse

end Term

/-- The words of the commands that work on a given term or on the current one,
short forms included. -/
def Verb.subjectWords : List String :=
  ["l", "layout", "s", "step", "b", "beta", "n", "normalize"]

namespace Session

/-- A line that is an expression makes its term current and prints it with its
diagram. -/
theorem handle_of_parse {text : String} {t : Term} (hParse : Term.parse text = .ok t)
    (session : Session) :
    session.handle text = (session.withCurrent t, ⟨[.term t, .diagram t.layout], none⟩) := by
  have hCommand := Command.ofLine_of_head?_ne_colon (Term.head?_ne_colon_of_parse hParse)
  simp only [handle, hCommand, perform, hParse]
  rfl

/-- What the commands that work on a given term or on the current one do with
it. -/
def action? (budget : Nat) : Verb → Option (Term → Term × List Message)
  | .layout => some fun t => (t, [.diagram t.layout])
  | .step => some stepAction
  | .normalize => some (normalizeAction budget)
  | _ => none

/-- A line for one of these commands performs its action on the subject. The
commands differ in the action only. -/
theorem handle_of_action? {session : Session} {line : String} {t : Term}
    {action : Term → Term × List Message}
    (hAction : action? session.budget (Command.ofLine line).verb = some action)
    (hSubject : session.subject (Command.ofLine line).text = .ok (some t)) :
    session.handle line = (session.withCurrent (action t).1, ⟨(action t).2, none⟩) := by
  have hResult : session.onSubject (Command.ofLine line).text action =
      .ok (session.withCurrent (action t).1, (action t).2) := by
    rw [onSubject, hSubject]
    rfl
  cases hVerb : (Command.ofLine line).verb with
  | layout | step | normalize =>
      rw [hVerb] at hAction
      cases hAction
      simp only [handle, perform, hVerb, hResult, complaint?]
  | _ =>
      rw [hVerb] at hAction
      cases hAction

theorem subject_of_parse {text : String} {t : Term} (hParse : Term.parse text = .ok t)
    (session : Session) : session.subject text = .ok (some t) := by
  rw [subject, Term.isBlankText_of_parse hParse, hParse]
  rfl

theorem exists_action?_of_mem_subjectWords {word : String} (hWord : word ∈ Verb.subjectWords)
    (budget : Nat) : ∃ action, action? budget (Verb.ofWord word) = some action := by
  have hSome : ∀ known ∈ Verb.subjectWords,
      Verb.ofWord known = .layout ∨ Verb.ofWord known = .step ∨ Verb.ofWord known = .normalize := by
    decide +kernel
  rcases hSome word hWord with hVerb | hVerb | hVerb
  all_goals
    rw [hVerb]
    exact ⟨_, rfl⟩

/-- A command that is given an expression does the same as if the expression
is entered first and the command follows without one, whatever the current
term was before. The session is the same in the end, and the answer to the one
line is the answer to the second of the two. -/
theorem argument_is_entered_term (session : Session) (word text : String) (t : Term)
    (hWord : word ∈ Verb.subjectWords) (hParse : Term.parse text = .ok t) :
    (session.handle text).1.current = some t ∧
      session.handle (":" ++ word ++ " " ++ text) =
        (session.handle text).1.handle (":" ++ word) := by
  have hPlain : ∀ known ∈ Verb.subjectWords, known.toList ≠ [] ∧
      known.toList.any Text.isBlank = false ∧ ' ' ∉ known.toList.dropWhile Text.isBlank := by
    decide +kernel
  obtain ⟨hSome, hBlank, hSpace⟩ := hPlain word hWord
  have hGiven := Command.ofLine_word hSome hBlank text
  have hLone := Command.ofLine_lone_word hSpace
  obtain ⟨action, hAction⟩ := exists_action?_of_mem_subjectWords hWord session.budget
  rw [handle_of_parse hParse]
  refine ⟨rfl, ?_⟩
  have hLeft : session.handle (":" ++ word ++ " " ++ text) =
      (session.withCurrent (action t).1, ⟨(action t).2, none⟩) := by
    apply handle_of_action?
    · rw [hGiven]
      exact hAction
    · rw [hGiven]
      exact subject_of_parse hParse session
  have hRight : (session.withCurrent t).handle (":" ++ word) =
      ((session.withCurrent t).withCurrent (action t).1, ⟨(action t).2, none⟩) := by
    apply handle_of_action?
    · rw [hLone]
      exact hAction
    · rw [hLone]
      rfl
  rw [hLeft, hRight]
  rfl

/-- The line feed before the expression belongs to the argument, and the
current term of before plays no part. -/
theorem argument_is_entered_term_after_line_feed :
    let session : Session := ⟨10, some (.var "z")⟩
    let text := "\n(λx.x) y "
    let t := Term.app (.abs "x" (.var "x")) (.var "y")
    "beta" ∈ Verb.subjectWords ∧ Term.parse text = .ok t ∧
      (session.handle text).1.current = some t ∧
      session.handle (":" ++ "beta" ++ " " ++ text) =
        (session.handle text).1.handle (":" ++ "beta") := by
  intro session text t
  have hWord : "beta" ∈ Verb.subjectWords := by decide
  have hScan : Lexeme.scan text =
      [⟨.lparen, 1⟩, ⟨.lambda, 2⟩, ⟨.ident "x", 3⟩, ⟨.dot, 4⟩, ⟨.ident "x", 5⟩, ⟨.rparen, 6⟩,
        ⟨.ident "y", 8⟩] := by
    decide +kernel
  have hParse : Term.parse text = .ok t := by
    rw [Term.parse, hScan]
    rfl
  exact ⟨hWord, hParse, argument_is_entered_term session "beta" text t hWord hParse⟩

end Session

/-! The current term is all that a session remembers, and its printed form says all of it. A term
can be entered again as it was printed as long as its names can be spelled, and no command brings in
a name for which this fails: reduction only appends quote marks to names. -/

theorem isSpellable_push {name : Name} (hName : isSpellable name = true) :
    isSpellable (name.push '\'') = true := by
  rw [isSpellable] at hName
  cases hChars : name.toList with
  | nil => simp [hChars] at hName
  | cons c rest =>
      simp only [hChars, Bool.and_eq_true] at hName
      simp [isSpellable, hChars, hName, Lexeme.isPrime]

namespace Term

/-- A reduct has spellable names if the term has, since reduction only appends
quote marks. -/
theorem allNames_spellable_reduce? {t u : Term} (hNames : t.AllNames (isSpellable · = true))
    (hStep : t.reduce? = some u) : u.AllNames (isSpellable · = true) :=
  hNames.reduce? (fun _ => isSpellable_push) hStep

end Term

namespace Session

theorem eq_of_fields {session : Session} {budget : Nat} {current : Option Term}
    (hBudget : session.budget = budget) (hCurrent : session.current = current) :
    session = ⟨budget, current⟩ := by
  cases hBudget
  cases hCurrent
  rfl

/-- A term that can be spelled is made current by its printed form, as if it
had been entered for the first time. -/
theorem handle_render {t : Term} (hNames : t.AllNames (isSpellable · = true)) (session : Session) :
    session.handle t.render =
      (session.withCurrent t, ⟨[.term t, .diagram t.layout], none⟩) :=
  handle_of_parse (Term.parse_render_of_spellable hNames) session

/-- The current term can be spelled at all times: it was read, or it comes
from such a term by reduction. -/
theorem allNames_current_handleAll (budget : Nat) (lines : List String) :
    ∀ t, (handleAll ⟨budget, none⟩ lines).1.current = some t →
      t.AllNames (isSpellable · = true) := by
  apply current_handleAll
  · intro text t hParse
    exact Term.isSpellable_of_parse hParse
  · intro t u
    exact Term.allNames_spellable_reduce?
  · intro t hCurrent
    cases hCurrent

/-- Whatever lines a new session is given, its current term can be spelled.
Another new session that is given the printed form of that term as its first
line has the same current term, and from then on answers all lines as the
first session does. The budget never changes, so entering the term again gives
back the whole state. -/
theorem printed_term_restores_session (budget : Nat) (lines : List String) (t : Term)
    (hCurrent : (handleAll ⟨budget, none⟩ lines).1.current = some t) :
    (∀ x ∈ t.names, isSpellable x = true) ∧
      (handle ⟨budget, none⟩ t.render).1.current = some t ∧
      ∀ further, (handle ⟨budget, none⟩ t.render).1.handleAll further =
        (handleAll ⟨budget, none⟩ lines).1.handleAll further := by
  have hNames := allNames_current_handleAll budget lines t hCurrent
  have hBudget : (handleAll ⟨budget, none⟩ lines).1.budget = budget := budget_handleAll _ lines
  have hSame : (handle ⟨budget, none⟩ t.render).1 = (handleAll ⟨budget, none⟩ lines).1 := by
    rw [handle_render hNames]
    exact (eq_of_fields hBudget hCurrent).symm
  refine ⟨hNames, ?_, ?_⟩
  · rw [hSame, hCurrent]
  · intro further
    rw [hSame]

/-- The step renames a binder, and the lines after it fail. -/
theorem printed_term_restores_renamed_binder :
    let lines := ["(λx.λy.x) y", ":step", ":step λy.)", ":stop"]
    let t := Term.abs "y'" (.var "y")
    (handleAll ⟨3, none⟩ lines).1.current = some t ∧ t.render = "(λy'.y)" ∧
      (∀ x ∈ t.names, isSpellable x = true) ∧
      (handle ⟨3, none⟩ t.render).1.current = some t ∧
      ∀ further, (handle ⟨3, none⟩ t.render).1.handleAll further =
        (handleAll ⟨3, none⟩ lines).1.handleAll further := by
  intro lines t
  have hCurrent : (handleAll ⟨3, none⟩ lines).1.current = some t := by decide +kernel
  exact ⟨hCurrent, rfl, printed_term_restores_session 3 lines t hCurrent⟩

end Session

end LambdaDiagram
