import LambdaDiagram.Proofs.Reduction.Budget
import LambdaDiagram.Session

/-! Several command lines in a row. What a single line can do to a session is said once: it leaves
the session alone, or it takes the current term or one that was just read and goes some steps from
there. Everything that holds of all current terms follows from this. -/
namespace LambdaDiagram

/-- A line that does not begin with a colon enters the term it spells, as a
whole and untrimmed. -/
theorem Command.ofLine_of_head?_ne_colon {line : String} (hHead : line.toList.head? ≠ some ':') :
    Command.ofLine line = ⟨.enter, line⟩ := by
  rw [Command.ofLine]
  split
  next rest hChars => simp [hChars] at hHead
  next => rfl

namespace Session

/-- Answers command lines one after the other. The replies are in the order of
the lines. -/
def handleAll (session : Session) : List String → Session × List Reply
  | [] => (session, [])
  | line :: rest =>
    let answered := session.handle line
    let continued := answered.1.handleAll rest
    (continued.1, answered.2 :: continued.2)

/-- The first line is answered by the given session, the others by the session
it leads to. -/
theorem handleAll_cons (session : Session) (line : String) (rest : List String) :
    session.handleAll (line :: rest) =
      (((session.handle line).1.handleAll rest).1,
        (session.handle line).2 :: ((session.handle line).1.handleAll rest).2) := rfl

/-- The terms that a command can be about. -/
def Offers (session : Session) (t : Term) : Prop :=
  session.current = some t ∨ ∃ text, Term.parse text = .ok t

/-- What a command line can make of a session: nothing new, or the same
session with a term that some steps lead to. -/
inductive Advances (session : Session) : Session → Prop where
  | same : Advances session session
  | reduced {t u : Term} {count : Nat} (hOffers : session.Offers t) (run : t.ReducesIn u count) :
      Advances session (session.withCurrent u)

/-- What a command takes for its subject is the current term or one that was
just read. Nothing else is ever acted on. -/
theorem offers_of_subject {session : Session} {text : String} {t : Term}
    (hSubject : session.subject text = .ok (some t)) : session.Offers t := by
  rw [subject] at hSubject
  split at hSubject
  · exact Or.inl (Except.ok.inj hSubject)
  · cases hParse : Term.parse text with
    | error e => simp [hParse, Except.map] at hSubject
    | ok read =>
        obtain rfl : read = t := by simpa [hParse, Except.map] using hSubject
        exact Or.inr ⟨text, hParse⟩

/-- Stepping makes one step or none. A term without a reduct is kept. -/
theorem reducesIn_stepAction (t : Term) : ∃ count, t.ReducesIn (stepAction t).1 count := by
  rw [stepAction]
  cases hStep : t.reduce? with
  | none => exact ⟨0, .zero t⟩
  | some next => exact ⟨1, .succ hStep (.zero next)⟩

/-- Normalising makes some number of steps. How many the budget allows does
not matter here. -/
theorem reducesIn_normalizeAction (budget : Nat) (t : Term) :
    ∃ count, t.ReducesIn (normalizeAction budget t).1 count := by
  refine ⟨(t.trail budget).length, ?_⟩
  show t.ReducesIn (t.normalize (some budget)).term _
  rw [(Term.normalize_along_trail budget t).1]
  exact t.reducesIn_trail budget

/-- A command whose action reduces its subject advances the session, also if
there is no subject to act on. -/
theorem advances_of_onSubject {session next : Session} {text : String} {messages : List Message}
    {action : Term → Term × List Message}
    (hAction : ∀ t : Term, ∃ count, t.ReducesIn (action t).1 count)
    (hResult : session.onSubject text action = .ok (next, messages)) : session.Advances next := by
  rw [onSubject] at hResult
  cases hSubject : session.subject text with
  | error e =>
      rw [hSubject] at hResult
      cases hResult
  | ok found =>
      rw [hSubject] at hResult
      cases found with
      | none =>
          cases hResult
          exact .same
      | some t =>
          cases hResult
          obtain ⟨count, run⟩ := hAction t
          exact .reduced (offers_of_subject hSubject) run

/-- A command that reads a term makes it the current one, after no step at
all. -/
theorem advances_of_parse {session next : Session} {text : String} {messages : List Message}
    {report : Term → List Message}
    (hResult : (do let t ← Term.parse text
                   .ok (session.withCurrent t, report t)) = Except.ok (next, messages)) :
    session.Advances next := by
  cases hParse : Term.parse text with
  | error e =>
      rw [hParse] at hResult
      cases hResult
  | ok t =>
      rw [hParse] at hResult
      cases hResult
      exact .reduced (Or.inr ⟨text, hParse⟩) (.zero t)

/-- Every command that succeeds advances the session. This is the only place
where the commands are told apart. -/
theorem advances_of_perform {session next : Session} {command : Command} {messages : List Message}
    (hResult : session.perform command = .ok (next, messages)) : session.Advances next := by
  rw [perform] at hResult
  cases hVerb : command.verb with
  | enter | parse =>
      rw [hVerb] at hResult
      exact advances_of_parse hResult
  | layout =>
      rw [hVerb] at hResult
      exact advances_of_onSubject (fun t => ⟨0, .zero t⟩) hResult
  | step =>
      rw [hVerb] at hResult
      exact advances_of_onSubject reducesIn_stepAction hResult
  | normalize =>
      rw [hVerb] at hResult
      exact advances_of_onSubject (reducesIn_normalizeAction session.budget) hResult
  | tokenize | help | unknown word =>
      rw [hVerb] at hResult
      cases hResult
      exact .same

/-- Every command line advances the session. One that is refused leaves it
alone, which counts as advancing too. -/
theorem advances_handle (session : Session) (line : String) :
    session.Advances (session.handle line).1 := by
  rw [handle]
  cases hResult : session.perform (Command.ofLine line) with
  | error e => exact .same
  | ok result => exact advances_of_perform hResult

theorem Advances.budget_eq {session next : Session} (hAdvances : session.Advances next) :
    next.budget = session.budget := by
  cases hAdvances with
  | same => rfl
  | reduced hOffers run => rfl

/-- The step budget is the same after any number of command lines, since no
single one changes it. -/
theorem budget_handleAll (session : Session) (lines : List String) :
    (session.handleAll lines).1.budget = session.budget := by
  induction lines generalizing session with
  | nil => rfl
  | cons line rest ih =>
      rw [handleAll_cons, ih]
      exact (session.advances_handle line).budget_eq

section Invariant

variable {P : Term → Prop} (hRead : ∀ text t, Term.parse text = .ok t → P t)
  (hReduct : ∀ t u, P t → t.reduce? = some u → P u)

include hRead hReduct

/-- A property that reading establishes and reduction keeps passes from the
current term to the next one. -/
theorem Advances.current {session next : Session} (hAdvances : session.Advances next)
    (hCurrent : ∀ t, session.current = some t → P t) : ∀ t, next.current = some t → P t := by
  cases hAdvances with
  | same => exact hCurrent
  | @reduced start u count hOffers run =>
      intro t hNow
      obtain rfl : u = t := Option.some.inj hNow
      rcases hOffers with hOld | ⟨text, hParse⟩
      · exact run.preserves hReduct (hCurrent start hOld)
      · exact run.preserves hReduct (hRead text start hParse)

/-- What holds of every term that is read, and of the reduct of every term it
holds of, holds of the current term at all times. -/
theorem current_handleAll {session : Session} (hCurrent : ∀ t, session.current = some t → P t)
    (lines : List String) : ∀ t, (session.handleAll lines).1.current = some t → P t := by
  induction lines generalizing session with
  | nil => exact hCurrent
  | cons line rest ih =>
      exact ih ((session.advances_handle line).current hRead hReduct hCurrent)

end Invariant

end Session

end LambdaDiagram

/-! Stepping by hand and normalising. Both commands go along the trail of the current term: stepping
takes one term at a time and says so when none is left, normalising goes to its end at once. -/
namespace LambdaDiagram.Session

def reductText (next : Term) : String :=
  next.render ++ "\n" ++ next.layout.describe ++ "\n"

def noReductText : String :=
  "No further beta-reductions possible.\n"

theorem output_pair (first second : Message) (diagnostic : Option Diagnostic) :
    Reply.output ⟨[first, second], diagnostic⟩ =
      first.text ++ "\n" ++ second.text ++ "\n" := by
  simp [Reply.output, String.join, String.append_assoc]

/-- The command line for a step performs the step on the current term and
always succeeds. -/
theorem handle_step (budget : Nat) (t : Term) :
    handle ⟨budget, some t⟩ ":step" =
      (⟨budget, some (stepAction t).1⟩, ⟨(stepAction t).2, none⟩) := rfl

/-- A step that can be taken makes the reduct current and prints it with its
diagram. -/
theorem handle_step_of_some {t next : Term} (hStep : t.reduce? = some next) (budget : Nat) :
    (handle ⟨budget, some t⟩ ":step").1 = ⟨budget, some next⟩ ∧
      (handle ⟨budget, some t⟩ ":step").2.output = reductText next := by
  rw [handle_step, stepAction, hStep]
  exact ⟨rfl, output_pair _ _ _⟩

/-- A step that cannot be taken changes nothing and says that there is no
reduct. -/
theorem handle_step_of_none {t : Term} (hStuck : t.reduce? = none) (budget : Nat) :
    (handle ⟨budget, some t⟩ ":step").1 = ⟨budget, some t⟩ ∧
      (handle ⟨budget, some t⟩ ":step").2.output = noReductText := by
  rw [handle_step, stepAction, hStuck]
  exact ⟨rfl, rfl⟩

/-- Repeated steps print the trail, one term a step. What is left of the steps
prints that there is nothing to do and changes nothing. -/
theorem handleAll_steps (budget count : Nat) (t : Term) :
    (handleAll ⟨budget, some t⟩ (List.replicate count ":step")).1 =
        ⟨budget, some ((t.trail count).getLastD t)⟩ ∧
      (handleAll ⟨budget, some t⟩ (List.replicate count ":step")).2.map Reply.output =
        (t.trail count).map reductText ++
          List.replicate (count - (t.trail count).length) noReductText := by
  induction count generalizing t with
  | zero => exact ⟨rfl, rfl⟩
  | succ count ih =>
      rw [List.replicate_succ, handleAll_cons, List.map_cons]
      cases hStep : t.reduce? with
      | none =>
          obtain ⟨hSession, hOutput⟩ := handle_step_of_none hStep budget
          obtain ⟨hRest, hReplies⟩ := ih t
          rw [hSession, hOutput, hRest, hReplies, Term.trail_of_none hStep,
            Term.trail_of_none hStep]
          exact ⟨rfl, rfl⟩
      | some next =>
          obtain ⟨hSession, hOutput⟩ := handle_step_of_some hStep budget
          obtain ⟨hRest, hReplies⟩ := ih next
          rw [hSession, hOutput, hRest, hReplies, Term.trail_of_some hStep, List.getLastD_cons,
            List.length_cons, Nat.add_sub_add_right]
          exact ⟨rfl, rfl⟩

/-- Normalising goes to the end of the trail that the budget allows. A trail
shorter than the budget ends in a normal form; one of the budget's length is
reported as stopped. -/
theorem handle_normalize (budget : Nat) (t : Term) :
    let count := (t.trail budget).length
    let result := (t.trail budget).getLastD t
    (handle ⟨budget, some t⟩ ":normalize").1 = ⟨budget, some result⟩ ∧
      (handle ⟨budget, some t⟩ ":normalize").2.output = result.render ++ "\n" ++
        (if count < budget then s!"({count} steps)"
          else s!"(stopped after {count} steps without reaching a normal form)") ++ "\n" := by
  intro count result
  have hHandle : handle ⟨budget, some t⟩ ":normalize" =
      (⟨budget, some (normalizeAction budget t).1⟩, ⟨(normalizeAction budget t).2, none⟩) := rfl
  obtain ⟨hTerm, hSteps, hReached⟩ := Term.normalize_along_trail budget t
  rw [hHandle, normalizeAction]
  simp only [hTerm, hSteps, hReached, output_pair, apply_ite Message.text]
  exact ⟨rfl, rfl⟩

/-- In a session with a step budget, normalising the current term leads to the
same term as that many single steps. If it reports some number of steps, then
that many of the single steps print the reduct of the term before them and its
diagram, and the others print that no step is possible. A normal form is
reported exactly if the number is less than the budget. -/
theorem steps_agree_with_normalize (budget : Nat) (t : Term) :
    ∃ (result : Term) (reducts : List Term),
      List.IsChain (fun u v => u.reduce? = some v) (t :: reducts) ∧ reducts.length ≤ budget ∧
      (handle ⟨budget, some t⟩ ":normalize").1.current = some result ∧
      (handle ⟨budget, some t⟩ ":normalize").2.output = result.render ++ "\n" ++
        (if reducts.length < budget then s!"({reducts.length} steps)"
          else s!"(stopped after {reducts.length} steps without reaching a normal form)") ++ "\n" ∧
      (handleAll ⟨budget, some t⟩ (List.replicate budget ":step")).1.current = some result ∧
      (handleAll ⟨budget, some t⟩ (List.replicate budget ":step")).2.map Reply.output =
        reducts.map (fun next => next.render ++ "\n" ++ next.layout.describe ++ "\n") ++
          List.replicate (budget - reducts.length) "No further beta-reductions possible.\n" := by
  obtain ⟨hNormalized, hReport⟩ := handle_normalize budget t
  obtain ⟨hStepped, hReplies⟩ := handleAll_steps budget budget t
  refine ⟨(t.trail budget).getLastD t, t.trail budget, t.isChain_trail budget,
    t.length_trail_le budget, ?_, hReport, ?_, hReplies⟩
  · rw [hNormalized]
  · rw [hStepped]

end LambdaDiagram.Session
