import LambdaDiagram.Program
import LambdaDiagram.Proofs.Diagram.Freeness
import LambdaDiagram.Proofs.Session.Argument
import LambdaDiagram.Proofs.Session.Continuation
import Mathlib.Data.List.Chain

/-! What a session prints cannot be mistaken for the farewell. An exclamation mark is printed only
as a token, and tokens are printed apart from each other, so none ever follows an `e` directly. -/
namespace LambdaDiagram

/-- No exclamation mark directly follows an `e`. -/
def Calm (chars : List Char) : Prop :=
  chars.IsChain fun c next => ¬ (c = 'e' ∧ next = '!')

/-- A text without any exclamation mark is calm. Everything that is printed
but the token lists is of this kind. -/
theorem Calm.of_notMem {chars : List Char} (hAbsent : '!' ∉ chars) : Calm chars := by
  apply List.Pairwise.isChain
  apply List.pairwise_of_forall_mem_list
  rintro c - next hNext ⟨-, rfl⟩
  exact hAbsent hNext

/-- The same for a text given by its characters, the form in which fixed texts
are looked through. -/
theorem calm_ofList {chars : List Char} (hAbsent : '!' ∉ chars) :
    Calm (String.ofList chars).toList := by
  rw [String.toList_ofList]
  exact Calm.of_notMem hAbsent

/-- Two calm texts stay calm if a character is put between them that is
neither of the two. Every separator in the output is one. -/
theorem Calm.append_cons {front back : List Char} (hFront : Calm front) (hBack : Calm back)
    {c : Char} (hChar : c ∉ ['e', '!']) : Calm (front ++ c :: back) := by
  simp only [List.mem_cons, List.not_mem_nil, or_false, not_or] at hChar
  refine List.isChain_append.mpr ⟨hFront, ?_, ?_⟩
  · refine List.isChain_cons.mpr ⟨?_, hBack⟩
    rintro next - ⟨rfl, -⟩
    exact hChar.1 rfl
  · rintro last - next hNext ⟨-, rfl⟩
    exact hChar.2 (Option.some.inj hNext)

/-- The farewell ends in the two characters that a calm text never has side by
side, so it stands nowhere in such a text. -/
theorem Calm.not_infix {chars : List Char} (hCalm : Calm chars) : ¬ "Bye!".toList <:+: chars := by
  intro hInfix
  have hWord : ['B', 'y', 'e', '!'].IsChain fun c next => ¬ (c = 'e' ∧ next = '!') :=
    List.IsChain.infix hCalm hInfix
  simp at hWord

/-- Joining calm texts with a harmless separator gives a calm text, however
many texts there are. -/
theorem calm_intercalate {c : Char} (hChar : c ∉ ['e', '!']) {parts : List String}
    (hParts : ∀ part ∈ parts, Calm part.toList) :
    Calm ((String.singleton c).intercalate parts).toList := by
  induction parts with
  | nil => simpa using Calm.of_notMem List.not_mem_nil
  | cons part parts ih =>
      obtain ⟨hPart, hRest⟩ := List.forall_mem_cons.mp hParts
      cases parts with
      | nil => simpa using hPart
      | cons next parts =>
          rw [String.intercalate_cons_cons]
          simpa using hPart.append_cons (ih hRest) hChar

/-- Calm texts printed one a line are calm together, because the line break
separates them. -/
theorem calm_lines {texts : List String} (hTexts : ∀ text ∈ texts, Calm text.toList) :
    Calm (String.join (texts.map (· ++ "\n"))).toList := by
  induction texts with
  | nil => exact Calm.of_notMem (by simp)
  | cons text texts ih =>
      obtain ⟨hText, hRest⟩ := List.forall_mem_cons.mp hTexts
      rw [List.map_cons, String.join_cons]
      simpa using hText.append_cons (ih hRest) (by decide : '\n' ∉ ['e', '!'])

/-- The digits of a number hold no exclamation mark. Only membership is
needed, never the digits themselves. -/
theorem bang_notMem_toDigits (n : Nat) : '!' ∉ Nat.toDigits 10 n := by
  intro hMem
  exact absurd (Nat.isDigit_of_mem_toDigits (by decide) (by decide) hMem) (by decide)

theorem bang_notMem_digits (c : Coordinate) : '!' ∉ (digits c).toList := by
  rw [digits, Nat.toString_eq_repr, Nat.toList_repr]
  exact bang_notMem_toDigits c.toNat

theorem toString_text (text : String) : toString text = text := rfl

/-- A name that the grammar can spell holds one letter and quote marks only.
Names are the one part of the output that is not fixed in advance. -/
theorem bang_notMem_of_isSpellable {name : Name} (hName : isSpellable name = true) :
    '!' ∉ name.toList := by
  rw [isSpellable] at hName
  cases hChars : name.toList with
  | nil => exact List.not_mem_nil
  | cons c rest =>
      simp only [hChars, Bool.and_eq_true, List.all_eq_true] at hName
      intro hMem
      rcases List.mem_cons.mp hMem with rfl | hRest
      · exact absurd hName.1 (by decide)
      · exact absurd (hName.2 _ hRest) (by decide)

namespace Term

theorem mem_names_of_mem_leaves {t : Term} {x : Name} (hMem : x ∈ t.leaves) : x ∈ t.names := by
  induction t with
  | var name => exact hMem
  | abs param body ih => simp [names, ih hMem]
  | app fn arg ihFn ihArg =>
      rcases List.mem_append.mp hMem with hFn | hArg
      · simp [names, ihFn hFn]
      · simp [names, ihArg hArg]

theorem mem_names_of_mem_binders {t : Term} {depth : Nat} {binder : Binder}
    (hMem : binder ∈ t.binders depth) : binder.name ∈ t.names := by
  induction t generalizing depth with
  | var name => cases hMem
  | abs param body ih =>
      rcases List.mem_cons.mp hMem with rfl | hBody
      · simp [names]
      · simp [names, ih hBody]
  | app fn arg ihFn ihArg =>
      rcases List.mem_append.mp hMem with hFn | hArg
      · simp [names, ihFn hFn]
      · simp [names, ihArg hArg]

variable {t : Term} (hNames : t.AllNames (isSpellable · = true))

include hNames

/-- A term with spellable names is printed without exclamation marks: what
stands between its names are dots, lambdas, blanks and parentheses. -/
theorem bang_notMem_render : '!' ∉ t.render.toList := by
  induction t with
  | var name => exact bang_notMem_of_isSpellable (allNames_var.mp hNames)
  | abs param body ih =>
      obtain ⟨hParam, hBody⟩ := allNames_abs.mp hNames
      simp [render, bang_notMem_of_isSpellable hParam, ih hBody]
  | app fn arg ihFn ihArg =>
      obtain ⟨hFn, hArg⟩ := allNames_app.mp hNames
      simp [render, ihFn hFn, ihArg hArg]

theorem bang_notMem_label {l : Label} (hMem : l ∈ t.layout.labels) : '!' ∉ l.text.toList := by
  have hLeaf : l.text ∈ t.leaves := t.map_text_labels ▸ List.mem_map_of_mem hMem
  exact bang_notMem_of_isSpellable (hNames _ (mem_names_of_mem_leaves hLeaf))

/-- The labels of the bars are names of the term, with a lambda in front. -/
theorem bang_notMem_bar {b : Bar} (hMem : b ∈ t.layout.bars) : '!' ∉ b.label.toList := by
  obtain ⟨binder, hBinder, hBar⟩ := List.mem_filterMap.mp hMem
  rw [Stem.bar?] at hBar
  split at hBar
  · obtain rfl := Option.some.inj hBar
    simpa using bang_notMem_of_isSpellable (hNames _ (mem_names_of_mem_binders hBinder))
  · cases hBar

/-- The description of a diagram is calm, for all its parts are free of
exclamation marks. -/
theorem calm_describe_layout : Calm t.layout.describe.toList := by
  refine calm_intercalate (c := '\n') (by decide) ?_
  intro part hPart
  apply Calm.of_notMem
  simp only [List.mem_cons, List.mem_append, List.mem_map] at hPart
  rcases hPart with rfl | ((⟨b, hBar, rfl⟩ | ⟨l, -, rfl⟩) | ⟨c, -, rfl⟩) | ⟨l, hLabel, rfl⟩
  · simp [toString_text, bang_notMem_digits]
  · unfold Bar.describe
    simp [toString_text, bang_notMem_digits, bang_notMem_bar hNames hBar]
  · unfold Line.describe
    simp [toString_text, bang_notMem_digits]
  · unfold Connector.describe
    simp [toString_text, bang_notMem_digits]
  · unfold Label.describe
    cases l.bound <;> simp [toString_text, bang_notMem_digits, bang_notMem_label hNames hLabel]

end Term

/-- A list of tokens may print exclamation marks, but each of them as a token
of its own between two separators. -/
theorem calm_tokens (text : String) :
    Calm (Message.tokens ((Lexeme.scan text).map Lexeme.token)).text.toList := by
  refine calm_intercalate (c := ' ') (by decide) ?_
  intro part hPart
  obtain ⟨token, hToken, rfl⟩ := List.mem_map.mp hPart
  cases token with
  | other c =>
      rw [Token.text, Char.toString_eq_singleton, String.toList_singleton]
      exact List.isChain_singleton c
  | ident name =>
      rw [Lexeme.map_token_scan] at hToken
      exact Calm.of_notMem (bang_notMem_of_isSpellable (Lexeme.isSpellable_of_mem_tokens hToken))
  | lparen | rparen | dot | lambda => exact Calm.of_notMem (by decide)

/-- The help text is calm. It is a fixed text, and it is looked through
character by character. -/
theorem calm_help : Calm Message.help.text.toList := by
  refine calm_intercalate (c := '\n') (by decide) ?_
  repeat refine List.forall_mem_cons.mpr ⟨calm_ofList (by decide), ?_⟩
  exact fun part hMem => absurd hMem List.not_mem_nil

theorem calm_finished (steps : Nat) : Calm (Message.finished steps).text.toList := by
  apply Calm.of_notMem
  show '!' ∉ s!"({steps} steps)".toList
  simp [toString_text, bang_notMem_toDigits]

/-- The report of a run that used up its budget is calm, whatever the number
of its steps; the digits hold no exclamation mark. -/
theorem calm_stopped (steps : Nat) : Calm (Message.stopped steps).text.toList := by
  apply Calm.of_notMem
  show '!' ∉ s!"(stopped after {steps} steps without reaching a normal form)".toList
  simp [toString_text, bang_notMem_toDigits]

namespace Session

def IsSpellable (session : Session) : Prop :=
  ∀ t, session.current = some t → t.AllNames (isSpellable · = true)

namespace IsSpellable

variable {session : Session} (hSession : session.IsSpellable)

include hSession

/-- Answering an input keeps the current term spellable: terms are read from
text, and reduction only appends quote marks. -/
theorem respond (input : String) : (session.respond input).1.IsSpellable := by
  rw [Session.respond]
  split
  · exact hSession
  · refine Advances.current ?_ ?_ (session.advances_handle input) hSession
    · intro text t
      exact Term.isSpellable_of_parse
    · intro t u
      exact Term.allNames_spellable_reduce?

/-- Every term that a command can be about has spellable names, the current
one as well as one that was just read. -/
theorem offers {t : Term} (hOffers : session.Offers t) : t.AllNames (isSpellable · = true) := by
  rcases hOffers with hCurrent | ⟨text, hParse⟩
  · exact hSession t hCurrent
  · exact Term.isSpellable_of_parse hParse

end IsSpellable

section Messages

variable {t : Term} (hNames : t.AllNames (isSpellable · = true))

include hNames

theorem calm_term : Calm (Message.term t).text.toList :=
  Calm.of_notMem (Term.bang_notMem_render hNames)

theorem calm_diagram : Calm (Message.diagram t.layout).text.toList :=
  Term.calm_describe_layout hNames

theorem calm_stepAction : ∀ message ∈ (stepAction t).2, Calm message.text.toList := by
  rw [stepAction]
  cases hStep : t.reduce? with
  | none => exact List.forall_mem_singleton.mpr (calm_ofList (by decide))
  | some next =>
      have hNext := Term.allNames_spellable_reduce? hNames hStep
      exact List.forall_mem_cons.mpr
        ⟨calm_term hNext, List.forall_mem_singleton.mpr (calm_diagram hNext)⟩

theorem calm_normalizeAction (budget : Nat) :
    ∀ message ∈ (normalizeAction budget t).2, Calm message.text.toList := by
  obtain ⟨count, run⟩ := reducesIn_normalizeAction budget t
  have hResult : (normalizeAction budget t).1.AllNames (isSpellable · = true) :=
    run.preserves (fun _ _ => Term.allNames_spellable_reduce?) hNames
  refine List.forall_mem_cons.mpr ⟨calm_term hResult, List.forall_mem_singleton.mpr ?_⟩
  split
  · exact calm_finished _
  · exact calm_stopped _

end Messages

/-- A command that acts on a term prints calm messages if its action does so
on every spellable term. -/
theorem calm_of_onSubject {session next : Session} (hSession : session.IsSpellable)
    {text : String} {messages : List Message} {action : Term → Term × List Message}
    (hAction : ∀ t : Term, t.AllNames (isSpellable · = true) →
      ∀ message ∈ (action t).2, Calm message.text.toList)
    (hResult : session.onSubject text action = .ok (next, messages)) :
    ∀ message ∈ messages, Calm message.text.toList := by
  rw [onSubject] at hResult
  cases hSubject : session.subject text with
  | error e =>
      rw [hSubject] at hResult
      cases hResult
  | ok found =>
      rw [hSubject] at hResult
      cases found with
      | none =>
          cases hResult
          exact List.forall_mem_singleton.mpr (calm_ofList (by decide))
      | some t =>
          cases hResult
          exact hAction t (hSession.offers (offers_of_subject hSubject))

/-- A command that reads a term prints calm messages if it does so for every
spellable term that may be read. -/
theorem calm_of_parse {session next : Session} {text : String} {messages : List Message}
    {report : Term → List Message}
    (hReport : ∀ t : Term, t.AllNames (isSpellable · = true) →
      ∀ message ∈ report t, Calm message.text.toList)
    (hResult : (do let t ← Term.parse text
                   .ok (session.withCurrent t, report t)) = Except.ok (next, messages)) :
    ∀ message ∈ messages, Calm message.text.toList := by
  cases hParse : Term.parse text with
  | error e =>
      rw [hParse] at hResult
      cases hResult
  | ok t =>
      rw [hParse] at hResult
      cases hResult
      exact hReport t (Term.isSpellable_of_parse hParse)

/-- Whatever command is performed, its messages are calm. Commands that fail
print no message at all. -/
theorem calm_of_perform {session next : Session} (hSession : session.IsSpellable)
    {command : Command} {messages : List Message}
    (hResult : session.perform command = .ok (next, messages)) :
    ∀ message ∈ messages, Calm message.text.toList := by
  rw [perform] at hResult
  cases hVerb : command.verb with
  | enter =>
      rw [hVerb] at hResult
      refine calm_of_parse ?_ hResult
      intro t hNames
      exact List.forall_mem_cons.mpr
        ⟨calm_term hNames, List.forall_mem_singleton.mpr (calm_diagram hNames)⟩
  | parse =>
      rw [hVerb] at hResult
      exact calm_of_parse (fun t hNames => List.forall_mem_singleton.mpr (calm_term hNames)) hResult
  | tokenize =>
      rw [hVerb] at hResult
      cases hResult
      exact List.forall_mem_singleton.mpr (calm_tokens command.text)
  | layout =>
      rw [hVerb] at hResult
      refine calm_of_onSubject hSession ?_ hResult
      intro t hNames
      exact List.forall_mem_singleton.mpr (calm_diagram hNames)
  | step =>
      rw [hVerb] at hResult
      exact calm_of_onSubject hSession (fun t => calm_stepAction) hResult
  | normalize =>
      rw [hVerb] at hResult
      exact calm_of_onSubject hSession (fun t hNames => calm_normalizeAction hNames _) hResult
  | help | unknown word =>
      rw [hVerb] at hResult
      cases hResult
      exact List.forall_mem_singleton.mpr calm_help

/-- All messages of a reply are calm, whether the input was performed or
refused. -/
theorem calm_respond {session : Session} (hSession : session.IsSpellable) (input : String) :
    ∀ message ∈ (session.respond input).2.messages, Calm message.text.toList := by
  rw [respond]
  split
  · exact fun message hMem => absurd hMem List.not_mem_nil
  · rw [handle]
    cases hResult : session.perform (Command.ofLine input) with
    | error e => exact fun message hMem => absurd hMem List.not_mem_nil
    | ok result => exact calm_of_perform hSession hResult

/-- All messages of a whole conversation are calm. The invariant is that the
current term stays spellable from one input to the next. -/
theorem calm_exchanges {session : Session} (hSession : session.IsSpellable)
    (inputs : List String) : ∀ exchange ∈ session.exchanges inputs,
      ∀ message ∈ exchange.reply.messages, Calm message.text.toList := by
  induction inputs generalizing session with
  | nil => exact fun exchange hMem => absurd hMem List.not_mem_nil
  | cons input rest ih =>
      exact List.forall_mem_cons.mpr ⟨calm_respond hSession input, ih (hSession.respond input)⟩

end Session

/-- What the replies print is a sequence of lines, one a message, with nothing
printed in between. -/
theorem join_output_eq_lines (exchanges : List Exchange) :
    String.join (exchanges.map fun exchange => exchange.reply.output) =
      String.join (((exchanges.flatMap fun exchange => exchange.reply.messages).map
        Message.text).map (· ++ "\n")) := by
  induction exchanges with
  | nil => rfl
  | cons exchange rest ih =>
      have hOutput : exchange.reply.output =
          String.join ((exchange.reply.messages.map Message.text).map (· ++ "\n")) := by
        rw [Reply.output, List.map_map]
        rfl
      rw [List.map_cons, String.join_cons, hOutput, ih, List.flatMap_cons, List.map_append,
        List.map_append, String.join_append]

/-- What a dialogue prints up to its last reply: the banner, and the replies
to these inputs. -/
def Session.printout (session : Session) (inputs : List String) : String :=
  banner ++ String.join ((session.exchanges inputs).map fun exchange => exchange.reply.output)

/-- The word of the farewell is never printed before the farewell itself,
neither in the banner nor in any reply. A reader of the output can therefore
tell a conversation that ended well from one that was cut off. -/
theorem Session.IsSpellable.farewell_not_infix {session : Session}
    (hSession : session.IsSpellable) (inputs : List String) :
    ¬ "Bye!".toList <:+: (session.printout inputs).toList := by
  have hBanner : banner = String.join
      (["Hi, this is an untyped lambda calculus REPL. :h to show help", ""].map (· ++ "\n")) := by
    decide
  rw [Session.printout, join_output_eq_lines, hBanner, ← String.join_append, ← List.map_append]
  apply Calm.not_infix
  apply calm_lines
  refine List.forall_mem_append.mpr ⟨?_, ?_⟩
  · intro text hText
    exact Calm.of_notMem (by decide +revert)
  · intro text hText
    obtain ⟨message, hMessage, rfl⟩ := List.mem_map.mp hText
    obtain ⟨exchange, hExchange, hReply⟩ := List.mem_flatMap.mp hMessage
    exact calm_exchanges hSession inputs exchange hExchange message hReply

end LambdaDiagram
