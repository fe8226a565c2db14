import LambdaDiagram.Diagram
import LambdaDiagram.Grammar
import LambdaDiagram.Reduction

/-!
An interactive session. It remembers the term that the last successful command produced, so that
commands can be applied to it without repeating it. A command line that starts with a colon names a
command; any other line is a term to be entered.
-/
namespace LambdaDiagram

inductive Verb where
  /-- Make a term the current one; print it and its diagram. -/
  | enter
  | tokenize
  | parse
  | layout
  | step
  | normalize
  | help
  /-- A word that names no command. -/
  | unknown (word : String)
  deriving DecidableEq, Repr

/-- The meaning of a command word; most commands have short forms. -/
def Verb.ofWord (word : String) : Verb :=
  if word = "" then enter
  else if word ∈ ["to", "tokenize"] then tokenize
  else if word ∈ ["p", "parse"] then parse
  else if word ∈ ["l", "layout"] then layout
  else if word ∈ ["s", "step", "b", "beta"] then step
  else if word ∈ ["n", "normalize"] then normalize
  else if word ∈ ["h", "he", "hel", "help"] then help
  else unknown word

structure Command where
  verb : Verb
  text : String
  deriving DecidableEq, Repr

namespace Command

/-- Splits what follows the colon. Blanks before the command word are skipped
and the first space after it ends the word, but where no space follows,
everything after the colon is the word, its leading blanks included. -/
def splitWord (rest : List Char) : List Char × List Char :=
  let trimmed := rest.dropWhile Text.isBlank
  if ' ' ∈ trimmed then (trimmed.takeWhile (· ≠ ' '), (trimmed.dropWhile (· ≠ ' ')).drop 1)
  else (rest, [])

def ofLine (line : String) : Command :=
  match line.toList with
  | ':' :: rest =>
    let (word, text) := splitWord rest
    ⟨Verb.ofWord (String.ofList word), String.ofList text⟩
  | _ => ⟨.enter, line⟩

end Command

inductive Message where
  | term (t : Term)
  | diagram (scene : Scene)
  | tokens (ts : List Token)
  /-- A command needs a term, none is given, and there is no current one. -/
  | noTerm
  /-- A step was asked for, but the term has no redex. -/
  | noRedex
  /-- Normalising ended with a normal form. -/
  | finished (steps : Nat)
  /-- Normalising used up its budget. -/
  | stopped (steps : Nat)
  | help
  deriving DecidableEq, Repr

def helpText : String :=
  "\n".intercalate
    ["term                -- parse the term, show it and its diagram",
     ":tokenize   term    -- show tokenized term",
     ":parse      term    -- show parsed term",
     ":layout    [term]   -- show the diagram of the term",
     ":step      [term]   -- perform one beta reduction",
     ":normalize [term]   -- reduce until normal form or the step budget runs out",
     ":help               -- show this message",
     "",
     "Without a term, :layout, :step and :normalize use the last result.",
     "`\\` can be typed in place of `λ`."]

def Message.text : Message → String
  | term t => t.render
  | diagram scene => scene.describe
  | tokens ts => " ".intercalate (ts.map Token.text)
  | noTerm => "Please enter a term first."
  | noRedex => "No further beta-reductions possible."
  | finished steps => s!"({steps} steps)"
  | stopped steps => s!"(stopped after {steps} steps without reaching a normal form)"
  | help => helpText

structure Rejection where
  source : String
  error : ParseError
  deriving DecidableEq, Repr

/-- The first line of the report on a rejected expression. -/
def Rejection.headline (r : Rejection) : String :=
  "Error: Invalid lambda expression: " ++ r.error.kind.text

def Rejection.place (r : Rejection) : Text.Position :=
  Text.Position.ofOffset r.source r.error.position

inductive Diagnostic where
  | unknownCommand (word : String)
  | rejected (rejection : Rejection)
  deriving DecidableEq, Repr

def Diagnostic.text : Diagnostic → String
  | unknownCommand word => "Unknown command " ++ word
  | rejected r => s!"{r.headline}\n  at {r.place.line}:{r.place.column}: {r.error.message}"

structure Reply where
  messages : List Message := []
  diagnostic : Option Diagnostic := none
  deriving DecidableEq, Repr

namespace Reply

/-- Everything printed by the messages of a reply; each ends its line. -/
def output (reply : Reply) : String :=
  String.join (reply.messages.map fun message => message.text ++ "\n")

def rejection? (reply : Reply) : Option Rejection :=
  match reply.diagnostic with
  | some (.rejected rejection) => some rejection
  | _ => none

/-- The source of the report in a reply, if it is one on a rejected
expression. -/
def reportSource? (reply : Reply) : Option String :=
  reply.rejection?.map Rejection.source

end Reply

/-- The state of a session: the step budget of every normalisation, and the
current term. -/
structure Session where
  budget : Nat
  current : Option Term := none
  deriving DecidableEq, Repr

namespace Session

def withCurrent (session : Session) (t : Term) : Session :=
  { session with current := some t }

/-- The term that a command is about: the one in its text, or the current one
if the text is blank. -/
def subject (session : Session) (text : String) : Except ParseError (Option Term) :=
  if Text.isBlankText text then .ok session.current
  else (Term.parse text).map some

/-- Applies a command that works on a term and leaves its result as the
current one. -/
def onSubject (session : Session) (text : String) (action : Term → Term × List Message) :
    Except ParseError (Session × List Message) := do
  match ← session.subject text with
  | none => .ok (session, [.noTerm])
  | some t =>
    let (result, messages) := action t
    .ok (session.withCurrent result, messages)

def stepAction (t : Term) : Term × List Message :=
  match t.reduce? with
  | none => (t, [.noRedex])
  | some next => (next, [.term next, .diagram next.layout])

def normalizeAction (budget : Nat) (t : Term) : Term × List Message :=
  let run := t.normalize (some budget)
  (run.term,
    [.term run.term, if run.reachedNormalForm then .finished run.steps else .stopped run.steps])

/-- Carries out a command. Only an expression that cannot be read makes it
fail. -/
def perform (session : Session) (command : Command) :
    Except ParseError (Session × List Message) :=
  match command.verb with
  | .enter => do
    let t ← Term.parse command.text
    .ok (session.withCurrent t, [.term t, .diagram t.layout])
  | .parse => do
    let t ← Term.parse command.text
    .ok (session.withCurrent t, [.term t])
  | .tokenize => .ok (session, [.tokens ((Lexeme.scan command.text).map Lexeme.token)])
  | .layout => session.onSubject command.text fun t => (t, [.diagram t.layout])
  | .step => session.onSubject command.text stepAction
  | .normalize => session.onSubject command.text (normalizeAction session.budget)
  | .help => .ok (session, [.help])
  | .unknown _ => .ok (session, [.help])

def complaint? : Verb → Option Diagnostic
  | .unknown word => some (.unknownCommand word)
  | _ => none

/-- Answers a command line. A rejected expression changes nothing and prints
nothing but its report. -/
def handle (session : Session) (line : String) : Session × Reply :=
  let command := Command.ofLine line
  match session.perform command with
  | .ok (next, messages) => (next, ⟨messages, complaint? command.verb⟩)
  | .error e => (session, ⟨[], some (.rejected ⟨command.text, e⟩)⟩)

/-- Answers an input; a blank one gets no answer. -/
def respond (session : Session) (input : String) : Session × Reply :=
  if Text.isBlankText input then (session, {}) else session.handle input

/-- Evaluates an input: answers it and draws the report on a rejected
expression. A report shows the line that it points at, and an empty source has
no line, so the attempt to draw a report on it fails. The session does not
survive this, and the rejection is all that is left of it. -/
def evaluate (session : Session) (input : String) : Except Rejection (Session × Reply) :=
  let (next, reply) := session.respond input
  match reply.rejection? with
  | some rejection => if rejection.source = "" then .error rejection else .ok (next, reply)
  | none => .ok (next, reply)

end Session

def prompt : String :=
  "λ> "

end LambdaDiagram
