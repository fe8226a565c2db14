import LambdaDiagram.CommandLine
import LambdaDiagram.Session
import LambdaDiagram.Text.Lines

/-!
A whole run of the program as a function of its arguments, its standard input and the possibility to
save the history.

Without a single command to carry out, a run is a dialogue. The session is fed line by line. A line
that ends in a backslash is continued by the next one; the collected text is one input of the
session. After each input that is not empty the history is saved. The first failure to read a line,
to draw a report or to save the history ends the dialogue.
-/
namespace LambdaDiagram

inductive Failure where
  /-- A line cannot be read. -/
  | line (error : Text.LineError)
  /-- The report on a rejected expression cannot be drawn. -/
  | report (rejection : Rejection)
  /-- The history cannot be saved, for the given reason. -/
  | history (reason : String)
  deriving DecidableEq, Repr

namespace Failure

/-- What a failure leaves on the error stream, apart from the traces of a
crash. A report begins with its headline, which is printed before the source
is looked at. -/
def text? : Failure → Option String
  | line .invalidText => some "Error: stream did not contain valid UTF-8"
  | line .splitCharacter => none
  | report rejection => some rejection.headline
  | history reason => some ("Error: " ++ reason)

/-- The exit code after a failure. A line that cannot be edited and a report
that cannot be drawn crash the program; the other failures are faults of its
surroundings. -/
def exitCode : Failure → Nat
  | line .splitCharacter => 101
  | report _ => 101
  | line .invalidText => 1
  | history _ => 1

end Failure

/-- A session, and the text of the lines that wait to be continued. -/
structure Dialogue where
  session : Session
  pending : String := ""
  deriving DecidableEq, Repr

structure Exchange where
  input : String
  reply : Reply
  deriving DecidableEq, Repr

/-- What one line leads to: the exchange that it completes, if it completes
one, and the dialogue to go on with or the failure that ends it. -/
structure Turn where
  exchange : Option Exchange
  next : Except Failure Dialogue

/-- The course of a dialogue: its exchanges in order, and the failure that
ended it, or `none` if it ran to the end of the input. -/
structure Transcript where
  exchanges : List Exchange
  failure : Option Failure
  deriving DecidableEq, Repr

namespace Turn

/-- The input to be saved in the history after a turn. Nothing is saved for an
empty one. -/
def toSave? (turn : Turn) : Option String :=
  (turn.exchange.map Exchange.input).filter (· ≠ "")

/-- A turn after the attempt to save its input. If the history cannot be
saved, `saveError` is the reason, and it ends the dialogue once there is
something to save. -/
def saved (saveError : Option String) (turn : Turn) : Turn :=
  match turn.toSave?, saveError with
  | some _, some reason => { turn with next := .error (.history reason) }
  | _, _ => turn

theorem toSave?_of_input_ne {input : String} (hInput : input ≠ "") (reply : Reply)
    (next : Except Failure Dialogue) : toSave? ⟨some ⟨input, reply⟩, next⟩ = some input := by
  simp [toSave?, Option.filter_eq_some_iff, hInput]

theorem saved_of_toSave? {turn : Turn} {input : String} (hSave : turn.toSave? = some input)
    (reason : String) :
    turn.saved (some reason) = { turn with next := .error (.history reason) } := by
  simp only [saved, hSave]

/-- A turn stays as it is if the history can be saved, and if there is nothing
to save. -/
theorem saved_eq_self {turn : Turn} {saveError : Option String}
    (hSaved : saveError = none ∨ turn.toSave? = none) : turn.saved saveError = turn := by
  rcases hSaved with rfl | hNothing
  · simp [saved]
  · simp [saved, hNothing]

end Turn

namespace Dialogue

/-- What a line contributes to an input that goes on with the next line: the
backslash at its end becomes a line feed. It is `none` for a line that
completes an input. -/
def continued? (line : String) : Option String :=
  if line.toList.getLast? = some '\\' then some (String.ofList (line.toList.dropLast ++ ['\n']))
  else none

/-- Takes one line, and evaluates the input if the line completes one. -/
def take (dialogue : Dialogue) : Except Text.LineError String → Turn
  | .error e => ⟨none, .error (.line e)⟩
  | .ok line =>
    match continued? line with
    | some part => ⟨none, .ok ⟨dialogue.session, dialogue.pending ++ part⟩⟩
    | none =>
      let input := dialogue.pending ++ line
      match dialogue.session.evaluate input with
      | .error rejection => ⟨none, .error (.report rejection)⟩
      | .ok (session, reply) => ⟨some ⟨input, reply⟩, .ok ⟨session, ""⟩⟩

/-- Takes lines one after the other, and stops at the first failure. A text
that waits to be continued at the end is dropped. -/
def run (saveError : Option String) (dialogue : Dialogue) :
    List (Except Text.LineError String) → Transcript
  | [] => ⟨[], none⟩
  | line :: rest =>
    let turn := (dialogue.take line).saved saveError
    match turn.next with
    | .error failure => ⟨turn.exchange.toList, some failure⟩
    | .ok next =>
      let tail := run saveError next rest
      ⟨turn.exchange.toList ++ tail.exchanges, tail.failure⟩

end Dialogue

inductive Complaint where
  | usage (error : UsageError)
  | diagnostic (diagnostic : Diagnostic)
  | failure (failure : Failure)
  deriving DecidableEq, Repr

def Complaint.text? : Complaint → Option String
  | usage error => some error.text
  | diagnostic d => some d.text
  | failure f => f.text?

/-- What a run leaves behind: its exit code, what it printed, and what it
complained about. -/
structure Outcome where
  exitCode : Nat
  output : String
  complaints : List Complaint
  deriving DecidableEq, Repr

def banner : String :=
  "Hi, this is an untyped lambda calculus REPL. :h to show help\n\n"

/-- The last words of a dialogue that ran to the end of its input. -/
def farewell : String :=
  "Bye!\n"

namespace Outcome

/-- The outcome of replies that were printed after `greeting`. A failure adds
itself to the complaints and decides on the exit code; `ending` is printed
only without one. -/
def ofReplies (greeting ending : String) (replies : List Reply) (failure? : Option Failure) :
    Outcome :=
  let output := greeting ++ String.join (replies.map Reply.output)
  let diagnostics := replies.flatMap fun reply => reply.diagnostic.toList.map .diagnostic
  match failure? with
  | none => ⟨0, output ++ ending, diagnostics⟩
  | some failure => ⟨failure.exitCode, output, diagnostics ++ [.failure failure]⟩

/-- The outcome of a single command, which is neither greeted nor taken leave
of. -/
def ofEvaluation : Except Rejection (Session × Reply) → Outcome
  | .ok (_, reply) => ofReplies "" "" [reply] none
  | .error rejection => ofReplies "" "" [] (some (.report rejection))

def ofTranscript (transcript : Transcript) : Outcome :=
  ofReplies banner farewell (transcript.exchanges.map Exchange.reply) transcript.failure

end Outcome

/-- Runs the program. The lines of the input are read by `decode`. If the
history cannot be saved in the file at a path, `saveError` gives the reason
for that path. -/
def runProgram (decode : Text.LineReader) (saveError : String → Option String)
    (arguments : List String) (stdin : List UInt8) : Outcome :=
  match Request.ofArguments arguments with
  | .error e => ⟨2, "", [.usage e]⟩
  | .ok .help => ⟨0, usageText ++ "\n", []⟩
  | .ok (.run options) =>
    let session : Session := { budget := options.budget }
    match options.command with
    | some command => .ofEvaluation (session.evaluate command)
    | none =>
      .ofTranscript <|
        Dialogue.run (saveError options.historyPath) { session } (Text.readLines decode stdin)

end LambdaDiagram
