import LambdaDiagram.Program

/-!
The program on a real console: it reads standard input line by line and answers each line at once.
-/
namespace LambdaDiagram.Console

/-- Reads up to and including the next line feed; the result is empty at the
end of the stream. -/
partial def readRawLine (stdin : IO.FS.Stream) (line : List UInt8) : IO (List UInt8) := do
  let chunk ← stdin.read 1
  match chunk.toList with
  | [] => return line.reverse
  | byte :: _ => if byte = 10 then return (byte :: line).reverse else readRawLine stdin (byte :: line)

def printReply (reply : Reply) : IO Unit := do
  IO.print reply.output
  (← IO.getStdout).flush
  if let some diagnostic := reply.diagnostic then IO.eprintln diagnostic.text

/-- The reason behind an error of the operating system, with its number. -/
def reason : IO.Error → String
  | .noFileOrDirectory _ code _ => s!"No such file or directory (os error {code})"
  | .permissionDenied _ code _ => s!"Permission denied (os error {code})"
  | .inappropriateType _ code _ => s!"Is a directory (os error {code})"
  | e => toString e

/-- Adds an input to the history file; the result is the reason if that fails. -/
def save (path input : String) : IO (Option String) := do
  try
    IO.FS.withFile path .append fun file => file.putStrLn input
    return none
  catch e => return some (reason e)

def fail (failure : Failure) : IO UInt32 := do
  if let some text := failure.text? then IO.eprintln text
  return UInt32.ofNat failure.exitCode

/-- Goes through a dialogue and returns the exit code. What a line leads to is
decided by `Dialogue.take` and `Turn.saved`; here the replies are printed and
the inputs are saved. -/
partial def converse (stdin : IO.FS.Stream) (path : String) (dialogue : Dialogue) : IO UInt32 := do
  let raw ← readRawLine stdin []
  if raw.isEmpty then
    IO.print farewell
    return 0
  let turn := dialogue.take (Text.decodeLine raw)
  if let some exchange := turn.exchange then printReply exchange.reply
  let saveError ← match turn.toSave? with
    | some input => save path input
    | none => pure none
  match (turn.saved saveError).next with
  | .error failure => fail failure
  | .ok next => converse stdin path next

def perform : Request → IO UInt32
  | .help => do
    IO.println usageText
    return 0
  | .run options => do
    let session : Session := { budget := options.budget }
    match options.command with
    | some command =>
      match session.evaluate command with
      | .error rejection => fail (.report rejection)
      | .ok (_, reply) => do
        printReply reply
        return 0
    | none =>
      IO.print banner
      converse (← IO.getStdin) options.historyPath { session }

end LambdaDiagram.Console

def main (arguments : List String) : IO UInt32 :=
  match LambdaDiagram.Request.ofArguments arguments with
  | .error e => do
    IO.eprintln e.text
    return 2
  | .ok request => LambdaDiagram.Console.perform request
