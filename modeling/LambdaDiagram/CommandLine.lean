/-!
The command line. Arguments are read from left to right. The value of an option is checked only when
the next known argument or the end is reached; an argument that is not known at all is reported
before a value that still waits for its check.

Counts are decimal numbers below 2^64, with an optional plus sign. The text of one
is read from left to right, and the first character that does not fit decides what is wrong with it.
-/
namespace LambdaDiagram

inductive CountError where
  | empty
  | invalidDigit
  | tooLarge
  deriving DecidableEq, Repr

def CountError.text : CountError → String
  | empty => "cannot parse integer from empty string"
  | invalidDigit => "invalid digit found in string"
  | tooLarge => "number too large to fit in target type"

namespace Count

def limit : Nat :=
  UInt64.size

def appendDigit (n : Nat) (c : Char) : Except CountError Nat :=
  if c.isDigit then
    let next := n * 10 + (c.toNat - '0'.toNat)
    if next < limit then .ok next else .error .tooLarge
  else .error .invalidDigit

/-- Reads a count. A sign needs a digit after it. -/
def parse (text : String) : Except CountError Nat :=
  match text.toList with
  | [] => .error .empty
  | ['+'] => .error .invalidDigit
  | '+' :: digits => digits.foldlM appendDigit 0
  | digits => digits.foldlM appendDigit 0

end Count

inductive Setting where
  | history
  | maxSteps
  deriving DecidableEq, Repr

def Setting.usage : Setting → String
  | history => "--history <HISTORY>"
  | maxSteps => "--max-steps <MAX_STEPS>"

def Setting.ofName? (name : String) : Option Setting :=
  if name = "history" then some history
  else if name = "max-steps" then some maxSteps
  else none

inductive UsageError where
  | missingValue (setting : Setting)
  | repeated (setting : Setting)
  | invalidCount (value : String) (cause : CountError)
  | unexpectedArgument (argument : String)
  /-- The help option was given a value. -/
  | unexpectedHelpValue (value : String)
  deriving DecidableEq, Repr

def UsageError.text : UsageError → String
  | missingValue setting =>
    s!"error: a value is required for '{setting.usage}' but none was supplied"
  | repeated setting => s!"error: the argument '{setting.usage}' cannot be used multiple times"
  | invalidCount value cause =>
    s!"error: invalid value '{value}' for '{Setting.maxSteps.usage}': {cause.text}"
  | unexpectedArgument argument => s!"error: unexpected argument '{argument}' found"
  | unexpectedHelpValue value =>
    s!"error: unexpected value '{value}' for '--help' found; no more were expected"

/-- What a command line settles; `none` where it says nothing. -/
structure Options where
  history : Option String := none
  maxSteps : Option Nat := none
  /-- A single command to run in place of a dialogue. -/
  command : Option String := none
  deriving DecidableEq, Repr

namespace Options

def defaultHistory : String :=
  "/tmp/tromp.history"

def defaultMaxSteps : Nat :=
  1000

def historyPath (options : Options) : String :=
  options.history.getD defaultHistory

def budget (options : Options) : Nat :=
  options.maxSteps.getD defaultMaxSteps

def has (options : Options) : Setting → Bool
  | .history => options.history.isSome
  | .maxSteps => options.maxSteps.isSome

/-- Checks the value of an option and stores it. An absent value is reported
before a repeated option, and that before an unsuitable value. -/
def assign (options : Options) (setting : Setting) (value : Option String) :
    Except UsageError Options :=
  match value with
  | none => .error (.missingValue setting)
  | some text =>
    if options.has setting then .error (.repeated setting)
    else
      match setting with
      | .history =>
        if text = "" then .error (.missingValue .history)
        else .ok { options with history := some text }
      | .maxSteps =>
        match Count.parse text with
        | .ok n => .ok { options with maxSteps := some n }
        | .error cause => .error (.invalidCount text cause)

end Options

inductive Request where
  | help
  | run (options : Options)
  deriving DecidableEq, Repr

inductive Argument where
  /-- Two dashes alone: no options follow. -/
  | separator
  /-- Two dashes and a name, with the text after an equals sign as its value. -/
  | long (name : String) (value : Option String)
  /-- A dash and at least one letter, of which only the first is looked at. -/
  | short (letter : Char)
  | plain
  deriving DecidableEq, Repr

/-- The form of an argument; a single dash is nothing special. -/
def Argument.ofText (text : String) : Argument :=
  match text.toList with
  | ['-', '-'] => separator
  | '-' :: '-' :: rest =>
    let name := String.ofList (rest.takeWhile (· ≠ '='))
    match rest.dropWhile (· ≠ '=') with
    | [] => long name none
    | _ :: value => long name (some (String.ofList value))
  | '-' :: letter :: _ => short letter
  | _ => plain

structure CommandLine where
  /-- The values checked so far. -/
  options : Options := {}
  /-- The latest option whose value is not checked yet, with its value if one has been read. -/
  waiting : Option (Setting × Option String) := none
  deriving DecidableEq, Repr

namespace CommandLine

def settle (line : CommandLine) : Except UsageError Options :=
  match line.waiting with
  | none => .ok line.options
  | some (setting, value) => line.options.assign setting value

/-- Takes an argument that is not an option: the single command. -/
def positional (line : CommandLine) (text : String) : Except UsageError CommandLine :=
  if line.options.command.isSome then .error (.unexpectedArgument text)
  else do
    let options ← line.settle
    .ok ⟨{ options with command := some text }, none⟩

def readPlain (line : CommandLine) (texts : List String) : Except UsageError Request := do
  let line ← texts.foldlM positional line
  let options ← line.settle
  .ok (.run options)

/-- Reads arguments among which there may be options. Help is shown as soon as
it is asked for, but only if the value that waits is a suitable one. -/
def read (line : CommandLine) : List String → Except UsageError Request
  | [] => line.readPlain []
  | text :: rest =>
    match Argument.ofText text with
    | .separator => line.readPlain rest
    | .long name value =>
      match Setting.ofName? name, value with
      | some setting, none => do
        let options ← line.settle
        read ⟨options, some (setting, none)⟩ rest
      | some setting, some value => do
        let options ← (← line.settle).assign setting (some value)
        read ⟨options, none⟩ rest
      | none, _ =>
        if name ≠ "help" then .error (.unexpectedArgument ("--" ++ name))
        else
          match value with
          | none => line.settle.map fun _ => .help
          | some value => .error (.unexpectedHelpValue value)
    | .short letter =>
      if letter = 'h' then line.settle.map fun _ => .help
      else .error (.unexpectedArgument (String.ofList ['-', letter]))
    | .plain =>
      match line.waiting with
      | some (setting, none) => read { line with waiting := some (setting, some text) } rest
      | _ => do
        let line ← line.positional text
        read line rest

end CommandLine

def Request.ofArguments (arguments : List String) : Except UsageError Request :=
  CommandLine.read {} arguments

def usageText : String :=
  "\n".intercalate
    ["Untyped lambda calculus REPL drawing Tromp diagrams",
     "",
     "Usage: tromp [OPTIONS] [COMMAND]",
     "",
     "Arguments:",
     "  [COMMAND]  Run a single REPL command and exit",
     "",
     "Options:",
     "      --history <HISTORY>      REPL history file [default: /tmp/tromp.history]",
     "      --max-steps <MAX_STEPS>  Step budget of `:normalize` [default: 1000]",
     "  -h, --help                   Print help"]

end LambdaDiagram
