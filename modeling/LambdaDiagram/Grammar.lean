import LambdaDiagram.Term
import LambdaDiagram.Text

/-!
Expressions: the scan that splits a text into tokens, the grammar as a relation between token
sequences and terms, the reasons for which an expression is rejected, and the reader that finds the
term or the reason. The scan never fails: characters outside the notation become tokens of their own,
for the reader to report.
-/
namespace LambdaDiagram

inductive Token where
  | lparen
  | rparen
  | dot
  | lambda
  /-- A letter with the quote marks that directly follow it. -/
  | ident (name : Name)
  /-- A character that has no place in an expression. -/
  | other (char : Char)
  deriving DecidableEq, Repr

/-- The written form. A lambda that was typed as a backslash is written `λ` as
well. -/
def Token.text : Token → String
  | lparen => "("
  | rparen => ")"
  | dot => "."
  | lambda => "λ"
  | ident name => name
  | other char => char.toString

structure Lexeme where
  token : Token
  start : Nat
  deriving DecidableEq, Repr

namespace Lexeme

/-- The index after the last character. A token covers as many characters as
its written form. -/
def stop (lexeme : Lexeme) : Nat :=
  lexeme.start + lexeme.token.text.length

def isPrime (c : Char) : Bool :=
  c == '\''

/-- The token of one character that is neither blank nor a letter. -/
def symbol (c : Char) : Token :=
  if c = '(' then .lparen
  else if c = ')' then .rparen
  else if c = '.' then .dot
  else if c = '\\' ∨ c = 'λ' then .lambda
  else .other c

/-- Dropping quote marks never lengthens the rest of the text, so a scan that
goes on after them comes to an end. -/
theorem length_dropWhile_isPrime_le (chars : List Char) :
    (chars.dropWhile isPrime).length ≤ chars.length :=
  (List.dropWhile_sublist isPrime).length_le

/-- Scans the characters whose first one has index `start`. A blank is
skipped, a letter takes all quote marks that directly follow it, and every
other character stands for itself. -/
def scanFrom (start : Nat) : List Char → List Lexeme
  | [] => []
  | c :: rest =>
    if Text.isBlank c then scanFrom (start + 1) rest
    else if c.isAlpha then
      let primes := rest.takeWhile isPrime
      ⟨.ident (String.ofList (c :: primes)), start⟩
        :: scanFrom (start + 1 + primes.length) (rest.dropWhile isPrime)
    else ⟨symbol c, start⟩ :: scanFrom (start + 1) rest
termination_by chars => chars.length
decreasing_by
  all_goals simp only [List.length_cons]
  · omega
  · have := length_dropWhile_isPrime_le rest
    omega
  · omega

def scan (text : String) : List Lexeme :=
  scanFrom 0 text.toList

end Lexeme

/-!
The grammar of expressions as a relation between token sequences and terms, independent of the
order in which a reader looks at the tokens.

* A sequence is one or more operands, applied to each other from the left; only its last operand
  may be an abstraction, because the body of an abstraction extends as far right as possible.
* An operand is an identifier or a sequence in parentheses.
* An abstraction is a lambda, one or more identifiers, a dot and a sequence.
-/

mutual

inductive Operand : List Token → Term → Prop where
  | ident (name : Name) : Operand [.ident name] (.var name)
  | paren {tokens : List Token} {t : Term} (inner : Sequence tokens t) :
      Operand (.lparen :: tokens ++ [.rparen]) t

inductive Abstraction : List Token → Term → Prop where
  | intro {params : List Name} {tokens : List Token} {body : Term} (nonempty : params ≠ [])
      (inner : Sequence tokens body) :
      Abstraction (.lambda :: params.map .ident ++ .dot :: tokens) (params.foldr .abs body)

/-- The tokens form operands only, applied to each other from the left. -/
inductive Spine : List Token → Term → Prop where
  | single {tokens : List Token} {t : Term} (operand : Operand tokens t) : Spine tokens t
  | snoc {front tokens : List Token} {fn arg : Term} (before : Spine front fn)
      (operand : Operand tokens arg) : Spine (front ++ tokens) (.app fn arg)

inductive Sequence : List Token → Term → Prop where
  | spine {tokens : List Token} {t : Term} (operands : Spine tokens t) : Sequence tokens t
  | abstraction {tokens : List Token} {t : Term} (last : Abstraction tokens t) : Sequence tokens t
  | applied {front tokens : List Token} {fn arg : Term} (before : Spine front fn)
      (last : Abstraction tokens arg) : Sequence (front ++ tokens) (.app fn arg)

end

/-!
The reasons for which an expression is rejected. A reason holds the places it is about; its kind,
its wording and the span it points at are functions of it.
-/

structure Span where
  start : Nat
  stop : Nat
  deriving DecidableEq, Repr

inductive ErrorKind where
  | mismatchedParens
  | missingDot
  | unexpectedChar
  | trailingInput
  | emptyExpression
  deriving DecidableEq, Repr

def ErrorKind.text : ErrorKind → String
  | mismatchedParens => "mismatched parentheses"
  | missingDot => "missing dot"
  | unexpectedChar => "unexpected character"
  | trailingInput => "trailing input"
  | emptyExpression => "empty expression"

/-- Why an expression is rejected. All numbers are character indices into the
text as given, blanks included. -/
inductive ParseError where
  /-- The parenthesis at `opened` is still open at the end of the text. -/
  | unclosedParen (opened : Nat)
  /-- The parenthesis at `closed` closes nothing. -/
  | unmatchedClose (closed : Nat)
  /-- A token that starts no operand stands where an operand may start. -/
  | unexpectedToken (found : Lexeme)
  /-- Something other than a parameter or a dot follows the parameters of an abstraction. -/
  | missingDot (found : Lexeme)
  /-- The text, of this length, ends within the parameters of an abstraction. -/
  | missingDotAtEnd (length : Nat)
  /-- The dot at `dot` follows the lambda at `lambda` without a parameter between them. -/
  | missingParameter (lambda dot : Nat)
  /-- Nothing stands between the parentheses at `opened` and `closed`. -/
  | emptyParens (opened closed : Nat)
  /-- The body of the abstraction at `lambda` ends at `stop`, before it has begun. -/
  | emptyBody (lambda stop : Nat)
  /-- The text, of this length, holds no token. -/
  | emptyText (length : Nat)
  deriving DecidableEq, Repr

namespace ParseError

/-- The kind under which a rejection is reported. An abstraction without
parameters counts as an unexpected character, namely its dot. -/
def kind : ParseError → ErrorKind
  | unclosedParen _ => .mismatchedParens
  | unmatchedClose _ => .trailingInput
  | unexpectedToken _ => .unexpectedChar
  | missingDot _ => .missingDot
  | missingDotAtEnd _ => .missingDot
  | missingParameter _ _ => .unexpectedChar
  | emptyParens _ _ => .emptyExpression
  | emptyBody _ _ => .emptyExpression
  | emptyText _ => .emptyExpression

/-- The characters that a rejection points at. The end of the text is pointed
at as if one more character stood there. -/
def span : ParseError → Span
  | unclosedParen opened => ⟨opened, opened + 1⟩
  | unmatchedClose closed => ⟨closed, closed + 1⟩
  | unexpectedToken found => ⟨found.start, found.stop⟩
  | missingDot found => ⟨found.start, found.stop⟩
  | missingDotAtEnd length => ⟨length, length + 1⟩
  | missingParameter _ dot => ⟨dot, dot + 1⟩
  | emptyParens opened closed => ⟨opened, closed + 1⟩
  | emptyBody lambda stop => ⟨lambda, stop⟩
  | emptyText length => ⟨0, length⟩

def message : ParseError → String
  | unclosedParen opened => s!"'(' at position {opened} is never closed"
  | unmatchedClose closed => s!"unexpected ')' at position {closed} with no matching '('"
  | unexpectedToken found =>
    s!"unexpected character '{found.token.text}' at position {found.start}"
  | missingDot found =>
    s!"expected '.' after the parameters, found '{found.token.text}' at position {found.start}"
  | missingDotAtEnd _ => "expected '.' after the parameters, found end of the input"
  | missingParameter lambda _ => s!"expected a parameter after 'λ' at position {lambda}"
  | emptyParens opened _ => s!"empty parentheses at position {opened}"
  | emptyBody lambda _ => s!"abstraction at position {lambda} has no body"
  | emptyText _ => "empty expression"

def text (e : ParseError) : String :=
  e.kind.text ++ ": " ++ e.message

def position (e : ParseError) : Nat :=
  e.span.start

end ParseError

/-!
Reading an expression from left to right. The reader keeps the parentheses and abstractions that
are still open on a stack and takes one token at a time, so a rejection depends only on the tokens
up to the one that causes it. Whatever is open at the end of the text is judged by `finish`.
-/

/-- An enclosing construct that is still open, with the operands read before
it in its own sequence, already applied to each other. -/
inductive Frame where
  /-- A parenthesis opened at index `opened`. -/
  | paren (opened : Nat) (before : Option Term)
  /-- The body of an abstraction whose lambda has index `lambda`. -/
  | body (lambda : Nat) (params : List Name) (before : Option Term)
  deriving DecidableEq, Repr

inductive Focus where
  /-- A sequence of operands, applied so far to `acc`; none has been read yet if it is `none`. -/
  | operands (acc : Option Term)
  /-- The parameters after the lambda at index `lambda`. -/
  | parameters (lambda : Nat) (params : List Name) (before : Option Term)
  deriving DecidableEq, Repr

/-- The state of reading: the open constructs from the innermost outwards, and
the focus. -/
structure Reader where
  frames : List Frame
  focus : Focus
  deriving DecidableEq, Repr

namespace Reader

def start : Reader :=
  ⟨[], .operands none⟩

/-- Appends an operand to a sequence: application associates to the left. -/
def applyTo (before : Option Term) (operand : Term) : Term :=
  match before with
  | none => operand
  | some fn => .app fn operand

/-- The abstraction over several parameters, the first one outermost. -/
def abstractOver (params : List Name) (body : Term) : Term :=
  params.foldr .abs body

/-- Ends the bodies of abstractions that are open directly around a sequence,
up to the nearest open parenthesis. Such a body extends as far to the right as
it can, so it ends only where `stop` ends the sequence. -/
def endBodies (stop : Nat) : List Frame → Option Term → Except ParseError (List Frame × Option Term)
  | .body lambda params before :: frames, acc =>
    match acc with
    | none => .error (.emptyBody lambda stop)
    | some body => endBodies stop frames (some (applyTo before (abstractOver params body)))
  | frames, acc => .ok (frames, acc)

def close (closed : Nat) (frames : List Frame) (acc : Option Term) : Except ParseError Reader := do
  match ← endBodies closed frames acc with
  | (.paren _ before :: outer, some inner) => .ok ⟨outer, .operands (some (applyTo before inner))⟩
  | (.paren opened _ :: _, none) => .error (.emptyParens opened closed)
  | _ => .error (.unmatchedClose closed)

/-- Takes one token. Where an operand may start, a token that starts none is
refused; after a lambda, everything but parameters and a dot is. -/
def step (reader : Reader) (lexeme : Lexeme) : Except ParseError Reader :=
  match reader.focus with
  | .operands acc =>
    match lexeme.token with
    | .ident name => .ok ⟨reader.frames, .operands (some (applyTo acc (.var name)))⟩
    | .lparen => .ok ⟨.paren lexeme.start acc :: reader.frames, .operands none⟩
    | .lambda => .ok ⟨reader.frames, .parameters lexeme.start [] acc⟩
    | .rparen => close lexeme.start reader.frames acc
    | .dot => .error (.unexpectedToken lexeme)
    | .other _ => .error (.unexpectedToken lexeme)
  | .parameters lambda params before =>
    match lexeme.token with
    | .ident name => .ok ⟨reader.frames, .parameters lambda (params ++ [name]) before⟩
    | .dot =>
      if params.isEmpty then .error (.missingParameter lambda lexeme.start)
      else .ok ⟨.body lambda params before :: reader.frames, .operands none⟩
    | _ => .error (.missingDot lexeme)

/-- The result at the end of a text of the given length. Open bodies end
there, open parentheses are refused, the innermost one first. -/
def finish (length : Nat) (reader : Reader) : Except ParseError Term :=
  match reader.focus with
  | .parameters _ _ _ => .error (.missingDotAtEnd length)
  | .operands acc => do
    match ← endBodies length reader.frames acc with
    | (.paren opened _ :: _, _) => .error (.unclosedParen opened)
    | (_, some term) => .ok term
    | (_, none) => .error (.emptyText length)

end Reader

def Term.parse (text : String) : Except ParseError Term := do
  let reader ← (Lexeme.scan text).foldlM Reader.step Reader.start
  reader.finish text.length

end LambdaDiagram
