import LambdaDiagram.Text.Cluster

/-!
Lines of a byte stream. A line ends with a line feed, or with a carriage return and a line feed; the
last line of a stream may end without either. Lines are read one by one, so an invalid line does not
affect those before it. A backspace in a line takes back the user-perceived character before it.
-/
namespace LambdaDiagram.Text

/-- Cuts a stream after each line feed. Nothing is lost: the parts make up the
stream again. -/
def rawLines : List UInt8 → List (List UInt8)
  | [] => []
  | b :: rest =>
    if b = 10 then [b] :: rawLines rest
    else
      match rawLines rest with
      | [] => [[b]]
      | line :: lines => (b :: line) :: lines

/-- Removes the end of a line. A carriage return goes only together with a
line feed. -/
def chomp (line : List Char) : List Char :=
  if line.getLast? = some '\n' then
    let front := line.dropLast
    if front.getLast? = some '\r' then front.dropLast else front
  else line

def backspace : Char :=
  '\x08'

def byteCount : List Char → Nat
  | [] => 0
  | c :: rest => c.utf8Size + byteCount rest

/-- Removes the first characters that take `count` bytes together; `none` if
no number of them does. -/
def dropBytes : (count : Nat) → List Char → Option (List Char)
  | 0, chars => some chars
  | _ + 1, [] => none
  | count + 1, c :: rest =>
    if c.utf8Size ≤ count + 1 then dropBytes (count + 1 - c.utf8Size) rest else none
termination_by _ chars => chars

/-- What is left of a line so far, the latest first: its characters, and the
sizes of the clusters that were entered. A size is remembered in a single
byte, so of a cluster of 256 bytes or more only the remainder is known. -/
structure Kept where
  chars : List Char := []
  sizes : List UInt8 := []
  deriving DecidableEq, Repr

namespace Kept

def enter (kept : Kept) (cluster : List Char) : Kept :=
  ⟨cluster.reverse ++ kept.chars, UInt8.ofNat (byteCount cluster) :: kept.sizes⟩

/-- Takes the latest cluster back. This has no effect if there is none, and is
`none` if it would leave a part of a character. -/
def takeBack (kept : Kept) : Option Kept :=
  match kept.sizes with
  | [] => some kept
  | size :: sizes => (dropBytes size.toNat kept.chars).map (⟨·, sizes⟩)

def step (kept : Kept) (cluster : List Char) : Option Kept :=
  if cluster = [backspace] then kept.takeBack else some (kept.enter cluster)

end Kept

/-- A line after its backspaces have taken effect; `none` if one of them would
leave a part of a character. -/
def applyBackspaces (line : List Char) : Option (List Char) :=
  if backspace ∈ line then
    ((clusters line).foldlM Kept.step {}).map fun kept => kept.chars.reverse
  else some line

theorem applyBackspaces_of_notMem {line : List Char} (h : backspace ∉ line) :
    applyBackspaces line = some line :=
  if_neg h

inductive LineError where
  /-- The bytes are not valid UTF-8. -/
  | invalidText
  /-- A backspace would leave a part of a character. -/
  | splitCharacter
  deriving DecidableEq, Repr

/-- A way to read lines: the text of one part of a stream, or the reason for
which it has none. -/
abbrev LineReader := List UInt8 → Except LineError String

/-- Reads a line as the program does: its bytes are decoded, its end is
removed and its backspaces take effect. -/
def decodeLine : LineReader := fun raw =>
  match String.fromUTF8? raw.toByteArray with
  | none => .error .invalidText
  | some text =>
    match applyBackspaces (chomp text.toList) with
    | none => .error .splitCharacter
    | some line => .ok (String.ofList line)

def readLines (decode : LineReader) (bytes : List UInt8) : List (Except LineError String) :=
  (rawLines bytes).map decode

end LambdaDiagram.Text
