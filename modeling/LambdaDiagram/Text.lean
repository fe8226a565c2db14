/-!
Characters and places of a text. Sets of characters are given by ranges of code points; blanks are
the only separators that an expression may contain.
-/
namespace LambdaDiagram.Text

/-- Whether the code point of `c` lies in one of these ranges, which include
both of their ends. -/
def inRanges (ranges : List (Nat × Nat)) (c : Char) : Bool :=
  ranges.any fun range => range.1 ≤ c.toNat && c.toNat ≤ range.2

/-- The Unicode property `White_Space` in increasing order of code points. It
is wider than the four characters of `Char.isWhitespace`. -/
def blankRanges : List (Nat × Nat) :=
  [(0x0009, 0x000D), (0x0020, 0x0020), (0x0085, 0x0085), (0x00A0, 0x00A0), (0x1680, 0x1680),
   (0x2000, 0x200A), (0x2028, 0x2029), (0x202F, 0x202F), (0x205F, 0x205F), (0x3000, 0x3000)]

def isBlank (c : Char) : Bool :=
  inRanges blankRanges c

/-- Whether all characters of a text are blank. The empty text counts as
blank. -/
def isBlankText (text : String) : Bool :=
  text.toList.all isBlank

/-- A place in a text. Lines and columns are both counted from one, and only a
line feed ends a line. -/
structure Position where
  line : Nat
  column : Nat
  deriving DecidableEq, Repr

namespace Position

/-- The place of `offset` in the characters after the place `here`. A line
feed opens a line only if a character follows it, so the offset past a final
line feed stays on the line that it ends, and so does every offset past the
end. -/
def advance (here : Position) : List Char → Nat → Position
  | _, 0 => here
  | [], n + 1 => ⟨here.line, here.column + n + 1⟩
  | c :: rest, n + 1 =>
    if c = '\n' ∧ rest ≠ [] then advance ⟨here.line + 1, 1⟩ rest n
    else advance ⟨here.line, here.column + 1⟩ rest n

def ofOffset (text : String) (offset : Nat) : Position :=
  advance ⟨1, 1⟩ text.toList offset

end Position

end LambdaDiagram.Text
