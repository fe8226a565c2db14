import LambdaDiagram.Term

/-!
Diagrams of terms. Variable occurrences are the columns, levels of abstractions are the rows; an
abstraction is a bar on its level, a bound occurrence hangs from the level of its binder, and an
application connects the leftmost columns of its two sides below all levels.

A diagram is plain geometry. Coordinates are 32-bit words; `x` grows to the right and `y` grows
downwards.
-/
namespace LambdaDiagram

abbrev Coordinate := UInt32

structure Bar where
  left : Coordinate
  right : Coordinate
  y : Coordinate
  label : String
  deriving DecidableEq, Repr

structure Line where
  x : Coordinate
  top : Coordinate
  bottom : Coordinate
  deriving DecidableEq, Repr

structure Connector where
  left : Coordinate
  right : Coordinate
  y : Coordinate
  deriving DecidableEq, Repr

structure Label where
  x : Coordinate
  y : Coordinate
  text : String
  bound : Bool
  deriving DecidableEq, Repr

structure Scene where
  width : Coordinate
  height : Coordinate
  bars : List Bar
  lines : List Line
  connectors : List Connector
  labels : List Label
  deriving DecidableEq, Repr

def digits (c : Coordinate) : String :=
  toString c.toNat

def Bar.describe (b : Bar) : String :=
  s!"  bar       {b.label} x={digits b.left}..{digits b.right} y={digits b.y}"

def Line.describe (l : Line) : String :=
  s!"  line      x={digits l.x} y={digits l.top}..{digits l.bottom}"

def Connector.describe (c : Connector) : String :=
  s!"  connector x={digits c.left}..{digits c.right} y={digits c.y}"

/-- The place of a label, after its text. Names of free occurrences are marked
as such. -/
def Label.describe (l : Label) : String :=
  s!"  label     {l.text} x={digits l.x} y={digits l.y}" ++ if l.bound then "" else " (free)"

/-- The size of the diagram and its elements, one a line, without a final line
feed. -/
def Scene.describe (s : Scene) : String :=
  "\n".intercalate <|
    s!"scene {digits s.width}x{digits s.height}" ::
      (s.bars.map Bar.describe ++ s.lines.map Line.describe ++
        s.connectors.map Connector.describe ++ s.labels.map Label.describe)

/-!
What a diagram needs to know of a term, each list in reading order: its variable occurrences with
the depths of their binders, its abstractions, and its applications.
-/

/-- A variable occurrence. The depth of its binder is the number of
abstractions around that binder; it is `none` for a free occurrence. -/
structure Occurrence where
  name : Name
  depth : Option Nat
  deriving DecidableEq, Repr

/-- An abstraction: its parameter and the number of abstractions around it. -/
structure Binder where
  name : Name
  depth : Nat
  deriving DecidableEq, Repr

/-- An application: the indices of the leftmost variable occurrences of its
two sides. -/
structure Link where
  left : Nat
  right : Nat
  deriving DecidableEq, Repr

namespace Term

def leafCount : Term → Nat
  | var _ => 1
  | abs _ body => body.leafCount
  | app fn arg => fn.leafCount + arg.leafCount

/-- The variable occurrences from left to right, below the binders in `scope`,
the innermost one first. An occurrence belongs to the innermost binder of its
name. -/
def occurrences (scope : List Name) : Term → List Occurrence
  | var name => [⟨name, (scope.idxOf? name).map (scope.length - 1 - ·)⟩]
  | abs param body => body.occurrences (param :: scope)
  | app fn arg => fn.occurrences scope ++ arg.occurrences scope

def binders (depth : Nat) : Term → List Binder
  | var _ => []
  | abs param body => ⟨param, depth⟩ :: body.binders (depth + 1)
  | app fn arg => fn.binders depth ++ arg.binders depth

/-- The applications in preorder; the leftmost variable occurrence has index
`first`. -/
def links (first : Nat) : Term → List Link
  | var _ => []
  | abs _ body => body.links first
  | app fn arg =>
    ⟨first, first + fn.leafCount⟩ :: (fn.links first ++ arg.links (first + fn.leafCount))

end Term

/-!
Placing a term on a grid.
-/

namespace Grid

def padding : Nat := 30

def columnSpacing : Nat := 40

def levelHeight : Nat := 30

def labelSpace : Nat := 100

/-- The nearest coordinate; numbers that are too large become the largest one. -/
def clamp (n : Nat) : Coordinate :=
  UInt32.ofNat (min n (UInt32.size - 1))

def column (index : Nat) : Coordinate :=
  clamp (padding + index * columnSpacing)

def level (depth : Nat) : Coordinate :=
  clamp (padding + depth * levelHeight)

/-- The height of a diagram, which grows with every abstraction, also if
several of them share a level. -/
def height (abstractions : Nat) : Coordinate :=
  clamp ((level abstractions).toNat + labelSpace)

end Grid

structure Stem where
  occurrence : Occurrence
  x : Coordinate
  deriving DecidableEq, Repr

namespace Stem

/-- Puts the occurrences into their columns, from left to right. -/
def place (occurrences : List Occurrence) : List Stem :=
  occurrences.mapIdx fun index occurrence => ⟨occurrence, Grid.column index⟩

/-- The line of a bound occurrence, from the level of its binder down to
`bottom`. -/
def line? (bottom : Coordinate) (s : Stem) : Option Line :=
  s.occurrence.depth.map fun depth => ⟨s.x, Grid.level depth, bottom⟩

def label (y : Coordinate) (s : Stem) : Label :=
  ⟨s.x, y, s.occurrence.name, s.occurrence.depth.isSome⟩

/-- The columns of the occurrences that hang from the level at this depth. -/
def columnsAt (depth : Nat) (stems : List Stem) : List Coordinate :=
  (stems.filter (·.occurrence.depth = some depth)).map Stem.x

/-- The bar of an abstraction. It spans every occurrence that hangs from its
level, also those that belong to another abstraction of that level; there is
no bar where none does. -/
def bar? (stems : List Stem) (binder : Binder) : Option Bar :=
  let columns := columnsAt binder.depth stems
  match columns.min?, columns.max? with
  | some left, some right => some ⟨left, right, Grid.level binder.depth, "λ" ++ binder.name⟩
  | _, _ => none

end Stem

/-- The heights of what is drawn below all levels: the connectors, the lower
ends of the lines and the labels. They are measured from the lower edge, which
is the height of the diagram. -/
structure Rows where
  height : Coordinate
  connectors : Coordinate
  bottom : Coordinate
  labels : Coordinate
  deriving DecidableEq, Repr

def Rows.below (abstractions : Nat) : Rows :=
  let height := Grid.height abstractions
  ⟨height, height - 60, height - 50, height - 50 + 15⟩

namespace Scene

/-- Puts a diagram together from what stands in its columns, its abstractions,
its connectors and the heights of its rows. It ends one column to the right of
the last one. -/
def ofStems (stems : List Stem) (binders : List Binder) (connectors : List Connector) (rows : Rows) :
    Scene :=
  let last := (stems.getLast?.map Stem.x).getD (Grid.clamp Grid.padding)
  { width := Grid.clamp (last.toNat + Grid.columnSpacing)
    height := rows.height
    bars := binders.filterMap (Stem.bar? stems)
    lines := stems.filterMap (Stem.line? rows.bottom)
    connectors := connectors
    labels := stems.map (Stem.label rows.labels) }

/-- The diagram of a term of which nothing but the survey is known. -/
def draw (occurrences : List Occurrence) (binders : List Binder) (links : List Link) : Scene :=
  let rows := Rows.below binders.length
  let connectors : List Connector := links.map fun link =>
    ⟨Grid.column link.left, Grid.column link.right, rows.connectors⟩
  ofStems (Stem.place occurrences) binders connectors rows

end Scene

def Term.layout (t : Term) : Scene :=
  Scene.draw (t.occurrences []) (t.binders 0) (t.links 0)

/-!
Drawing with checked arithmetic. Here a term is surveyed in a single walk that keeps depths in
coordinates, and a drawing fails where a sum or a difference of coordinates is none, or where a link
names an occurrence that the walk has not seen.
-/

namespace Grid

def add? (a b : Coordinate) : Option Coordinate :=
  if a.toNat + b.toNat < UInt32.size then some (a + b) else none

def sub? (a b : Coordinate) : Option Coordinate :=
  if b.toNat ≤ a.toNat then some (a - b) else none

end Grid

def Rows.below? (abstractions : Nat) : Option Rows := do
  let height := Grid.height abstractions
  let connectors ← Grid.sub? height 60
  let bottom ← Grid.sub? height 50
  let labels ← Grid.add? bottom 15
  some ⟨height, connectors, bottom, labels⟩

structure Sketch where
  stems : List Stem := []
  binders : List Binder := []
  links : List Link := []
  deriving DecidableEq, Repr

namespace Sketch

/-- Adds the link of an application whose sides were walked over one after the
other. It goes in front of the links of the sides, and there is none if one of
them has no occurrence. -/
def join (before afterFn afterArg : Sketch) : Sketch :=
  if before.stems.length < afterFn.stems.length ∧
      afterFn.stems.length < afterArg.stems.length then
    let link : Link := ⟨before.stems.length, afterFn.stems.length⟩
    { afterArg with links := afterArg.links.insertIdx before.links.length link }
  else afterArg

/-- Walks over a term and adds to the sketch what it finds. The term is below
`depth` abstractions; `scope` holds their parameters and their own depths, the
innermost one first. -/
def walk? (depth : Coordinate) (scope : List (Name × Coordinate)) (t : Term) (sketch : Sketch) :
    Option Sketch :=
  match t with
  | .var name =>
    let occurrence : Occurrence := ⟨name, (scope.lookup name).map UInt32.toNat⟩
    let stem : Stem := ⟨occurrence, Grid.column sketch.stems.length⟩
    some { sketch with stems := sketch.stems ++ [stem] }
  | .abs param body => do
    let below ← Grid.add? depth 1
    walk? below ((param, depth) :: scope) body
      { sketch with binders := sketch.binders ++ [⟨param, depth.toNat⟩] }
  | .app fn arg => do
    let afterFn ← walk? depth scope fn sketch
    let afterArg ← walk? depth scope arg afterFn
    some (join sketch afterFn afterArg)

/-- The connector of a link, if both its ends are among the occurrences that
were found. -/
def connector? (sketch : Sketch) (y : Coordinate) (link : Link) : Option Connector := do
  let left ← sketch.stems[link.left]?
  let right ← sketch.stems[link.right]?
  some ⟨left.x, right.x, y⟩

def draw? (sketch : Sketch) : Option Scene := do
  let rows ← Rows.below? sketch.binders.length
  let connectors ← sketch.links.mapM (sketch.connector? rows.connectors)
  some (Scene.ofStems sketch.stems sketch.binders connectors rows)

end Sketch

/-- The diagram of a term, if all arithmetic on the way to it is sound. -/
def Term.layoutChecked? (t : Term) : Option Scene :=
  (Sketch.walk? 0 [] t {}).bind Sketch.draw?

end LambdaDiagram
