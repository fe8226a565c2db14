import LambdaDiagram.Proofs.Diagram.Bars

/-! Where things are drawn. Columns are counted by occurrences, levels by the depth of a binder, and
the height of a diagram by its abstractions; these are three counts of one term. An abstraction has
only other abstractions around it, so every level in use is above what is drawn below all levels.
Coordinates are clamped, and the order is strict only as long as they are not. -/
namespace LambdaDiagram

namespace Term

def abstractionCount : Term → Nat
  | var _ => 0
  | abs _ body => body.abstractionCount + 1
  | app fn arg => fn.abstractionCount + arg.abstractionCount

theorem nesting_le_abstractionCount (t : Term) : t.nesting ≤ t.abstractionCount := by
  induction t with
  | var name => exact Nat.le_refl 0
  | abs param body ih => exact Nat.succ_le_succ ih
  | app fn arg ihFn ihArg =>
      simp only [nesting, abstractionCount]
      omega

theorem length_binders (depth : Nat) (t : Term) :
    (t.binders depth).length = t.abstractionCount := by
  induction t generalizing depth with
  | var name => rfl
  | abs param body ih => rw [binders, List.length_cons, ih, abstractionCount]
  | app fn arg ihFn ihArg => rw [binders, List.length_append, ihFn, ihArg, abstractionCount]

/-- The depth of a binder is less than that of the deepest nesting, counted
from the depth of the term. -/
theorem depth_lt_of_mem_binders {t : Term} {depth : Nat} {binder : Binder}
    (hMem : binder ∈ t.binders depth) : binder.depth < depth + t.nesting := by
  induction t generalizing depth with
  | var name => cases hMem
  | abs param body ih =>
      rw [nesting]
      rcases List.mem_cons.mp hMem with rfl | hBody
      · simp only
        omega
      · have hBelow := ih hBody
        omega
  | app fn arg ihFn ihArg =>
      rw [nesting]
      rcases List.mem_append.mp hMem with hFn | hArg
      · have hBelow := ihFn hFn
        omega
      · have hBelow := ihArg hArg
        omega

/-- The binder of an occurrence is one of those around the term or one of its
own. -/
theorem depth_lt_of_mem_occurrences {t : Term} {scope : List Name} {o : Occurrence} {depth : Nat}
    (hMem : o ∈ t.occurrences scope) (hDepth : o.depth = some depth) :
    depth < scope.length + t.nesting := by
  induction t generalizing scope with
  | var name =>
      obtain rfl := List.mem_singleton.mp hMem
      obtain ⟨index, hIndex, rfl⟩ := Option.map_eq_some_iff.mp hDepth
      have hLt : index < scope.length := (List.idxOf?_eq_some_iff.mp hIndex).1
      omega
  | abs param body ih =>
      have hBelow := ih hMem
      rw [List.length_cons] at hBelow
      rw [nesting]
      omega
  | app fn arg ihFn ihArg =>
      rw [nesting]
      rcases List.mem_append.mp hMem with hFn | hArg
      · have hBelow := ihFn hFn
        omega
      · have hBelow := ihArg hArg
        omega

end Term

namespace Stem

theorem exists_column_of_mem_place {occurrences : List Occurrence} {s : Stem}
    (hMem : s ∈ place occurrences) :
    s.occurrence ∈ occurrences ∧ ∃ index < occurrences.length, s.x = Grid.column index := by
  obtain ⟨index, hIndex, rfl⟩ := List.mem_mapIdx.mp hMem
  exact ⟨List.getElem_mem hIndex, index, hIndex, rfl⟩

end Stem

namespace Term

variable {t : Term}

theorem exists_column_of_mem_stems {s : Stem} (hMem : s ∈ Stem.place (t.occurrences [])) :
    ∃ index < t.leafCount, s.x = Grid.column index := by
  rw [← t.length_occurrences []]
  exact (Stem.exists_column_of_mem_place hMem).2

/-- A label stands in one of the columns, in the row of the labels. -/
theorem of_mem_labels {label : Label} (hMem : label ∈ t.layout.labels) :
    (∃ index < t.leafCount, label.x = Grid.column index) ∧
      label.y = t.layout.height - 50 + 15 := by
  obtain ⟨s, hStem, rfl⟩ := List.mem_map.mp hMem
  exact ⟨exists_column_of_mem_stems hStem, rfl⟩

/-- A line hangs in one of the columns. Its top is a level in use, and its
bottom is the same for all lines. -/
theorem of_mem_lines {line : Line} (hMem : line ∈ t.layout.lines) :
    (∃ index < t.leafCount, line.x = Grid.column index) ∧
      (∃ depth < t.nesting, line.top = Grid.level depth) ∧
      line.bottom = t.layout.height - 50 := by
  obtain ⟨s, hStem, hLine⟩ := List.mem_filterMap.mp hMem
  obtain ⟨depth, hDepth, rfl⟩ := Option.map_eq_some_iff.mp hLine
  have hLt := depth_lt_of_mem_occurrences (Stem.exists_column_of_mem_place hStem).1 hDepth
  rw [List.length_nil, Nat.zero_add] at hLt
  exact ⟨exists_column_of_mem_stems hStem, ⟨depth, hLt, rfl⟩, rfl⟩

/-- A connector joins two columns, the left one of which is really to the
left, in the row of the connectors. -/
theorem of_mem_connectors {connector : Connector} (hMem : connector ∈ t.layout.connectors) :
    (∃ left right, left < right ∧ right < t.leafCount ∧
      connector.left = Grid.column left ∧ connector.right = Grid.column right) ∧
      connector.y = t.layout.height - 60 := by
  obtain ⟨link, hLink, rfl⟩ := List.mem_map.mp hMem
  obtain ⟨hOrder, hInside⟩ := of_mem_links hLink
  rw [Nat.zero_add] at hInside
  exact ⟨⟨link.left, link.right, hOrder, hInside, rfl, rfl⟩, rfl⟩

theorem exists_column_of_mem_columnsAt {depth : Nat} {x : Coordinate}
    (hMem : x ∈ Stem.columnsAt depth (Stem.place (t.occurrences []))) :
    ∃ index < t.leafCount, x = Grid.column index := by
  obtain ⟨s, hStem, rfl⟩ := List.mem_map.mp hMem
  exact exists_column_of_mem_stems (List.mem_of_mem_filter hStem)

/-- A bar ends in columns on both sides, and lies on a level in use. -/
theorem of_mem_bars {bar : Bar} (hMem : bar ∈ t.layout.bars) :
    (∃ index < t.leafCount, bar.left = Grid.column index) ∧
      (∃ index < t.leafCount, bar.right = Grid.column index) ∧
      ∃ depth < t.nesting, bar.y = Grid.level depth := by
  obtain ⟨binder, hBinder, hBar⟩ := List.mem_filterMap.mp hMem
  have hLt := depth_lt_of_mem_binders hBinder
  rw [Nat.zero_add] at hLt
  by_cases hColumns : Stem.columnsAt binder.depth (Stem.place (t.occurrences [])) = []
  · rw [Stem.bar?_eq_none hColumns] at hBar
    cases hBar
  · obtain ⟨drawn, hDrawn, -, hLevel, hLeft, hRight, -⟩ := Stem.exists_bar?_eq_some hColumns
    obtain rfl : drawn = bar := Option.some.inj (hDrawn.symm.trans hBar)
    exact ⟨exists_column_of_mem_columnsAt hLeft, exists_column_of_mem_columnsAt hRight,
      binder.depth, hLt, hLevel⟩

end Term

/-- Everything that is drawn begins and ends to the left of the right edge. -/
structure Scene.WithinWidth (s : Scene) : Prop where
  bar : ∀ bar ∈ s.bars, bar.left < s.width ∧ bar.right < s.width
  line : ∀ line ∈ s.lines, line.x < s.width
  connector : ∀ connector ∈ s.connectors, connector.left < s.width ∧ connector.right < s.width
  label : ∀ label ∈ s.labels, label.x < s.width

/-- From top to bottom there are the bars and the upper ends of lines, the
connectors, the lower ends of lines, the labels and the lower edge. -/
structure Scene.TopToBottom (s : Scene) : Prop where
  bar_connector : ∀ bar ∈ s.bars, ∀ connector ∈ s.connectors, bar.y < connector.y
  top_connector : ∀ line ∈ s.lines, ∀ connector ∈ s.connectors, line.top < connector.y
  connector_bottom : ∀ connector ∈ s.connectors, ∀ line ∈ s.lines, connector.y < line.bottom
  bar_label : ∀ bar ∈ s.bars, ∀ label ∈ s.labels, bar.y < label.y
  bottom_label : ∀ line ∈ s.lines, ∀ label ∈ s.labels, line.bottom < label.y
  label_height : ∀ label ∈ s.labels, label.y < s.height

namespace Grid

/-- Up to this many columns or levels no coordinate is clamped. -/
def capacity : Nat := 100000000

theorem toNat_column {index : Nat} (hFits : index ≤ capacity) :
    (column index).toNat = 30 + 40 * index := by
  rw [column, toNat_clamp]
  simp only [capacity, padding, columnSpacing, UInt32.size] at hFits ⊢
  omega

theorem toNat_level {depth : Nat} (hFits : depth ≤ capacity) :
    (level depth).toNat = 30 + 30 * depth := by
  rw [level, toNat_clamp]
  simp only [capacity, padding, levelHeight, UInt32.size] at hFits ⊢
  omega

/-- Columns that are not clamped are strictly ordered. Clamped ones may
coincide, so the bound is needed. -/
theorem column_lt_column {i j : Nat} (hLt : i < j) (hFits : j ≤ capacity) : column i < column j := by
  rw [UInt32.lt_iff_toNat_lt, toNat_column hFits, toNat_column (by omega)]
  omega

end Grid

namespace Term

/-- The height of a diagram counts all abstractions, not only nested ones. -/
theorem height_layout (t : Term) : t.layout.height = Grid.height t.abstractionCount := by
  rw [← t.length_binders 0]
  rfl

/-- The right edge is where the next column would be. -/
theorem width_layout {t : Term} (hFits : t.leafCount ≤ Grid.capacity) :
    t.layout.width = Grid.column t.leafCount := by
  have hLength := t.length_occurrences []
  have hPos := t.leafCount_pos
  have hLast : (Stem.place (t.occurrences [])).getLast?.map Stem.x =
      some (Grid.column (t.leafCount - 1)) := by
    rw [List.getLast?_eq_getElem?, Stem.length_place, Stem.getElem?_place, hLength,
      List.getElem?_eq_getElem (by omega)]
    rfl
  have hWidth : t.layout.width = Grid.clamp ((Grid.column (t.leafCount - 1)).toNat +
      Grid.columnSpacing) := by
    show Grid.clamp ((((Stem.place (t.occurrences [])).getLast?.map Stem.x).getD _).toNat + _) = _
    rw [hLast, Option.getD_some]
  rw [hWidth, Grid.toNat_column (by omega), Grid.column]
  congr 1
  simp only [Grid.padding, Grid.columnSpacing]
  omega

theorem toNat_height {t : Term} (hFits : t.abstractionCount ≤ Grid.capacity) :
    t.layout.height.toNat = 130 + 30 * t.abstractionCount := by
  rw [height_layout, Grid.height, Grid.toNat_level hFits, Grid.toNat_clamp]
  simp only [Grid.capacity, Grid.labelSpace, UInt32.size] at hFits ⊢
  omega

theorem toNat_height_sub (t : Term) {distance : Coordinate} (hDistance : distance.toNat ≤ 130) :
    (t.layout.height - distance).toNat = t.layout.height.toNat - distance.toNat := by
  rw [height_layout]
  exact Grid.toNat_height_sub t.abstractionCount hDistance

theorem toNat_label_y (t : Term) :
    (t.layout.height - 50 + 15).toNat = t.layout.height.toNat - 35 := by
  have hBottom : (t.layout.height - 50).toNat = t.layout.height.toNat - 50 :=
    t.toNat_height_sub (by decide)
  have hHeight : 130 ≤ t.layout.height.toNat := by
    rw [height_layout]
    exact Grid.le_toNat_height t.abstractionCount
  have hLt := t.layout.height.toNat_lt
  rw [UInt32.toNat_add, hBottom]
  simp only [UInt32.reduceToNat]
  omega

/-- All that is drawn is in a column, and every column is left of the right
edge. -/
theorem withinWidth_layout {t : Term} (hFits : t.leafCount ≤ Grid.capacity) :
    t.layout.WithinWidth := by
  have hInside : ∀ x, (∃ index < t.leafCount, x = Grid.column index) → x < t.layout.width := by
    intro x hColumn
    obtain ⟨index, hIndex, rfl⟩ := hColumn
    rw [width_layout hFits]
    exact Grid.column_lt_column hIndex hFits
  constructor
  · intro bar hBar
    obtain ⟨hLeft, hRight, -⟩ := of_mem_bars hBar
    exact ⟨hInside _ hLeft, hInside _ hRight⟩
  · intro line hLine
    exact hInside _ (of_mem_lines hLine).1
  · intro connector hConnector
    obtain ⟨⟨left, right, hOrder, hRight, hLeftColumn, hRightColumn⟩, -⟩ :=
      of_mem_connectors hConnector
    exact ⟨hInside _ ⟨left, by omega, hLeftColumn⟩, hInside _ ⟨right, hRight, hRightColumn⟩⟩
  · intro label hLabel
    exact hInside _ (of_mem_labels hLabel).1

/-- The rows are in their order. The last level in use is one less than the
number of abstractions, so that all levels are above the connectors. -/
theorem topToBottom_layout {t : Term} (hFits : t.abstractionCount ≤ Grid.capacity) :
    t.layout.TopToBottom := by
  have hHeight := toNat_height hFits
  have hConnectors : (t.layout.height - 60).toNat = t.layout.height.toNat - 60 :=
    t.toNat_height_sub (by decide)
  have hBottoms : (t.layout.height - 50).toNat = t.layout.height.toNat - 50 :=
    t.toNat_height_sub (by decide)
  have hLabels := t.toNat_label_y
  have hLevels : ∀ y, (∃ depth < t.nesting, y = Grid.level depth) →
      y.toNat ≤ 30 * t.abstractionCount := by
    intro y hLevel
    obtain ⟨depth, hDepth, rfl⟩ := hLevel
    have hCount := t.nesting_le_abstractionCount
    rw [Grid.toNat_level (by omega)]
    omega
  constructor
  · intro bar hBar connector hConnector
    have hBarY := hLevels _ (of_mem_bars hBar).2.2
    rw [UInt32.lt_iff_toNat_lt, (of_mem_connectors hConnector).2]
    omega
  · intro line hLine connector hConnector
    have hTop := hLevels _ (of_mem_lines hLine).2.1
    rw [UInt32.lt_iff_toNat_lt, (of_mem_connectors hConnector).2]
    omega
  · intro connector hConnector line hLine
    rw [UInt32.lt_iff_toNat_lt, (of_mem_connectors hConnector).2, (of_mem_lines hLine).2.2]
    omega
  · intro bar hBar label hLabel
    have hBarY := hLevels _ (of_mem_bars hBar).2.2
    rw [UInt32.lt_iff_toNat_lt, (of_mem_labels hLabel).2]
    omega
  · intro line hLine label hLabel
    rw [UInt32.lt_iff_toNat_lt, (of_mem_lines hLine).2.2, (of_mem_labels hLabel).2]
    omega
  · intro label hLabel
    rw [UInt32.lt_iff_toNat_lt, (of_mem_labels hLabel).2]
    omega

/-- The labels stand in all columns, from the first one on. -/
theorem map_x_labels {t : Term} (hFits : t.leafCount ≤ Grid.capacity) :
    t.layout.labels.map (·.x.toNat) = (List.range t.leafCount).map (30 + 40 * ·) := by
  apply List.ext_getElem?
  intro index
  have hLength := t.length_occurrences []
  show (((Stem.place (t.occurrences [])).map _).map _)[index]? = _
  rw [List.map_map, List.getElem?_map, List.getElem?_map, Stem.getElem?_place]
  by_cases hIndex : index < t.leafCount
  · rw [List.getElem?_range hIndex, List.getElem?_eq_getElem (by omega)]
    simp only [Option.map_some, Function.comp_apply, Option.some.injEq]
    exact Grid.toNat_column (by omega)
  · rw [List.getElem?_eq_none (by omega), List.getElem?_eq_none (by simpa using hIndex)]
    rfl

/-- Checked arithmetic draws the same diagram for every term that is not
nested too deeply for its depths to be coordinates, and it fails for all other
terms. With at most a hundred million occurrences and as many abstractions no
coordinate is clamped either. Then the labels are evenly spaced, everything is
within the width, connectors lead to the right, and the rows of the diagram
are in their order from top to bottom. -/
theorem coordinates_are_safe_and_ordered (t : Term) :
    t.layoutChecked? = (if t.nesting < UInt32.size then some t.layout else none) ∧
    (t.leafCount ≤ 100000000 → t.abstractionCount ≤ 100000000 →
      t.layout.labels.map (·.x.toNat) = (List.range t.leafCount).map (30 + 40 * ·) ∧
      t.layout.WithinWidth ∧
      (∀ connector ∈ t.layout.connectors, connector.left < connector.right) ∧
      t.layout.TopToBottom) := by
  refine ⟨t.layoutChecked?_eq, ?_⟩
  intro hLeaves hAbstractions
  refine ⟨map_x_labels hLeaves, withinWidth_layout hLeaves, ?_, topToBottom_layout hAbstractions⟩
  intro connector hConnector
  obtain ⟨⟨left, right, hOrder, hRight, hLeftColumn, hRightColumn⟩, -⟩ :=
    of_mem_connectors hConnector
  rw [hLeftColumn, hRightColumn]
  exact Grid.column_lt_column hOrder (Nat.le_trans (Nat.le_of_lt hRight) hLeaves)

/-- In `(λx.λy.x y) z` two abstractions are nested, and one of three
occurrences is free. -/
theorem coordinates_are_safe_and_ordered_below_two_levels :
    let t := app (abs "x" (abs "y" (app (var "x") (var "y")))) (var "z")
    t.nesting = 2 ∧ t.layoutChecked? = some t.layout ∧
    t.leafCount = 3 ∧ t.abstractionCount = 2 ∧
    t.layout.labels.map (·.x.toNat) = [30, 70, 110] ∧ t.layout.width = 150 ∧
    t.layout.WithinWidth ∧
    (∀ connector ∈ t.layout.connectors, connector.left < connector.right) ∧
    t.layout.TopToBottom := by
  intro t
  have hNesting : t.nesting = 2 := rfl
  have hLeaves : t.leafCount = 3 := rfl
  have hAbstractions : t.abstractionCount = 2 := rfl
  have hWidth : t.layout.width = 150 := by decide +kernel
  obtain ⟨hChecked, hOrdered⟩ := coordinates_are_safe_and_ordered t
  obtain ⟨hLabels, hWithin, hRight, hTopToBottom⟩ := hOrdered (by omega) (by omega)
  rw [hNesting, if_pos (by decide)] at hChecked
  rw [hLeaves] at hLabels
  exact ⟨hNesting, hChecked, hLeaves, hAbstractions, hLabels, hWidth, hWithin, hRight, hTopToBottom⟩

end Term

end LambdaDiagram
