import LambdaDiagram.Proofs.Diagram.Addresses
import LambdaDiagram.Proofs.Diagram.Freeness

/-! Lines and bars. A line and the bar it hangs from are drawn from separate tables, which know of
each other only by depth. Both are traced back to addresses here, so that the bar at the top of a
line is seen to be that of the binder; it may be longer than its binder alone would make it, because
all abstractions of one depth share their occurrences. -/
namespace LambdaDiagram

open Nameless (Address depth)

instance : Std.LawfulOrderLeftLeaningMax Coordinate :=
  .of_eq fun x y => by
    show (if x ≤ y then y else x) = if y ≤ x then x else y
    by_cases hLeft : x ≤ y <;> by_cases hRight : y ≤ x
    · rw [if_pos hLeft, if_pos hRight, UInt32.le_antisymm hLeft hRight]
    · rw [if_pos hLeft, if_neg hRight]
    · rw [if_neg hLeft, if_pos hRight]
    · exact absurd ((UInt32.le_total x y).resolve_left hLeft) hRight

namespace Stem

/-- The bar of a level from which something hangs reaches from the leftmost to
the rightmost of the columns there. -/
theorem exists_bar?_eq_some {stems : List Stem} {binder : Binder}
    (hColumns : columnsAt binder.depth stems ≠ []) :
    ∃ bar, bar? stems binder = some bar ∧ bar.label = "λ" ++ binder.name ∧
      bar.y = Grid.level binder.depth ∧ bar.left ∈ columnsAt binder.depth stems ∧
      bar.right ∈ columnsAt binder.depth stems ∧
      ∀ x ∈ columnsAt binder.depth stems, bar.left ≤ x ∧ x ≤ bar.right := by
  obtain ⟨left, hLeft⟩ : ∃ left, (columnsAt binder.depth stems).min? = some left :=
    Option.ne_none_iff_exists'.mp (mt List.min?_eq_none_iff.mp hColumns)
  obtain ⟨right, hRight⟩ : ∃ right, (columnsAt binder.depth stems).max? = some right :=
    Option.ne_none_iff_exists'.mp (mt List.max?_eq_none_iff.mp hColumns)
  obtain ⟨hLeftMem, hLeast⟩ := List.min?_eq_some_iff.mp hLeft
  obtain ⟨hRightMem, hGreatest⟩ := List.max?_eq_some_iff.mp hRight
  refine ⟨⟨left, right, Grid.level binder.depth, "λ" ++ binder.name⟩, ?_, rfl, rfl, hLeftMem,
    hRightMem, fun x hx => ⟨hLeast x hx, hGreatest x hx⟩⟩
  simp only [bar?, hLeft, hRight]

theorem bar?_eq_none {stems : List Stem} {binder : Binder}
    (hColumns : columnsAt binder.depth stems = []) : bar? stems binder = none := by
  simp [bar?, hColumns]

end Stem

namespace Term

def columnOf (t : Term) (occurrence : Address) : Coordinate :=
  Grid.column (t.occurrenceAddresses.idxOf occurrence)

/-- The variable occurrences whose binder has this many abstractions around
it. -/
def boundAt (t : Term) (level : Nat) : List Address :=
  t.occurrenceAddresses.filter fun occurrence => (t.binder? occurrence).map depth = some level

/-- The abstractions that have a bar: some variable occurrence is bound at
their depth. -/
def barredAddresses (t : Term) : List Address :=
  t.binderAddresses.filter fun binder => t.boundAt (depth binder) ≠ []

/-- The bar of the abstraction at an address is named after its parameter and
lies on its level. It reaches from the leftmost to the rightmost of the
occurrences that are bound at its depth. -/
structure IsBarOf (t : Term) (binder : Address) (bar : Bar) : Prop where
  label : ∃ param, t.paramAt? binder = some param ∧ bar.label = "λ" ++ param
  y : bar.y = Grid.level (depth binder)
  left : ∃ occurrence ∈ t.boundAt (depth binder), t.columnOf occurrence = bar.left
  right : ∃ occurrence ∈ t.boundAt (depth binder), t.columnOf occurrence = bar.right
  spans : ∀ occurrence ∈ t.boundAt (depth binder),
    bar.left ≤ t.columnOf occurrence ∧ t.columnOf occurrence ≤ bar.right

/-- The column of an occurrence is the one with its index among all
occurrences, as no address is listed twice. -/
theorem columnOf_of_getElem? {t : Term} {occurrence : Address} {index : Nat}
    (hIndex : t.occurrenceAddresses[index]? = some occurrence) :
    t.columnOf occurrence = Grid.column index := by
  obtain ⟨hLt, rfl⟩ := List.getElem?_eq_some_iff.mp hIndex
  have hNodup : t.occurrenceAddresses.Nodup := nodup_addressesOf isVar t
  rw [columnOf, hNodup.idxOf_getElem index hLt]

/-- All that lines and bars depend on, read off the addresses of the
occurrences. -/
theorem map_place_occurrences (t : Term) :
    (Stem.place (t.occurrences [])).map (fun s => (s.occurrence.depth, s.x)) =
      t.occurrenceAddresses.map fun occurrence =>
        ((t.binder? occurrence).map depth, t.columnOf occurrence) := by
  apply List.ext_getElem?
  intro index
  have hDepth : (t.occurrences [])[index]?.map Occurrence.depth =
      t.occurrenceAddresses[index]?.map fun occurrence => (t.binder? occurrence).map depth := by
    simp only [← List.getElem?_map, map_depth_occurrences, ← bindingDepth?_nil]
  simp only [Stem.place, List.getElem?_map, List.getElem?_mapIdx, Option.map_map]
  cases hIndex : t.occurrenceAddresses[index]? with
  | none =>
      rw [hIndex, Option.map_none, Option.map_eq_none_iff] at hDepth
      rw [hDepth]
      rfl
  | some occurrence =>
      rw [hIndex, Option.map_some, Option.map_eq_some_iff] at hDepth
      obtain ⟨surveyed, hSurveyed, hSame⟩ := hDepth
      rw [hSurveyed, Option.map_some, Option.map_some, ← hSame, columnOf_of_getElem? hIndex]
      rfl

/-- One line for each bound occurrence, in its column and from the level of
its binder. -/
theorem lines_layout (t : Term) :
    t.layout.lines = t.occurrenceAddresses.filterMap fun occurrence =>
      (t.binder? occurrence).map fun binder =>
        ⟨t.columnOf occurrence, Grid.level (depth binder), t.layout.height - 50⟩ := by
  let hang : Option Nat × Coordinate → Option Line := fun stem =>
    stem.1.map fun level => ⟨stem.2, Grid.level level, t.layout.height - 50⟩
  calc t.layout.lines
      = ((Stem.place (t.occurrences [])).map fun s => (s.occurrence.depth, s.x)).filterMap hang := by
        rw [List.filterMap_map]
        rfl
    _ = t.occurrenceAddresses.filterMap fun occurrence =>
          hang ((t.binder? occurrence).map depth, t.columnOf occurrence) := by
        rw [map_place_occurrences, List.filterMap_map]
        rfl
    _ = _ := by simp only [hang, Option.map_map, Function.comp_def]

/-- The columns at a level are those of the occurrences bound at that level,
from left to right. -/
theorem columnsAt_place (t : Term) (level : Nat) :
    Stem.columnsAt level (Stem.place (t.occurrences [])) = (t.boundAt level).map t.columnOf := by
  calc Stem.columnsAt level (Stem.place (t.occurrences []))
      = (((Stem.place (t.occurrences [])).map fun s => (s.occurrence.depth, s.x)).filter
          (·.1 = some level)).map Prod.snd := by
        rw [List.filter_map, List.map_map]
        rfl
    _ = (t.boundAt level).map t.columnOf := by
        rw [map_place_occurrences, List.filter_map, List.map_map]
        rfl

theorem mem_boundAt {t : Term} {level : Nat} {occurrence : Address} :
    occurrence ∈ t.boundAt level ↔
      ∃ binder, t.binder? occurrence = some binder ∧ depth binder = level := by
  rw [boundAt, List.mem_filter, decide_eq_true_eq, Option.map_eq_some_iff]
  constructor
  · exact And.right
  · intro hBound
    obtain ⟨binder, hBinder, hDepth⟩ := hBound
    obtain ⟨name, hName, -⟩ := exists_name_of_binder? hBinder
    exact ⟨mem_occurrenceAddresses_of_nameAt? hName, binder, hBinder, hDepth⟩

/-- Two lists that correspond element by element still do so after parts of
them are dropped, if both drop the same places. -/
private theorem forall₂_filter_filterMap {α β γ : Type} {R : α → β → Prop} {S : α → γ → Prop}
    {keep : α → Bool} {draw : β → Option γ} {left : List α} {right : List β}
    (hAll : List.Forall₂ R left right)
    (hEach : ∀ a b, R a b →
      keep a = false ∧ draw b = none ∨ keep a = true ∧ ∃ c, draw b = some c ∧ S a c) :
    List.Forall₂ S (left.filter keep) (right.filterMap draw) := by
  induction hAll with
  | nil => exact .nil
  | @cons a b left right hHead hTail ih =>
      rcases hEach a b hHead with ⟨hKeep, hDraw⟩ | ⟨hKeep, c, hDraw, hSame⟩
      · rwa [List.filter_cons_of_neg (by simp [hKeep]), List.filterMap_cons_none hDraw]
      · rw [List.filter_cons_of_pos hKeep, List.filterMap_cons_some hDraw]
        exact .cons hSame ih

/-- The bars are those of the barred abstractions, in the same order and
without gaps. -/
theorem bars_layout (t : Term) : List.Forall₂ t.IsBarOf t.barredAddresses t.layout.bars := by
  apply forall₂_filter_filterMap (forall₂_binders 0 t)
  intro address binder hBinder
  obtain ⟨hParam, hDepth⟩ := hBinder
  have hColumns : Stem.columnsAt binder.depth (Stem.place (t.occurrences [])) =
      (t.boundAt (depth address)).map t.columnOf := by
    rw [columnsAt_place, hDepth, Nat.zero_add]
  by_cases hNone : t.boundAt (depth address) = []
  · left
    refine ⟨by simp [hNone], Stem.bar?_eq_none ?_⟩
    rw [hColumns, hNone, List.map_nil]
  · right
    have hSome : Stem.columnsAt binder.depth (Stem.place (t.occurrences [])) ≠ [] := by
      simpa [hColumns] using hNone
    obtain ⟨bar, hBar, hLabel, hLevel, hLeft, hRight, hSpans⟩ := Stem.exists_bar?_eq_some hSome
    rw [hColumns] at hLeft hRight hSpans
    refine ⟨by simp [hNone], bar, hBar, ?_⟩
    exact {
      label := ⟨binder.name, hParam, hLabel⟩
      y := by rw [hLevel, hDepth, Nat.zero_add]
      left := List.mem_map.mp hLeft
      right := List.mem_map.mp hRight
      spans := fun occurrence hMem => hSpans _ (List.mem_map_of_mem hMem) }

theorem exists_isBarOf_of_mem {t : Term} {bar : Bar} (hMem : bar ∈ t.layout.bars) :
    ∃ binder, t.IsBarOf binder bar := by
  have hBars := t.bars_layout
  have hSnd : (t.barredAddresses.zip t.layout.bars).map Prod.snd = t.layout.bars :=
    List.map_snd_zip hBars.length_eq.ge
  rw [← hSnd] at hMem
  obtain ⟨⟨binder, bar⟩, hPair, rfl⟩ := List.mem_map.mp hMem
  exact ⟨binder, List.forall₂_zip hBars hPair⟩

/-- An occurrence that is bound at a level has a line in its column that
begins on that level. -/
theorem exists_line_of_mem_boundAt {t : Term} {level : Nat} {occurrence : Address}
    (hBound : occurrence ∈ t.boundAt level) :
    ∃ line ∈ t.layout.lines, line.x = t.columnOf occurrence ∧ line.top = Grid.level level := by
  obtain ⟨binder, hBinder, rfl⟩ := mem_boundAt.mp hBound
  have hMem : occurrence ∈ t.occurrenceAddresses := (List.mem_filter.mp hBound).1
  refine ⟨⟨t.columnOf occurrence, Grid.level (depth binder), t.layout.height - 50⟩, ?_, rfl, rfl⟩
  rw [lines_layout, List.mem_filterMap]
  exact ⟨occurrence, hMem, by rw [hBinder, Option.map_some]⟩

/-- The bar of a binder is drawn, and at its own place among all bars. The
binder is a barred one, since the occurrence is bound at its depth. -/
theorem exists_bar_of_binder? {t : Term} {occurrence binder : Address}
    (hBinder : t.binder? occurrence = some binder) :
    ∃ bar, (binder, bar) ∈ t.barredAddresses.zip t.layout.bars ∧ t.IsBarOf binder bar := by
  obtain ⟨name, -, hParam⟩ := exists_name_of_binder? hBinder
  have hBound : occurrence ∈ t.boundAt (depth binder) := mem_boundAt.mpr ⟨binder, hBinder, rfl⟩
  have hBarred : binder ∈ t.barredAddresses := by
    rw [barredAddresses, List.mem_filter, decide_eq_true_eq]
    exact ⟨mem_binderAddresses_of_paramAt? hParam, List.ne_nil_of_mem hBound⟩
  have hBars := t.bars_layout
  have hFst : (t.barredAddresses.zip t.layout.bars).map Prod.fst = t.barredAddresses :=
    List.map_fst_zip hBars.length_eq.le
  rw [← hFst] at hBarred
  obtain ⟨⟨binder, bar⟩, hPair, rfl⟩ := List.mem_map.mp hBarred
  exact ⟨bar, hPair, List.forall₂_zip hBars hPair⟩

/-- Every bound occurrence hangs from the bar of its own binder: its line
begins on the level of the innermost abstraction of its name around it, and
the bar of that abstraction is on the same level and reaches over the line.
The bars are those of the abstractions at whose depth something is bound, in
preorder, and each ends on both sides at the top of a line. Where an
abstraction is the only one of its depth, the occurrences that its bar spans
are its own. -/
theorem bound_occurrences_hang_from_own_bar (t : Term) :
    (∀ occurrence binder, t.binder? occurrence = some binder →
      (∃ line ∈ t.layout.lines, line.x = t.columnOf occurrence ∧
        line.top = Grid.level (depth binder)) ∧
      ∃ bar, (binder, bar) ∈ t.barredAddresses.zip t.layout.bars ∧
        (∃ name, t.nameAt? occurrence = some name ∧ t.paramAt? binder = some name ∧
          bar.label = "λ" ++ name) ∧
        bar.y = Grid.level (depth binder) ∧
        bar.left ≤ t.columnOf occurrence ∧ t.columnOf occurrence ≤ bar.right) ∧
    List.Forall₂ t.IsBarOf t.barredAddresses t.layout.bars ∧
    (∀ bar ∈ t.layout.bars,
      (∃ line ∈ t.layout.lines, line.x = bar.left ∧ line.top = bar.y) ∧
      ∃ line ∈ t.layout.lines, line.x = bar.right ∧ line.top = bar.y) ∧
    ∀ binder ∈ t.binderAddresses,
      (∀ other ∈ t.binderAddresses, depth other = depth binder → other = binder) →
      ∀ occurrence, occurrence ∈ t.boundAt (depth binder) ↔
        t.binder? occurrence = some binder := by
  refine ⟨?_, t.bars_layout, ?_, ?_⟩
  · intro occurrence binder hBinder
    have hBound : occurrence ∈ t.boundAt (depth binder) := mem_boundAt.mpr ⟨binder, hBinder, rfl⟩
    obtain ⟨bar, hZip, hBar⟩ := exists_bar_of_binder? hBinder
    obtain ⟨name, hName, hParam⟩ := exists_name_of_binder? hBinder
    obtain ⟨param, hSame, hLabel⟩ := hBar.label
    obtain rfl : param = name := Option.some.inj (hSame.symm.trans hParam)
    exact ⟨exists_line_of_mem_boundAt hBound, bar, hZip, ⟨param, hName, hParam, hLabel⟩, hBar.y,
      hBar.spans occurrence hBound⟩
  · intro bar hBar
    obtain ⟨binder, hIsBar⟩ := exists_isBarOf_of_mem hBar
    obtain ⟨leftmost, hLeftmost, hLeft⟩ := hIsBar.left
    obtain ⟨rightmost, hRightmost, hRight⟩ := hIsBar.right
    rw [← hLeft, ← hRight, hIsBar.y]
    exact ⟨exists_line_of_mem_boundAt hLeftmost, exists_line_of_mem_boundAt hRightmost⟩
  · intro binder hMem hAlone occurrence
    rw [mem_boundAt]
    constructor
    · intro hBound
      obtain ⟨other, hOther, hDepth⟩ := hBound
      obtain ⟨name, -, hParam⟩ := exists_name_of_binder? hOther
      rw [hOther, hAlone other (mem_binderAddresses_of_paramAt? hParam) hDepth]
    · intro hBinder
      exact ⟨binder, hBinder, rfl⟩

/-- In `(λx.λw.x w) (λa.λf.f)` the bars of `λw` and `λf` are on one level and
both reach over both occurrences there. In `λx.x (λx.x)` each bar is over its
own occurrence. -/
theorem bound_occurrences_hang_from_own_bar_on_shared_level :
    let t := app (abs "x" (abs "w" (app (var "x") (var "w")))) (abs "a" (abs "f" (var "f")))
    let u := abs "x" (app (var "x") (abs "x" (var "x")))
    let shared : Bar := ⟨70, 110, 60, "λf"⟩
    (t.binder? [.arg, .body, .body] = some [.arg, .body] ∧
      (∃ line ∈ t.layout.lines, line.x = 110 ∧ line.top = 60) ∧
      ∃ bar, ([.arg, .body], bar) ∈ t.barredAddresses.zip t.layout.bars ∧
        (∃ name, t.nameAt? [.arg, .body, .body] = some name ∧
          t.paramAt? [.arg, .body] = some name ∧ bar.label = "λ" ++ name) ∧
        bar.y = 60 ∧ bar.left ≤ 110 ∧ 110 ≤ bar.right) ∧
    (shared ∈ t.layout.bars ∧ ∃ line ∈ t.layout.lines, line.x = 70 ∧ line.top = 60) ∧
    [] ∈ u.binderAddresses ∧
    (∀ other ∈ u.binderAddresses, depth other = depth [] → other = []) ∧
    ([.body, .arg, .body] ∈ u.boundAt 0 ↔ u.binder? [.body, .arg, .body] = some []) := by
  intro t u shared
  have hBinder : t.binder? [.arg, .body, .body] = some [.arg, .body] := by decide +kernel
  have hShared : shared ∈ t.layout.bars := by decide +kernel
  have hMem : [] ∈ u.binderAddresses := by decide +kernel
  have hAlone : ∀ other ∈ u.binderAddresses, depth other = depth [] → other = [] := by
    decide +kernel
  have hColumn : t.columnOf [.arg, .body, .body] = 110 := by decide +kernel
  have hLevel : Grid.level (depth [.arg, .body]) = 60 := by decide +kernel
  obtain ⟨hHangs, -, hEnds, -⟩ := bound_occurrences_hang_from_own_bar t
  have hOwn := hHangs [.arg, .body, .body] [.arg, .body] hBinder
  rw [hColumn, hLevel] at hOwn
  exact ⟨⟨hBinder, hOwn⟩, ⟨hShared, (hEnds shared hShared).1⟩, hMem, hAlone,
    (bound_occurrences_hang_from_own_bar u).2.2.2 [] hMem hAlone [.body, .arg, .body]⟩

end Term

end LambdaDiagram
