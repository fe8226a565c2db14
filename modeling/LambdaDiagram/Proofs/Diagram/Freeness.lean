import LambdaDiagram.Proofs.Diagram.Walk
import LambdaDiagram.Proofs.Substitution.FreeVariables

/-! Free occurrences in a diagram. The survey looks a name up among the binders on the way down, the
other analyses work their way up from the occurrences; both find the same names free. -/
namespace LambdaDiagram

namespace Stem

@[simp] theorem map_occurrence_place (occurrences : List Occurrence) :
    (place occurrences).map Stem.occurrence = occurrences := by
  apply List.ext_getElem?
  intro index
  simp [place, Function.comp_def]

/-- The columns go to the right, or at least not back where they are clamped. -/
theorem place_pairwise_le (occurrences : List Occurrence) :
    (place occurrences).Pairwise (fun s s' => s.x ≤ s'.x) := by
  apply List.pairwise_iff_getElem.mpr
  intro i j hi hj hLt
  simp only [place, List.getElem_mapIdx]
  exact Grid.column_le_column (Nat.le_of_lt hLt)

/-- A label that is not bound names a free occurrence, and its text is that
name. -/
theorem label_free_iff {s : Stem} {y : Coordinate} {x : Name} :
    (s.label y).text = x ∧ (s.label y).bound = false ↔ s.occurrence = ⟨x, none⟩ := by
  obtain ⟨⟨name, depth⟩, column⟩ := s
  simp [label]

/-- Lines and labels are drawn from the same columns, and a line exactly where
the label is that of a bound occurrence. -/
theorem map_x_lines (bottom y : Coordinate) (stems : List Stem) :
    (stems.filterMap (line? bottom)).map Line.x =
      ((stems.map (label y)).filter Label.bound).map Label.x := by
  induction stems with
  | nil => rfl
  | cons s stems ih =>
      cases hDepth : s.occurrence.depth with
      | none =>
          have hLine : s.line? bottom = none := by rw [line?, hDepth, Option.map_none]
          have hLabel : (s.label y).bound = false := by rw [label, hDepth, Option.isSome_none]
          rw [List.filterMap_cons_none hLine, List.map_cons,
            List.filter_cons_of_neg (by simp [hLabel]), ih]
      | some depth =>
          have hLine : s.line? bottom = some ⟨s.x, Grid.level depth, bottom⟩ := by
            rw [line?, hDepth, Option.map_some]
          have hLabel : (s.label y).bound = true := by rw [label, hDepth, Option.isSome_some]
          rw [List.filterMap_cons_some hLine, List.map_cons, List.map_cons,
            List.filter_cons_of_pos hLabel, List.map_cons, ih]
          rfl

end Stem

namespace Term

def leaves : Term → List Name
  | var name => [name]
  | abs _ body => body.leaves
  | app fn arg => fn.leaves ++ arg.leaves

/-- The survey lists the occurrences with their names from left to right,
whatever binders are around the term. -/
theorem map_name_occurrences (scope : List Name) (t : Term) :
    (t.occurrences scope).map Occurrence.name = t.leaves := by
  induction t generalizing scope with
  | var name => rfl
  | abs param body ih => exact ih (param :: scope)
  | app fn arg ihFn ihArg => simp only [occurrences, leaves, List.map_append, ihFn, ihArg]

/-- An occurrence without a binder is one of a name that is free in the term
and that none of the binders around the term has. -/
theorem mem_occurrences_none_iff {t : Term} {scope : List Name} {x : Name} :
    ⟨x, none⟩ ∈ t.occurrences scope ↔ t.isFree x = true ∧ x ∉ scope := by
  induction t generalizing scope with
  | var name =>
      simp only [occurrences, List.mem_singleton, Occurrence.mk.injEq, isFree_var_iff]
      apply and_congr_right
      rintro rfl
      rw [eq_comm, Option.map_eq_none_iff, List.idxOf?_eq_none_iff]
  | abs param body ih =>
      rw [occurrences, ih, isFree_abs_iff, List.mem_cons, not_or]
      exact and_left_comm.trans and_assoc.symm
  | app fn arg ihFn ihArg =>
      rw [occurrences, List.mem_append, ihFn, ihArg, isFree_app_iff, or_and_right]

theorem labels_layout (t : Term) :
    t.layout.labels =
      (Stem.place (t.occurrences [])).map (Stem.label (t.layout.height - 50 + 15)) := rfl

theorem map_text_labels (t : Term) : t.layout.labels.map Label.text = t.leaves := by
  calc t.layout.labels.map Label.text
      = ((Stem.place (t.occurrences [])).map Stem.occurrence).map Occurrence.name := by
        rw [labels_layout, List.map_map, List.map_map]
        rfl
    _ = t.leaves := by rw [Stem.map_occurrence_place, map_name_occurrences]

/-- A name is free in a term exactly if the diagram labels one of its
occurrences as free. -/
theorem exists_free_label_iff {t : Term} {x : Name} :
    (∃ l ∈ t.layout.labels, l.text = x ∧ l.bound = false) ↔ t.isFree x = true := by
  have hOccurs : (∃ l ∈ t.layout.labels, l.text = x ∧ l.bound = false) ↔
      ⟨x, none⟩ ∈ (Stem.place (t.occurrences [])).map Stem.occurrence := by
    rw [List.mem_map]
    constructor
    · rintro ⟨l, hLabel, hFree⟩
      obtain ⟨s, hStem, rfl⟩ := List.mem_map.mp hLabel
      exact ⟨s, hStem, Stem.label_free_iff.mp hFree⟩
    · rintro ⟨s, hStem, hFree⟩
      exact ⟨_, List.mem_map_of_mem hStem, Stem.label_free_iff.mpr hFree⟩
  rw [hOccurs, Stem.map_occurrence_place, mem_occurrences_none_iff]
  simp

/-- The test for a free name, the list of free names and the labels of the
diagram that are not bound say the same of every name. The labels spell out
the occurrences from left to right, and the lines hang in the columns of the
bound ones. A substitution for a name that is not free leaves the term as it
is and renames nothing. -/
theorem analyses_of_freeness_agree (t : Term) (x : Name) :
    (t.isFree x = true ↔ x ∈ t.freeVariables) ∧
    (x ∈ t.freeVariables ↔ ∃ l ∈ t.layout.labels, l.text = x ∧ l.bound = false) ∧
    t.layout.labels.map Label.text = t.leaves ∧
    t.layout.labels.Pairwise (fun l l' => l.x ≤ l'.x) ∧
    t.layout.lines.map Line.x = (t.layout.labels.filter Label.bound).map Label.x ∧
    (t.isFree x = false → ∀ value, t.substituteTraced x value = ⟨t, []⟩) := by
  refine ⟨mem_freeVariables.symm, ?_, t.map_text_labels, ?_, ?_, ?_⟩
  · rw [mem_freeVariables, exists_free_label_iff]
  · exact List.pairwise_map.mpr (Stem.place_pairwise_le _)
  · exact Stem.map_x_lines _ _ _
  · exact substituteTraced_of_isFree_eq_false

/-- In `x (λx.x z)` the name `x` is free on the left and bound on the right. -/
theorem analyses_of_freeness_agree_on_shadowing :
    let t := app (var "x") (abs "x" (app (var "x") (var "z")))
    t.isFree "x" = true ∧ t.isFree "y" = false ∧
      t.layout.labels.map (fun l => (l.text, l.bound)) =
        [("x", false), ("x", true), ("z", false)] ∧
      t.layout.lines.map Line.x = [70] ∧
      ∀ value, t.substituteTraced "y" value = ⟨t, []⟩ := by
  intro t
  have hAbsent : t.isFree "y" = false := by decide +kernel
  refine ⟨by decide +kernel, hAbsent, by decide +kernel, by decide +kernel, ?_⟩
  exact (analyses_of_freeness_agree t "y").2.2.2.2.2 hAbsent

end Term

end LambdaDiagram
