import LambdaDiagram.Proofs.Substitution.FreeVariables
import LambdaDiagram.Substitution

/-! When substitution renames binders. It decides this at one binder at a time, and after a renaming
it goes on with another body than the one it was given; yet it renames something exactly if
replacing the free occurrences as they stand would capture a variable of the value. -/
namespace LambdaDiagram.Term

variable {target : Name} {value : Term}

@[simp] theorem not_captureThreatens_var (name : Name) :
    ¬ CaptureThreatens target value (var name) := by
  rintro ⟨⟩

/-- A binder is dangerous if it has a name of the value and the target is free
below it. Below a binder of the target there is nothing to replace, so nothing
is in danger. -/
theorem captureThreatens_abs_iff {param : Name} {body : Term} :
    CaptureThreatens target value (abs param body) ↔ param ≠ target ∧
      (body.isFree target = true ∧ value.isFree param = true ∨
        CaptureThreatens target value body) := by
  constructor
  · intro hThreat
    cases hThreat with
    | here hOuter hOccurs hCaptures => exact ⟨hOuter, Or.inl ⟨hOccurs, hCaptures⟩⟩
    | body hOuter hBody => exact ⟨hOuter, Or.inr hBody⟩
  · rintro ⟨hOuter, ⟨hOccurs, hCaptures⟩ | hBody⟩
    · exact .here hOuter hOccurs hCaptures
    · exact .body hOuter hBody

theorem captureThreatens_app_iff {fn arg : Term} :
    CaptureThreatens target value (app fn arg) ↔
      CaptureThreatens target value fn ∨ CaptureThreatens target value arg := by
  constructor
  · intro hThreat
    cases hThreat with
    | fn hFn => exact Or.inl hFn
    | arg hArg => exact Or.inr hArg
  · rintro (hFn | hArg)
    · exact .fn hFn
    · exact .arg hArg

/-- Only a free occurrence can be in danger. -/
theorem CaptureThreatens.isFree {t : Term} (hThreat : CaptureThreatens target value t) :
    t.isFree target = true := by
  induction hThreat with
  | here hOuter hOccurs hCaptures => exact isFree_abs_iff.mpr ⟨Ne.symm hOuter, hOccurs⟩
  | body hOuter hBody ih => exact isFree_abs_iff.mpr ⟨Ne.symm hOuter, ih⟩
  | fn hFn ih => exact isFree_app_iff.mpr (Or.inl ih)
  | arg hArg ih => exact isFree_app_iff.mpr (Or.inr ih)

/-- Substitution renames nothing exactly if nothing is in danger. Where it
renames, the binder itself is the threat, so it does not matter what happens
below it. -/
theorem renamings_substituteTraced_eq_nil_iff (t : Term) (target : Name) (value : Term) :
    (t.substituteTraced target value).renamings = [] ↔ ¬ CaptureThreatens target value t := by
  fun_induction substituteTraced t target value with
  | case1 => simp
  | case2 name hName => simp
  | case3 fn arg newFn newArg ihFn ihArg =>
      simp only [List.append_eq_nil_iff, newFn, newArg, ihFn, ihArg, captureThreatens_app_iff,
        not_or]
  | case4 param body hUntouched =>
      refine iff_of_true rfl ?_
      intro hThreat
      have hOccurs := hThreat.isFree
      simp [isFree_abs_eq_false hUntouched] at hOccurs
  | case5 param body hTouched hCaptures fresh newBody ih =>
      obtain ⟨hOuter, hOccurs⟩ : param ≠ target ∧ body.isFree target = true := by
        simpa using hTouched
      exact iff_of_false (List.cons_ne_nil _ _) (not_not_intro (.here hOuter hOccurs hCaptures))
  | case6 param body hTouched hHarmless newBody ih =>
      obtain ⟨hOuter, -⟩ : param ≠ target ∧ body.isFree target = true := by simpa using hTouched
      simp [captureThreatens_abs_iff, hOuter, hHarmless, newBody, ih]

theorem replaceFree_of_isFree_eq_false {t : Term} (hAbsent : t.isFree target = false)
    (value : Term) : t.replaceFree target value = t := by
  induction t with
  | var name =>
      have hName : name ≠ target := by simpa [Term.isFree] using hAbsent
      rw [replaceFree, if_neg hName]
  | abs param body ih =>
      by_cases hParam : param = target
      · rw [replaceFree, if_pos hParam]
      · have hBody : body.isFree target = false := by simpa [Term.isFree, hParam] using hAbsent
        rw [replaceFree, if_neg hParam, ih hBody]
  | app fn arg ihFn ihArg =>
      obtain ⟨hFn, hArg⟩ : fn.isFree target = false ∧ arg.isFree target = false := by
        simpa [Term.isFree] using hAbsent
      rw [replaceFree, ihFn hFn, ihArg hArg]

/-- A substitution that renames nothing replaces the free occurrences as they
stand. -/
theorem term_substituteTraced_of_renamings_eq_nil {t : Term}
    (hNone : (t.substituteTraced target value).renamings = []) :
    (t.substituteTraced target value).term = t.replaceFree target value := by
  fun_induction substituteTraced t target value with
  | case1 => rw [replaceFree, if_pos rfl]
  | case2 name hName => rw [replaceFree, if_neg hName]
  | case3 fn arg newFn newArg ihFn ihArg =>
      obtain ⟨hFn, hArg⟩ := List.append_eq_nil_iff.mp hNone
      rw [replaceFree, ihFn hFn, ihArg hArg]
  | case4 param body hUntouched =>
      exact (replaceFree_of_isFree_eq_false (isFree_abs_eq_false hUntouched) value).symm
  | case5 param body hTouched hCaptures fresh newBody ih => cases hNone
  | case6 param body hTouched hHarmless newBody ih =>
      obtain ⟨hOuter, -⟩ : param ≠ target ∧ body.isFree target = true := by simpa using hTouched
      rw [replaceFree, if_neg hOuter, ih hNone]

/-- Only binders with a name that is free in the value are renamed, and to a
name that is not. -/
theorem of_mem_renamings_substituteTraced {t : Term} {change : Renaming}
    (hMem : change ∈ (t.substituteTraced target value).renamings) :
    value.isFree change.binder = true ∧
      (∃ count, change.renamed = primed change.binder (count + 1)) ∧
      value.isFree change.renamed = false ∧ change.renamed ≠ target := by
  fun_induction substituteTraced t target value with
  | case1 => cases hMem
  | case2 name hName => cases hMem
  | case3 fn arg newFn newArg ihFn ihArg =>
      rcases List.mem_append.mp hMem with hFn | hArg
      · exact ihFn hFn
      · exact ihArg hArg
  | case4 param body hUntouched => cases hMem
  | case5 param body hTouched hCaptures fresh newBody ih =>
      rcases List.mem_cons.mp hMem with rfl | hBody
      · obtain ⟨hNotTarget, hNotFree, -⟩ := freshName_avoids param target value body
        exact ⟨hCaptures, exists_freshName_eq_primed _ _, hNotFree, hNotTarget⟩
      · exact ih hBody
  | case6 param body hTouched hHarmless newBody ih => exact ih hMem

/-- Substitution renames no binder if and only if no free occurrence of the
target is below a binder that would capture a variable of the value, and then
it replaces the free occurrences and leaves all names as they are. A binder is
renamed only if its name is free in the value. Its new name is the old one
with quote marks after it, is not free in the value and is not the target. -/
theorem substitute_renames_iff_capture_threatens (t value : Term) (target : Name) :
    ((t.substituteTraced target value).renamings = [] ↔ ¬ CaptureThreatens target value t) ∧
    (¬ CaptureThreatens target value t →
      t.substitute target value = t.replaceFree target value) ∧
    ∀ change ∈ (t.substituteTraced target value).renamings,
      value.isFree change.binder = true ∧
      (∃ count, 1 ≤ count ∧ change.renamed =
        change.binder ++ String.ofList (List.replicate count '\'')) ∧
      value.isFree change.renamed = false ∧ change.renamed ≠ target := by
  have hRenamed := renamings_substituteTraced_eq_nil_iff t target value
  refine ⟨hRenamed, ?_, ?_⟩
  · intro hSafe
    exact term_substituteTraced_of_renamings_eq_nil (hRenamed.mpr hSafe)
  · intro change hMem
    obtain ⟨hBinder, ⟨count, hPrimed⟩, hNotFree, hNotTarget⟩ :=
      of_mem_renamings_substituteTraced hMem
    exact ⟨hBinder, ⟨count + 1, Nat.succ_pos count, hPrimed⟩, hNotFree, hNotTarget⟩

/-- Both binders around the first occurrence are renamed, the inner one past a
name that the body already mentions. In the second term one binder has a name
of the value, but no occurrence of the target is below it. -/
theorem substitute_renames_iff_capture_threatens_below_two_binders :
    let value := app (var "y") (var "z")
    let threatened := abs "y" (abs "z" (app (var "x") (var "z'")))
    let safe := app (abs "y" (var "y")) (abs "w" (var "x"))
    let change : Renaming := ⟨"z", "z''"⟩
    (change ∈ (threatened.substituteTraced "x" value).renamings ∧
      value.isFree change.binder = true ∧
      (∃ count, 1 ≤ count ∧ change.renamed =
        change.binder ++ String.ofList (List.replicate count '\'')) ∧
      value.isFree change.renamed = false ∧ change.renamed ≠ "x") ∧
    ¬ CaptureThreatens "x" value safe ∧ safe.substitute "x" value = safe.replaceFree "x" value := by
  intro value threatened safe change
  have hMem : change ∈ (threatened.substituteTraced "x" value).renamings := by decide +kernel
  have hSafe : ¬ CaptureThreatens "x" value safe := by
    simp [safe, value, captureThreatens_app_iff, captureThreatens_abs_iff]
  exact ⟨⟨hMem, (substitute_renames_iff_capture_threatens threatened value "x").2.2 change hMem⟩,
    hSafe, (substitute_renames_iff_capture_threatens safe value "x").2.1 hSafe⟩

end LambdaDiagram.Term
