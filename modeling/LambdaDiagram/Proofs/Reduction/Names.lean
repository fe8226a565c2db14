import LambdaDiagram.Proofs.Reduction.Budget
import LambdaDiagram.Proofs.Reduction.FirstRedex
import LambdaDiagram.Proofs.Substitution.FreeVariables

/-! Which names can turn up while a term is reduced. The only names that reduction invents are names
of the term with quote marks appended, so a property of names that a further quote mark does not
destroy holds throughout a run. -/
namespace LambdaDiagram

variable {P : Name → Prop}

/-- The search for an unused name appends quote marks and does nothing else,
so its result has every property of the name that quote marks keep. -/
theorem firstUnused_induction (hPrime : ∀ x, P x → P (x.push '\'')) {name : Name}
    (avoid : List Name) (hName : P name) : P (firstUnused name avoid) := by
  fun_induction firstUnused name avoid with
  | case1 name avoid hMem ih => exact ih (hPrime name hName)
  | case2 name avoid hMem => exact hName

namespace Term

/-- Every name mentioned in the term has the property, binders included. -/
def AllNames (P : Name → Prop) (t : Term) : Prop :=
  ∀ x ∈ t.names, P x

@[simp] theorem allNames_var {name : Name} : (var name).AllNames P ↔ P name := by
  simp [AllNames, names]

@[simp] theorem allNames_abs {param : Name} {body : Term} :
    (abs param body).AllNames P ↔ P param ∧ body.AllNames P := by
  simp [AllNames, names, or_imp, forall_and]

@[simp] theorem allNames_app {fn arg : Term} :
    (app fn arg).AllNames P ↔ fn.AllNames P ∧ arg.AllNames P := by
  simp [AllNames, names, or_imp, forall_and]

/-- Renaming brings in the new name only, at occurrences and binders alike. -/
theorem AllNames.rename {t : Term} (hNames : t.AllNames P) (old : Name) {new : Name}
    (hNew : P new) : (t.rename old new).AllNames P := by
  induction t with
  | var name =>
      rw [Term.rename, allNames_var]
      split
      · exact hNew
      · exact allNames_var.mp hNames
  | abs param body ih =>
      obtain ⟨hParam, hBody⟩ := allNames_abs.mp hNames
      rw [Term.rename, allNames_abs]
      refine ⟨?_, ih hBody⟩
      split
      · exact hNew
      · exact hParam
  | app fn arg ihFn ihArg =>
      obtain ⟨hFn, hArg⟩ := allNames_app.mp hNames
      exact allNames_app.mpr ⟨ihFn hFn, ihArg hArg⟩

/-- Substitution mentions names of the two terms, and names of them with quote
marks appended where a binder had to be renamed. -/
theorem AllNames.substitute (hPrime : ∀ x, P x → P (x.push '\'')) {t value : Term} (target : Name)
    (hNames : t.AllNames P) (hValue : value.AllNames P) :
    (t.substitute target value).AllNames P := by
  unfold Term.substitute
  fun_induction Term.substituteTraced t target value with
  | case1 => exact hValue
  | case2 name hName => exact hNames
  | case3 fn arg newFn newArg ihFn ihArg =>
      obtain ⟨hFn, hArg⟩ := allNames_app.mp hNames
      exact allNames_app.mpr ⟨ihFn hFn, ihArg hArg⟩
  | case4 param body hUntouched => exact hNames
  | case5 param body hTouched hCaptures fresh newBody ih =>
      obtain ⟨hParam, hBody⟩ := allNames_abs.mp hNames
      have hFresh : P fresh := firstUnused_induction hPrime _ (hPrime param hParam)
      exact allNames_abs.mpr ⟨hFresh, ih (hBody.rename param hFresh)⟩
  | case6 param body hTouched hHarmless newBody ih =>
      obtain ⟨hParam, hBody⟩ := allNames_abs.mp hNames
      exact allNames_abs.mpr ⟨hParam, ih hBody⟩

/-- A contraction anywhere in the term keeps the property, and so does the
first one, which is among them. -/
theorem AllNames.beta (hPrime : ∀ x, P x → P (x.push '\'')) {t u : Term}
    (hNames : t.AllNames P) (hStep : Beta t u) : u.AllNames P := by
  induction hStep with
  | contract param body arg =>
      obtain ⟨hFn, hArg⟩ := allNames_app.mp hNames
      exact (allNames_abs.mp hFn).2.substitute hPrime param hArg
  | body hBody ih =>
      obtain ⟨hParam, hBody⟩ := allNames_abs.mp hNames
      exact allNames_abs.mpr ⟨hParam, ih hBody⟩
  | fn hFn ih =>
      obtain ⟨hFn, hArg⟩ := allNames_app.mp hNames
      exact allNames_app.mpr ⟨ih hFn, hArg⟩
  | arg hArg ih =>
      obtain ⟨hFn, hArg⟩ := allNames_app.mp hNames
      exact allNames_app.mpr ⟨hFn, ih hArg⟩

theorem AllNames.reduce? (hPrime : ∀ x, P x → P (x.push '\'')) {t u : Term}
    (hNames : t.AllNames P) (hStep : t.reduce? = some u) : u.AllNames P :=
  hNames.beta hPrime (beta_of_reduce? hStep)

end Term

end LambdaDiagram

/-! Free variables along a reduction. A contraction may drop free variables, together with an
argument that is not used, but no order of contractions makes a name free that was not. -/
namespace LambdaDiagram.Term

/-- A contraction frees no name. A free occurrence in the result was one in
the body or in the argument of the redex. -/
theorem Beta.isFree {t u : Term} (hStep : Beta t u) {x : Name} (hFree : u.isFree x = true) :
    t.isFree x = true := by
  induction hStep with
  | contract param body arg =>
      rcases (isFree_substitute body param arg x).mp hFree with ⟨hOther, hBody⟩ | ⟨-, hArg⟩
      · simp [hOther, hBody]
      · simp [hArg]
  | body hBody ih =>
      obtain ⟨hOther, hReduct⟩ := isFree_abs_iff.mp hFree
      exact isFree_abs_iff.mpr ⟨hOther, ih hReduct⟩
  | fn hFn ih => exact isFree_app_iff.mpr ((isFree_app_iff.mp hFree).imp_left ih)
  | arg hArg ih => exact isFree_app_iff.mpr ((isFree_app_iff.mp hFree).imp_right ih)

theorem freeVariables_subset_of_reduce? {t u : Term} (hStep : t.reduce? = some u) :
    u.freeVariables ⊆ t.freeVariables := by
  intro x hFree
  rw [mem_freeVariables] at hFree ⊢
  exact (beta_of_reduce? hStep).isFree hFree

theorem freeVariables_step_subset (t : Term) : t.step.freeVariables ⊆ t.freeVariables := by
  rw [step]
  cases hStep : t.reduce? with
  | none => exact List.Subset.refl _
  | some next => exact freeVariables_subset_of_reduce? hStep

/-- Any number of steps leads to free variables that the term had already.
Idle steps at a normal form add nothing. -/
theorem freeVariables_iterate_step_subset (count : Nat) (t : Term) :
    (step^[count] t).freeVariables ⊆ t.freeVariables := by
  induction count generalizing t with
  | zero => exact List.Subset.refl _
  | succ count ih =>
      rw [Function.iterate_succ_apply]
      exact List.Subset.trans (ih t.step) t.freeVariables_step_subset

/-- Along a run of reducts free variables can only get lost. -/
theorem ReducesIn.freeVariables_subset {t u : Term} {count : Nat} (run : t.ReducesIn u count) :
    u.freeVariables ⊆ t.freeVariables := by
  apply run.preserves (P := fun reached => reached.freeVariables ⊆ t.freeVariables)
  · intro reached next hSubset hStep
    exact List.Subset.trans (freeVariables_subset_of_reduce? hStep) hSubset
  · exact List.Subset.refl _

/-- Normalising, with or without a budget, ends in a term whose free variables
the given term had already. -/
theorem freeVariables_normalize_subset (budget : Option Nat) (t : Term) :
    (t.normalize budget).term.freeVariables ⊆ t.freeVariables := by
  rw [normalize, (Run.resume_along_trail 0 [] _ t).1]
  exact (t.reducesIn_trail _).freeVariables_subset

/-- Substitution trades the target for the free variables of the value if the
target is free, and leaves the free variables alone otherwise. Hence
reduction, however far it goes, frees no name: what binders are renamed to
never becomes free, and a closed term stays closed. -/
theorem reduction_frees_no_name (t value : Term) (target : Name) :
    (∀ x, x ∈ (t.substitute target value).freeVariables ↔
      if target ∈ t.freeVariables then
        (x ∈ t.freeVariables ∧ x ≠ target) ∨ x ∈ value.freeVariables
      else x ∈ t.freeVariables) ∧
    (∀ count, (step^[count] t).freeVariables ⊆ t.freeVariables) ∧
    (∀ budget, (t.normalize budget).term.freeVariables ⊆ t.freeVariables) ∧
    (t.freeVariables = [] →
      (∀ count, (step^[count] t).freeVariables = []) ∧
      ∀ budget, (t.normalize budget).term.freeVariables = []) := by
  refine ⟨?_, (freeVariables_iterate_step_subset · t), (freeVariables_normalize_subset · t), ?_⟩
  · intro x
    simp only [mem_freeVariables]
    by_cases hTarget : t.isFree target = true
    · simp [hTarget, isFree_substitute, and_comm]
    · rw [if_neg hTarget, substitute, substituteTraced_of_isFree_eq_false (by simpa using hTarget)]
  · intro hClosed
    refine ⟨?_, ?_⟩
    · intro count
      exact List.subset_nil.mp (hClosed ▸ freeVariables_iterate_step_subset count t)
    · intro budget
      exact List.subset_nil.mp (hClosed ▸ freeVariables_normalize_subset budget t)

/-- The only step of the closed term `λy.(λx.λy.x) y` renames the inner
binder. -/
theorem reduction_frees_no_name_past_renaming :
    let t := abs "y" (app (abs "x" (abs "y" (var "x"))) (var "y"))
    t.freeVariables = [] ∧ t.step = abs "y" (abs "y'" (var "y")) ∧
      (∀ count, (step^[count] t).freeVariables = []) ∧
      ∀ budget, (t.normalize budget).term.freeVariables = [] := by
  intro t
  have hClosed : t.freeVariables = [] := by decide +kernel
  have hStep : t.step = abs "y" (abs "y'" (var "y")) := by decide +kernel
  exact ⟨hClosed, hStep, (reduction_frees_no_name t (var "y") "x").2.2.2 hClosed⟩

end LambdaDiagram.Term
