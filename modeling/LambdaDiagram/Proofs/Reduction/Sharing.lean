import LambdaDiagram.Proofs.Reduction.Budget
import LambdaDiagram.Proofs.Substitution.FreeVariables

/-! When a result is the very term that was given. Each function that follows nodes is compared with
the plain one: both lead to the same term, and the given node comes back exactly under a condition on
the term. That a step handed its term back is how a run sees that it is done. -/
namespace LambdaDiagram

namespace Term

/-- The node that renaming arrives at is the renamed term. -/
theorem renameNode?_getD (old new : Name) (t : Term) :
    (t.renameNode? old new).getD t = t.rename old new := by
  induction t with
  | var name =>
      by_cases hName : name = old
      · simp [renameNode?, rename, hName]
      · simp [renameNode?, rename, hName]
  | abs param body ih => rw [renameNode?, ih, Option.getD_some, rename]
  | app fn arg ihFn ihArg => rw [renameNode?, ihFn, ihArg, Option.getD_some, rename]

/-- Renaming hands back the variables of other names and nothing else. An
abstraction or an application is a new node even if no name in it was changed. -/
theorem renameNode?_eq_none_iff {old new : Name} {t : Term} :
    t.renameNode? old new = none ↔ ∃ name, name ≠ old ∧ t = var name := by
  cases t with
  | var name => simp [renameNode?]
  | abs param body => simp [renameNode?]
  | app fn arg => simp [renameNode?]

/-- Substitution arrives at a new node exactly where the target is free, and
then its result is the one without sharing. In the renamed body of an
abstraction the target is as free as it was before. -/
theorem substituteNode?_eq (t : Term) (target : Name) (value : Term) :
    t.substituteNode? target value =
      if t.isFree target then some (t.substituteTraced target value) else none := by
  fun_induction substituteTraced t target value with
  | case1 => simp [substituteNode?, isFree]
  | case2 name hName => simp [substituteNode?, isFree, hName]
  | case3 fn arg newFn newArg ihFn ihArg =>
      rw [substituteNode?, ihFn, ihArg, isFree]
      cases hFn : fn.isFree target with
      | true => cases hArg : arg.isFree target with
        | true => simp [newFn, newArg]
        | false => simp [newFn, newArg, substituteTraced_of_isFree_eq_false hArg]
      | false => cases hArg : arg.isFree target with
        | true => simp [newFn, newArg, substituteTraced_of_isFree_eq_false hFn]
        | false => simp
  | case4 param body hUntouched =>
      have hAbsent := isFree_abs_eq_false hUntouched
      rw [substituteNode?, if_pos hUntouched, if_neg (by simp [hAbsent])]
  | case5 param body hTouched hCaptures fresh newBody ih =>
      obtain ⟨hOuter, hOccurs⟩ : param ≠ target ∧ body.isFree target = true := by
        simpa using hTouched
      obtain ⟨hFresh, -, -⟩ := freshName_avoids param target value body
      have hRenamed : (body.rename param fresh).isFree target = true :=
        (isFree_rename body param (Ne.symm hFresh)).mpr ⟨Ne.symm hOuter, hOccurs⟩
      have hFree : (abs param body).isFree target = true :=
        isFree_abs_iff.mpr ⟨Ne.symm hOuter, hOccurs⟩
      rw [if_pos hRenamed] at ih
      rw [substituteNode?, if_neg hTouched, if_pos hCaptures, if_pos hFree]
      simp only [fresh, newBody, ih, Option.getD_some]
  | case6 param body hTouched hHarmless newBody ih =>
      obtain ⟨hOuter, hOccurs⟩ : param ≠ target ∧ body.isFree target = true := by
        simpa using hTouched
      have hFree : (abs param body).isFree target = true :=
        isFree_abs_iff.mpr ⟨Ne.symm hOuter, hOccurs⟩
      rw [if_pos hOccurs] at ih
      rw [substituteNode?, if_neg hTouched, if_neg hHarmless, if_pos hFree]
      simp only [newBody, ih, Option.getD_some]

/-- A term comes back as it was given exactly if it has no free occurrence of
the target, so parts without one are shared and not copied. -/
theorem substituteNode?_eq_none_iff {t : Term} {target : Name} {value : Term} :
    t.substituteNode? target value = none ↔ t.isFree target = false := by
  rw [substituteNode?_eq]
  cases t.isFree target with
  | true => simp
  | false => simp

/-- The node that substitution arrives at is the result without sharing,
renamings included. -/
theorem substituteNode?_getD (t : Term) (target : Name) (value : Term) :
    (t.substituteNode? target value).getD ⟨t, []⟩ = t.substituteTraced target value := by
  rw [substituteNode?_eq]
  cases hFree : t.isFree target with
  | true => rfl
  | false => exact (substituteTraced_of_isFree_eq_false hFree value).symm

end Term

/-- A run is at the last term of the trail, and at the node where it was
before if it makes no step. -/
theorem Run.node?_eq (held : Option Term) (budget : Nat) (t : Term) :
    Run.node? held budget t = (t.trail budget).getLast?.or held := by
  induction budget generalizing held t with
  | zero => rfl
  | succ budget ih =>
      cases hStep : t.reduce? with
      | none => simp [Run.node?, hStep]
      | some next =>
          rw [Run.node?, hStep, Term.trail_of_some hStep, List.getLast?_cons]
          simp [ih, Option.or_some]

namespace Term

/-- The node that a run ends at is the term that it reports. -/
theorem normalizeNode?_getD (budget : Option Nat) (t : Term) :
    (t.normalizeNode? budget).getD t = (t.normalize budget).term := by
  obtain ⟨hTerm, -, -⟩ := Run.resume_along_trail 0 [] (budget.getD stepCeiling) t
  rw [normalizeNode?, Run.node?_eq, Option.or_none, normalize, hTerm,
    List.getLastD_eq_getLast?]

/-- Normalising hands back the given term exactly if it makes no step: because
the term has no redex, or because the budget allows none. -/
theorem normalizeNode?_eq_none_iff {budget : Option Nat} {t : Term} :
    t.normalizeNode? budget = none ↔ (t.normalize budget).steps = 0 := by
  obtain ⟨-, hSteps, -⟩ := Run.resume_along_trail 0 [] (budget.getD stepCeiling) t
  rw [Nat.zero_add] at hSteps
  rw [normalizeNode?, Run.node?_eq, Option.or_none, normalize, hSteps, List.getLast?_eq_none_iff,
    List.length_eq_zero_iff]

end Term

end LambdaDiagram
