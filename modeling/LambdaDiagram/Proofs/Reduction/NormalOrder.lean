import LambdaDiagram.Proofs.Reduction.Budget
import LambdaDiagram.Proofs.Reduction.FirstRedex
import Mathlib.Logic.Relation

/-! Any finite sequence of contractions can be rearranged into a standard one, which contracts a head
redex before anything inside the term that results. A standard sequence that ends in a normal form
contracts the first redex each time. -/
namespace LambdaDiagram.Nameless

open Relation

inductive Beta : Nameless → Nameless → Prop where
  | contract (body arg : Nameless) : Beta (app (abs body) arg) (body.instantiate 0 arg)
  | body {body body' : Nameless} (hBody : Beta body body') : Beta (abs body) (abs body')
  | fn {fn fn' arg : Nameless} (hFn : Beta fn fn') : Beta (app fn arg) (app fn' arg)
  | arg {fn arg arg' : Nameless} (hArg : Beta arg arg') : Beta (app fn arg) (app fn arg')

/-- One contraction at the head, reached through functions only. It neither
enters an abstraction nor an argument. -/
inductive HeadStep : Nameless → Nameless → Prop where
  | contract (body arg : Nameless) : HeadStep (app (abs body) arg) (body.instantiate 0 arg)
  | fn {fn fn' arg : Nameless} (hFn : HeadStep fn fn') : HeadStep (app fn arg) (app fn' arg)

abbrev HeadSteps : Nameless → Nameless → Prop :=
  ReflTransGen HeadStep

abbrev FirstSteps : Nameless → Nameless → Prop :=
  ReflTransGen fun t u => t.contractFirst? = some u

/-- Contractions at the head bring forth the shape of the result, then the
parts are reduced in the same way. -/
inductive Standard : Nameless → Nameless → Prop where
  | bound {t : Nameless} {index : Nat} (hHead : HeadSteps t (bound index)) :
      Standard t (bound index)
  | free {t : Nameless} {name : Name} (hHead : HeadSteps t (free name)) : Standard t (free name)
  | abs {t body body' : Nameless} (hHead : HeadSteps t (abs body)) (hBody : Standard body body') :
      Standard t (abs body')
  | app {t fn fn' arg arg' : Nameless} (hHead : HeadSteps t (app fn arg))
      (hFn : Standard fn fn') (hArg : Standard arg arg') : Standard t (app fn' arg')

theorem HeadStep.lift {t u : Nameless} (hStep : HeadStep t u) (depth : Nat) :
    HeadStep (t.lift depth) (u.lift depth) := by
  induction hStep with
  | contract body arg =>
      rw [lift_instantiate_of_ge body arg (Nat.zero_le depth)]
      exact .contract _ _
  | fn hFn ih => exact .fn ih

/-- Replacing an index keeps a contraction at the head. The head is not
replaced, since it is an abstraction. -/
theorem HeadStep.instantiate {t u : Nameless} (hStep : HeadStep t u) (depth : Nat)
    (value : Nameless) : HeadStep (t.instantiate depth value) (u.instantiate depth value) := by
  induction hStep with
  | contract body arg =>
      rw [instantiate_instantiate body arg value (Nat.zero_le depth)]
      exact .contract _ _
  | fn hFn ih => exact .fn ih

theorem HeadSteps.lift {t u : Nameless} (hSteps : HeadSteps t u) (depth : Nat) :
    HeadSteps (t.lift depth) (u.lift depth) :=
  ReflTransGen.lift (Nameless.lift depth) (fun _ _ hStep => HeadStep.lift hStep depth) t u hSteps

theorem HeadSteps.instantiate {t u : Nameless} (hSteps : HeadSteps t u) (depth : Nat)
    (value : Nameless) : HeadSteps (t.instantiate depth value) (u.instantiate depth value) :=
  ReflTransGen.lift (Nameless.instantiate · depth value)
    (fun _ _ hStep => HeadStep.instantiate hStep depth value) t u hSteps

/-- Contractions at the head of a function are at the head of the application
as well. -/
theorem HeadSteps.fn {fn fn' : Nameless} (hSteps : HeadSteps fn fn') (arg : Nameless) :
    HeadSteps (app fn arg) (app fn' arg) :=
  ReflTransGen.lift (app · arg) (fun _ _ hStep => HeadStep.fn hStep) fn fn' hSteps

namespace Standard

theorem refl (t : Nameless) : Standard t t := by
  induction t with
  | bound index => exact .bound .refl
  | free name => exact .free .refl
  | abs body ih => exact .abs .refl ih
  | app fn arg ihFn ihArg => exact .app .refl ihFn ihArg

theorem head {t u v : Nameless} (hSteps : HeadSteps t u) (hRest : Standard u v) :
    Standard t v := by
  cases hRest with
  | bound hHead => exact .bound (hSteps.trans hHead)
  | free hHead => exact .free (hSteps.trans hHead)
  | abs hHead hBody => exact .abs (hSteps.trans hHead) hBody
  | app hHead hFn hArg => exact .app (hSteps.trans hHead) hFn hArg

theorem lift {t u : Nameless} (hStandard : Standard t u) (depth : Nat) :
    Standard (t.lift depth) (u.lift depth) := by
  induction hStandard generalizing depth with
  | bound hHead => exact head (hHead.lift depth) (refl _)
  | free hHead => exact head (hHead.lift depth) (refl _)
  | abs hHead hBody ih => exact .abs (hHead.lift depth) (ih (depth + 1))
  | app hHead hFn hArg ihFn ihArg => exact .app (hHead.lift depth) (ihFn depth) (ihArg depth)

/-- A standard sequence may run inside the value for an index while another
one runs around it. -/
theorem instantiate {t t' value value' : Nameless} (hStandard : Standard t t') (depth : Nat)
    (hValue : Standard value value') :
    Standard (t.instantiate depth value) (t'.instantiate depth value') := by
  induction hStandard generalizing depth value value' with
  | @bound t index hHead =>
      apply head (hHead.instantiate depth value)
      rcases Nat.lt_trichotomy index depth with hBelow | rfl | hAbove
      · rw [instantiate_bound_of_lt value hBelow, instantiate_bound_of_lt value' hBelow]
        exact refl _
      · simpa using hValue
      · rw [instantiate_bound_of_gt value hAbove, instantiate_bound_of_gt value' hAbove]
        exact refl _
  | free hHead => exact head (hHead.instantiate depth value) (refl _)
  | abs hHead hBody ih =>
      exact .abs (hHead.instantiate depth value) (ih (depth + 1) (hValue.lift 0))
  | app hHead hFn hArg ihFn ihArg =>
      exact .app (hHead.instantiate depth value) (ihFn depth hValue) (ihArg depth hValue)

/-- A redex that a standard sequence leads to can be contracted at the head
before the rest of the sequence. -/
theorem contract {t body arg : Nameless} (hStandard : Standard t (.app (.abs body) arg)) :
    Standard t (body.instantiate 0 arg) := by
  cases hStandard with
  | @app _ fn _ arg₀ _ hHead hFn hArg =>
      cases hFn with
      | @abs _ body₀ _ hFnHead hBody =>
          have hRedex : HeadSteps t (.app (.abs body₀) arg₀) := hHead.trans (hFnHead.fn arg₀)
          have hContracted : HeadSteps t (body₀.instantiate 0 arg₀) :=
            hRedex.tail (.contract body₀ arg₀)
          exact head hContracted (hBody.instantiate 0 hArg)

/-- A contraction anywhere at the end of a standard sequence can be worked
into it. -/
theorem beta {t u v : Nameless} (hStandard : Standard t u) (hStep : Beta u v) : Standard t v := by
  induction hStep generalizing t with
  | contract body arg => exact hStandard.contract
  | body hBody ih =>
      cases hStandard with
      | abs hHead hStandardBody => exact .abs hHead (ih hStandardBody)
  | fn hFn ih =>
      cases hStandard with
      | app hHead hStandardFn hStandardArg => exact .app hHead (ih hStandardFn) hStandardArg
  | arg hArg ih =>
      cases hStandard with
      | app hHead hStandardFn hStandardArg => exact .app hHead hStandardFn (ih hStandardArg)

/-- Every sequence of contractions has a standard one with the same ends. The
contractions are worked in one by one, from the first to the last. -/
theorem of_betas {t u : Nameless} (hSteps : ReflTransGen Beta t u) : Standard t u := by
  induction hSteps with
  | refl => exact refl t
  | tail hSteps hStep ih => exact ih.beta hStep

end Standard

/-- An abstraction has no redex at its head, because the head is never below a
binder. -/
theorem HeadStep.isAbs_eq_false {t u : Nameless} (hStep : HeadStep t u) : t.isAbs = false := by
  cases hStep <;> rfl

/-- The redex at the head is the first one of the term. -/
theorem HeadStep.contractFirst? {t u : Nameless} (hStep : HeadStep t u) :
    t.contractFirst? = some u := by
  induction hStep with
  | contract body arg => rfl
  | fn hFn ih => rw [contractFirst?_app _ hFn.isAbs_eq_false, ih, Option.map_some, Option.some_or]

/-- Contractions at the head are contractions of the first redex each time, so
they can be part of such a reduction. -/
theorem HeadSteps.firstSteps {t u : Nameless} (hSteps : HeadSteps t u) : FirstSteps t u :=
  ReflTransGen.mono (fun _ _ hStep => HeadStep.contractFirst? hStep) t u hSteps

namespace FirstSteps

theorem abs {body body' : Nameless} (hSteps : FirstSteps body body') :
    FirstSteps (.abs body) (.abs body') := by
  refine ReflTransGen.lift Nameless.abs ?_ body body' hSteps
  intro t u hStep
  simp only [Function.onFun, contractFirst?, hStep, Option.map_some]

/-- An abstraction stays one, so a term that reduces to something else never
was one. -/
theorem isAbs_eq_false {t u : Nameless} (hSteps : FirstSteps t u) (hEnd : u.isAbs = false) :
    t.isAbs = false := by
  induction hSteps using ReflTransGen.head_induction_on with
  | refl => exact hEnd
  | @head t middle hStep hRest ih =>
      cases hAbs : t.isAbs with
      | false => rfl
      | true =>
          obtain ⟨body, rfl⟩ := exists_eq_abs hAbs
          rw [contractFirst?, Option.map_eq_some_iff] at hStep
          obtain ⟨body', hBody, rfl⟩ := hStep
          simp [isAbs] at ih

/-- As long as the function does not become an abstraction, its redexes come
first. Had it been an abstraction on the way, the application itself would
come first. -/
theorem fn {fn fn' : Nameless} (hSteps : FirstSteps fn fn') (hEnd : fn'.isAbs = false)
    (arg : Nameless) : FirstSteps (.app fn arg) (.app fn' arg) := by
  induction hSteps using ReflTransGen.head_induction_on with
  | refl => exact .refl
  | @head fn middle hStep hRest ih =>
      have hFn : fn.isAbs = false := isAbs_eq_false (hRest.head hStep) hEnd
      refine ih.head ?_
      rw [contractFirst?_app arg hFn, hStep, Option.map_some, Option.some_or]

/-- Once nothing is left to do in the function, the redexes of the argument
come first. -/
theorem arg {fn arg arg' : Nameless} (hSteps : FirstSteps arg arg') (hFn : fn.isAbs = false)
    (hStuck : fn.contractFirst? = none) : FirstSteps (.app fn arg) (.app fn arg') := by
  refine ReflTransGen.lift (Nameless.app fn) ?_ arg arg' hSteps
  intro t u hStep
  simp only [Function.onFun]
  rw [contractFirst?_app t hFn, hStuck, hStep]
  rfl

end FirstSteps

/-- A standard sequence that ends without a redex contracts the first redex
each time. -/
theorem Standard.firstSteps {t u : Nameless} (hStandard : Standard t u)
    (hNormal : u.contractFirst? = none) : FirstSteps t u := by
  induction hStandard with
  | bound hHead => exact hHead.firstSteps
  | free hHead => exact hHead.firstSteps
  | abs hHead hBody ih =>
      rw [contractFirst?, Option.map_eq_none_iff] at hNormal
      exact hHead.firstSteps.trans (FirstSteps.abs (ih hNormal))
  | @app t fn fn' arg arg' hHead hFn hArg ihFn ihArg =>
      obtain ⟨hAbs, hFnStuck, hArgStuck⟩ := contractFirst?_app_eq_none hNormal
      have hFirst : FirstSteps (.app fn arg) (.app fn' arg) := (ihFn hFnStuck).fn hAbs arg
      have hSecond : FirstSteps (.app fn' arg) (.app fn' arg') :=
        (ihArg hArgStuck).arg hAbs hFnStuck
      exact hHead.firstSteps.trans (hFirst.trans hSecond)

end LambdaDiagram.Nameless

/-! Reducing the first redex each time misses no normal form. The argument runs on nameless forms,
where every contraction of a named term is a contraction; a named term is reached only up to the
choice of bound names, since other orders of contraction invent other names. -/
namespace LambdaDiagram

open Relation

/-- Forgetting names turns a contraction into a contraction, below any
binders. -/
theorem Nameless.Beta.ofTerm {t u : Term} (hStep : Term.Beta t u) (scope : List Name) :
    Nameless.Beta (Nameless.ofTerm scope t) (Nameless.ofTerm scope u) := by
  induction hStep generalizing scope with
  | contract param body arg =>
      rw [Nameless.ofTerm_substitute_cons]
      exact .contract _ _
  | body hBody ih => exact .body (ih _)
  | fn hFn ih => exact .fn (ih scope)
  | arg hArg ih => exact .arg (ih scope)

namespace Term

theorem BetaSteps.nameless {t u : Term} (hSteps : BetaSteps t u) :
    ReflTransGen Nameless.Beta t.nameless u.nameless := by
  induction hSteps with
  | refl t => exact .refl
  | head hStep hRest ih => exact ih.head (.ofTerm hStep [])

theorem contractFirst?_nameless_eq_none {t : Term} (hNormal : t.IsNormal) :
    t.nameless.contractFirst? = none := by
  rw [← map_nameless_reduce?, reduce?_eq_none_iff.mpr hNormal, Option.map_none]

/-- Steps on a nameless form are matched by steps on the term, one for one, so
the number of steps carries over. -/
theorem ReducesIn.of_firstSteps {t : Term} {target : Nameless}
    (hSteps : Nameless.FirstSteps t.nameless target) :
    ∃ u count, t.ReducesIn u count ∧ u.nameless = target := by
  generalize hStart : t.nameless = start at hSteps
  induction hSteps using ReflTransGen.head_induction_on generalizing t with
  | refl => exact ⟨t, 0, .zero t, hStart⟩
  | head hStep hRest ih =>
      rw [← hStart, ← map_nameless_reduce?, Option.map_eq_some_iff] at hStep
      obtain ⟨next, hNext, hNameless⟩ := hStep
      obtain ⟨u, count, run, hEnd⟩ := ih hNameless
      exact ⟨u, count + 1, .succ hNext run, hEnd⟩

/-- If some order of contractions leads to a normal form, then reduction with
any budget that is large enough ends in that normal form, up to the choice of
bound names. The number of steps does not depend on the budget. -/
theorem normalize_finds_normal_form (t n : Term) (hSteps : BetaSteps t n) (hNormal : n.IsNormal) :
    ∃ count, ∀ budget, count < budget →
      (t.normalize (some budget)).reachedNormalForm = true ∧
      (t.normalize (some budget)).steps = count ∧
      AlphaEquiv (t.normalize (some budget)).term n := by
  have hStandard : Nameless.Standard t.nameless n.nameless := .of_betas hSteps.nameless
  have hFirst : Nameless.FirstSteps t.nameless n.nameless :=
    hStandard.firstSteps (contractFirst?_nameless_eq_none hNormal)
  obtain ⟨u, count, run, hSame⟩ := ReducesIn.of_firstSteps hFirst
  have hEnd : u.IsNormal := by
    rw [← reduce?_eq_none_iff, ← Option.map_eq_none_iff (f := nameless), map_nameless_reduce?, hSame]
    exact contractFirst?_nameless_eq_none hNormal
  refine ⟨count, fun budget hBudget => ?_⟩
  obtain ⟨hReached, hCount, hTerm⟩ := normalize_of_reducesIn run hEnd hBudget
  exact ⟨hReached, hCount, hTerm ▸ hSame⟩

/-- The argument `ω ω` of a constant function reduces to itself for ever, and
one such step is taken before the two that lead to the normal form. The binder
that is renamed disappears again. -/
theorem normalize_finds_normal_form_past_loop :
    let ω := abs "x" (app (var "x") (var "x"))
    let t := app (app (abs "x" (abs "y" (var "x"))) (var "y")) (app ω ω)
    BetaSteps t (var "y") ∧ (var "y").IsNormal ∧
      ∃ count, ∀ budget, count < budget →
        (t.normalize (some budget)).reachedNormalForm = true ∧
        (t.normalize (some budget)).steps = count ∧
        AlphaEquiv (t.normalize (some budget)).term (var "y") := by
  intro ω t
  have hLoop : (app (var "x") (var "x")).substitute "x" ω = app ω ω := by decide +kernel
  have hOuter : (abs "y" (var "x")).substitute "x" (var "y") = abs "y'" (var "y") := by
    decide +kernel
  have hInner : (var "y").substitute "y'" (app ω ω) = var "y" := by decide +kernel
  have hFirst : Beta t t := by
    have hContract := Beta.contract "x" (app (var "x") (var "x")) ω
    rw [hLoop] at hContract
    exact .arg hContract
  have hSecond : Beta t (app (abs "y'" (var "y")) (app ω ω)) := by
    have hContract := Beta.contract "x" (abs "y" (var "x")) (var "y")
    rw [hOuter] at hContract
    exact .fn hContract
  have hThird : Beta (app (abs "y'" (var "y")) (app ω ω)) (var "y") := by
    have hContract := Beta.contract "y'" (var "y") (app ω ω)
    rwa [hInner] at hContract
  have hSteps : BetaSteps t (var "y") :=
    .head hFirst (.head hSecond (.head hThird (.refl _)))
  have hNormal : (var "y").IsNormal := trivial
  exact ⟨hSteps, hNormal, normalize_finds_normal_form t (var "y") hSteps hNormal⟩

end Term

end LambdaDiagram
