import LambdaDiagram.Proofs.Reduction.FirstRedex
import LambdaDiagram.Reduction
import Mathlib.Data.List.Chain

/-! Runs within a step budget, compared with counted sequences of steps. -/
namespace LambdaDiagram

/-- Exactly `count` steps lead from one term to the other. A term without a
redex has no first step, so such a sequence ends there at the latest. -/
inductive Term.ReducesIn : Term → Term → Nat → Prop where
  | zero (t : Term) : ReducesIn t t 0
  | succ {t u v : Term} {count : Nat} (first : t.reduce? = some u) (rest : ReducesIn u v count) :
      ReducesIn t v (count + 1)

/-- What every step keeps is kept along a sequence of steps. -/
theorem Term.ReducesIn.preserves {P : Term → Prop} (hReduct : ∀ t u, P t → t.reduce? = some u → P u)
    {t u : Term} {count : Nat} (run : t.ReducesIn u count) (hStart : P t) : P u := by
  induction run with
  | zero t => exact hStart
  | succ first rest ih => exact ih (hReduct _ _ hStart first)

/-- A run takes the steps of a sequence that its budget covers, and goes on
from the end of it with what is left of the budget. -/
theorem Run.resume_of_reducesIn {t u : Term} {count : Nat} (run : t.ReducesIn u count)
    (steps : Nat) (past : List Event) (budget : Nat) :
    ∃ past', Run.resume steps past (count + budget) t =
      Run.resume (steps + count) past' budget u := by
  induction run generalizing steps past with
  | zero t => exact ⟨past, by rw [Nat.zero_add, Nat.add_zero]⟩
  | @succ t u v count first rest ih =>
      obtain ⟨r, hTraced, rfl⟩ := Option.map_eq_some_iff.mp first
      obtain ⟨past', hRest⟩ := ih (steps + 1) ((stepEvents (steps + 1) r).reverse ++ past)
      refine ⟨past', ?_⟩
      rw [Nat.succ_add, Run.resume, hTraced]
      simp only [hRest]
      rw [Nat.add_assoc, Nat.add_comm 1 count]

/-- A run whose budget exceeds the number of steps to a normal form ends there
and says so. -/
theorem Term.normalize_of_reducesIn {t u : Term} {count : Nat} (run : t.ReducesIn u count)
    (hNormal : u.IsNormal) {budget : Nat} (hBudget : count < budget) :
    (t.normalize (some budget)).reachedNormalForm = true ∧
      (t.normalize (some budget)).steps = count ∧ (t.normalize (some budget)).term = u := by
  obtain ⟨extra, rfl⟩ : ∃ extra, budget = count + (extra + 1) :=
    ⟨budget - count - 1, by omega⟩
  obtain ⟨past, hRun⟩ := Run.resume_of_reducesIn run 0 [] (extra + 1)
  have hStuck : u.reduceTraced? = none := by
    simpa [reduce?] using reduce?_eq_none_iff.mpr hNormal
  have hResult : t.normalize (some (count + (extra + 1))) =
      ⟨u, count, true, (.normalForm count :: past).reverse⟩ := by
    rw [normalize, Option.getD_some, hRun, Run.resume, hStuck, Nat.zero_add]
  rw [hResult]
  exact ⟨rfl, rfl, rfl⟩

namespace Term

theorem trail_of_some {t next : Term} (hStep : t.reduce? = some next) (count : Nat) :
    t.trail (count + 1) = next :: next.trail count := by
  rw [trail, hStep]

@[simp] theorem trail_of_none {t : Term} (hStuck : t.reduce? = none) (count : Nat) :
    t.trail count = [] := by
  cases count with
  | zero => rfl
  | succ count => rw [trail, hStuck]

theorem length_trail_le (count : Nat) (t : Term) : (t.trail count).length ≤ count := by
  induction count generalizing t with
  | zero => exact Nat.le_refl 0
  | succ count ih =>
      cases hStep : t.reduce? with
      | none => simp [hStep]
      | some next =>
          rw [trail_of_some hStep, List.length_cons]
          exact Nat.succ_le_succ (ih next)

theorem isChain_trail (count : Nat) (t : Term) :
    List.IsChain (fun u v => u.reduce? = some v) (t :: t.trail count) := by
  induction count generalizing t with
  | zero => exact .singleton t
  | succ count ih =>
      cases hStep : t.reduce? with
      | none => simp [hStep]
      | some next =>
          rw [trail_of_some hStep]
          exact .cons_cons hStep (ih next)

/-- The trail is a counted sequence of steps to its last term. It stops early
only where nothing is left to reduce. -/
theorem reducesIn_trail (count : Nat) (t : Term) :
    t.ReducesIn ((t.trail count).getLastD t) (t.trail count).length := by
  induction count generalizing t with
  | zero => exact .zero t
  | succ count ih =>
      cases hStep : t.reduce? with
      | none =>
          rw [trail_of_none hStep]
          exact .zero t
      | some next =>
          rw [trail_of_some hStep, List.getLastD_cons, List.length_cons]
          exact .succ hStep (ih next)

end Term

/-- A run goes along the trail of its term and ends with the last term on it.
The trail is shorter than the budget exactly if the run got to see that
nothing is left to reduce. -/
theorem Run.resume_along_trail (steps : Nat) (past : List Event) (budget : Nat) (t : Term) :
    (Run.resume steps past budget t).term = (t.trail budget).getLastD t ∧
      (Run.resume steps past budget t).steps = steps + (t.trail budget).length ∧
      ((Run.resume steps past budget t).reachedNormalForm = true ↔
        (t.trail budget).length < budget) := by
  induction budget generalizing steps past t with
  | zero => simp [Run.resume, Term.trail]
  | succ budget ih =>
      cases hTraced : t.reduceTraced? with
      | none =>
          have hStuck : t.reduce? = none := by rw [Term.reduce?, hTraced, Option.map_none]
          simp [Run.resume, hTraced, hStuck]
      | some r =>
          have hStep : t.reduce? = some r.term := by rw [Term.reduce?, hTraced, Option.map_some]
          obtain ⟨hTerm, hSteps, hReached⟩ :=
            ih (steps + 1) ((stepEvents (steps + 1) r).reverse ++ past) r.term
          simp only [Run.resume, hTraced, Term.trail_of_some hStep, List.length_cons]
          refine ⟨?_, ?_, ?_⟩
          · rw [List.getLastD_cons]
            exact hTerm
          · omega
          · rw [Nat.add_lt_add_iff_right]
            exact hReached

theorem Term.normalize_along_trail (budget : Nat) (t : Term) :
    (t.normalize (some budget)).term = (t.trail budget).getLastD t ∧
      (t.normalize (some budget)).steps = (t.trail budget).length ∧
      ((t.normalize (some budget)).reachedNormalForm = true ↔
        (t.trail budget).length < budget) := by
  have hRun := Run.resume_along_trail 0 [] budget t
  rwa [Nat.zero_add] at hRun

/-! Runs with different budgets on the same term. A budget only says how far a run goes along the
reduction of its term, so a run that was stopped can be resumed from its last term as if it had been
given a larger budget in the first place. -/

namespace Term

/-- The reduction of `t` has exactly this many steps: the last of them leads
to `last`, which has no redex. Steps that lead to an equal term count like all
others. -/
structure HaltsWith (t last : Term) (count : Nat) : Prop where
  run : t.ReducesIn last count
  stuck : last.reduce? = none

/-- A trail that is shorter than it may be ends at a term without a redex. -/
theorem haltsWith_of_length_trail_lt {t : Term} {budget : Nat}
    (hShort : (t.trail budget).length < budget) :
    t.HaltsWith ((t.trail budget).getLastD t) (t.trail budget).length := by
  refine ⟨t.reducesIn_trail budget, ?_⟩
  induction budget generalizing t with
  | zero => exact absurd hShort (Nat.not_lt_zero _)
  | succ budget ih =>
      cases hStep : t.reduce? with
      | none => simp [hStep]
      | some next =>
          rw [trail_of_some hStep, List.length_cons, Nat.add_lt_add_iff_right] at hShort
          rw [trail_of_some hStep, List.getLastD_cons]
          exact ih hShort

/-- A run that ends with a normal form is not affected by the part of its
budget that is left. -/
theorem normalize_of_haltsWith {t last : Term} {count budget : Nat}
    (hHalts : t.HaltsWith last count) (hBudget : count < budget) :
    (t.normalize (some budget)).term = last ∧ (t.normalize (some budget)).steps = count ∧
      (t.normalize (some budget)).reachedNormalForm = true := by
  obtain ⟨hReached, hSteps, hTerm⟩ :=
    normalize_of_reducesIn hHalts.run (reduce?_eq_none_iff.mp hHalts.stuck) hBudget
  exact ⟨hTerm, hSteps, hReached⟩

/-- A run that does not see a normal form has taken as many steps as its
budget allows. -/
theorem reducesIn_of_not_reached {t : Term} {budget : Nat}
    (hStopped : (t.normalize (some budget)).reachedNormalForm = false) :
    t.ReducesIn (t.normalize (some budget)).term budget ∧
      (t.normalize (some budget)).steps = budget := by
  obtain ⟨hTerm, hSteps, hReached⟩ := normalize_along_trail budget t
  have hFull : (t.trail budget).length = budget := by
    refine Nat.le_antisymm (t.length_trail_le budget) (Nat.not_lt.mp ?_)
    intro hShort
    simp [hReached.mpr hShort] at hStopped
  have hRun := t.reducesIn_trail budget
  rw [hFull, ← hTerm] at hRun
  exact ⟨hRun, hSteps.trans hFull⟩

/-- A run that is too short for its reduction sees no normal form, also if it
makes the last step of the reduction. -/
theorem reachedNormalForm_eq_false {t : Term} {budget : Nat}
    (hLong : ∀ last count, t.HaltsWith last count → budget ≤ count) :
    (t.normalize (some budget)).reachedNormalForm = false := by
  rw [Bool.eq_false_iff]
  intro hReached
  have hShort := (normalize_along_trail budget t).2.2.mp hReached
  exact absurd (hLong _ _ (haltsWith_of_length_trail_lt hShort)) (Nat.not_le.mpr hShort)

end Term

/-- What is left of the budget when a normal form is reached makes no
difference, not even to the events. -/
theorem Run.resume_add_of_reached {steps : Nat} {past : List Event} {budget : Nat} {t : Term}
    (hReached : (Run.resume steps past budget t).reachedNormalForm = true) (extra : Nat) :
    Run.resume steps past (budget + extra) t = Run.resume steps past budget t := by
  induction budget generalizing steps past t with
  | zero => simp [Run.resume] at hReached
  | succ budget ih =>
      rw [Nat.succ_add]
      cases hTraced : t.reduceTraced? with
      | none => simp [Run.resume, hTraced]
      | some r =>
          simp only [Run.resume, hTraced] at hReached ⊢
          exact ih hReached

namespace Term

/-- A run that was stopped is resumed from its last term as if it had not
been. Both go along the same trail, one of them with steps and events behind
it. -/
theorem normalize_add_of_not_reached {t : Term} {budget : Nat}
    (hStopped : (t.normalize (some budget)).reachedNormalForm = false) (extra : Nat) :
    let resumed := (t.normalize (some budget)).term.normalize (some extra)
    (t.normalize (some (budget + extra))).term = resumed.term ∧
      (t.normalize (some (budget + extra))).steps = budget + resumed.steps ∧
      (t.normalize (some (budget + extra))).reachedNormalForm = resumed.reachedNormalForm := by
  obtain ⟨hRun, -⟩ := reducesIn_of_not_reached hStopped
  obtain ⟨past, hResume⟩ := Run.resume_of_reducesIn hRun 0 [] extra
  obtain ⟨hTerm, hSteps, hReached⟩ :=
    Run.resume_along_trail (0 + budget) past extra (t.normalize (some budget)).term
  obtain ⟨hTerm', hSteps', hReached'⟩ :=
    normalize_along_trail extra (t.normalize (some budget)).term
  have hNormalize : t.normalize (some (budget + extra)) =
      Run.resume (0 + budget) past extra (t.normalize (some budget)).term := hResume
  rw [hNormalize]
  refine ⟨hTerm.trans hTerm'.symm, ?_, Bool.eq_iff_iff.mpr (hReached.trans hReached'.symm)⟩
  rw [hSteps, hSteps', Nat.zero_add]

/-- A run goes along the reduction of its term until the budget is used up. If
the reduction has fewer steps than the budget, then the run ends with the last
term of it and says so. Otherwise, also if the budget is just enough, it makes
all the steps it may and sees no normal form. Without a budget it finds every
normal form that is fewer than `2 ^ 64` steps away. Hence a larger budget
changes nothing once a normal form is seen, and until then it is the same as
resuming the run. -/
theorem normalize_takes_budgeted_steps (t : Term) :
    (∀ last count budget, t.HaltsWith last count → count < budget →
      (t.normalize (some budget)).term = last ∧ (t.normalize (some budget)).steps = count ∧
        (t.normalize (some budget)).reachedNormalForm = true) ∧
    (∀ budget, (∀ last count, t.HaltsWith last count → budget ≤ count) →
      t.ReducesIn (t.normalize (some budget)).term budget ∧
        (t.normalize (some budget)).steps = budget ∧
        (t.normalize (some budget)).reachedNormalForm = false) ∧
    (∀ last count, t.HaltsWith last count → count < UInt64.size →
      (t.normalize none).term = last ∧ (t.normalize none).steps = count ∧
        (t.normalize none).reachedNormalForm = true) ∧
    (∀ budget extra, (t.normalize (some budget)).reachedNormalForm = true →
      t.normalize (some (budget + extra)) = t.normalize (some budget)) ∧
    ∀ budget extra, (t.normalize (some budget)).reachedNormalForm = false →
      let resumed := (t.normalize (some budget)).term.normalize (some extra)
      (t.normalize (some (budget + extra))).term = resumed.term ∧
        (t.normalize (some (budget + extra))).steps = budget + resumed.steps ∧
        (t.normalize (some (budget + extra))).reachedNormalForm = resumed.reachedNormalForm := by
  refine ⟨?_, ?_, ?_, ?_, ?_⟩
  · intro last count budget hHalts hBudget
    exact normalize_of_haltsWith hHalts hBudget
  · intro budget hLong
    have hStopped := reachedNormalForm_eq_false hLong
    obtain ⟨hRun, hSteps⟩ := reducesIn_of_not_reached hStopped
    exact ⟨hRun, hSteps, hStopped⟩
  · intro last count hHalts hCount
    have hCeiling : count < stepCeiling := hCount
    exact normalize_of_haltsWith hHalts hCeiling
  · intro budget extra hReached
    exact Run.resume_add_of_reached hReached extra
  · intro budget extra hStopped
    exact normalize_add_of_not_reached hStopped extra

/-- The first term needs one step, so a budget of one step is used up before
its normal form is seen. The second term reduces to itself, and each of these
steps counts. -/
theorem normalize_takes_budgeted_steps_of_loop :
    let t := app (abs "x" (var "x")) (var "y")
    let ω := abs "x" (app (var "x") (var "x"))
    let loop := app ω ω
    (t.HaltsWith (var "y") 1 ∧
      (t.normalize (some 2)).term = var "y" ∧ (t.normalize (some 2)).steps = 1 ∧
      (t.normalize (some 2)).reachedNormalForm = true ∧
      (t.normalize none).term = var "y" ∧ (t.normalize none).steps = 1 ∧
      (t.normalize none).reachedNormalForm = true ∧
      t.normalize (some 7) = t.normalize (some 2)) ∧
    ((∀ last count, t.HaltsWith last count → 1 ≤ count) ∧
      t.ReducesIn (t.normalize (some 1)).term 1 ∧ (t.normalize (some 1)).steps = 1 ∧
      (t.normalize (some 1)).reachedNormalForm = false) ∧
    (∀ last count, loop.HaltsWith last count → 3 ≤ count) ∧ loop.reduce? = some loop ∧
      loop.ReducesIn (loop.normalize (some 3)).term 3 ∧ (loop.normalize (some 3)).steps = 3 ∧
      (loop.normalize (some 3)).reachedNormalForm = false ∧
      (loop.normalize (some 5)).steps =
        3 + ((loop.normalize (some 3)).term.normalize (some 2)).steps := by
  intro t ω loop
  have hStep : t.reduce? = some (var "y") := by decide +kernel
  have hHalts : t.HaltsWith (var "y") 1 := ⟨.succ hStep (.zero _), rfl⟩
  have hReached : (t.normalize (some 2)).reachedNormalForm = true := by decide +kernel
  have hOne : ∀ last count, t.HaltsWith last count → 1 ≤ count := by
    rintro last count ⟨run, hStuck⟩
    cases run with
    | zero => simp [hStep] at hStuck
    | succ first rest => exact Nat.succ_pos _
  have hLoop : loop.reduce? = some loop := by decide +kernel
  have hEndless : ∀ last count, loop.HaltsWith last count → 3 ≤ count := by
    rintro last count ⟨run, hStuck⟩
    have hSame : last = loop := by
      refine run.preserves (P := (· = loop)) ?_ rfl
      rintro reached next rfl hNext
      exact (Option.some.inj (hLoop.symm.trans hNext)).symm
    simp [hSame, hLoop] at hStuck
  obtain ⟨hWithin, hUsedUp, hFree, hSame, -⟩ := normalize_takes_budgeted_steps t
  obtain ⟨-, hLoopUsedUp, -, -, hLoopResumed⟩ := normalize_takes_budgeted_steps loop
  have hLoopStopped := hLoopUsedUp 3 hEndless
  obtain ⟨hTerm, hSteps, hNormal⟩ := hWithin _ _ 2 hHalts (by decide)
  obtain ⟨hFreeTerm, hFreeSteps, hFreeNormal⟩ := hFree _ _ hHalts (by decide)
  exact ⟨⟨hHalts, hTerm, hSteps, hNormal, hFreeTerm, hFreeSteps, hFreeNormal, hSame 2 5 hReached⟩,
    ⟨hOne, hUsedUp 1 hOne⟩, hEndless, hLoop, hLoopStopped.1, hLoopStopped.2.1, hLoopStopped.2.2,
    (hLoopResumed 3 2 hLoopStopped.2.2).2.1⟩

end Term

end LambdaDiagram
