import LambdaDiagram.Proofs.Reduction.Budget

/-! The log of a run. Renamings are recorded by substitution, far below the loop that counts the
steps, and the loop keeps its events in reverse; read from the front, the log is nevertheless made of
one piece for each step. A piece depends on the term and on the number of the step only, not on the
budget, so the log for a smaller budget is cut off between two pieces of the log for a larger one. -/
namespace LambdaDiagram

namespace Term

def isRedex : Term → Bool
  | app (abs _ _) _ => true
  | _ => false

theorem exists_eq_redex {t : Term} (hRedex : t.isRedex = true) :
    ∃ param body arg, t = app (abs param body) arg := by
  cases t with
  | var name => cases hRedex
  | abs param body => cases hRedex
  | app fn arg =>
      cases fn with
      | abs param body => exact ⟨param, body, arg, rfl⟩
      | var name => cases hRedex
      | app fn' arg' => cases hRedex

def firstRedex? (t : Term) : Option Term :=
  t.subterms.find? isRedex

theorem firstRedex?_abs (param : Name) (body : Term) :
    (abs param body).firstRedex? = body.firstRedex? := by
  simp [firstRedex?, subterms, isRedex]

theorem firstRedex?_redex (param : Name) (body arg : Term) :
    (app (abs param body) arg).firstRedex? = some (app (abs param body) arg) := by
  simp [firstRedex?, subterms, isRedex]

/-- Where the application is no redex itself, those of the function come
before those of the argument. -/
theorem firstRedex?_app {fn : Term} (arg : Term) (hFn : fn.isAbs = false) :
    (app fn arg).firstRedex? = fn.firstRedex?.or arg.firstRedex? := by
  have hHere : (app fn arg).isRedex = false := by
    cases fn with
    | abs param body => simp [isAbs] at hFn
    | var name => rfl
    | app fn' arg' => rfl
  simp [firstRedex?, subterms, hHere]

theorem firstRedex?_eq_none {t : Term} (hStuck : t.reduceTraced? = none) :
    t.firstRedex? = none := by
  have hNormal : t.IsNormal := reduce?_eq_none_iff.mp (by rw [reduce?, hStuck, Option.map_none])
  apply List.find?_eq_none.mpr
  intro part hPart hRedex
  obtain ⟨param, body, arg, rfl⟩ := exists_eq_redex hRedex
  exact isNormal_iff.mp hNormal param body arg hPart

/-- The search for a redex hands up the renamings of the one substitution that
is performed. -/
theorem exists_firstRedex?_of_reduceTraced? {t : Term} {r : Traced}
    (hStep : t.reduceTraced? = some r) :
    ∃ param body arg, t.firstRedex? = some (app (abs param body) arg) ∧
      r.renamings = (body.substituteTraced param arg).renamings := by
  induction t generalizing r with
  | var name => cases hStep
  | abs param body ih =>
      rw [reduceTraced?, Option.map_eq_some_iff] at hStep
      obtain ⟨below, hBody, rfl⟩ := hStep
      have hFound := ih hBody
      rwa [← firstRedex?_abs param body] at hFound
  | app fn arg ihFn ihArg =>
      cases hAbs : fn.isAbs with
      | true =>
          obtain ⟨param, body, rfl⟩ := exists_eq_abs hAbs
          obtain rfl : body.substituteTraced param arg = r := by simpa [reduceTraced?] using hStep
          exact ⟨param, body, arg, firstRedex?_redex param body arg, rfl⟩
      | false =>
          rw [reduceTraced?_app arg hAbs, Option.or_eq_some_iff, Option.map_eq_some_iff,
            Option.map_eq_none_iff, Option.map_eq_some_iff] at hStep
          rw [firstRedex?_app arg hAbs]
          rcases hStep with ⟨below, hFn, rfl⟩ | ⟨hFn, below, hArg, rfl⟩
          · obtain ⟨param, body, value, hFirst, hRenamings⟩ := ihFn hFn
            rw [hFirst, Option.some_or]
            exact ⟨param, body, value, rfl, hRenamings⟩
          · have hFound := ihArg hArg
            rwa [firstRedex?_eq_none hFn, Option.none_or]

/-- The renamings that it takes to contract the first redex: those of
substituting the argument for the parameter in the body. There are none
without a redex. -/
def contractionRenamings (t : Term) : List Renaming :=
  match t.firstRedex? with
  | some (app (abs param body) arg) => (body.substituteTraced param arg).renamings
  | _ => []

/-- A step records just the renamings that contracting its redex takes. -/
theorem renamings_of_reduceTraced? {t : Term} {r : Traced} (hStep : t.reduceTraced? = some r) :
    r.renamings = t.contractionRenamings := by
  obtain ⟨param, body, arg, hFirst, hRenamings⟩ := exists_firstRedex?_of_reduceTraced? hStep
  rw [contractionRenamings, hFirst, hRenamings]

theorem step_of_reduce? {t u : Term} (hStep : t.reduce? = some u) : t.step = u := by
  rw [step, hStep, Option.getD_some]

/-- A counted sequence of steps is the same as that many total steps, since
none of them is idle. -/
theorem ReducesIn.eq_iterate_step {t u : Term} {count : Nat} (run : t.ReducesIn u count) :
    u = step^[count] t := by
  induction run with
  | zero t => rfl
  | succ first rest ih => rw [Function.iterate_succ_apply, step_of_reduce? first, ih]

/-- Up to the end of a counted sequence of steps, every further step contracts
a redex. -/
theorem ReducesIn.reduce?_iterate_step {t u : Term} {count : Nat} (run : t.ReducesIn u count)
    {index : Nat} (hIndex : index < count) :
    (step^[index] t).reduce? = some (step^[index + 1] t) := by
  induction run generalizing index with
  | zero t => omega
  | succ first rest ih =>
      cases index with
      | zero => rw [Function.iterate_one, step_of_reduce? first, Function.iterate_zero_apply, first]
      | succ index =>
          rw [Function.iterate_succ_apply, Function.iterate_succ_apply, step_of_reduce? first]
          exact ih (by omega)

theorem length_trail_le_length_trail {budget larger : Nat} (hLe : budget ≤ larger) (t : Term) :
    (t.trail budget).length ≤ (t.trail larger).length := by
  induction budget generalizing larger t with
  | zero => exact Nat.zero_le _
  | succ budget ih =>
      obtain ⟨larger, rfl⟩ : ∃ rest, larger = rest + 1 := ⟨larger - 1, by omega⟩
      cases hStep : t.reduce? with
      | none => simp [hStep]
      | some next =>
          rw [trail_of_some hStep, trail_of_some hStep, List.length_cons, List.length_cons]
          exact Nat.succ_le_succ (ih (by omega) next)

/-- What is logged on the way from the term after `index` steps to the one
after the next step: the renamings, and then the step with its number and the
term that it leads to. -/
def stepLog (t : Term) (index : Nat) : List Event :=
  (step^[index] t).contractionRenamings.map .renamed ++
    [.betaStep (index + 1) (step^[index + 1] t)]

/-- What the loop adds for one step is the piece of the log for that step,
counted from the start of the run. -/
theorem stepEvents_eq_stepLog {t : Term} {index : Nat} {r : Traced}
    (hStep : (step^[index] t).reduceTraced? = some r) :
    Run.stepEvents (index + 1) r = t.stepLog index := by
  have hNext : step^[index + 1] t = r.term := by
    rw [Function.iterate_succ_apply']
    exact step_of_reduce? (by rw [reduce?, hStep, Option.map_some])
  rw [Run.stepEvents, stepLog, renamings_of_reduceTraced? hStep, hNext]

end Term

open Term (step stepLog)

def Run.closing (run : Run) : Event :=
  if run.reachedNormalForm then .normalForm run.steps else .budgetExhausted run.steps

/-- The invariant of the loop: after some steps, what is still to be logged is
one piece for each step that is left on the trail, and the closing event. -/
theorem Run.events_resume (start : Term) (steps : Nat) (past : List Event) (budget : Nat) :
    (Run.resume steps past budget (step^[steps] start)).events =
      past.reverse ++
        (List.range' steps ((step^[steps] start).trail budget).length).flatMap start.stepLog ++
        [(Run.resume steps past budget (step^[steps] start)).closing] := by
  induction budget generalizing steps past with
  | zero => simp [Run.resume, Term.trail, Run.closing]
  | succ budget ih =>
      cases hTraced : (step^[steps] start).reduceTraced? with
      | none =>
          have hStuck : (step^[steps] start).reduce? = none := by
            rw [Term.reduce?, hTraced, Option.map_none]
          simp [Run.resume, hTraced, Run.closing, hStuck]
      | some r =>
          have hStep : (step^[steps] start).reduce? = some r.term := by
            rw [Term.reduce?, hTraced, Option.map_some]
          have hNext : r.term = step^[steps + 1] start := by
            rw [Function.iterate_succ_apply', Term.step_of_reduce? hStep]
          have hRest := ih (steps + 1) ((start.stepLog steps).reverse ++ past)
          simp only [Run.resume, hTraced, Term.stepEvents_eq_stepLog hTraced,
            Term.trail_of_some hStep, List.length_cons, List.range'_succ, List.flatMap_cons, hNext]
          rw [hRest]
          simp

namespace Term

theorem reducesIn_normalize (t : Term) (budget : Nat) :
    t.ReducesIn (t.normalize (some budget)).term (t.normalize (some budget)).steps := by
  obtain ⟨hTerm, hSteps, -⟩ := normalize_along_trail budget t
  rw [hTerm, hSteps]
  exact t.reducesIn_trail budget

/-- From the start of a run, with no steps behind it, the log is one piece for
each step and the closing event. -/
theorem events_normalize (t : Term) (budget : Nat) :
    (t.normalize (some budget)).events =
      (List.range (t.normalize (some budget)).steps).flatMap t.stepLog ++
        [(t.normalize (some budget)).closing] := by
  have hEvents := Run.events_resume t 0 [] budget
  rw [(normalize_along_trail budget t).2.1, List.range_eq_range']
  exact hEvents

/-- The part of the log that belongs to the first steps does not depend on how
many there are. -/
theorem flatMap_stepLog_prefix (t : Term) {steps more : Nat} (hLe : steps ≤ more) :
    (List.range steps).flatMap t.stepLog <+: (List.range more).flatMap t.stepLog := by
  obtain ⟨extra, rfl⟩ := Nat.exists_eq_add_of_le hLe
  rw [List.range_add, List.flatMap_append]
  exact List.prefix_append _ _

/-- The last step of a run is logged directly before the closing event. -/
theorem exists_events_eq_append_last_step {t : Term} {budget : Nat}
    (hMoved : 0 < (t.normalize (some budget)).steps) :
    ∃ earlier, (t.normalize (some budget)).events =
      earlier ++ [.betaStep (t.normalize (some budget)).steps (t.normalize (some budget)).term,
        (t.normalize (some budget)).closing] := by
  obtain ⟨last, hLast⟩ : ∃ last, (t.normalize (some budget)).steps = last + 1 :=
    ⟨(t.normalize (some budget)).steps - 1, by omega⟩
  refine ⟨(List.range last).flatMap t.stepLog ++
    (step^[last] t).contractionRenamings.map .renamed, ?_⟩
  rw [events_normalize, (t.reducesIn_normalize budget).eq_iterate_step, hLast, List.range_succ,
    List.flatMap_append, List.flatMap_singleton, stepLog]
  simp only [List.append_assoc, List.cons_append, List.nil_append]

/-- The log of a run has one piece for each step, in order: the renamings of
the substitution that the first redex of the term before calls for, and one
event with the number of the step and the term after it. One more event closes
the log and tells whether a normal form was seen. So the line before the last
shows the term that the run returns, if it made a step at all, and a larger
budget changes nothing before the closing event. -/
theorem log_traces_steps_of_run (t : Term) (budget : Nat) :
    let run := t.normalize (some budget)
    run.events = (List.range run.steps).flatMap t.stepLog ++ [run.closing] ∧
    (∀ index < run.steps, (step^[index] t).reduce? = some (step^[index + 1] t)) ∧
    run.term = step^[run.steps] t ∧
    (0 < run.steps → ∃ earlier, run.events.map Event.text =
      earlier ++ [s!"beta step step={run.steps} term={run.term.render}", run.closing.text]) ∧
    ∀ larger, budget < larger → run.events.dropLast <+: (t.normalize (some larger)).events := by
  intro run
  have hRun : t.ReducesIn run.term run.steps := t.reducesIn_normalize budget
  refine ⟨t.events_normalize budget, fun index => hRun.reduce?_iterate_step, hRun.eq_iterate_step,
    ?_, ?_⟩
  · intro hMoved
    obtain ⟨earlier, hEvents⟩ := exists_events_eq_append_last_step hMoved
    refine ⟨earlier.map Event.text, ?_⟩
    rw [hEvents, List.map_append]
    rfl
  · intro larger hLarger
    have hMore : run.steps ≤ (t.normalize (some larger)).steps := by
      rw [(normalize_along_trail budget t).2.1, (normalize_along_trail larger t).2.1]
      exact length_trail_le_length_trail (Nat.le_of_lt hLarger) t
    rw [t.events_normalize budget, List.dropLast_concat, t.events_normalize larger]
    exact (t.flatMap_stepLog_prefix hMore).trans (List.prefix_append _ _)

/-- Of the two steps of `(λx.λy.x y) y z` the first one renames a binder. A
budget of one step ends between the two pieces of the log. -/
theorem log_traces_steps_of_run_past_renaming :
    let t := app (app (abs "x" (abs "y" (app (var "x") (var "y")))) (var "y")) (var "z")
    let first := app (abs "y'" (app (var "y") (var "y'"))) (var "z")
    let last := app (var "y") (var "z")
    let short := t.normalize (some 1)
    let long := t.normalize (some 3)
    short.events = [.renamed ⟨"y", "y'"⟩, .betaStep 1 first, .budgetExhausted 1] ∧
    long.events =
      [.renamed ⟨"y", "y'"⟩, .betaStep 1 first, .betaStep 2 last, .normalForm 2] ∧
    long.events = (List.range 2).flatMap t.stepLog ++ [long.closing] ∧
    (step^[1] t).reduce? = some (step^[2] t) ∧
    (0 < long.steps ∧ ∃ earlier, long.events.map Event.text =
      earlier ++ [s!"beta step step={long.steps} term={long.term.render}", long.closing.text]) ∧
    short.events.dropLast <+: long.events := by
  intro t first last short long
  have hSteps : long.steps = 2 := by decide +kernel
  have hSecond : 1 < long.steps := by omega
  have hMoved : 0 < long.steps := by omega
  obtain ⟨hPieces, hReduct, -, hLast, -⟩ := log_traces_steps_of_run t 3
  obtain ⟨-, -, -, -, hPrefix⟩ := log_traces_steps_of_run t 1
  have hTwoPieces : long.events = (List.range 2).flatMap t.stepLog ++ [long.closing] := by
    rw [← hSteps]
    exact hPieces
  exact ⟨by decide +kernel, by decide +kernel, hTwoPieces, hReduct 1 hSecond,
    ⟨hMoved, hLast hMoved⟩, hPrefix 3 (by decide)⟩

end Term

end LambdaDiagram
