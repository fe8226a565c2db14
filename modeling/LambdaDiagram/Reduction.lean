import LambdaDiagram.Substitution

/-!
Beta reduction in any order, leftmost-outermost reduction one step at a time, and runs within a step
budget with a log of what happened. The budget is looked at before the term, so a run that needs all
its steps to reach a normal form does not notice that it has.
-/
namespace LambdaDiagram

namespace Term

/-- One contraction of an arbitrary redex anywhere in a term. -/
inductive Beta : Term → Term → Prop where
  | contract (param : Name) (body arg : Term) :
      Beta (app (abs param body) arg) (body.substitute param arg)
  | body {param : Name} {body body' : Term} (hBody : Beta body body') :
      Beta (abs param body) (abs param body')
  | fn {fn fn' arg : Term} (hFn : Beta fn fn') : Beta (app fn arg) (app fn' arg)
  | arg {fn arg arg' : Term} (hArg : Beta arg arg') : Beta (app fn arg) (app fn arg')

inductive BetaSteps : Term → Term → Prop where
  | refl (t : Term) : BetaSteps t t
  | head {t u v : Term} (hStep : Beta t u) (hRest : BetaSteps u v) : BetaSteps t v

def isAbs : Term → Bool
  | abs _ _ => true
  | _ => false

/-- No part of the term is an application of an abstraction. -/
def IsNormal : Term → Prop
  | var _ => True
  | abs _ body => body.IsNormal
  | app fn arg => fn.isAbs = false ∧ fn.IsNormal ∧ arg.IsNormal

/-- Contracts the first redex and records the renamings that this took; `none`
if there is none. An application of an abstraction is contracted before
anything inside it, the function side of an application is searched before the
argument side, and bodies of abstractions are searched too. -/
def reduceTraced? : Term → Option Traced
  | var _ => none
  | abs param body => body.reduceTraced?.map fun r => ⟨abs param r.term, r.renamings⟩
  | app (abs param body) arg => some (body.substituteTraced param arg)
  | app fn arg =>
    match fn.reduceTraced? with
    | some r => some ⟨app r.term arg, r.renamings⟩
    | none => arg.reduceTraced?.map fun r => ⟨app fn r.term, r.renamings⟩

def reduce? (t : Term) : Option Term :=
  t.reduceTraced?.map Traced.term

def step (t : Term) : Term :=
  t.reduce?.getD t

/-- The terms after one, two, … steps, at most `count` of them, up to the
first term without a redex. -/
def trail (count : Nat) (t : Term) : List Term :=
  match count with
  | 0 => []
  | count + 1 =>
    match t.reduce? with
    | some next => next :: next.trail count
    | none => []

end Term

inductive Event where
  /-- A binder got a fresh name while the next step was made. -/
  | renamed (change : Renaming)
  /-- The step with this number, counted from one, led to `term`. -/
  | betaStep (number : Nat) (term : Term)
  /-- A term without a redex was reached after `steps` steps. -/
  | normalForm (steps : Nat)
  /-- The budget was used up after `steps` steps. -/
  | budgetExhausted (steps : Nat)
  deriving DecidableEq, Repr

def Event.text : Event → String
  | renamed change =>
    s!"renaming binder to avoid capture binder={change.binder} renamed={change.renamed}"
  | betaStep number term => s!"beta step step={number} term={term.render}"
  | normalForm steps => s!"reached normal form steps={steps}"
  | budgetExhausted steps => s!"step budget exhausted steps={steps}"

/-- The result of a run. A normal form is reached if the run saw that `term`
has no redex; the last of the events is the one that ended the run. -/
structure Run where
  term : Term
  steps : Nat
  reachedNormalForm : Bool
  events : List Event
  deriving DecidableEq, Repr

namespace Run

/-- The events of one step: its renamings, then the step itself. -/
def stepEvents (number : Nat) (r : Traced) : List Event :=
  r.renamings.map .renamed ++ [.betaStep number r.term]

/-- Continues a run that has made `steps` steps and has `budget` steps left.
The events so far are kept with the latest first. -/
def resume (steps : Nat) (past : List Event) : (budget : Nat) → Term → Run
  | 0, t => ⟨t, steps, false, (.budgetExhausted steps :: past).reverse⟩
  | budget + 1, t =>
    match t.reduceTraced? with
    | none => ⟨t, steps, true, (.normalForm steps :: past).reverse⟩
    | some r => Run.resume (steps + 1) ((stepEvents (steps + 1) r).reverse ++ past) budget r.term

end Run

/-- The number of steps after which a run without a budget gives up: its steps
are counted in 64 bits. -/
def stepCeiling : Nat :=
  UInt64.size

/-- The node that a run is at after at most `budget` further steps. It is at
`held` now, which is `none` as long as that is the node that the run was
given. -/
def Run.node? (held : Option Term) : (budget : Nat) → Term → Option Term
  | 0, _ => held
  | budget + 1, t =>
    match t.reduce? with
    | none => held
    | some next => Run.node? (some next) budget next

/-- Reduces a term until it has no redex or the budget is used up. Without a
budget only the step ceiling ends a run that finds no normal form. -/
def Term.normalize (budget : Option Nat) (t : Term) : Run :=
  Run.resume 0 [] (budget.getD stepCeiling) t

/-- The node that normalising ends at, or `none` if it is the given one. -/
def Term.normalizeNode? (budget : Option Nat) (t : Term) : Option Term :=
  Run.node? none (budget.getD stepCeiling) t

end LambdaDiagram
