import LambdaDiagram.Term

/-!
Capture-avoiding substitution. A binder is renamed only where it would capture a free variable of
the substituted value, and every renaming is recorded. Beside it stands replacement without
renaming, with the condition under which that would capture a variable.
-/
namespace LambdaDiagram

structure Renaming where
  binder : Name
  renamed : Name
  deriving DecidableEq, Repr

/-- The outcome of transforming a term: the new term, and the renamings made
on the way in the order in which they were made. -/
structure Traced where
  term : Term
  renamings : List Renaming := []
  deriving DecidableEq, Repr

/-- The first of `name`, `name'`, `name''`, … that is not to be avoided. Later
candidates are longer, so a candidate found in the list need not be looked for
again. -/
def firstUnused (name : Name) (avoid : List Name) : Name :=
  if name ∈ avoid then firstUnused (name.push '\'') (avoid.erase name) else name
termination_by avoid.length
decreasing_by
  have := List.length_erase_of_mem ‹name ∈ avoid›
  have := List.length_pos_of_mem ‹name ∈ avoid›
  omega

/-- The name `base` with as few quote marks as possible, but at least one,
appended such that it is none of `avoid`. -/
def freshName (base : Name) (avoid : List Name) : Name :=
  firstUnused (base.push '\'') avoid

namespace Term

/-- Replaces the free occurrences of `target` by `value` and records the
renamings. A binder whose name is free in `value` gets a fresh name if
`target` occurs below it; an abstraction without a free `target` is left
alone. -/
def substituteTraced (t : Term) (target : Name) (value : Term) : Traced :=
  match t with
  | var name => if name = target then ⟨value, []⟩ else ⟨var name, []⟩
  | app fn arg =>
    let newFn := fn.substituteTraced target value
    let newArg := arg.substituteTraced target value
    ⟨app newFn.term newArg.term, newFn.renamings ++ newArg.renamings⟩
  | abs param body =>
    if param = target ∨ body.isFree target = false then ⟨abs param body, []⟩
    else if value.isFree param then
      let fresh := freshName param (target :: (value.freeVariables ++ body.names))
      let newBody := (body.rename param fresh).substituteTraced target value
      ⟨abs fresh newBody.term, ⟨param, fresh⟩ :: newBody.renamings⟩
    else
      let newBody := body.substituteTraced target value
      ⟨abs param newBody.term, newBody.renamings⟩
termination_by t.size
decreasing_by all_goals simp only [size, size_rename]; omega

def substitute (t : Term) (target : Name) (value : Term) : Term :=
  (t.substituteTraced target value).term

/-- The node that substitution arrives at, or `none` where it hands back the
one that it was given. An application is handed back if both its sides are, so
that parts without a free `target` are shared with the given term. The value
counts as another node, even if it looks the same. -/
def substituteNode? (t : Term) (target : Name) (value : Term) : Option Traced :=
  match t with
  | var name => if name = target then some ⟨value, []⟩ else none
  | app fn arg =>
    match fn.substituteNode? target value, arg.substituteNode? target value with
    | none, none => none
    | newFn?, newArg? =>
      let newFn := newFn?.getD ⟨fn, []⟩
      let newArg := newArg?.getD ⟨arg, []⟩
      some ⟨app newFn.term newArg.term, newFn.renamings ++ newArg.renamings⟩
  | abs param body =>
    if param = target ∨ body.isFree target = false then none
    else if value.isFree param then
      let fresh := freshName param (target :: (value.freeVariables ++ body.names))
      let renamedBody := body.rename param fresh
      let newBody := (renamedBody.substituteNode? target value).getD ⟨renamedBody, []⟩
      some ⟨abs fresh newBody.term, ⟨param, fresh⟩ :: newBody.renamings⟩
    else
      let newBody := (body.substituteNode? target value).getD ⟨body, []⟩
      some ⟨abs param newBody.term, newBody.renamings⟩
termination_by t.size
decreasing_by all_goals simp only [size, size_rename]; omega

/-- Replaces the free occurrences of `target` by `value` and renames nothing,
so binders may capture free variables of `value`. -/
def replaceFree (t : Term) (target : Name) (value : Term) : Term :=
  match t with
  | var name => if name = target then value else var name
  | app fn arg => app (fn.replaceFree target value) (arg.replaceFree target value)
  | abs param body =>
    if param = target then abs param body else abs param (body.replaceFree target value)

/-- Some free occurrence of `target` lies in the scope of a binder whose name
is free in `value`. -/
inductive CaptureThreatens (target : Name) (value : Term) : Term → Prop where
  /-- The binder itself is the threat. -/
  | here {param : Name} {body : Term} (hOuter : param ≠ target) (hOccurs : body.isFree target)
      (hCaptures : value.isFree param) : CaptureThreatens target value (abs param body)
  | body {param : Name} {body : Term} (hOuter : param ≠ target)
      (hBody : CaptureThreatens target value body) : CaptureThreatens target value (abs param body)
  | fn {fn arg : Term} (hFn : CaptureThreatens target value fn) :
      CaptureThreatens target value (app fn arg)
  | arg {fn arg : Term} (hArg : CaptureThreatens target value arg) :
      CaptureThreatens target value (app fn arg)

end Term

end LambdaDiagram
