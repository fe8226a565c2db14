/-!
Lambda terms with named variables: their printed form, the names in them, renaming, and terms up to
the choice of bound names. Names are arbitrary texts here, so a term can hold names that no
expression can spell.
-/
namespace LambdaDiagram

abbrev Name := String

/-- An untyped lambda term. Two terms are equal when they agree in every name,
binders included. -/
inductive Term where
  /-- An occurrence of a variable. -/
  | var (name : Name)
  /-- The function of `param` with the given body. -/
  | abs (param : Name) (body : Term)
  /-- The application of `fn` to `arg`. -/
  | app (fn arg : Term)
  deriving DecidableEq, Repr, Inhabited

/-- The names of two lists, where the second adds only names that the first
lacks. -/
def mergeNames (left right : List Name) : List Name :=
  left ++ right.filter (· ∉ left)

@[simp] theorem mem_mergeNames {x : Name} {left right : List Name} :
    x ∈ mergeNames left right ↔ x ∈ left ∨ x ∈ right := by
  by_cases hLeft : x ∈ left <;> simp [mergeNames, hLeft]

namespace Term

/-- The printed form, with parentheses around every abstraction and every
application. -/
def render : Term → String
  | var name => name
  | abs param body => "(λ" ++ param ++ "." ++ body.render ++ ")"
  | app fn arg => "(" ++ fn.render ++ " " ++ arg.render ++ ")"

def size : Term → Nat
  | var _ => 1
  | abs _ body => body.size + 1
  | app fn arg => fn.size + arg.size + 1

def isFree (x : Name) : Term → Bool
  | var name => name == x
  | abs param body => param != x && body.isFree x
  | app fn arg => fn.isFree x || arg.isFree x

/-- The names with a free occurrence, without repetition, in order of the
first one. -/
def freeVariables : Term → List Name
  | var name => [name]
  | abs param body => body.freeVariables.filter (· ≠ param)
  | app fn arg => mergeNames fn.freeVariables arg.freeVariables

/-- The names that are mentioned anywhere, binders included, without
repetition. -/
def names : Term → List Name
  | var name => [name]
  | abs param body => mergeNames [param] body.names
  | app fn arg => mergeNames fn.names arg.names

/-- Replaces the name `old` by `new` everywhere, binders included. Scopes are
not looked at, so bindings are kept only if `new` is not yet a name of the
term. -/
def rename (old new : Name) : Term → Term
  | var name => var (if name = old then new else name)
  | abs param body => abs (if param = old then new else param) (body.rename old new)
  | app fn arg => app (fn.rename old new) (arg.rename old new)

/-- The node that renaming builds, or `none` where it hands back the one that
it was given. Only a variable of another name is handed back; all other nodes
are built anew, also around parts in which nothing is renamed. -/
def renameNode? (old new : Name) : Term → Option Term
  | var name => if name = old then some (var new) else none
  | abs param body =>
    some (abs (if param = old then new else param) ((body.renameNode? old new).getD body))
  | app fn arg => some (app ((fn.renameNode? old new).getD fn) ((arg.renameNode? old new).getD arg))

/-- Renaming keeps the shape, hence the number of nodes. Recursion on the size
of a term may therefore go through a renamed body. -/
@[simp] theorem size_rename (old new : Name) (t : Term) : (t.rename old new).size = t.size := by
  induction t with
  | var name => rfl
  | abs param body ih => simp [rename, size, ih]
  | app fn arg ihFn ihArg => simp [rename, size, ihFn, ihArg]

end Term

/-- A lambda term whose binders carry no names. A bound occurrence is the
number of abstractions between it and its binder, a free occurrence keeps its
name. -/
inductive Nameless where
  /-- An occurrence bound by the abstraction `index` levels further out than the innermost one. -/
  | bound (index : Nat)
  | free (name : Name)
  | abs (body : Nameless)
  | app (fn arg : Nameless)
  deriving DecidableEq, Repr

namespace Nameless

/-- Forgets the bound names of a term below the binders in `scope`, the
innermost one first. An occurrence belongs to the innermost binder of its
name. -/
def ofTerm (scope : List Name) : Term → Nameless
  | .var name =>
    match scope.idxOf? name with
    | some index => bound index
    | none => free name
  | .abs param body => abs (ofTerm (param :: scope) body)
  | .app fn arg => app (ofTerm scope fn) (ofTerm scope arg)

/-- Replaces the free occurrences of `x` by `value`, which has no dangling
index. -/
def replaceFree (t : Nameless) (x : Name) (value : Nameless) : Nameless :=
  match t with
  | bound index => bound index
  | free name => if name = x then value else free name
  | abs body => abs (body.replaceFree x value)
  | app fn arg => app (fn.replaceFree x value) (arg.replaceFree x value)

/-- Makes room for one more binder around the innermost `depth` ones. -/
def lift (depth : Nat) : Nameless → Nameless
  | bound index => bound (if index < depth then index else index + 1)
  | free name => free name
  | abs body => abs (body.lift (depth + 1))
  | app fn arg => app (fn.lift depth) (arg.lift depth)

/-- Replaces the index `depth` by `value` and takes away the binder that it
stood for. -/
def instantiate (t : Nameless) (depth : Nat) (value : Nameless) : Nameless :=
  match t with
  | bound index =>
    if index < depth then bound index
    else if index = depth then value
    else bound (index - 1)
  | free name => free name
  | abs body => abs (body.instantiate (depth + 1) (value.lift 0))
  | app fn arg => app (fn.instantiate depth value) (arg.instantiate depth value)

/-- Contracts the redex that comes first in preorder and leaves everything
else as it is. -/
def contractFirst? : Nameless → Option Nameless
  | bound _ => none
  | free _ => none
  | abs body => body.contractFirst?.map abs
  | app (abs body) arg => some (body.instantiate 0 arg)
  | app fn arg =>
    match fn.contractFirst? with
    | some fn' => some (app fn' arg)
    | none => arg.contractFirst?.map (app fn)

end Nameless

namespace Term

def nameless (t : Term) : Nameless :=
  Nameless.ofTerm [] t

/-- Two terms that differ at most in the choice of their bound names. -/
def AlphaEquiv (t u : Term) : Prop :=
  t.nameless = u.nameless

instance (t u : Term) : Decidable (AlphaEquiv t u) :=
  inferInstanceAs (Decidable (t.nameless = u.nameless))

end Term

end LambdaDiagram
