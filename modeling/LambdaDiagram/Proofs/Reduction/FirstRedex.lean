import LambdaDiagram.Proofs.Substitution.Instantiation
import LambdaDiagram.Reduction

/-! Which redex a reduction step contracts. Parts of a nameless term have addresses, and the list of
all addresses is in preorder: an application before its parts, the function before the argument.
The step on named terms contracts the redex whose address comes first in that list. -/
namespace LambdaDiagram

namespace Nameless

inductive Branch where
  | body
  | fn
  | arg
  deriving DecidableEq, Repr

/-- The moves that lead from a whole term to one of its parts. -/
abbrev Address := List Branch

/-- The addresses of all parts in preorder, the whole term first. -/
def addresses : Nameless → List Address
  | bound _ => [[]]
  | free _ => [[]]
  | abs body => [] :: body.addresses.map (.body :: ·)
  | app fn arg => [] :: (fn.addresses.map (.fn :: ·) ++ arg.addresses.map (.arg :: ·))

def partAt : Nameless → Address → Option Nameless
  | t, [] => some t
  | abs body, .body :: rest => body.partAt rest
  | app fn _, .fn :: rest => fn.partAt rest
  | app _ arg, .arg :: rest => arg.partAt rest
  | _, _ => none

/-- Puts `new` in the place of the part at an address and keeps everything
else. -/
def replaceAt (t : Nameless) (address : Address) (new : Nameless) : Nameless :=
  match t, address with
  | _, [] => new
  | abs body, .body :: rest => abs (body.replaceAt rest new)
  | app fn arg, .fn :: rest => app (fn.replaceAt rest new) arg
  | app fn arg, .arg :: rest => app fn (arg.replaceAt rest new)
  | t, _ => t

def isRedex : Nameless → Bool
  | app (abs _) _ => true
  | _ => false

def firstRedex? (t : Nameless) : Option Address :=
  t.addresses.find? fun address => (t.partAt address).any isRedex

def isAbs : Nameless → Bool
  | abs _ => true
  | _ => false

theorem exists_eq_abs {t : Nameless} (hAbs : t.isAbs = true) : ∃ body, t = abs body := by
  cases t with
  | abs body => exact ⟨body, rfl⟩
  | _ => simp [isAbs] at hAbs

theorem firstRedex?_abs (body : Nameless) :
    (abs body).firstRedex? = body.firstRedex?.map (.body :: ·) := by
  simp only [firstRedex?, addresses, List.find?_cons, partAt, Option.any_some, isRedex,
    List.find?_map]
  rfl

/-- A redex comes before all redexes inside of it, because the list of
addresses begins with the whole term. -/
theorem firstRedex?_redex (body arg : Nameless) : (app (abs body) arg).firstRedex? = some [] := by
  simp [firstRedex?, addresses, partAt, isRedex]

/-- Where the application is no redex, those of the function come before those
of the argument. -/
theorem firstRedex?_app {fn : Nameless} (arg : Nameless) (hFn : fn.isAbs = false) :
    (app fn arg).firstRedex? =
      (fn.firstRedex?.map (.fn :: ·)).or (arg.firstRedex?.map (.arg :: ·)) := by
  have hHere : (app fn arg).isRedex = false := by
    cases fn with
    | abs body => simp [isAbs] at hFn
    | _ => rfl
  simp only [firstRedex?, addresses, List.find?_cons, partAt, Option.any_some, hHere,
    List.find?_append, List.find?_map]
  rfl

/-- The step looks for a redex in the same order, the function before the
argument. -/
theorem contractFirst?_app {fn : Nameless} (arg : Nameless) (hFn : fn.isAbs = false) :
    (app fn arg).contractFirst? =
      (fn.contractFirst?.map (app · arg)).or (arg.contractFirst?.map (app fn)) := by
  cases fn with
  | abs body => simp [isAbs] at hFn
  | bound index => rfl
  | free name => rfl
  | app fn' arg' =>
      rw [contractFirst?]
      · cases (app fn' arg').contractFirst? <;> rfl
      · simp

/-- A stuck application has stuck parts, and its function is no abstraction. -/
theorem contractFirst?_app_eq_none {fn arg : Nameless}
    (hStuck : (app fn arg).contractFirst? = none) :
    fn.isAbs = false ∧ fn.contractFirst? = none ∧ arg.contractFirst? = none := by
  cases hAbs : fn.isAbs with
  | true =>
      obtain ⟨body, rfl⟩ := exists_eq_abs hAbs
      simp [contractFirst?] at hStuck
  | false =>
      rw [contractFirst?_app arg hAbs, Option.or_eq_none_iff, Option.map_eq_none_iff,
        Option.map_eq_none_iff] at hStuck
      exact ⟨rfl, hStuck⟩

theorem firstRedex?_eq_none {t : Nameless} (hStuck : t.contractFirst? = none) :
    t.firstRedex? = none := by
  induction t with
  | bound index => rfl
  | free name => rfl
  | abs body ih =>
      rw [contractFirst?, Option.map_eq_none_iff] at hStuck
      rw [firstRedex?_abs, ih hStuck, Option.map_none]
  | app fn arg ihFn ihArg =>
      obtain ⟨hAbs, hFn, hArg⟩ := contractFirst?_app_eq_none hStuck
      rw [firstRedex?_app arg hAbs, ihFn hFn, ihArg hArg]
      rfl

/-- The recursive search for a redex finds the one whose address comes first,
and changes the term at that address only. -/
theorem contractFirst?_eq_some {t t' : Nameless} (hStep : t.contractFirst? = some t') :
    ∃ address body arg, t.firstRedex? = some address ∧
      t.partAt address = some (app (abs body) arg) ∧
      t' = t.replaceAt address (body.instantiate 0 arg) := by
  induction t generalizing t' with
  | bound index => simp [contractFirst?] at hStep
  | free name => simp [contractFirst?] at hStep
  | abs body ih =>
      rw [contractFirst?, Option.map_eq_some_iff] at hStep
      obtain ⟨body', hBody, rfl⟩ := hStep
      obtain ⟨address, redexBody, redexArg, hFirst, hPart, rfl⟩ := ih hBody
      refine ⟨.body :: address, redexBody, redexArg, ?_, hPart, rfl⟩
      rw [firstRedex?_abs, hFirst, Option.map_some]
  | app fn arg ihFn ihArg =>
      cases hAbs : fn.isAbs with
      | true =>
          obtain ⟨body, rfl⟩ := exists_eq_abs hAbs
          have hResult : body.instantiate 0 arg = t' := by simpa [contractFirst?] using hStep
          exact ⟨[], body, arg, firstRedex?_redex body arg, rfl, hResult.symm⟩
      | false =>
          rw [contractFirst?_app arg hAbs, Option.or_eq_some_iff, Option.map_eq_some_iff,
            Option.map_eq_none_iff, Option.map_eq_some_iff] at hStep
          rcases hStep with ⟨fn', hFn, rfl⟩ | ⟨hFn, arg', hArg, rfl⟩
          · obtain ⟨address, redexBody, redexArg, hFirst, hPart, rfl⟩ := ihFn hFn
            refine ⟨.fn :: address, redexBody, redexArg, ?_, hPart, rfl⟩
            rw [firstRedex?_app arg hAbs, hFirst, Option.map_some, Option.some_or]
          · obtain ⟨address, redexBody, redexArg, hFirst, hPart, rfl⟩ := ihArg hArg
            refine ⟨.arg :: address, redexBody, redexArg, ?_, hPart, rfl⟩
            rw [firstRedex?_app arg hAbs, firstRedex?_eq_none hFn, hFirst]
            rfl

end Nameless

namespace Term

def subterms : Term → List Term
  | var name => [var name]
  | abs param body => abs param body :: body.subterms
  | app fn arg => app fn arg :: (fn.subterms ++ arg.subterms)

theorem exists_eq_abs {t : Term} (hAbs : t.isAbs = true) : ∃ param body, t = abs param body := by
  cases t with
  | abs param body => exact ⟨param, body, rfl⟩
  | _ => simp [isAbs] at hAbs

/-- The structural test for a normal form looks at every part. -/
theorem isNormal_iff {t : Term} :
    t.IsNormal ↔ ∀ param body arg, app (abs param body) arg ∉ t.subterms := by
  induction t with
  | var name => simp [IsNormal, subterms]
  | abs param body ih => simp [IsNormal, subterms, ih]
  | app fn arg ihFn ihArg =>
      simp only [IsNormal, ihFn, ihArg, subterms, List.mem_cons, List.mem_append, not_or]
      constructor
      · rintro ⟨hAbs, hFn, hArg⟩ param body value
        refine ⟨?_, hFn param body value, hArg param body value⟩
        rintro ⟨rfl, rfl⟩
        simp [isAbs] at hAbs
      · intro hNone
        refine ⟨?_, fun p b v => (hNone p b v).2.1, fun p b v => (hNone p b v).2.2⟩
        cases hAbs : fn.isAbs with
        | false => rfl
        | true =>
            obtain ⟨param, body, rfl⟩ := exists_eq_abs hAbs
            exact False.elim ((hNone param body arg).1 rfl)

@[simp] theorem reduce?_var (name : Name) : (var name).reduce? = none := rfl

@[simp] theorem reduce?_abs (param : Name) (body : Term) :
    (abs param body).reduce? = body.reduce?.map (abs param) := by
  simp only [reduce?, reduceTraced?, Option.map_map]
  rfl

@[simp] theorem reduce?_redex (param : Name) (body arg : Term) :
    (app (abs param body) arg).reduce? = some (body.substitute param arg) := rfl

/-- Where the function is no abstraction, a step is made in the function, or
in the argument if there is none to make in the function. Its renamings are
handed up unchanged. -/
theorem reduceTraced?_app {fn : Term} (arg : Term) (hFn : fn.isAbs = false) :
    (app fn arg).reduceTraced? =
      (fn.reduceTraced?.map fun r => ⟨app r.term arg, r.renamings⟩).or
        (arg.reduceTraced?.map fun r => ⟨app fn r.term, r.renamings⟩) := by
  cases fn with
  | abs param body => simp [isAbs] at hFn
  | var name => rfl
  | app fn' arg' =>
      rw [reduceTraced?]
      · cases (app fn' arg').reduceTraced? <;> rfl
      · simp

theorem reduce?_app {fn : Term} (arg : Term) (hFn : fn.isAbs = false) :
    (app fn arg).reduce? = (fn.reduce?.map (app · arg)).or (arg.reduce?.map (app fn)) := by
  rw [reduce?, reduceTraced?_app arg hFn, reduce?, reduce?]
  cases fn.reduceTraced? <;> cases arg.reduceTraced? <;> rfl

/-- A step is possible exactly where the term has a redex. The search stops at
the first one, and misses none. -/
theorem reduce?_eq_none_iff {t : Term} : t.reduce? = none ↔ t.IsNormal := by
  induction t with
  | var name => simp [IsNormal]
  | abs param body ih => simp [IsNormal, ih]
  | app fn arg ihFn ihArg =>
      cases hAbs : fn.isAbs with
      | true =>
          obtain ⟨param, body, rfl⟩ := exists_eq_abs hAbs
          simp [IsNormal, isAbs]
      | false => simp [reduce?_app arg hAbs, IsNormal, hAbs, ihFn, ihArg]

/-- A step is one of the contractions that any order of reduction may choose
from. -/
theorem beta_of_reduce? {t u : Term} (hStep : t.reduce? = some u) : Beta t u := by
  induction t generalizing u with
  | var name => simp at hStep
  | abs param body ih =>
      rw [reduce?_abs, Option.map_eq_some_iff] at hStep
      obtain ⟨body', hBody, rfl⟩ := hStep
      exact .body (ih hBody)
  | app fn arg ihFn ihArg =>
      cases hAbs : fn.isAbs with
      | true =>
          obtain ⟨param, body, rfl⟩ := exists_eq_abs hAbs
          obtain rfl : body.substitute param arg = u := by simpa using hStep
          exact .contract param body arg
      | false =>
          rw [reduce?_app arg hAbs, Option.or_eq_some_iff, Option.map_eq_some_iff,
            Option.map_eq_some_iff] at hStep
          rcases hStep with ⟨fn', hFn, rfl⟩ | ⟨-, arg', hArg, rfl⟩
          · exact .fn (ihFn hFn)
          · exact .arg (ihArg hArg)

end Term

namespace Nameless

@[simp] theorem isAbs_ofTerm (scope : List Name) (t : Term) : (ofTerm scope t).isAbs = t.isAbs := by
  cases t with
  | var name =>
      simp only [ofTerm]
      cases scope.idxOf? name <;> rfl
  | abs param body => rfl
  | app fn arg => rfl

/-- A step on a named term is the step on its nameless form, below any
binders. -/
theorem map_ofTerm_reduce? (scope : List Name) (t : Term) :
    t.reduce?.map (ofTerm scope) = (ofTerm scope t).contractFirst? := by
  induction t generalizing scope with
  | var name =>
      simp only [Term.reduce?_var, Option.map_none, ofTerm]
      cases scope.idxOf? name <;> rfl
  | abs param body ih =>
      simp only [Term.reduce?_abs, Option.map_map, ofTerm, contractFirst?, ← ih, Function.comp_def]
  | app fn arg ihFn ihArg =>
      cases hAbs : fn.isAbs with
      | true =>
          obtain ⟨param, body, rfl⟩ := Term.exists_eq_abs hAbs
          simp only [Term.reduce?_redex, Option.map_some, ofTerm, contractFirst?,
            ofTerm_substitute_cons]
      | false =>
          have hNameless : (ofTerm scope fn).isAbs = false := by rw [isAbs_ofTerm, hAbs]
          rw [Term.reduce?_app arg hAbs, ofTerm, contractFirst?_app _ hNameless, ← ihFn, ← ihArg]
          cases fn.reduce? <;> cases arg.reduce? <;> rfl

end Nameless

namespace Term

/-- The case without binders around the term: a step commutes with forgetting
names. -/
theorem map_nameless_reduce? (t : Term) : t.reduce?.map nameless = t.nameless.contractFirst? :=
  Nameless.map_ofTerm_reduce? [] t

/-- A term is left alone exactly if no part of it is an application of an
abstraction. Otherwise the step, seen without names, contracts the redex that
comes first in preorder and replaces nothing but that redex. -/
theorem reduce?_contracts_first_redex (t : Term) :
    (t.reduce? = none ↔ ∀ param body arg, app (abs param body) arg ∉ t.subterms) ∧
    ∀ t', t.reduce? = some t' →
      ∃ address body arg, t.nameless.firstRedex? = some address ∧
        t.nameless.partAt address = some (.app (.abs body) arg) ∧
        t'.nameless = t.nameless.replaceAt address (body.instantiate 0 arg) := by
  refine ⟨reduce?_eq_none_iff.trans isNormal_iff, ?_⟩
  intro t' hStep
  have hNameless : t.nameless.contractFirst? = some t'.nameless := by
    rw [← map_nameless_reduce?, hStep, Option.map_some]
  exact Nameless.contractFirst?_eq_some hNameless

/-- The redex lies below a binder and in an argument, and contracting it
renames a binder: `λz.z ((λx.λy.x) y)` becomes `λz.z (λy'.y)`. -/
theorem reduce?_contracts_below_binder :
    let t := abs "z" (app (var "z") (app (abs "x" (abs "y" (var "x"))) (var "y")))
    let t' := abs "z" (app (var "z") (abs "y'" (var "y")))
    t.reduce? = some t' ∧
      ∃ address body arg, t.nameless.firstRedex? = some address ∧
        t.nameless.partAt address = some (.app (.abs body) arg) ∧
        t'.nameless = t.nameless.replaceAt address (body.instantiate 0 arg) := by
  intro t t'
  have hStep : t.reduce? = some t' := by decide +kernel
  exact ⟨hStep, (reduce?_contracts_first_redex t).2 t' hStep⟩

end Term

end LambdaDiagram
