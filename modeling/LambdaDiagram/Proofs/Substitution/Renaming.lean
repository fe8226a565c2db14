import LambdaDiagram.Proofs.Nameless
import LambdaDiagram.Proofs.Substitution.FreeVariables
import Mathlib.Data.Finset.Card
import Mathlib.Data.Finset.Dedup
import Mathlib.Data.Finset.Range
import Mathlib.Order.Bounds.Defs

/-! Renaming to a name that is not in use yet. Binders of the old name are renamed as well, also
those that shadow an outer one, so scopes play no part in the argument: no two names of the term
become equal, and that is enough for the way back and for every binding to stay as it was. -/
namespace LambdaDiagram

open Nameless (renamed renamed_inj)

/-- A map of names can be applied before or after two lists are merged if it
takes no two different names of the lists to the same one. -/
theorem map_mergeNames {f : Name → Name} {left right : List Name}
    (hApart : ∀ x ∈ left, ∀ y ∈ right, f x = f y → x = y) :
    (mergeNames left right).map f = mergeNames (left.map f) (right.map f) := by
  have hKept : ∀ y ∈ right, (f y ∈ left.map f ↔ y ∈ left) := by
    intro y hRight
    constructor
    · intro hImage
      obtain ⟨x, hLeft, hSame⟩ := List.mem_map.mp hImage
      exact hApart x hLeft y hRight hSame ▸ hLeft
    · exact List.mem_map_of_mem
  rw [mergeNames, mergeNames, List.map_append, List.filter_map]
  congr 2
  apply List.filter_congr
  intro y hRight
  simp only [Function.comp_apply, hKept y hRight]

/-- The old name comes back where it was, because no name was the new one
before. -/
theorem renamed_renamed (old : Name) {new name : Name} (hName : name ≠ new) :
    renamed new old (renamed old new name) = name := by
  by_cases hOld : name = old
  · simp [renamed, hOld]
  · simp [renamed, hOld, hName]

namespace Term

/-- Renaming to an unused name can be taken back, binders included. -/
theorem rename_rename_of_notMem_names {t : Term} (old : Name) {new : Name}
    (hUnused : new ∉ t.names) : (t.rename old new).rename new old = t := by
  induction t with
  | var name =>
      have hName : name ≠ new := by simpa [names, eq_comm] using hUnused
      exact congrArg var (renamed_renamed old hName)
  | abs param body ih =>
      simp only [names, mem_mergeNames, List.mem_singleton, not_or] at hUnused
      obtain ⟨hParam, hBody⟩ := hUnused
      rw [rename, rename, ih hBody]
      exact congrArg (abs · body) (renamed_renamed old (Ne.symm hParam))
  | app fn arg ihFn ihArg =>
      simp only [names, mem_mergeNames, not_or] at hUnused
      rw [rename, rename, ihFn hUnused.1, ihArg hUnused.2]

/-- The names of the renamed term are those of the term, each renamed, in the
same order and without new repetitions. -/
theorem names_rename_of_notMem_names {t : Term} (old : Name) {new : Name}
    (hUnused : new ∉ t.names) : (t.rename old new).names = t.names.map (renamed old new) := by
  induction t with
  | var name => rfl
  | abs param body ih =>
      simp only [names, mem_mergeNames, List.mem_singleton, not_or] at hUnused
      obtain ⟨hParam, hBody⟩ := hUnused
      rw [rename, names, names, ih hBody, map_mergeNames]
      · rfl
      · intro x hx y hy hSame
        obtain rfl : x = param := List.mem_singleton.mp hx
        exact (renamed_inj old (Ne.symm hParam) (ne_of_mem_of_not_mem hy hBody)).mp hSame
  | app fn arg ihFn ihArg =>
      simp only [names, mem_mergeNames, not_or] at hUnused
      obtain ⟨hFn, hArg⟩ := hUnused
      rw [rename, names, names, ihFn hFn, ihArg hArg, map_mergeNames]
      intro x hx y hy hSame
      exact (renamed_inj old (ne_of_mem_of_not_mem hx hFn) (ne_of_mem_of_not_mem hy hArg)).mp hSame

/-- A binder and its body may be renamed together. -/
theorem alphaEquiv_abs_rename {t : Term} (old : Name) {new : Name} (hUnused : new ∉ t.names) :
    AlphaEquiv (abs old t) (abs new (t.rename old new)) :=
  congrArg Nameless.abs (Nameless.ofTerm_rename_cons [] hUnused).symm

/-- Renaming to an unused name can be taken back by renaming in the other
direction. Together with the binder around it, it changes the choice of bound
names only. The names of the result are those of the term with the old one
replaced, and all other names are free in both terms or in none. -/
theorem renaming_to_unused_name_is_reversible (t : Term) (old new : Name)
    (hUnused : new ∉ t.names) :
    (t.rename old new).rename new old = t ∧
    AlphaEquiv (abs old t) (abs new (t.rename old new)) ∧
    (t.rename old new).names = t.names.map (fun name => if name = old then new else name) ∧
    ∀ x, x ≠ old → x ≠ new → ((t.rename old new).isFree x = true ↔ t.isFree x = true) := by
  refine ⟨rename_rename_of_notMem_names old hUnused, alphaEquiv_abs_rename old hUnused,
    names_rename_of_notMem_names old hUnused, ?_⟩
  intro x hOld hNew
  rw [isFree_rename t old hNew]
  exact and_iff_right hOld

/-- In `y (λy.y x)` the name `y` is both free and the name of a binder, which
is renamed too. -/
theorem renaming_to_unused_name_is_reversible_past_shadowing :
    let t := app (var "y") (abs "y" (app (var "y") (var "x")))
    let t' := app (var "y'") (abs "y'" (app (var "y'") (var "x")))
    "y'" ∉ t.names ∧ t.rename "y" "y'" = t' ∧ t'.rename "y'" "y" = t ∧
      AlphaEquiv (abs "y" t) (abs "y'" t') ∧ t'.names = ["y'", "x"] ∧
      (t'.isFree "x" = true ↔ t.isFree "x" = true) := by
  intro t t'
  have hUnused : "y'" ∉ t.names := by decide +kernel
  have hRenamed : t.rename "y" "y'" = t' := by decide +kernel
  have hNames : t.names.map (fun name => if name = "y" then "y'" else name) = ["y'", "x"] := by
    decide +kernel
  obtain ⟨hBack, hAlpha, hMapped, hFree⟩ :=
    renaming_to_unused_name_is_reversible t "y" "y'" hUnused
  rw [hRenamed] at hBack hAlpha hMapped hFree
  exact ⟨hUnused, hRenamed, hBack, hAlpha, hMapped.trans hNames,
    hFree "x" (by decide +kernel) (by decide +kernel)⟩

end Term

/-! Why the search for a fresh name and substitution come to an end. The search has no bound of its
own and looks every candidate up in the same list; it ends because its candidates are all different.
Substitution may go on with a renamed body, which is no part of the term it was given, but which has
as many nodes as the body had. -/

theorem length_primed (name : Name) (count : Nat) :
    (primed name count).length = name.length + count := by
  simp [primed]

theorem primed_injective (name : Name) : Function.Injective (primed name) := by
  intro first second hSame
  have hLength := congrArg String.length hSame
  rw [length_primed, length_primed] at hLength
  omega

/-- The candidates that the search passes over are different names of the
list, so there are no more rounds than names to avoid. Repetitions in the list
do not count. -/
theorem SearchFinds.rounds_le_card {avoid : List Name} {name found : Name} {rounds : Nat}
    (search : SearchFinds avoid name rounds found) : rounds ≤ avoid.toFinset.card := by
  have hPassed : (Finset.range rounds).image (primed name) ⊆ avoid.toFinset := by
    intro candidate hCandidate
    obtain ⟨count, hCount, rfl⟩ := Finset.mem_image.mp hCandidate
    exact List.mem_toFinset.mpr (search.primed_mem (Finset.mem_range.mp hCount))
  calc rounds
      = ((Finset.range rounds).image (primed name)).card := by
        rw [Finset.card_image_of_injective _ (primed_injective name), Finset.card_range]
    _ ≤ avoid.toFinset.card := Finset.card_le_card hPassed

theorem SearchFinds.isLeast {base found : Name} {avoid : List Name} {rounds : Nat}
    (search : SearchFinds avoid (base.push '\'') rounds found) :
    IsLeast {count | 1 ≤ count ∧ primed base count ∉ avoid} (rounds + 1) := by
  constructor
  · refine ⟨Nat.le_add_left 1 rounds, ?_⟩
    rw [← primed_push, ← search.eq_primed]
    exact search.notMem
  · intro count hCount
    obtain ⟨hPositive, hUnused⟩ := hCount
    obtain ⟨before, rfl⟩ : ∃ before, count = before + 1 := ⟨count - 1, by omega⟩
    rw [← primed_push] at hUnused
    by_contra hLess
    exact hUnused (search.primed_mem (by omega))

namespace Term

/-- The terms with which substitution goes on below a term. -/
inductive Descends (target : Name) (value : Term) : Term → Term → Prop where
  | fn (fn arg : Term) : Descends target value fn (app fn arg)
  | arg (fn arg : Term) : Descends target value arg (app fn arg)
  | body {param : Name} {body : Term} (hOuter : param ≠ target)
      (hOccurs : body.isFree target = true) (hHarmless : value.isFree param = false) :
      Descends target value body (abs param body)
  /-- The binder is renamed first, and the body along with it. -/
  | renamedBody {param : Name} {body : Term} (hOuter : param ≠ target)
      (hOccurs : body.isFree target = true) (hCaptures : value.isFree param = true) :
      Descends target value
        (body.rename param (freshName param (target :: (value.freeVariables ++ body.names))))
        (abs param body)

theorem Descends.size_lt {target : Name} {value part t : Term}
    (hDescends : Descends target value part t) : part.size < t.size := by
  cases hDescends with
  | fn fn arg =>
      rw [size]
      omega
  | arg fn arg =>
      rw [size]
      omega
  | body => exact Nat.lt_succ_self _
  | renamedBody =>
      rw [size_rename]
      exact Nat.lt_succ_self _

theorem wellFounded_descends (target : Name) (value : Term) :
    WellFounded (Descends target value) :=
  Subrelation.wf Descends.size_lt (InvImage.wf size Nat.lt_wfRel.wf)

/-- One level of substitution. What is to be done below is left to `recur`. -/
def substituteOnce (target : Name) (value : Term) (recur : Term → Traced) (t : Term) : Traced :=
  match t with
  | var name => if name = target then ⟨value, []⟩ else ⟨var name, []⟩
  | app fn arg =>
    ⟨app (recur fn).term (recur arg).term, (recur fn).renamings ++ (recur arg).renamings⟩
  | abs param body =>
    if param = target ∨ body.isFree target = false then ⟨abs param body, []⟩
    else if value.isFree param then
      let fresh := freshName param (target :: (value.freeVariables ++ body.names))
      let newBody := recur (body.rename param fresh)
      ⟨abs fresh newBody.term, ⟨param, fresh⟩ :: newBody.renamings⟩
    else ⟨abs param (recur body).term, (recur body).renamings⟩

theorem substituteTraced_eq_once (t : Term) (target : Name) (value : Term) :
    t.substituteTraced target value =
      substituteOnce target value (·.substituteTraced target value) t := by
  cases t with
  | var name => rw [substituteTraced, substituteOnce]
  | app fn arg => rw [substituteTraced, substituteOnce]
  | abs param body => rw [substituteTraced, substituteOnce]

/-- Nothing is asked of `recur` but what it does to the terms to descend to. -/
theorem substituteOnce_congr {target : Name} {value t : Term} {recur recur' : Term → Traced}
    (hSame : ∀ part, Descends target value part t → recur part = recur' part) :
    substituteOnce target value recur t = substituteOnce target value recur' t := by
  cases t with
  | var name => rfl
  | app fn arg =>
      rw [substituteOnce, substituteOnce, hSame fn (.fn fn arg), hSame arg (.arg fn arg)]
  | abs param body =>
      rw [substituteOnce, substituteOnce]
      split
      · rfl
      · next hTouched =>
          obtain ⟨hOuter, hOccurs⟩ : param ≠ target ∧ body.isFree target = true := by
            simpa using hTouched
          split
          · next hCaptures =>
              simp only [hSame _ (.renamedBody hOuter hOccurs hCaptures)]
          · next hHarmless =>
              rw [hSame body (.body hOuter hOccurs (by simpa using hHarmless))]

/-- The levels of a substitution are no more than the nodes of the term, so it
does not matter what would be done below them. -/
theorem iterate_substituteOnce (target : Name) (value : Term) (below : Term → Traced)
    {t : Term} {levels : Nat} (hLevels : t.size ≤ levels) :
    (substituteOnce target value)^[levels] below t = t.substituteTraced target value := by
  induction levels generalizing t with
  | zero => cases t <;> simp [size] at hLevels
  | succ levels ih =>
      rw [Function.iterate_succ_apply', substituteTraced_eq_once]
      apply substituteOnce_congr
      intro part hDescends
      have hSmaller := hDescends.size_lt
      exact ih (by omega)

/-- The search for a fresh name ends, whatever names are to be avoided: it
takes at most as many rounds as there are such names, and what it finds is the
base with the least positive number of quote marks that is none of them.
Substitution ends as well. It descends along a well-founded relation, because
every term that it goes on with, a renamed body included, has fewer nodes than
the term it comes from; hence as many levels as the term has nodes are enough
for the whole result. -/
theorem fresh_names_and_substitution_terminate :
    (∀ (base : Name) (avoid : List Name), ∃ rounds,
      SearchFinds avoid (base.push '\'') rounds (freshName base avoid) ∧
      rounds ≤ avoid.toFinset.card ∧
      freshName base avoid = primed base (rounds + 1) ∧
      IsLeast {count | 1 ≤ count ∧ primed base count ∉ avoid} (rounds + 1)) ∧
    (∀ old new t, (rename old new t).size = t.size) ∧
    ∀ (target : Name) (value : Term),
      WellFounded (Descends target value) ∧
      (∀ part t, Descends target value part t → part.size < t.size) ∧
      (∀ recur recur' t, (∀ part, Descends target value part t → recur part = recur' part) →
        substituteOnce target value recur t = substituteOnce target value recur' t) ∧
      ∀ below t levels, t.size ≤ levels →
        (substituteOnce target value)^[levels] below t = t.substituteTraced target value := by
  refine ⟨?_, size_rename, ?_⟩
  · intro base avoid
    obtain ⟨rounds, search⟩ := exists_searchFinds_freshName base avoid
    exact ⟨rounds, search, search.rounds_le_card, search.eq_primed.trans (primed_push base rounds),
      search.isLeast⟩
  · intro target value
    exact ⟨wellFounded_descends target value, fun part t => Descends.size_lt,
      fun recur recur' t => substituteOnce_congr,
      fun below t levels => iterate_substituteOnce target value below⟩

/-- Two of the three names are candidates, so the third candidate is found. In
the term both binders are renamed, and five levels are enough for its five
nodes. -/
theorem fresh_names_and_substitution_terminate_past_renamings :
    let avoid := ["y''", "z", "y'", "z"]
    let t := abs "y" (abs "z" (app (var "x") (var "y")))
    let value := app (var "y") (var "z")
    freshName "y" avoid = "y'''" ∧
    (∃ rounds, SearchFinds avoid "y'" rounds "y'''" ∧ rounds ≤ 3 ∧
      IsLeast {count | 1 ≤ count ∧ primed "y" count ∉ avoid} (rounds + 1)) ∧
    Descends "x" value (abs "z" (app (var "x") (var "y'"))) t ∧
    (abs "z" (app (var "x") (var "y'"))).size < t.size ∧
    (∀ below, (substituteOnce "x" value)^[5] below t =
      ⟨abs "y'" (abs "z'" (app value (var "y'"))), [⟨"y", "y'"⟩, ⟨"z", "z'"⟩]⟩) := by
  intro avoid t value
  have hFresh : freshName "y" avoid = "y'''" := by decide +kernel
  have hCard : avoid.toFinset.card = 3 := by decide +kernel
  have hRenamed : (abs "z" (app (var "x") (var "y"))).rename "y" (freshName "y"
      ("x" :: (value.freeVariables ++ (abs "z" (app (var "x") (var "y"))).names))) =
      abs "z" (app (var "x") (var "y'")) := by decide +kernel
  have hDescends : Descends "x" value (abs "z" (app (var "x") (var "y'"))) t := by
    rw [← hRenamed]
    exact .renamedBody (by decide +kernel) (by decide +kernel) (by decide +kernel)
  have hResult : t.substituteTraced "x" value =
      ⟨abs "y'" (abs "z'" (app value (var "y'"))), [⟨"y", "y'"⟩, ⟨"z", "z'"⟩]⟩ := by decide +kernel
  obtain ⟨hSearches, -, hDescents⟩ := fresh_names_and_substitution_terminate
  obtain ⟨rounds, search, hRounds, -, hLeast⟩ := hSearches "y" avoid
  obtain ⟨-, hSmaller, -, hLevels⟩ := hDescents "x" value
  rw [hFresh] at search
  rw [hCard] at hRounds
  refine ⟨hFresh, ⟨rounds, search, hRounds, hLeast⟩, hDescends, hSmaller _ _ hDescends, ?_⟩
  intro below
  rw [hLevels below t 5 (by decide +kernel), hResult]

end Term

end LambdaDiagram
