import LambdaDiagram.Substitution

/-! What the search for a fresh name finds. A candidate that is passed over is dropped from the list of
names to avoid. As later candidates are longer, this is the same as a search that looks every
candidate up in the whole list, and that search is what all facts about fresh names are read off. -/
namespace LambdaDiagram

def primed (name : Name) (count : Nat) : Name :=
  name ++ String.ofList (List.replicate count '\'')

theorem primed_push (name : Name) (count : Nat) :
    primed (name.push '\'') count = primed name (count + 1) := by
  apply String.toList_inj.mp
  simp [primed, List.replicate_succ]

/-- The search for a name outside of `avoid`, from a candidate to the name
that is found. As long as the candidate is to be avoided, one more quote mark
is appended; the number counts these rounds. -/
inductive SearchFinds (avoid : List Name) : Name → Nat → Name → Prop where
  | unused {name : Name} (hUnused : name ∉ avoid) : SearchFinds avoid name 0 name
  | used {name found : Name} {rounds : Nat} (hUsed : name ∈ avoid)
      (rest : SearchFinds avoid (name.push '\'') rounds found) :
      SearchFinds avoid name (rounds + 1) found

namespace SearchFinds

variable {avoid : List Name} {name found : Name} {rounds : Nat}

/-- The name that is found has one more quote mark for each round, and is
otherwise the first candidate. -/
theorem eq_primed (search : SearchFinds avoid name rounds found) : found = primed name rounds := by
  induction search with
  | unused hUnused => exact (String.append_empty ..).symm
  | used hUsed rest ih => exact ih.trans (primed_push _ _)

theorem notMem (search : SearchFinds avoid name rounds found) : found ∉ avoid := by
  induction search with
  | unused hUnused => exact hUnused
  | used hUsed rest ih => exact ih

/-- Every candidate before the last one had to be avoided. -/
theorem primed_mem (search : SearchFinds avoid name rounds found) {count : Nat}
    (hBefore : count < rounds) : primed name count ∈ avoid := by
  induction search generalizing count with
  | unused hUnused => omega
  | @used name found rounds hUsed rest ih =>
      cases count with
      | zero => rwa [primed, List.replicate_zero, String.ofList_nil, String.append_empty]
      | succ count =>
          rw [← primed_push]
          exact ih (by omega)

/-- A name that is shorter than the candidate does not come up any more, so it
makes no difference whether it is to be avoided. -/
theorem of_erase {dropped : Name} (search : SearchFinds (avoid.erase dropped) name rounds found)
    (hShorter : dropped.length < name.length) : SearchFinds avoid name rounds found := by
  induction search with
  | @unused name hUnused =>
      have hOther : name ≠ dropped := by
        intro hSame
        rw [hSame] at hShorter
        omega
      exact .unused fun hMem => hUnused ((List.mem_erase_of_ne hOther).mpr hMem)
  | used hUsed rest ih =>
      refine .used (List.mem_of_mem_erase hUsed) (ih ?_)
      rw [String.length_push]
      omega

end SearchFinds

/-- Dropping the candidates that were passed over from the list does not
change the search. -/
theorem exists_searchFinds_firstUnused (name : Name) (avoid : List Name) :
    ∃ rounds, SearchFinds avoid name rounds (firstUnused name avoid) := by
  fun_induction firstUnused name avoid with
  | case1 name avoid hMem ih =>
      obtain ⟨rounds, search⟩ := ih
      refine ⟨rounds + 1, .used hMem (search.of_erase ?_)⟩
      rw [String.length_push]
      omega
  | case2 name avoid hMem => exact ⟨0, .unused hMem⟩

theorem exists_searchFinds_freshName (base : Name) (avoid : List Name) :
    ∃ rounds, SearchFinds avoid (base.push '\'') rounds (freshName base avoid) :=
  exists_searchFinds_firstUnused (base.push '\'') avoid

/-- A fresh name is none of those to be avoided. This is all that substitution
relies on, besides its form. -/
theorem freshName_notMem (base : Name) (avoid : List Name) : freshName base avoid ∉ avoid := by
  obtain ⟨rounds, search⟩ := exists_searchFinds_freshName base avoid
  exact search.notMem

theorem exists_freshName_eq_primed (base : Name) (avoid : List Name) :
    ∃ count, freshName base avoid = primed base (count + 1) := by
  obtain ⟨rounds, search⟩ := exists_searchFinds_freshName base avoid
  exact ⟨rounds, search.eq_primed.trans (primed_push base rounds)⟩

namespace Term

/-- The list of free variables and the test for a free occurrence agree. -/
@[simp] theorem mem_freeVariables {x : Name} {t : Term} :
    x ∈ t.freeVariables ↔ t.isFree x = true := by
  induction t with
  | var name =>
      simp only [freeVariables, isFree, List.mem_singleton, beq_iff_eq]
      exact eq_comm
  | abs param body ih =>
      simp only [freeVariables, isFree, List.mem_filter, ih, decide_eq_true_eq, Bool.and_eq_true,
        bne_iff_ne]
      exact and_comm.trans (and_congr_left' ne_comm)
  | app fn arg ihFn ihArg => simp [freeVariables, isFree, ihFn, ihArg]

/-- The name that replaces a capturing binder is not the target, is not free
in the value and is not mentioned in the body. -/
theorem freshName_avoids (param target : Name) (value body : Term) :
    let fresh := freshName param (target :: (value.freeVariables ++ body.names))
    fresh ≠ target ∧ value.isFree fresh = false ∧ fresh ∉ body.names := by
  have hFresh := freshName_notMem param (target :: (value.freeVariables ++ body.names))
  simpa only [List.mem_cons, List.mem_append, mem_freeVariables, not_or, Bool.not_eq_true]
    using hFresh

end Term

end LambdaDiagram

/-! The free names of a term after a substitution. The names that binders get on the way are free
neither in the value nor in the body, so they appear nowhere in this account. -/
namespace LambdaDiagram.Term

@[simp] theorem isFree_var_iff {name x : Name} : (var name).isFree x = true ↔ x = name := by
  simp only [isFree, beq_iff_eq]
  exact eq_comm

@[simp] theorem isFree_abs_iff {param x : Name} {body : Term} :
    (abs param body).isFree x = true ↔ x ≠ param ∧ body.isFree x = true := by
  simp only [isFree, Bool.and_eq_true, bne_iff_ne]
  exact and_congr_left' ne_comm

@[simp] theorem isFree_app_iff {fn arg : Term} {x : Name} :
    (app fn arg).isFree x = true ↔ fn.isFree x = true ∨ arg.isFree x = true := by
  simp only [isFree, Bool.or_eq_true]

/-- The condition under which substitution leaves an abstraction alone. -/
theorem isFree_abs_eq_false {param x : Name} {body : Term}
    (hUntouched : param = x ∨ body.isFree x = false) : (abs param body).isFree x = false := by
  rcases hUntouched with rfl | hBody
  · simp [isFree]
  · simp [isFree, hBody]

theorem mem_names_of_isFree {t : Term} {x : Name} (hFree : t.isFree x = true) : x ∈ t.names := by
  induction t with
  | var name => simpa [names] using hFree
  | abs param body ih =>
      have hBody := (isFree_abs_iff.mp hFree).2
      simp [names, ih hBody]
  | app fn arg ihFn ihArg =>
      rcases isFree_app_iff.mp hFree with hFn | hArg
      · simp [names, ihFn hFn]
      · simp [names, ihArg hArg]

/-- Renaming takes the free occurrences of the old name away and changes
nothing for any name other than the new one, whether or not binders are
renamed too. -/
theorem isFree_rename (t : Term) (old : Name) {new x : Name} (hNew : x ≠ new) :
    (t.rename old new).isFree x = true ↔ x ≠ old ∧ t.isFree x = true := by
  induction t with
  | var name =>
      by_cases hName : name = old
      · simp [rename, hName, hNew]
      · simp only [rename, if_neg hName, isFree_var_iff]
        constructor
        · rintro rfl
          exact ⟨hName, rfl⟩
        · exact And.right
  | abs param body ih =>
      by_cases hParam : param = old
      · simp [rename, hParam, ih, hNew]
      · simp only [rename, if_neg hParam, isFree_abs_iff, ih]
        exact and_left_comm
  | app fn arg ihFn ihArg => simp [rename, ihFn, ihArg, and_or_left]

/-- Where the target is not free, substitution touches nothing and renames
nothing. -/
theorem substituteTraced_of_isFree_eq_false {t : Term} {target : Name}
    (hAbsent : t.isFree target = false) (value : Term) :
    t.substituteTraced target value = ⟨t, []⟩ := by
  induction t with
  | var name =>
      have hName : name ≠ target := by simpa [isFree] using hAbsent
      rw [substituteTraced, if_neg hName]
  | abs param body ih =>
      have hUntouched : param = target ∨ body.isFree target = false := by
        simpa [isFree, Decidable.or_iff_not_imp_left] using hAbsent
      rw [substituteTraced, if_pos hUntouched]
  | app fn arg ihFn ihArg =>
      obtain ⟨hFn, hArg⟩ : fn.isFree target = false ∧ arg.isFree target = false := by
        simpa [isFree] using hAbsent
      rw [substituteTraced, ihFn hFn, ihArg hArg]
      rfl

theorem ne_of_isFree {t : Term} {x y : Name} (hFree : t.isFree x = true)
    (hAbsent : t.isFree y = false) : x ≠ y := by
  rintro rfl
  simp [hFree] at hAbsent

/-- A name is free after a substitution if it was free before and is not the
target, or if it came with the value. Where a binder is renamed only its fresh
name could make a difference, and that is free on neither side. -/
theorem isFree_substitute (t : Term) (target : Name) (value : Term) (x : Name) :
    (t.substitute target value).isFree x = true ↔
      (x ≠ target ∧ t.isFree x = true) ∨ (t.isFree target = true ∧ value.isFree x = true) := by
  unfold substitute
  fun_induction substituteTraced t target value with
  | case1 => simp
  | case2 name hName =>
      have hAbsent : (var name).isFree target = false := by simpa [isFree] using hName
      have hOther : (var name).isFree x = true → x ≠ target := (ne_of_isFree · hAbsent)
      simpa [hAbsent] using hOther
  | case3 fn arg newFn newArg ihFn ihArg =>
      simp only [isFree_app_iff, newFn, newArg, ihFn, ihArg, and_or_left, or_and_right]
      exact or_or_or_comm
  | case4 param body hUntouched =>
      have hAbsent : (abs param body).isFree target = false := isFree_abs_eq_false hUntouched
      have hOther : (abs param body).isFree x = true → x ≠ target := (ne_of_isFree · hAbsent)
      rw [hAbsent]
      simpa using hOther
  | case5 param body hTouched hCaptures fresh newBody ih =>
      obtain ⟨hNotTarget, hNotFree, hNotNamed⟩ := freshName_avoids param target value body
      have hTarget : (body.rename param fresh).isFree target = true ↔
          target ≠ param ∧ body.isFree target = true := isFree_rename body param (Ne.symm hNotTarget)
      simp only [isFree_abs_iff, newBody, ih, hTarget]
      by_cases hFresh : x = fresh
      · have hBody : body.isFree fresh = false := by
          simpa using mt mem_names_of_isFree hNotNamed
        simp [hFresh, hBody, hNotFree, fresh]
      · rw [isFree_rename body param hFresh]
        simp [hFresh]
  | case6 param body hTouched hHarmless newBody ih =>
      have hNotTarget : target ≠ param := fun hSame => hTouched (Or.inl hSame.symm)
      have hNotFree : value.isFree param = false := by simpa using hHarmless
      have hOther : value.isFree x = true → x ≠ param := (ne_of_isFree · hNotFree)
      simp only [isFree_abs_iff, newBody, ih]
      grind

end LambdaDiagram.Term
