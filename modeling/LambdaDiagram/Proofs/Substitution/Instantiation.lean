import LambdaDiagram.Proofs.Nameless
import LambdaDiagram.Proofs.Substitution.FreeVariables

/-! Substitution of a value for the variable of a binder that is taken away. Seen without names, it
replaces the index of that binder, whatever binders get renamed on the way. -/
namespace LambdaDiagram.Nameless

/-- The occurrences of `target` that no inner binder shadows are those with
the index of the binder between `inner` and `outer`. -/
private theorem instantiate_ofTerm_var (inner outer : List Name) {target : Name} {value : Term}
    (name : Name) (hTarget : target ∉ inner) (hValue : ∀ y ∈ inner, value.isFree y = false) :
    (ofTerm (inner ++ target :: outer) (.var name)).instantiate inner.length
        (ofTerm (inner ++ outer) value) =
      ofTerm (inner ++ outer) (if name = target then value else .var name) := by
  induction inner with
  | nil =>
      simp only [List.nil_append, List.length_nil, ofTerm_var_cons target]
      by_cases hName : name = target
      · simp [hName]
      · simp [hName, Ne.symm hName]
  | cons nearest inner ih =>
      rw [List.mem_cons, not_or] at hTarget
      have hNearestFree : value.isFree nearest = false := hValue nearest List.mem_cons_self
      have hOuter := ih hTarget.2 (fun y hy => hValue y (List.mem_cons_of_mem _ hy))
      simp only [List.cons_append, List.length_cons, ofTerm_var_cons nearest,
        ← lift_ofTerm_cons (inner ++ outer) hNearestFree]
      by_cases hNearest : nearest = name
      · have hName : name ≠ target := fun hSame => hTarget.1 (hSame ▸ hNearest.symm)
        simp [hNearest, hName, ofTerm_var_cons, instantiate_bound_of_lt]
      · rw [if_neg hNearest, ← lift_instantiate_of_le _ _ (Nat.zero_le _), hOuter]
        by_cases hName : name = target
        · simp only [hName, if_true]
          exact lift_ofTerm_cons _ hNearestFree
        · simp only [hName, if_false]
          rw [ofTerm_var_cons, if_neg hNearest]

/-- The value is carried below one more binder, which may have a new name
there. -/
private theorem ofTerm_abs_instantiate {scope scope' : List Name} {param binder : Name}
    {body newBody value : Term} {depth : Nat} (hBinder : value.isFree binder = false)
    (hBody : ofTerm (binder :: scope) newBody =
      (ofTerm (param :: scope') body).instantiate (depth + 1) (ofTerm (binder :: scope) value)) :
    ofTerm scope (.abs binder newBody) =
      (ofTerm scope' (.abs param body)).instantiate depth (ofTerm scope value) := by
  rw [← lift_ofTerm_cons scope hBinder] at hBody
  simp only [ofTerm, instantiate]
  rw [hBody]

/-- Substitution below the binders `inner`, none of which is free in the
value. The target is bound just outside of them, and its binder is taken away.
Where a binder is renamed, the hypothesis is about the renamed body below the
fresh binder, which has the same nameless form as the body below the old one. -/
theorem ofTerm_substitute (t value : Term) (inner outer : List Name) {target : Name}
    (hTarget : target ∉ inner) (hValue : ∀ y ∈ inner, value.isFree y = false) :
    ofTerm (inner ++ outer) (t.substitute target value) =
      (ofTerm (inner ++ target :: outer) t).instantiate inner.length
        (ofTerm (inner ++ outer) value) := by
  unfold Term.substitute
  fun_induction Term.substituteTraced t target value generalizing inner with
  | case1 =>
      have hVar := instantiate_ofTerm_var inner outer target hTarget hValue
      rw [if_pos rfl] at hVar
      exact hVar.symm
  | case2 name hName =>
      have hVar := instantiate_ofTerm_var inner outer name hTarget hValue
      rw [if_neg hName] at hVar
      exact hVar.symm
  | case3 fn arg newFn newArg ihFn ihArg =>
      simp only [ofTerm, instantiate]
      rw [ihFn inner hTarget hValue, ihArg inner hTarget hValue]
  | case4 param body hUntouched =>
      have hUnused : target ∈ inner ∨ (Term.abs param body).isFree target = false := by
        refine Or.inr ?_
        rcases hUntouched with rfl | hBody
        · simp [Term.isFree]
        · simp [Term.isFree, hBody]
      rw [← lift_ofTerm _ inner outer hUnused, instantiate_lift]
  | case5 param body hTouched hCaptures fresh newBody ih =>
      obtain ⟨hNotTarget, hNotFree, hNotNamed⟩ := Term.freshName_avoids param target value body
      have hBody := ih (fresh :: inner) (by simp [Ne.symm hNotTarget, fresh, hTarget])
        (List.forall_mem_cons.mpr ⟨hNotFree, hValue⟩)
      rw [List.cons_append, List.cons_append, ofTerm_rename_cons _ hNotNamed] at hBody
      exact ofTerm_abs_instantiate hNotFree hBody
  | case6 param body hTouched hHarmless newBody ih =>
      have hNotTarget : param ≠ target := fun hSame => hTouched (Or.inl hSame)
      have hNotFree : value.isFree param = false := by simpa using hHarmless
      have hBody := ih (param :: inner) (by simp [Ne.symm hNotTarget, hTarget])
        (List.forall_mem_cons.mpr ⟨hNotFree, hValue⟩)
      exact ofTerm_abs_instantiate hNotFree hBody

/-- Contracting a redex with names is contracting it without names, below any
binders. -/
theorem ofTerm_substitute_cons (body arg : Term) (param : Name) (scope : List Name) :
    ofTerm scope (body.substitute param arg) =
      (ofTerm (param :: scope) body).instantiate 0 (ofTerm scope arg) :=
  ofTerm_substitute body arg [] scope List.not_mem_nil (by simp)

/-! Substitution for a variable that is free in the whole term. Seen without names, a free
occurrence can be replaced on the spot: the value has no index that points out of it, so nothing in
it depends on how many binders it is carried below. -/

/-- Room for a binder outside of the whole scope concerns none of the indices. -/
theorem lift_ofTerm_of_length_le (t : Term) {scope : List Name} {depth : Nat}
    (hDepth : scope.length ≤ depth) : (ofTerm scope t).lift depth = ofTerm scope t := by
  induction t generalizing scope depth with
  | var name =>
      simp only [ofTerm]
      cases hIndex : scope.idxOf? name with
      | none => rfl
      | some index =>
          obtain ⟨hLt, -⟩ := List.idxOf?_eq_some_iff.mp hIndex
          exact lift_bound_of_lt (Nat.lt_of_lt_of_le hLt hDepth)
  | abs param body ih =>
      simp only [ofTerm, lift]
      rw [ih (Nat.succ_le_succ hDepth)]
  | app fn arg ihFn ihArg =>
      simp only [ofTerm, lift]
      rw [ihFn hDepth, ihArg hDepth]

private theorem instantiate_ofTerm_append_var (inner : List Name) (target name : Name)
    (value : Nameless) :
    (ofTerm (inner ++ [target]) (.var name)).instantiate inner.length value =
      (ofTerm inner (.var name)).replaceFree target value := by
  have hAppend : (inner ++ [target]).idxOf? name =
      (inner.idxOf? name).or (([target].idxOf? name).map (· + inner.length)) :=
    List.findIdx?_append
  simp only [ofTerm, hAppend]
  cases hIndex : inner.idxOf? name with
  | some index =>
      obtain ⟨hLt, -⟩ := List.idxOf?_eq_some_iff.mp hIndex
      exact instantiate_bound_of_lt value hLt
  | none =>
      by_cases hName : name = target
      · simp [hName, List.idxOf?_cons, replaceFree]
      · simp [hName, Ne.symm hName, List.idxOf?_cons, replaceFree, instantiate]

/-- An outermost binder that is taken away leaves its occurrences to be
replaced. Without the binder they are the free occurrences of its name. -/
theorem instantiate_ofTerm_append (t : Term) (inner : List Name) (target : Name) {value : Nameless}
    (hClosed : ∀ depth, value.lift depth = value) :
    (ofTerm (inner ++ [target]) t).instantiate inner.length value =
      (ofTerm inner t).replaceFree target value := by
  induction t generalizing inner with
  | var name => exact instantiate_ofTerm_append_var inner target name value
  | abs param body ih =>
      have hBody := ih (param :: inner)
      simp only [ofTerm, instantiate, replaceFree, hClosed 0]
      exact congrArg abs hBody
  | app fn arg ihFn ihArg =>
      simp only [ofTerm, instantiate, replaceFree, ihFn, ihArg]

end LambdaDiagram.Nameless

namespace LambdaDiagram.Term

/-- Substitution is the replacement of free occurrences, up to the names of
binders. No condition is needed on the names: binders may shadow each other,
be called like the target or be free in the value. -/
theorem nameless_substitute (t : Term) (target : Name) (value : Term) :
    (t.substitute target value).nameless = t.nameless.replaceFree target value.nameless := by
  have hClosed : ∀ depth, value.nameless.lift depth = value.nameless :=
    fun depth => Nameless.lift_ofTerm_of_length_le value (Nat.zero_le depth)
  calc (t.substitute target value).nameless
      = (Nameless.ofTerm [target] t).instantiate 0 value.nameless :=
        Nameless.ofTerm_substitute_cons t value target []
    _ = t.nameless.replaceFree target value.nameless :=
        Nameless.instantiate_ofTerm_append t [] target hClosed

-- The outer binder has to be renamed, and the inner one of the same name is renamed along with it.
example :
    let t := abs "y" (app (var "x") (abs "y" (app (var "y") (var "x"))))
    (t.substitute "x" (var "y")).nameless =
      .abs (.app (.free "y") (.abs (.app (.bound 0) (.free "y")))) := by
  decide +kernel

end LambdaDiagram.Term

/-! Two substitutions one after the other. Each of them may rename binders, and the two orders need
not agree on the new names. Seen without names, both orders replace the indices of the same two
binders, so what is left is how `instantiate` commutes with itself. -/
namespace LambdaDiagram.Nameless

/-- Below any binders, a substitution for `y` may be made before the one for
`x`. It then has to be made in the value for `x` as well, while its own value
must not mention `x`. In the second order the first substitution is for a
variable that is bound outside of `x`. -/
theorem ofTerm_substitute_substitute (t inner outer : Term) (scope : List Name) {x y : Name}
    (hNames : x ≠ y) (hOuter : outer.isFree x = false) :
    ofTerm scope ((t.substitute x inner).substitute y outer) =
      ofTerm scope ((t.substitute y outer).substitute x (inner.substitute y outer)) := by
  have hBelow : ofTerm (x :: scope) (t.substitute y outer) =
      (ofTerm (x :: y :: scope) t).instantiate 1 ((ofTerm scope outer).lift 0) := by
    have hTarget : y ∉ [x] := by simpa using Ne.symm hNames
    have hValue : ∀ z ∈ [x], outer.isFree z = false := by simpa using hOuter
    rw [lift_ofTerm_cons scope hOuter]
    exact ofTerm_substitute t outer [x] scope hTarget hValue
  calc ofTerm scope ((t.substitute x inner).substitute y outer)
      = ((ofTerm (x :: y :: scope) t).instantiate 0 (ofTerm (y :: scope) inner)).instantiate 0
          (ofTerm scope outer) := by rw [ofTerm_substitute_cons, ofTerm_substitute_cons]
    _ = ((ofTerm (x :: y :: scope) t).instantiate 1 ((ofTerm scope outer).lift 0)).instantiate 0
          ((ofTerm (y :: scope) inner).instantiate 0 (ofTerm scope outer)) :=
        instantiate_instantiate _ _ _ (Nat.le_refl 0)
    _ = ofTerm scope ((t.substitute y outer).substitute x (inner.substitute y outer)) := by
        rw [ofTerm_substitute_cons _ _ x, ofTerm_substitute_cons inner, hBelow]

end LambdaDiagram.Nameless

namespace LambdaDiagram.Term

/-- The substitution lemma. Two substitutions may be exchanged, up to the
names of binders, if the value of the second one does not mention the variable
of the first one. -/
theorem substitute_substitute_alphaEquiv (t n l : Term) (x y : Name) (hNames : x ≠ y)
    (hAbsent : l.isFree x = false) :
    AlphaEquiv ((t.substitute x n).substitute y l)
      ((t.substitute y l).substitute x (n.substitute y l)) :=
  Nameless.ofTerm_substitute_substitute t n l [] hNames hAbsent

/-- On the left the binder `z` is renamed when `z'` has already been replaced,
on the right it has to make way for `z'` as well. -/
theorem substitute_substitute_alphaEquiv_up_to_renaming :
    let t := abs "z" (app (var "z'") (var "y"))
    let n := app (var "q") (var "y")
    let l := var "z"
    "z'" ≠ "y" ∧ l.isFree "z'" = false ∧
    (t.substitute "z'" n).substitute "y" l =
      abs "z'" (app (app (var "q") (var "z")) (var "z")) ∧
    (t.substitute "y" l).substitute "z'" (n.substitute "y" l) =
      abs "z''" (app (app (var "q") (var "z")) (var "z")) ∧
    AlphaEquiv ((t.substitute "z'" n).substitute "y" l)
      ((t.substitute "y" l).substitute "z'" (n.substitute "y" l)) := by
  intro t n l
  have hNames : "z'" ≠ "y" := by decide
  have hAbsent : l.isFree "z'" = false := by decide +kernel
  exact ⟨hNames, hAbsent, by decide +kernel, by decide +kernel,
    substitute_substitute_alphaEquiv t n l "z'" "y" hNames hAbsent⟩

end LambdaDiagram.Term
