import LambdaDiagram.Term

/-! How `lift` and `instantiate` commute. Every equation is stated at arbitrary depths, because the
induction passes below binders; the uses start at depth zero. -/
namespace LambdaDiagram.Nameless

theorem lift_bound_of_lt {index depth : Nat} (hLt : index < depth) :
    (bound index).lift depth = bound index := by
  simp [lift, hLt]

theorem lift_bound_of_ge {index depth : Nat} (hGe : depth ≤ index) :
    (bound index).lift depth = bound (index + 1) := by
  simp [lift, Nat.not_lt.mpr hGe]

theorem instantiate_bound_of_lt {index depth : Nat} (value : Nameless) (hLt : index < depth) :
    (bound index).instantiate depth value = bound index := by
  simp [instantiate, hLt]

@[simp] theorem instantiate_bound_self (depth : Nat) (value : Nameless) :
    (bound depth).instantiate depth value = value := by
  simp [instantiate]

theorem instantiate_bound_of_gt {index depth : Nat} (value : Nameless) (hGt : depth < index) :
    (bound index).instantiate depth value = bound (index - 1) := by
  simp [instantiate, Nat.not_lt.mpr (Nat.le_of_lt hGt), Nat.ne_of_gt hGt]

/-- Making room for two binders does not depend on which of them comes first. -/
theorem lift_lift (t : Nameless) {i j : Nat} (hLe : i ≤ j) :
    (t.lift i).lift (j + 1) = (t.lift j).lift i := by
  induction t generalizing i j with
  | bound index =>
      rcases Nat.lt_or_ge index i with hBelow | hMiddle
      · simp (disch := omega) only [lift_bound_of_lt]
      · rcases Nat.lt_or_ge index j with hInside | hAbove
        · simp (disch := omega) only [lift_bound_of_lt, lift_bound_of_ge]
        · simp (disch := omega) only [lift_bound_of_ge]
  | free name => rfl
  | abs body ih =>
      simp only [lift]
      rw [ih (Nat.succ_le_succ hLe)]
  | app fn arg ihFn ihArg =>
      simp only [lift]
      rw [ihFn hLe, ihArg hLe]

/-- An index that room was just made for does not occur, so nothing is put in
its place. -/
@[simp] theorem instantiate_lift (t value : Nameless) (depth : Nat) :
    (t.lift depth).instantiate depth value = t := by
  induction t generalizing depth value with
  | bound index =>
      rcases Nat.lt_or_ge index depth with hBelow | hAbove
      · rw [lift_bound_of_lt hBelow, instantiate_bound_of_lt value hBelow]
      · rw [lift_bound_of_ge hAbove, instantiate_bound_of_gt value (Nat.lt_succ_of_le hAbove)]
        rfl
  | free name => rfl
  | abs body ih => simp only [lift, instantiate, ih]
  | app fn arg ihFn ihArg => simp only [lift, instantiate, ihFn, ihArg]

/-- Room is made at or below the index that is replaced, so that index is
moved up with everything around it. -/
theorem lift_instantiate_of_le (t value : Nameless) {i j : Nat} (hLe : i ≤ j) :
    (t.instantiate j value).lift i = (t.lift i).instantiate (j + 1) (value.lift i) := by
  induction t generalizing i j value with
  | bound index =>
      rcases Nat.lt_trichotomy index j with hBelow | rfl | hAbove
      · rcases Nat.lt_or_ge index i with hInner | hOuter
        · simp (disch := omega) only [instantiate_bound_of_lt, lift_bound_of_lt]
        · simp (disch := omega) only [instantiate_bound_of_lt, lift_bound_of_ge]
      · rw [instantiate_bound_self, lift_bound_of_ge hLe, instantiate_bound_self]
      · simp (disch := omega) only [instantiate_bound_of_gt, lift_bound_of_ge]
        rw [Nat.sub_add_cancel (by omega : 1 ≤ index), Nat.add_sub_cancel]
  | free name => rfl
  | abs body ih =>
      simp only [instantiate, lift]
      rw [ih (value.lift 0) (Nat.succ_le_succ hLe), lift_lift value (Nat.zero_le i)]
  | app fn arg ihFn ihArg =>
      simp only [instantiate, lift]
      rw [ihFn value hLe, ihArg value hLe]

/-- Room is made at or above the index that is replaced, which stays where it
is. -/
theorem lift_instantiate_of_ge (t value : Nameless) {i j : Nat} (hLe : j ≤ i) :
    (t.instantiate j value).lift i = (t.lift (i + 1)).instantiate j (value.lift i) := by
  induction t generalizing i j value with
  | bound index =>
      rcases Nat.lt_trichotomy index j with hBelow | rfl | hAbove
      · simp (disch := omega) only [instantiate_bound_of_lt, lift_bound_of_lt]
      · rw [instantiate_bound_self, lift_bound_of_lt (Nat.lt_succ_of_le hLe),
          instantiate_bound_self]
      · rcases Nat.lt_or_ge index (i + 1) with hInner | hOuter
        · simp (disch := omega) only [instantiate_bound_of_gt, lift_bound_of_lt]
        · simp (disch := omega) only [instantiate_bound_of_gt, lift_bound_of_ge]
          rw [Nat.sub_add_cancel (by omega : 1 ≤ index), Nat.add_sub_cancel]
  | free name => rfl
  | abs body ih =>
      simp only [instantiate, lift]
      rw [ih (value.lift 0) (Nat.succ_le_succ hLe), lift_lift value (Nat.zero_le i)]
  | app fn arg ihFn ihArg =>
      simp only [instantiate, lift]
      rw [ihFn value hLe, ihArg value hLe]

/-- Two indices are replaced one after the other. The value for the inner one
may itself mention the outer one. -/
theorem instantiate_instantiate (t inner outer : Nameless) {i j : Nat} (hLe : i ≤ j) :
    (t.instantiate i inner).instantiate j outer =
      (t.instantiate (j + 1) (outer.lift i)).instantiate i (inner.instantiate j outer) := by
  induction t generalizing i j inner outer with
  | bound index =>
      rcases Nat.lt_trichotomy index i with hBelow | rfl | hAbove
      · simp (disch := omega) only [instantiate_bound_of_lt]
      · simp (disch := omega) only [instantiate_bound_self, instantiate_bound_of_lt]
      · rcases Nat.lt_trichotomy index (j + 1) with hInside | rfl | hOutside
        · simp (disch := omega) only [instantiate_bound_of_gt, instantiate_bound_of_lt]
        · rw [instantiate_bound_of_gt inner hAbove, instantiate_bound_self]
          simp
        · simp (disch := omega) only [instantiate_bound_of_gt]
  | free name => rfl
  | abs body ih =>
      simp only [instantiate]
      rw [ih (inner.lift 0) (outer.lift 0) (Nat.succ_le_succ hLe),
        lift_lift outer (Nat.zero_le i), lift_instantiate_of_le inner outer (Nat.zero_le j)]
  | app fn arg ihFn ihArg =>
      simp only [instantiate]
      rw [ihFn inner outer hLe, ihArg inner outer hLe]

/-! How the nameless form of a term depends on the binders around it. The scope is split as
`inner ++ outer`, where the binders of `inner` have been passed on the way down to the occurrence in
question and the place of interest lies between the two parts. -/

/-- An occurrence belongs to the nearest binder if the names agree. Otherwise
that binder only adds one level to whatever the occurrence means outside. -/
theorem ofTerm_var_cons (binder name : Name) (scope : List Name) :
    ofTerm (binder :: scope) (.var name) =
      if binder = name then bound 0 else (ofTerm scope (.var name)).lift 0 := by
  simp only [ofTerm, List.idxOf?_cons, beq_iff_eq]
  by_cases hName : binder = name
  · simp [hName]
  · cases hIndex : scope.idxOf? name <;> simp [hName, lift]

private theorem lift_ofTerm_var (inner outer : List Name) {binder name : Name}
    (hUnused : binder ∈ inner ∨ name ≠ binder) :
    (ofTerm (inner ++ outer) (.var name)).lift inner.length =
      ofTerm (inner ++ binder :: outer) (.var name) := by
  induction inner with
  | nil =>
      have hName : binder ≠ name := by simpa using hUnused.imp_right Ne.symm
      simp [ofTerm_var_cons binder, hName]
  | cons nearest inner ih =>
      simp only [List.cons_append, List.length_cons, ofTerm_var_cons nearest]
      by_cases hNearest : nearest = name
      · simp [hNearest, lift]
      · have hRest : binder ∈ inner ∨ name ≠ binder := by
          rcases hUnused with hMem | hName
          · rcases List.mem_cons.mp hMem with rfl | hInner
            · exact Or.inr (Ne.symm hNearest)
            · exact Or.inl hInner
          · exact Or.inr hName
        rw [if_neg hNearest, if_neg hNearest, lift_lift _ (Nat.zero_le _), ih hRest]

/-- A binder that no free occurrence of the term refers to only makes room for
itself: it is shadowed by one of the inner binders or its name is not free in
the term. -/
theorem lift_ofTerm (t : Term) (inner outer : List Name) {binder : Name}
    (hUnused : binder ∈ inner ∨ t.isFree binder = false) :
    (ofTerm (inner ++ outer) t).lift inner.length = ofTerm (inner ++ binder :: outer) t := by
  induction t generalizing inner with
  | var name =>
      apply lift_ofTerm_var
      simpa [Term.isFree] using hUnused
  | abs param body ih =>
      have hBody : binder ∈ param :: inner ∨ body.isFree binder = false := by
        rcases hUnused with hMem | hFree
        · exact Or.inl (List.mem_cons_of_mem _ hMem)
        · by_cases hParam : param = binder
          · exact Or.inl (hParam ▸ List.mem_cons_self)
          · exact Or.inr (by simpa [Term.isFree, hParam] using hFree)
      simpa [ofTerm, lift] using ih (param :: inner) hBody
  | app fn arg ihFn ihArg =>
      have hParts : binder ∈ inner ∨ fn.isFree binder = false ∧ arg.isFree binder = false := by
        simpa [Term.isFree] using hUnused
      simp only [ofTerm, lift]
      rw [ihFn inner (hParts.imp_right And.left), ihArg inner (hParts.imp_right And.right)]

theorem lift_ofTerm_cons {t : Term} {binder : Name} (scope : List Name)
    (hFree : t.isFree binder = false) :
    (ofTerm scope t).lift 0 = ofTerm (binder :: scope) t :=
  lift_ofTerm t [] scope (Or.inr hFree)

/-- The name that an occurrence or a binder has after `old` was replaced by
`new`. -/
def renamed (old new name : Name) : Name :=
  if name = old then new else name

/-- Names other than the new one stay apart, so renaming confuses no two of
them. -/
theorem renamed_inj (old : Name) {new first second : Name} (hFirst : first ≠ new)
    (hSecond : second ≠ new) : renamed old new first = renamed old new second ↔ first = second := by
  unfold renamed
  by_cases hLeft : first = old <;> by_cases hRight : second = old <;> grind

/-- The case of a single occurrence: it and the binder that it belongs to are
renamed alike, and no other binder takes it over. -/
private theorem ofTerm_rename_var (inner outer : List Name) {old new name : Name}
    (hInner : new ∉ inner) (hName : name ≠ new) :
    ofTerm (inner.map (renamed old new) ++ new :: outer) (.var (renamed old new name)) =
      ofTerm (inner ++ old :: outer) (.var name) := by
  induction inner with
  | nil =>
      simp only [List.map_nil, List.nil_append, ofTerm_var_cons]
      by_cases hOld : name = old
      · simp [renamed, hOld]
      · simp [renamed, hOld, Ne.symm hOld, Ne.symm hName]
  | cons nearest inner ih =>
      rw [List.mem_cons, not_or] at hInner
      have hSame := renamed_inj old (Ne.symm hInner.1) hName
      simp only [List.map_cons, List.cons_append, ofTerm_var_cons, hSame, ih hInner.2]

/-- Renaming the binder between `inner` and `outer` together with everything
below it changes nothing, provided that the new name is not mentioned there.
The inner binders are renamed as well, and the outer ones may be called
anything. -/
theorem ofTerm_rename (t : Term) (inner outer : List Name) {old new : Name}
    (hInner : new ∉ inner) (hNames : new ∉ t.names) :
    ofTerm (inner.map (renamed old new) ++ new :: outer) (t.rename old new) =
      ofTerm (inner ++ old :: outer) t := by
  induction t generalizing inner with
  | var name =>
      have hName : name ≠ new := by simpa [Term.names, eq_comm] using hNames
      exact ofTerm_rename_var inner outer hInner hName
  | abs param body ih =>
      simp only [Term.names, mem_mergeNames, List.mem_singleton, not_or] at hNames
      have hBody : new ∉ param :: inner := by simp [hNames.1, hInner]
      have hSame := ih (param :: inner) hBody hNames.2
      simpa [Term.rename, ofTerm, renamed] using hSame
  | app fn arg ihFn ihArg =>
      simp only [Term.names, mem_mergeNames, not_or] at hNames
      simp only [Term.rename, ofTerm]
      rw [ihFn inner hInner hNames.1, ihArg inner hInner hNames.2]

/-- The nearest binder may be renamed together with everything below it. -/
theorem ofTerm_rename_cons {t : Term} (scope : List Name) {old new : Name}
    (hNames : new ∉ t.names) :
    ofTerm (new :: scope) (t.rename old new) = ofTerm (old :: scope) t :=
  ofTerm_rename t [] scope List.not_mem_nil hNames

end LambdaDiagram.Nameless
