import LambdaDiagram.Diagram

/-! The survey of a term and the walk over it. The walk fails on terms that are nested too deeply for
a coordinate and on no others; what is drawn after it never fails, and is the diagram. So everything
that is said about the diagram of such a term, which is put together from three separate lists, is
said about what the walk finds. -/
namespace LambdaDiagram

namespace Grid

/-- Clamping keeps a number up to the largest coordinate and replaces all
others by that one. -/
theorem toNat_clamp (n : Nat) : (clamp n).toNat = min n (UInt32.size - 1) := by
  have hSmall : min n (UInt32.size - 1) < UInt32.size :=
    Nat.lt_of_le_of_lt (Nat.min_le_right _ _) (by decide)
  exact UInt32.toNat_ofNat_of_lt' hSmall

/-- Columns do not change their order where they are clamped; at worst they
coincide. -/
theorem column_le_column {i j : Nat} (hLe : i ≤ j) : column i ≤ column j := by
  rw [UInt32.le_iff_toNat_le, column, column, toNat_clamp, toNat_clamp]
  have hColumns : i * columnSpacing ≤ j * columnSpacing := Nat.mul_le_mul_right _ hLe
  omega

theorem add?_of_lt {a b : Coordinate} (hFits : a.toNat + b.toNat < UInt32.size) :
    add? a b = some (a + b) :=
  if_pos hFits

theorem sub?_of_le {a b : Coordinate} (hLe : b.toNat ≤ a.toNat) : sub? a b = some (a - b) :=
  if_pos hLe

theorem toNat_add_of_lt {a b : Coordinate} (hFits : a.toNat + b.toNat < UInt32.size) :
    (a + b).toNat = a.toNat + b.toNat := by
  rw [UInt32.toNat_add]
  exact Nat.mod_eq_of_lt hFits

/-- No diagram is lower than that of a single variable, not even where its
height is clamped. -/
theorem le_toNat_height (abstractions : Nat) : 130 ≤ (height abstractions).toNat := by
  rw [height, toNat_clamp, level, toNat_clamp]
  simp only [padding, levelHeight, labelSpace, UInt32.size]
  omega

/-- What is measured from the lower edge of a diagram is inside of it, clamped
or not. -/
theorem toNat_height_sub (abstractions : Nat) {distance : Coordinate}
    (hDistance : distance.toNat ≤ 130) :
    (height abstractions - distance).toNat = (height abstractions).toNat - distance.toNat := by
  apply UInt32.toNat_sub_of_le
  rw [UInt32.le_iff_toNat_le]
  exact Nat.le_trans hDistance (le_toNat_height abstractions)

theorem sub?_height (abstractions : Nat) {distance : Coordinate} (hDistance : distance.toNat ≤ 130) :
    sub? (height abstractions) distance = some (height abstractions - distance) :=
  sub?_of_le (Nat.le_trans hDistance (le_toNat_height abstractions))

end Grid

/-- The heights of the rows can be computed for every number of abstractions,
because there is always room for them above the lower edge. -/
theorem Rows.below?_eq (abstractions : Nat) :
    Rows.below? abstractions = some (Rows.below abstractions) := by
  have hConnectors : Grid.sub? (Grid.height abstractions) 60 =
      some (Grid.height abstractions - 60) := Grid.sub?_height abstractions (by decide)
  have hBottom : Grid.sub? (Grid.height abstractions) 50 =
      some (Grid.height abstractions - 50) := Grid.sub?_height abstractions (by decide)
  have hLt := (Grid.height abstractions).toNat_lt
  have hLabels : Grid.add? (Grid.height abstractions - 50) 15 =
      some (Grid.height abstractions - 50 + 15) := by
    apply Grid.add?_of_lt
    rw [Grid.toNat_height_sub abstractions (by decide)]
    simp only [UInt32.reduceToNat, UInt32.size]
    omega
  simp only [below?, hConnectors, hBottom, hLabels, Option.bind_eq_bind, Option.bind_some]
  rfl

namespace Term

/-- The largest number of abstractions of which each one is inside of the one
before. -/
def nesting : Term → Nat
  | var _ => 0
  | abs _ body => body.nesting + 1
  | app fn arg => max fn.nesting arg.nesting

/-- Every term has an occurrence, because terms end in variables. -/
theorem leafCount_pos (t : Term) : 0 < t.leafCount := by
  induction t with
  | var name => exact Nat.one_pos
  | abs param body ih => exact ih
  | app fn arg ihFn ihArg => exact Nat.add_pos_left ihFn _

theorem length_occurrences (scope : List Name) (t : Term) :
    (t.occurrences scope).length = t.leafCount := by
  induction t generalizing scope with
  | var name => rfl
  | abs param body ih => exact ih (param :: scope)
  | app fn arg ihFn ihArg => rw [occurrences, List.length_append, ihFn, ihArg, leafCount]

/-- An application links two occurrences of its own, the right one of which is
further right. -/
theorem of_mem_links {t : Term} {first : Nat} {link : Link} (hMem : link ∈ t.links first) :
    link.left < link.right ∧ link.right < first + t.leafCount := by
  induction t generalizing first with
  | var name => cases hMem
  | abs param body ih => exact ih hMem
  | app fn arg ihFn ihArg =>
      have hFnPos := fn.leafCount_pos
      have hArgPos := arg.leafCount_pos
      rw [leafCount]
      rcases List.mem_cons.mp hMem with rfl | hParts
      · simp only
        omega
      · rcases List.mem_append.mp hParts with hFn | hArg
        · have hInside := ihFn hFn
          omega
        · have hInside := ihArg hArg
          omega

end Term

namespace Stem

theorem length_place (occurrences : List Occurrence) :
    (place occurrences).length = occurrences.length :=
  List.length_mapIdx

/-- The stem of an occurrence stands in the column of its index, for all
indices that there are. -/
theorem getElem?_place (occurrences : List Occurrence) (index : Nat) :
    (place occurrences)[index]? = occurrences[index]?.map (⟨·, Grid.column index⟩) :=
  List.getElem?_mapIdx

end Stem

namespace Sketch

/-- Both scopes find the same binders. -/
def Agree (scope : List (Name × Coordinate)) (names : List Name) : Prop :=
  ∀ name, (scope.lookup name).map UInt32.toNat =
    (names.idxOf? name).map (names.length - 1 - ·)

theorem agree_nil : Agree [] [] := fun _ => rfl

/-- Going into an abstraction keeps the scopes in agreement. The new binder is
found first in both of them, and its depth is the number of those around it. -/
theorem Agree.cons {scope : List (Name × Coordinate)} {names : List Name} (hAgree : Agree scope names)
    {depth : Coordinate} (hDepth : depth.toNat = names.length) (param : Name) :
    Agree ((param, depth) :: scope) (param :: names) := by
  intro name
  rw [List.lookup_cons, List.idxOf?_cons]
  by_cases hParam : param = name
  · simp [hParam, hDepth]
  · have hOther : (name == param) = false := by simpa using Ne.symm hParam
    simp [hParam, hOther, hAgree name, Function.comp_def, Nat.sub_sub, Nat.add_comm]

/-- A slot that was left behind is filled later. -/
private theorem insertIdx_length_append {α : Type} (front back : List α) (x : α) :
    (front ++ back).insertIdx front.length x = front ++ x :: back := by
  induction front with
  | nil => rfl
  | cons head front ih => simp [ih]

theorem place_concat (seen : List Occurrence) (o : Occurrence) :
    Stem.place (seen ++ [o]) = Stem.place seen ++ [⟨o, Grid.column seen.length⟩] :=
  List.mapIdx_concat

/-- Every side of an application has an occurrence, so each application is
linked. The slot that its link goes into was left behind before the two sides
were walked over. -/
theorem join_place {seen left right : List Occurrence} (hLeft : 0 < left.length)
    (hRight : 0 < right.length) (binders binders' binders'' : List Binder)
    (links inner inner' : List Link) :
    join ⟨Stem.place seen, binders, links⟩ ⟨Stem.place (seen ++ left), binders', inner⟩
        ⟨Stem.place (seen ++ left ++ right), binders'', links ++ inner'⟩ =
      ⟨Stem.place (seen ++ left ++ right), binders'',
        links ++ ⟨seen.length, seen.length + left.length⟩ :: inner'⟩ := by
  simp only [join, Stem.length_place, List.length_append]
  rw [if_pos (by omega), insertIdx_length_append]

/-- The walk adds to each list what the survey of the term has for it, unless
depths become too large. What was found before is generalised in the
induction, because the argument of an application is walked over with the
finds of the function. -/
theorem walk?_eq {depth : Coordinate} {scope : List (Name × Coordinate)} {names : List Name}
    (hDepth : depth.toNat = names.length) (hAgree : Agree scope names) (t : Term)
    (seen : List Occurrence) (binders : List Binder) (links : List Link) :
    walk? depth scope t ⟨Stem.place seen, binders, links⟩ =
      if names.length + t.nesting < UInt32.size then
        some ⟨Stem.place (seen ++ t.occurrences names), binders ++ t.binders names.length,
          links ++ t.links seen.length⟩
      else none := by
  induction t generalizing depth scope names seen binders links with
  | var name =>
      have hSmall : names.length + (Term.var name).nesting < UInt32.size :=
        hDepth ▸ depth.toNat_lt
      rw [if_pos hSmall, walk?, hAgree name, Stem.length_place, Term.occurrences, place_concat,
        Term.binders, Term.links, List.append_nil, List.append_nil]
  | abs param body ih =>
      have hOne : (1 : Coordinate).toNat = 1 := rfl
      by_cases hFits : depth.toNat + (1 : Coordinate).toNat < UInt32.size
      · have hBelow : (depth + 1).toNat = (param :: names).length := by
          rw [Grid.toNat_add_of_lt hFits, hDepth, hOne, List.length_cons]
        have hNesting : (param :: names).length + body.nesting =
            names.length + (Term.abs param body).nesting := by
          rw [List.length_cons, Term.nesting]
          omega
        rw [walk?, Grid.add?_of_lt hFits, Option.bind_eq_bind, Option.bind_some,
          ih hBelow (hAgree.cons hDepth param), hNesting, hDepth, List.append_assoc]
        rfl
      · have hDeep : ¬ names.length + (Term.abs param body).nesting < UInt32.size := by
          rw [Term.nesting]
          omega
        rw [walk?, Grid.add?, if_neg hFits, if_neg hDeep]
        rfl
  | app fn arg ihFn ihArg =>
      by_cases hFits : names.length + (Term.app fn arg).nesting < UInt32.size
      · rw [if_pos hFits]
        rw [Term.nesting] at hFits
        have hFn : names.length + fn.nesting < UInt32.size := by omega
        have hArg : names.length + arg.nesting < UInt32.size := by omega
        have hFnLeaves := fn.length_occurrences names
        have hArgLeaves := arg.length_occurrences names
        have hFnPos := fn.leafCount_pos
        have hArgPos := arg.leafCount_pos
        rw [walk?, ihFn hDepth hAgree, if_pos hFn, Option.bind_eq_bind, Option.bind_some,
          ihArg hDepth hAgree, if_pos hArg, Option.bind_some, List.append_assoc links,
          join_place (by omega) (by omega), List.length_append, hFnLeaves, List.append_assoc seen,
          List.append_assoc binders]
        rfl
      · rw [if_neg hFits]
        rw [Term.nesting] at hFits
        rw [walk?, ihFn hDepth hAgree, Option.bind_eq_bind]
        split
        · have hArg : ¬ names.length + arg.nesting < UInt32.size := by omega
          rw [Option.bind_some, ihArg hDepth hAgree, if_neg hArg]
          rfl
        · rfl

/-- A mapping that succeeds on every element. -/
private theorem mapM_eq_some {α β : Type} {f : α → Option β} {g : α → β} {xs : List α}
    (hEach : ∀ x ∈ xs, f x = some (g x)) : xs.mapM f = some (xs.map g) := by
  induction xs with
  | nil => rfl
  | cons x xs ih =>
      have hRest := ih fun y hMem => hEach y (List.mem_cons_of_mem x hMem)
      rw [List.mapM_cons, hEach x List.mem_cons_self, hRest]
      rfl

theorem getElem?_place_of_lt (t : Term) {index : Nat} (hIndex : index < t.leafCount) :
    ∃ s, (Stem.place (t.occurrences []))[index]? = some s ∧ s.x = Grid.column index := by
  have hLength := t.length_occurrences []
  rw [Stem.getElem?_place, List.getElem?_eq_getElem (by omega)]
  exact ⟨_, rfl, rfl⟩

/-- The links of a term name occurrences that were placed, so no connector is
missing an end. -/
theorem connector?_of_mem_links {t : Term} {link : Link} (hMem : link ∈ t.links 0)
    (binders : List Binder) (links : List Link) (y : Coordinate) :
    connector? ⟨Stem.place (t.occurrences []), binders, links⟩ y link =
      some ⟨Grid.column link.left, Grid.column link.right, y⟩ := by
  obtain ⟨hOrder, hInside⟩ := Term.of_mem_links hMem
  rw [Nat.zero_add] at hInside
  obtain ⟨left, hLeft, hLeftColumn⟩ := getElem?_place_of_lt t (Nat.lt_trans hOrder hInside)
  obtain ⟨right, hRight, hRightColumn⟩ := getElem?_place_of_lt t hInside
  simp only [connector?, hLeft, hRight, Option.bind_eq_bind, Option.bind_some, hLeftColumn,
    hRightColumn]

/-- Nothing can fail once the walk is over: the rows are there for every
number of abstractions, and so is the end of every connector. -/
theorem draw?_eq (t : Term) :
    draw? ⟨Stem.place (t.occurrences []), t.binders 0, t.links 0⟩ = some t.layout := by
  have hConnectors : ∀ y, (t.links 0).mapM
      (connector? ⟨Stem.place (t.occurrences []), t.binders 0, t.links 0⟩ y) =
        some ((t.links 0).map fun link => ⟨Grid.column link.left, Grid.column link.right, y⟩) :=
    fun y => mapM_eq_some fun link hMem => connector?_of_mem_links hMem _ _ y
  simp only [draw?, Rows.below?_eq, hConnectors, Option.bind_eq_bind, Option.bind_some]
  rfl

end Sketch

namespace Term

/-- The walk and the drawing after it give the diagram, and fail exactly for
terms that are nested too deeply. This ties the diagram to the computation
that goes over the term once with a stack of binders. -/
theorem layoutChecked?_eq (t : Term) :
    t.layoutChecked? = if t.nesting < UInt32.size then some t.layout else none := by
  have hDepth : (0 : Coordinate).toNat = ([] : List Name).length := rfl
  have hWalk := Sketch.walk?_eq hDepth Sketch.agree_nil t [] [] []
  rw [List.length_nil, Nat.zero_add, List.nil_append, List.nil_append, List.nil_append] at hWalk
  show (Sketch.walk? 0 [] t ⟨Stem.place [], [], []⟩).bind Sketch.draw? = _
  rw [hWalk]
  split
  · exact Sketch.draw?_eq t
  · rfl

end Term

end LambdaDiagram
