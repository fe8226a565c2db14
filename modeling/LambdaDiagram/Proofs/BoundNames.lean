import LambdaDiagram.Diagram
import LambdaDiagram.Proofs.Reduction.Budget
import LambdaDiagram.Term

/-! Diagrams without the names of binders. Taking these names away before or after drawing makes no
difference, and what is then drawn is a function of the nameless form of the term. -/
namespace LambdaDiagram

/-- The occurrence without its name, which is kept only if it is free. -/
def Occurrence.anonymous (o : Occurrence) : Occurrence :=
  if o.depth.isSome then { o with name := "" } else o

def Binder.anonymous (b : Binder) : Binder :=
  { b with name := "" }

def Bar.anonymous (b : Bar) : Bar :=
  { b with label := "λ" }

/-- The label without its text, which is kept only if it names a free
occurrence. -/
def Label.anonymous (l : Label) : Label :=
  if l.bound then { l with text := "" } else l

/-- The diagram without the names of its binders. Everything else is kept. -/
def Scene.anonymous (s : Scene) : Scene :=
  { s with bars := s.bars.map Bar.anonymous, labels := s.labels.map Label.anonymous }

@[simp] theorem Occurrence.depth_anonymous (o : Occurrence) : o.anonymous.depth = o.depth := by
  unfold Occurrence.anonymous
  split <;> rfl

namespace Stem

def anonymous (s : Stem) : Stem :=
  { s with occurrence := s.occurrence.anonymous }

/-- The columns depend on the number and the order of the occurrences only. -/
theorem place_anonymous (occurrences : List Occurrence) :
    place (occurrences.map Occurrence.anonymous) = (place occurrences).map anonymous := by
  apply List.ext_getElem?
  intro index
  simp [place, anonymous, Function.comp_def]

theorem line?_anonymous (bottom : Coordinate) (s : Stem) :
    s.anonymous.line? bottom = s.line? bottom := by
  simp [line?, anonymous]

/-- Taking the name from a stem takes the text from its label exactly if the
occurrence is bound. -/
theorem label_anonymous (y : Coordinate) (s : Stem) :
    s.anonymous.label y = (s.label y).anonymous := by
  cases hDepth : s.occurrence.depth with
  | none => simp [label, anonymous, Label.anonymous, Occurrence.anonymous, hDepth]
  | some depth => simp [label, anonymous, Label.anonymous, Occurrence.anonymous, hDepth]

/-- Which columns belong to a level is read off the depths, which stay as they
are. -/
theorem columnsAt_anonymous (depth : Nat) (stems : List Stem) :
    columnsAt depth (stems.map anonymous) = columnsAt depth stems := by
  simp only [columnsAt, List.filter_map, List.map_map]
  simp only [Function.comp_def, anonymous, Occurrence.depth_anonymous]

/-- A bar keeps its extent when names are taken away, and is missing in the
same cases. -/
theorem bar?_anonymous (stems : List Stem) (binder : Binder) :
    bar? (stems.map anonymous) binder.anonymous = (bar? stems binder).map Bar.anonymous := by
  simp only [bar?, Binder.anonymous, columnsAt_anonymous]
  cases (columnsAt binder.depth stems).min? with
  | none => rfl
  | some left =>
      cases (columnsAt binder.depth stems).max? with
      | none => rfl
      | some right => rfl

end Stem

/-- Names of binders play no part in putting a diagram together but as texts. -/
theorem Scene.anonymous_ofStems (stems : List Stem) (binders : List Binder)
    (connectors : List Connector) (rows : Rows) :
    (ofStems stems binders connectors rows).anonymous =
      ofStems (stems.map Stem.anonymous) (binders.map Binder.anonymous) connectors rows := by
  have hLast : (stems.map Stem.anonymous).getLast?.map Stem.x = stems.getLast?.map Stem.x := by
    rw [List.getLast?_map, Option.map_map]
    rfl
  have hBars : (binders.map Binder.anonymous).filterMap (Stem.bar? (stems.map Stem.anonymous)) =
      (binders.filterMap (Stem.bar? stems)).map Bar.anonymous := by
    rw [List.filterMap_map, List.map_filterMap]
    congr 1
    funext binder
    exact Stem.bar?_anonymous stems binder
  have hLines : (stems.map Stem.anonymous).filterMap (Stem.line? rows.bottom) =
      stems.filterMap (Stem.line? rows.bottom) := by
    rw [List.filterMap_map]
    congr 1
    funext s
    exact s.line?_anonymous rows.bottom
  have hLabels : (stems.map Stem.anonymous).map (Stem.label rows.labels) =
      (stems.map (Stem.label rows.labels)).map Label.anonymous := by
    rw [List.map_map, List.map_map]
    congr 1
    funext s
    exact s.label_anonymous rows.labels
  simp only [ofStems, anonymous, hLast, hBars, hLines, hLabels]

theorem Scene.anonymous_draw (occurrences : List Occurrence) (binders : List Binder)
    (links : List Link) :
    (Scene.draw occurrences binders links).anonymous =
      Scene.draw (occurrences.map Occurrence.anonymous) (binders.map Binder.anonymous) links := by
  simp only [draw, anonymous_ofStems, Stem.place_anonymous, List.length_map]

namespace Nameless

def leafCount : Nameless → Nat
  | bound _ => 1
  | free _ => 1
  | abs body => body.leafCount
  | app fn arg => fn.leafCount + arg.leafCount

def occurrences (depth : Nat) : Nameless → List Occurrence
  | bound index => [⟨"", some (depth - 1 - index)⟩]
  | free name => [⟨name, none⟩]
  | abs body => body.occurrences (depth + 1)
  | app fn arg => fn.occurrences depth ++ arg.occurrences depth

def binders (depth : Nat) : Nameless → List Binder
  | bound _ => []
  | free _ => []
  | abs body => ⟨"", depth⟩ :: body.binders (depth + 1)
  | app fn arg => fn.binders depth ++ arg.binders depth

def links (first : Nat) : Nameless → List Link
  | bound _ => []
  | free _ => []
  | abs body => body.links first
  | app fn arg =>
    ⟨first, first + fn.leafCount⟩ :: (fn.links first ++ arg.links (first + fn.leafCount))

theorem leafCount_ofTerm (scope : List Name) (t : Term) :
    (ofTerm scope t).leafCount = t.leafCount := by
  induction t generalizing scope with
  | var name =>
      rw [ofTerm]
      split <;> rfl
  | abs param body ih => exact ih (param :: scope)
  | app fn arg ihFn ihArg => simp only [ofTerm, leafCount, Term.leafCount, ihFn, ihArg]

/-- The occurrences of the nameless form are those of the term without their
bound names. Counted from outside, an index is the depth of the binder it
points to. -/
theorem occurrences_ofTerm (scope : List Name) (t : Term) :
    (ofTerm scope t).occurrences scope.length =
      (t.occurrences scope).map Occurrence.anonymous := by
  induction t generalizing scope with
  | var name =>
      rw [ofTerm, Term.occurrences]
      cases scope.idxOf? name with
      | none => rfl
      | some index => rfl
  | abs param body ih => exact ih (param :: scope)
  | app fn arg ihFn ihArg =>
      simp only [ofTerm, occurrences, Term.occurrences, ihFn, ihArg, List.map_append]

/-- The binders of the nameless form are those of the term without their
names, in the same order. -/
theorem binders_ofTerm (scope : List Name) (depth : Nat) (t : Term) :
    (ofTerm scope t).binders depth = (t.binders depth).map Binder.anonymous := by
  induction t generalizing scope depth with
  | var name =>
      rw [ofTerm]
      split <;> rfl
  | abs param body ih =>
      simp only [ofTerm, binders, Term.binders, ih, List.map_cons]
      rfl
  | app fn arg ihFn ihArg =>
      simp only [ofTerm, binders, Term.binders, ihFn, ihArg, List.map_append]

theorem links_ofTerm (scope : List Name) (first : Nat) (t : Term) :
    (ofTerm scope t).links first = t.links first := by
  induction t generalizing scope first with
  | var name =>
      rw [ofTerm]
      split <;> rfl
  | abs param body ih => exact ih (param :: scope) first
  | app fn arg ihFn ihArg =>
      simp only [ofTerm, links, Term.links, ihFn, ihArg, leafCount_ofTerm]

/-- The diagram of a nameless term: bars have no name, and neither have bound
occurrences. -/
def layout (t : Nameless) : Scene :=
  Scene.draw (t.occurrences 0) (t.binders 0) (t.links 0)

end Nameless

/-- What is left of a diagram without the names of binders is the diagram of
the nameless form. -/
theorem Term.anonymous_layout (t : Term) : t.layout.anonymous = t.nameless.layout := by
  have hOccurrences : t.nameless.occurrences 0 = (t.occurrences []).map Occurrence.anonymous :=
    Nameless.occurrences_ofTerm [] t
  have hBinders : t.nameless.binders 0 = (t.binders 0).map Binder.anonymous :=
    Nameless.binders_ofTerm [] 0 t
  have hLinks : t.nameless.links 0 = t.links 0 := Nameless.links_ofTerm [] 0 t
  rw [layout, Scene.anonymous_draw, Nameless.layout, hOccurrences, hBinders, hLinks]

end LambdaDiagram

/-! Bound names as text only. Two terms with the same nameless form may be renamed differently on
the way, but their reductions go through the same nameless forms one by one, and their diagrams
differ in texts only. -/
namespace LambdaDiagram.Term

/-- Both terms have a reduct or none has, and the reducts are alpha-equivalent
again, although the binders renamed on the way need not be the same. -/
theorem AlphaEquiv.reduce? {t u : Term} (hAlpha : AlphaEquiv t u) :
    Option.Rel AlphaEquiv t.reduce? u.reduce? := by
  have hSame : t.reduce?.map nameless = u.reduce?.map nameless := by
    rw [map_nameless_reduce?, map_nameless_reduce?, hAlpha]
  cases hFirst : t.reduce? with
  | none =>
      rw [hFirst, Option.map_none, eq_comm, Option.map_eq_none_iff] at hSame
      rw [hSame]
      exact .none
  | some t' =>
      rw [hFirst, Option.map_some, eq_comm, Option.map_eq_some_iff] at hSame
      obtain ⟨u', hSecond, hNameless⟩ := hSame
      rw [hSecond]
      exact .some hNameless.symm

/-- The two trails are equally long and alpha-equivalent term by term. This
carries the comparison of single steps over to whole runs. -/
theorem AlphaEquiv.trail {t u : Term} (hAlpha : AlphaEquiv t u) (count : Nat) :
    (t.trail count).map nameless = (u.trail count).map nameless := by
  induction count generalizing t u with
  | zero => rfl
  | succ count ih =>
      have hSteps := hAlpha.reduce?
      generalize hFirst : t.reduce? = first, hSecond : u.reduce? = second at hSteps
      cases hSteps with
      | none => rw [trail_of_none hFirst, trail_of_none hSecond]
      | some hNext =>
          rw [trail_of_some hFirst, trail_of_some hSecond, List.map_cons, List.map_cons, ih hNext]
          exact congrArg (· :: _) hNext

/-- Within a budget both runs make the same number of steps, agree on whether
a normal form was seen, and end alpha-equivalent. -/
theorem AlphaEquiv.normalize {t u : Term} (hAlpha : AlphaEquiv t u) (budget : Nat) :
    (t.normalize (some budget)).steps = (u.normalize (some budget)).steps ∧
      (t.normalize (some budget)).reachedNormalForm =
        (u.normalize (some budget)).reachedNormalForm ∧
      AlphaEquiv (t.normalize (some budget)).term (u.normalize (some budget)).term := by
  obtain ⟨hTermLeft, hStepsLeft, hReachedLeft⟩ := normalize_along_trail budget t
  obtain ⟨hTermRight, hStepsRight, hReachedRight⟩ := normalize_along_trail budget u
  have hTrail := hAlpha.trail budget
  have hLength : (t.trail budget).length = (u.trail budget).length := by
    simpa using congrArg List.length hTrail
  refine ⟨?_, ?_, ?_⟩
  · rw [hStepsLeft, hStepsRight, hLength]
  · rw [Bool.eq_iff_iff, hReachedLeft, hReachedRight, hLength]
  · rw [hTermLeft, hTermRight]
    calc ((t.trail budget).getLastD t).nameless
        = ((t.trail budget).map nameless).getLastD t.nameless := List.getLastD_map.symm
      _ = ((u.trail budget).map nameless).getLastD u.nameless := by rw [hTrail, hAlpha]
      _ = ((u.trail budget).getLastD u).nameless := List.getLastD_map

/-- Terms that differ in bound names only take the same steps: both have a
reduct or none has, and the reducts again differ in bound names only; within a
budget the same number of steps is made and a normal form is seen in both or
in none. Their diagrams are the same but for the names of bars and of bound
occurrences. -/
theorem bound_names_are_text_only (t u : Term) (hAlpha : AlphaEquiv t u) :
    Option.Rel AlphaEquiv t.reduce? u.reduce? ∧
    (∀ budget,
      (t.normalize (some budget)).steps = (u.normalize (some budget)).steps ∧
      (t.normalize (some budget)).reachedNormalForm =
        (u.normalize (some budget)).reachedNormalForm ∧
      AlphaEquiv (t.normalize (some budget)).term (u.normalize (some budget)).term) ∧
    t.layout.anonymous = u.layout.anonymous := by
  refine ⟨hAlpha.reduce?, hAlpha.normalize, ?_⟩
  calc t.layout.anonymous
      = t.nameless.layout := t.anonymous_layout
    _ = u.nameless.layout := congrArg Nameless.layout hAlpha
    _ = u.layout.anonymous := u.anonymous_layout.symm

/-- The step on the left renames a binder where the one on the right need not:
`(λx.λy.x y) y` and `(λy.λz.y z) y`. -/
theorem bound_names_are_text_only_past_renaming :
    let t := app (abs "x" (abs "y" (app (var "x") (var "y")))) (var "y")
    let u := app (abs "y" (abs "z" (app (var "y") (var "z")))) (var "y")
    AlphaEquiv t u ∧
    t.reduce? = some (abs "y'" (app (var "y") (var "y'"))) ∧
    u.reduce? = some (abs "z" (app (var "y") (var "z"))) ∧
    Option.Rel AlphaEquiv t.reduce? u.reduce? ∧
    (∀ budget,
      (t.normalize (some budget)).steps = (u.normalize (some budget)).steps ∧
      (t.normalize (some budget)).reachedNormalForm =
        (u.normalize (some budget)).reachedNormalForm ∧
      AlphaEquiv (t.normalize (some budget)).term (u.normalize (some budget)).term) ∧
    t.layout.anonymous = u.layout.anonymous := by
  intro t u
  have hAlpha : AlphaEquiv t u := by decide +kernel
  have hLeft : t.reduce? = some (abs "y'" (app (var "y") (var "y'"))) := by decide +kernel
  have hRight : u.reduce? = some (abs "z" (app (var "y") (var "z"))) := by decide +kernel
  exact ⟨hAlpha, hLeft, hRight, bound_names_are_text_only t u hAlpha⟩

end LambdaDiagram.Term
