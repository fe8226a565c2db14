import LambdaDiagram.Proofs.Diagram.Addresses
import LambdaDiagram.Proofs.Diagram.Freeness

/-! Connectors. The survey counts the occurrences to the left of each side of an application; here the
leftmost occurrence of a side is searched for among all occurrences of the term. The two agree,
because the occurrences below an address stand next to each other. -/
namespace LambdaDiagram

open Nameless (Address)

namespace Term

/-- The index of the leftmost variable occurrence at or below an address,
counted from the left end of the term. -/
def leftmost? (t : Term) (address : Address) : Option Nat :=
  t.occurrenceAddresses.findIdx? address.isPrefixOf

@[simp] theorem length_occurrenceAddresses (t : Term) :
    t.occurrenceAddresses.length = t.leafCount := by
  induction t with
  | var name => rfl
  | abs param body ih => simp [leafCount, ih]
  | app fn arg ihFn ihArg => simp [leafCount, ihFn, ihArg]

/-- Below one branch there are no occurrences of another. -/
private theorem findIdx?_map_other {branch other : Nameless.Branch} (hOther : branch ≠ other)
    (rest : Address) (occurrences : List Address) :
    (occurrences.map (other :: ·)).findIdx? (branch :: rest).isPrefixOf = none := by
  rw [List.findIdx?_eq_none_iff]
  intro occurrence hMem
  obtain ⟨below, -, rfl⟩ := List.mem_map.mp hMem
  simp [List.isPrefixOf, hOther]

/-- Below the same branch the search goes on as it would inside, with the
first move taken off both sides. -/
private theorem findIdx?_map_same (branch : Nameless.Branch) (rest : Address)
    (occurrences : List Address) :
    (occurrences.map (branch :: ·)).findIdx? (branch :: rest).isPrefixOf =
      occurrences.findIdx? rest.isPrefixOf := by
  rw [List.findIdx?_map]
  congr 1
  funext below
  simp [List.isPrefixOf]

theorem leftmost?_abs (param : Name) (body : Term) (rest : Address) :
    (abs param body).leftmost? (.body :: rest) = body.leftmost? rest := by
  rw [leftmost?, occurrenceAddresses_abs, findIdx?_map_same]
  rfl

/-- Nothing stands to the left of the function, so its occurrences keep their
numbers in the application. -/
theorem leftmost?_fn (fn arg : Term) (rest : Address) :
    (app fn arg).leftmost? (.fn :: rest) = fn.leftmost? rest := by
  rw [leftmost?, occurrenceAddresses_app, List.findIdx?_append, findIdx?_map_same,
    findIdx?_map_other (by simp), Option.map_none, Option.or_none]
  rfl

/-- The occurrences of the argument are numbered on behind those of the
function. -/
theorem leftmost?_arg (fn arg : Term) (rest : Address) :
    (app fn arg).leftmost? (.arg :: rest) = (arg.leftmost? rest).map (· + fn.leafCount) := by
  rw [leftmost?, occurrenceAddresses_app, List.findIdx?_append, findIdx?_map_same,
    findIdx?_map_other (by simp), Option.none_or, List.length_map, length_occurrenceAddresses]
  rfl

/-- Every term has an occurrence, so the leftmost one of the whole term is the
first. -/
@[simp] theorem leftmost?_nil (t : Term) : t.leftmost? [] = some 0 := by
  have hLength : 0 < t.occurrenceAddresses.length := by
    rw [length_occurrenceAddresses]
    exact t.leafCount_pos
  obtain ⟨occurrence, others, hAll⟩ := List.exists_cons_of_length_pos hLength
  simp [leftmost?, hAll, List.isPrefixOf, List.findIdx?_cons]

@[simp] theorem applicationAddresses_abs (param : Name) (body : Term) :
    (abs param body).applicationAddresses = body.applicationAddresses.map (.body :: ·) :=
  addressesOf_abs isApp param body

@[simp] theorem applicationAddresses_app (fn arg : Term) :
    (app fn arg).applicationAddresses =
      [] :: (fn.applicationAddresses.map (.fn :: ·) ++ arg.applicationAddresses.map (.arg :: ·)) :=
  addressesOf_app isApp fn arg

theorem mem_applicationAddresses {t : Term} {address : Address} :
    address ∈ t.applicationAddresses ↔ ∃ fn arg, t.partAt address = some (app fn arg) := by
  rw [applicationAddresses, mem_addressesOf]
  constructor
  · intro hPart
    obtain ⟨part, hPart, hKind⟩ := hPart
    cases part with
    | app fn arg => exact ⟨fn, arg, hPart⟩
    | var name => cases hKind
    | abs param body => cases hKind
  · intro hPart
    obtain ⟨fn, arg, hPart⟩ := hPart
    exact ⟨app fn arg, hPart, rfl⟩

/-- A link joins these two occurrences of a term that begins at the index
`first`. -/
def Joins (t : Term) (first : Nat) (application : Address) (link : Link) : Prop :=
  ∃ left right, t.leftmost? (application ++ [.fn]) = some left ∧
    t.leftmost? (application ++ [.arg]) = some right ∧ link = ⟨first + left, first + right⟩

/-- The survey lists one link for each application, in the order of their
addresses. What is to the right of the function is counted on from its last
occurrence. -/
theorem forall₂_links (first : Nat) (t : Term) :
    List.Forall₂ (t.Joins first) t.applicationAddresses (t.links first) := by
  induction t generalizing first with
  | var name => exact .nil
  | abs param body ih =>
      rw [applicationAddresses_abs, links, List.forall₂_map_left_iff]
      apply (ih first).imp
      intro application link hJoins
      simpa only [Joins, List.cons_append, leftmost?_abs] using hJoins
  | app fn arg ihFn ihArg =>
      rw [applicationAddresses_app, links]
      apply List.Forall₂.cons
      · refine ⟨0, fn.leafCount, ?_, ?_, rfl⟩
        · rw [List.nil_append, leftmost?_fn, leftmost?_nil]
        · rw [List.nil_append, leftmost?_arg, leftmost?_nil, Option.map_some, Nat.zero_add]
      · apply List.rel_append
        · rw [List.forall₂_map_left_iff]
          apply (ihFn first).imp
          intro application link hJoins
          simpa only [Joins, List.cons_append, leftmost?_fn] using hJoins
        · rw [List.forall₂_map_left_iff]
          apply (ihArg (first + fn.leafCount)).imp
          intro application link hJoins
          obtain ⟨left, right, hLeft, hRight, rfl⟩ := hJoins
          refine ⟨left + fn.leafCount, right + fn.leafCount, ?_, ?_, ?_⟩
          · rw [List.cons_append, leftmost?_arg, hLeft, Option.map_some]
          · rw [List.cons_append, leftmost?_arg, hRight, Option.map_some]
          · rw [Nat.add_comm left, Nat.add_comm right, Nat.add_assoc, Nat.add_assoc]

/-- The connectors are those of the applications, one for each of them and in
preorder. A connector joins the columns of the leftmost occurrences of the two
sides, where the occurrences of the whole term are numbered from left to
right. -/
theorem connectors_list_applications_in_preorder (t : Term) :
    List.Forall₂ (fun application connector => ∃ left right,
        t.leftmost? (application ++ [.fn]) = some left ∧
        t.leftmost? (application ++ [.arg]) = some right ∧
        connector = ⟨Grid.column left, Grid.column right, t.layout.height - 60⟩)
      t.applicationAddresses t.layout.connectors ∧
    (∀ address, address ∈ t.applicationAddresses ↔
      ∃ fn arg, t.partAt address = some (app fn arg)) ∧
    t.applicationAddresses.Nodup ∧
    t.layout.connectors.length = t.applicationAddresses.length ∧
    ∀ index, (Grid.column index).toNat = min (30 + 40 * index) 0xFFFFFFFF := by
  have hLinks := forall₂_links 0 t
  refine ⟨?_, fun address => mem_applicationAddresses, nodup_addressesOf isApp t, ?_, ?_⟩
  · show List.Forall₂ _ t.applicationAddresses ((t.links 0).map _)
    rw [List.forall₂_map_right_iff]
    apply hLinks.imp
    intro application link hJoins
    obtain ⟨left, right, hLeft, hRight, rfl⟩ := hJoins
    refine ⟨left, right, hLeft, hRight, ?_⟩
    simp only [Nat.zero_add]
    rfl
  · show ((t.links 0).map _).length = _
    rw [List.length_map, hLinks.length_eq]
  · intro index
    rw [Grid.column, Grid.toNat_clamp, Nat.mul_comm]
    rfl

end Term

end LambdaDiagram
