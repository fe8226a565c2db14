import LambdaDiagram.Diagram
import LambdaDiagram.Proofs.Reduction.FirstRedex
import Mathlib.Data.List.Forall2
import Mathlib.Data.List.Infix
import Mathlib.Data.List.Nodup

/-! Occurrences, abstractions and applications as parts of one term, told apart by their addresses.
The survey passes down the names of the binders around a part; here the binder of an occurrence is
looked up on the way back to the root. Both find the same one. -/
namespace LambdaDiagram

open Nameless (Address)

/-- The number of abstractions around the part at an address. -/
def Nameless.depth (address : Address) : Nat :=
  address.count .body

@[simp] theorem Nameless.depth_body (rest : Address) : depth (.body :: rest) = depth rest + 1 := by
  simp [depth]

/-- Only abstractions are counted. Going into a side of an application does
not change the depth. -/
theorem Nameless.depth_side {branch : Branch} (hBranch : branch ≠ .body) (rest : Address) :
    depth (branch :: rest) = depth rest := by
  simp [depth, hBranch]

namespace Term

def partAt : Term → Address → Option Term
  | t, [] => some t
  | abs _ body, .body :: rest => body.partAt rest
  | app fn _, .fn :: rest => fn.partAt rest
  | app _ arg, .arg :: rest => arg.partAt rest
  | _, _ => none

/-- The addresses of all parts in preorder: a term before its parts, the
function of an application before the argument. -/
def addresses : Term → List Address
  | var _ => [[]]
  | abs _ body => [] :: body.addresses.map (.body :: ·)
  | app fn arg => [] :: (fn.addresses.map (.fn :: ·) ++ arg.addresses.map (.arg :: ·))

/-- The addresses of the parts of one kind, in the same order. -/
def addressesOf (kind : Term → Bool) (t : Term) : List Address :=
  t.addresses.filter fun address => (t.partAt address).any kind

def isVar : Term → Bool
  | var _ => true
  | _ => false

def isApp : Term → Bool
  | app _ _ => true
  | _ => false

def occurrenceAddresses (t : Term) : List Address :=
  t.addressesOf isVar

def binderAddresses (t : Term) : List Address :=
  t.addressesOf isAbs

def applicationAddresses (t : Term) : List Address :=
  t.addressesOf isApp

theorem mem_addresses {t : Term} {address : Address} :
    address ∈ t.addresses ↔ (t.partAt address).isSome = true := by
  induction t generalizing address with
  | var name => cases address <;> simp [addresses, partAt]
  | abs param body ih =>
      rcases address with _ | ⟨branch, rest⟩
      · simp [addresses, partAt]
      · cases branch <;> simp [addresses, partAt, ih]
  | app fn arg ihFn ihArg =>
      rcases address with _ | ⟨branch, rest⟩
      · simp [addresses, partAt]
      · cases branch <;> simp [addresses, partAt, ihFn, ihArg]

/-- No part is listed twice, because the addresses of different branches begin
differently. -/
theorem nodup_addresses (t : Term) : t.addresses.Nodup := by
  induction t with
  | var name => simp [addresses]
  | abs param body ih =>
      rw [addresses, List.nodup_cons]
      exact ⟨by simp, ih.map List.cons_injective⟩
  | app fn arg ihFn ihArg =>
      rw [addresses, List.nodup_cons, List.nodup_append]
      refine ⟨by simp, ihFn.map List.cons_injective, ihArg.map List.cons_injective, ?_⟩
      intro left hLeft right hRight
      obtain ⟨restLeft, -, rfl⟩ := List.mem_map.mp hLeft
      obtain ⟨restRight, -, rfl⟩ := List.mem_map.mp hRight
      simp

/-- The list of one kind has exactly the addresses that lead to a part of that
kind; none is missing. -/
theorem mem_addressesOf {kind : Term → Bool} {t : Term} {address : Address} :
    address ∈ t.addressesOf kind ↔ ∃ part, t.partAt address = some part ∧ kind part = true := by
  rw [addressesOf, List.mem_filter, mem_addresses]
  cases t.partAt address <;> simp

theorem nodup_addressesOf (kind : Term → Bool) (t : Term) : (t.addressesOf kind).Nodup :=
  t.nodup_addresses.filter _

theorem addressesOf_var (kind : Term → Bool) (name : Name) :
    (var name).addressesOf kind = if kind (var name) then [[]] else [] := by
  simp only [addressesOf, addresses, partAt, List.filter_cons, Option.any_some, List.filter_nil]
  rfl

/-- The parts of an abstraction are itself and those of its body. Whether it
counts itself depends on the kind only. -/
theorem addressesOf_abs (kind : Term → Bool) (param : Name) (body : Term) :
    (abs param body).addressesOf kind =
      (if kind (abs param body) then [[]] else []) ++
        (body.addressesOf kind).map (.body :: ·) := by
  simp only [addressesOf, addresses, partAt, List.filter_cons, Option.any_some, List.filter_map,
    Function.comp_def]
  split <;> rfl

/-- The parts of an application are itself, those of the function and those of
the argument, in this order. -/
theorem addressesOf_app (kind : Term → Bool) (fn arg : Term) :
    (app fn arg).addressesOf kind =
      (if kind (app fn arg) then [[]] else []) ++
        ((fn.addressesOf kind).map (.fn :: ·) ++ (arg.addressesOf kind).map (.arg :: ·)) := by
  simp only [addressesOf, addresses, partAt, List.filter_cons, Option.any_some, List.filter_append,
    List.filter_map, Function.comp_def]
  split <;> rfl

@[simp] theorem occurrenceAddresses_var (name : Name) :
    (var name).occurrenceAddresses = [[]] :=
  addressesOf_var isVar name

@[simp] theorem occurrenceAddresses_abs (param : Name) (body : Term) :
    (abs param body).occurrenceAddresses = body.occurrenceAddresses.map (.body :: ·) :=
  addressesOf_abs isVar param body

@[simp] theorem occurrenceAddresses_app (fn arg : Term) :
    (app fn arg).occurrenceAddresses =
      fn.occurrenceAddresses.map (.fn :: ·) ++ arg.occurrenceAddresses.map (.arg :: ·) :=
  addressesOf_app isVar fn arg

@[simp] theorem binderAddresses_abs (param : Name) (body : Term) :
    (abs param body).binderAddresses = [] :: body.binderAddresses.map (.body :: ·) :=
  addressesOf_abs isAbs param body

@[simp] theorem binderAddresses_app (fn arg : Term) :
    (app fn arg).binderAddresses =
      fn.binderAddresses.map (.fn :: ·) ++ arg.binderAddresses.map (.arg :: ·) :=
  addressesOf_app isAbs fn arg

def nameAt? (t : Term) (address : Address) : Option Name :=
  match t.partAt address with
  | some (var name) => some name
  | _ => none

def paramAt? (t : Term) (address : Address) : Option Name :=
  match t.partAt address with
  | some (abs param _) => some param
  | _ => none

/-- The innermost abstraction with this parameter on the way to an address:
the longest beginning of the address that leads to one. -/
def innermost? (t : Term) (name : Name) (address : Address) : Option Address :=
  address.inits.reverse.find? fun outer => t.paramAt? outer == some name

/-- The abstraction that binds the variable occurrence at an address. -/
def binder? (t : Term) (address : Address) : Option Address :=
  (t.nameAt? address).bind fun name => t.innermost? name address

theorem mem_occurrenceAddresses_of_nameAt? {t : Term} {address : Address} {name : Name}
    (hName : t.nameAt? address = some name) : address ∈ t.occurrenceAddresses := by
  apply mem_addressesOf.mpr
  unfold nameAt? at hName
  split at hName
  · next part hPart => exact ⟨var part, hPart, rfl⟩
  · cases hName

theorem mem_binderAddresses_of_paramAt? {t : Term} {address : Address} {param : Name}
    (hParam : t.paramAt? address = some param) : address ∈ t.binderAddresses := by
  apply mem_addressesOf.mpr
  unfold paramAt? at hParam
  split at hParam
  · next part body hPart => exact ⟨abs part body, hPart, rfl⟩
  · cases hParam

/-- A binder has the name of the occurrence that it binds, and both addresses
lead where they should. -/
theorem exists_name_of_binder? {t : Term} {occurrence binder : Address}
    (hBinder : t.binder? occurrence = some binder) :
    ∃ name, t.nameAt? occurrence = some name ∧ t.paramAt? binder = some name := by
  obtain ⟨name, hName, hInnermost⟩ := Option.bind_eq_some_iff.mp hBinder
  exact ⟨name, hName, by simpa using List.find?_some hInnermost⟩

section Lookup

variable {t part : Term} {branch : Nameless.Branch}

/-- What is below the root is looked up there first. Only if nothing is found
there the root itself comes into question. -/
theorem innermost?_cons (hPart : ∀ rest, t.partAt (branch :: rest) = part.partAt rest) (name : Name)
    (rest : Address) :
    t.innermost? name (branch :: rest) =
      ((part.innermost? name rest).map (branch :: ·)).or
        (if t.paramAt? [] = some name then some [] else none) := by
  have hBelow : ((t.paramAt? · == some name) ∘ (branch :: ·)) = (part.paramAt? · == some name) := by
    funext outer
    show (t.paramAt? (branch :: outer) == some name) = (part.paramAt? outer == some name)
    rw [paramAt?, paramAt?, hPart]
  rw [innermost?, List.inits_cons, List.reverse_cons, ← List.map_reverse, List.find?_append,
    List.find?_map, hBelow]
  by_cases hRoot : t.paramAt? [] = some name <;>
    simp [innermost?, hRoot]

/-- The depth of the abstraction that binds the occurrence at an address,
where the whole term is below the binders in `scope`. -/
def bindingDepth? (t : Term) (scope : List Name) (address : Address) : Option Nat :=
  (t.nameAt? address).bind fun name =>
    ((t.innermost? name address).map (scope.length + Nameless.depth ·)).or
      ((scope.idxOf? name).map (scope.length - 1 - ·))

/-- With no binders around the term, the depth is that of the binder found
inside of it. -/
theorem bindingDepth?_nil (t : Term) (address : Address) :
    t.bindingDepth? [] address = (t.binder? address).map Nameless.depth := by
  rw [bindingDepth?, binder?, Option.map_bind]
  congr 1
  funext name
  simp

/-- An abstraction on the way down is the nearest binder around its body. -/
theorem bindingDepth?_abs (param : Name) (body : Term) (scope : List Name) (rest : Address) :
    (abs param body).bindingDepth? scope (.body :: rest) =
      body.bindingDepth? (param :: scope) rest := by
  have hName : (abs param body).nameAt? (.body :: rest) = body.nameAt? rest := rfl
  rw [bindingDepth?, bindingDepth?, hName]
  congr 1
  funext name
  rw [innermost?_cons (fun rest => rfl), List.idxOf?_cons]
  cases body.innermost? name rest with
  | some outer =>
      simp
      omega
  | none =>
      by_cases hParam : param = name
      · simp [paramAt?, partAt, hParam, Nameless.depth]
      · simp [paramAt?, partAt, hParam, Function.comp_def, Nat.sub_sub, Nat.add_comm]

/-- A side of an application is below the same binders as the application. -/
theorem bindingDepth?_side (hPart : ∀ rest, t.partAt (branch :: rest) = part.partAt rest)
    (hRoot : t.paramAt? [] = none) (hBranch : branch ≠ .body) (scope : List Name) (rest : Address) :
    t.bindingDepth? scope (branch :: rest) = part.bindingDepth? scope rest := by
  have hName : t.nameAt? (branch :: rest) = part.nameAt? rest := by rw [nameAt?, nameAt?, hPart]
  rw [bindingDepth?, bindingDepth?, hName]
  congr 1
  funext name
  rw [innermost?_cons hPart, hRoot]
  simp [Function.comp_def, Nameless.depth_side hBranch]

end Lookup

/-- The survey finds for every occurrence the binder that is found from its
address. By induction on the term, with the scope passed down. -/
theorem map_depth_occurrences (scope : List Name) (t : Term) :
    (t.occurrences scope).map Occurrence.depth =
      t.occurrenceAddresses.map (t.bindingDepth? scope) := by
  induction t generalizing scope with
  | var name => simp [occurrences, bindingDepth?, nameAt?, partAt, innermost?, paramAt?]
  | abs param body ih =>
      rw [occurrences, ih, occurrenceAddresses_abs, List.map_map]
      congr 1
      funext rest
      exact (bindingDepth?_abs param body scope rest).symm
  | app fn arg ihFn ihArg =>
      rw [occurrences, List.map_append, ihFn, ihArg, occurrenceAddresses_app, List.map_append,
        List.map_map, List.map_map]
      congr 2
      · funext rest
        exact (bindingDepth?_side (fun rest => rfl) rfl (by simp) scope rest).symm
      · funext rest
        exact (bindingDepth?_side (fun rest => rfl) rfl (by simp) scope rest).symm

/-- The survey lists the abstractions in the order of their addresses, each
with its parameter and the number of abstractions around it. -/
theorem forall₂_binders (depth : Nat) (t : Term) :
    List.Forall₂ (fun address (binder : Binder) => t.paramAt? address = some binder.name ∧
      binder.depth = depth + Nameless.depth address) t.binderAddresses (t.binders depth) := by
  induction t generalizing depth with
  | var name => exact .nil
  | abs param body ih =>
      rw [binderAddresses_abs, binders]
      apply List.Forall₂.cons ⟨rfl, rfl⟩
      apply List.forall₂_map_left_iff.mpr
      apply (ih (depth + 1)).imp
      intro address binder hBinder
      obtain ⟨hParam, hDepth⟩ := hBinder
      refine ⟨hParam, ?_⟩
      rw [hDepth, Nameless.depth_body]
      omega
  | app fn arg ihFn ihArg =>
      rw [binderAddresses_app, binders]
      apply List.rel_append
      · exact List.forall₂_map_left_iff.mpr (ihFn depth)
      · exact List.forall₂_map_left_iff.mpr (ihArg depth)

end Term

end LambdaDiagram
