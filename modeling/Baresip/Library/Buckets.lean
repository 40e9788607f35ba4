import Mathlib.Data.List.Perm.Basic
import Mathlib.Tactic.Common

set_option linter.dupNamespace false

namespace Library

/-- A hash table, whose entries are in lists of which the key says the number. -/
structure Buckets (α : Type*) where
  buckets : List (List α)
  deriving DecidableEq, Repr

/-- The first element that meets a predicate is changed. -/
def changeFirst {α : Type*} (p : α → Bool) (f : α → α) : List α → List α
  | [] => []
  | a :: l => if p a then f a :: l else a :: changeFirst p f l

namespace Buckets

variable {α : Type*} (table : Buckets α) (i : Nat) (p : α → Bool)

def empty (size : Nat) : Buckets α := ⟨List.replicate size []⟩

def lookup : Option α := (table.buckets.getD i []).find? p

def append (a : α) : Buckets α := ⟨table.buckets.modify i (· ++ [a])⟩

def change (f : α → α) : Buckets α := ⟨table.buckets.modify i (changeFirst p f)⟩

def unlink : Buckets α := ⟨table.buckets.modify i fun bucket => bucket.eraseP p⟩

def map (f : α → α) : Buckets α := ⟨table.buckets.map fun bucket => bucket.map f⟩

/-- The entries in the order in which the table is gone through. -/
def entries : List α := table.buckets.flatten

variable {table i p} {a : α}

@[simp] theorem append_size : (table.append i a).buckets.length = table.buckets.length := List.length_modify _ _ _

@[simp] theorem change_size (f : α → α) : (table.change i p f).buckets.length = table.buckets.length := List.length_modify _ _ _

@[simp] theorem unlink_size : (table.unlink i p).buckets.length = table.buckets.length := List.length_modify _ _ _

@[simp] theorem map_size (f : α → α) : (table.map f).buckets.length = table.buckets.length := List.length_map _

@[simp] theorem empty_size (size : Nat) : (empty size : Buckets α).buckets.length = size := List.length_replicate

@[simp] theorem empty_entries (size : Nat) : (empty size : Buckets α).entries = [] :=
  List.flatten_replicate_nil

theorem map_entries (f : α → α) : (table.map f).entries = table.entries.map f := List.map_flatten.symm

/-- One bucket among the others. -/
theorem modify_split (inside : i < table.buckets.length) :
    ∃ front back, table.buckets = front ++ table.buckets.getD i [] :: back ∧
      ∀ f, table.buckets.modify i f = front ++ f (table.buckets.getD i []) :: back := by
  have bucket : table.buckets.getD i [] = table.buckets[i] := by
    rw [List.getD_eq_getElem?_getD, List.getElem?_eq_getElem inside]
    rfl
  refine ⟨table.buckets.take i, table.buckets.drop (i + 1), ?_, ?_⟩
  · rw [bucket, List.getElem_cons_drop, List.take_append_drop]
  · intro f
    rw [List.modify_eq_take_cons_drop inside, bucket]

theorem append_entries (inside : i < table.buckets.length) (a : α) : (table.append i a).entries.Perm (a :: table.entries) := by
  rcases modify_split inside with ⟨front, back, split, modified⟩
  unfold append entries
  dsimp only
  rw [modified, List.flatten_append, List.flatten_cons]
  conv_rhs => rw [split, List.flatten_append, List.flatten_cons]
  rw [List.append_assoc, ← List.append_assoc front.flatten, ← List.append_assoc front.flatten (table.buckets.getD i [])]
  exact List.perm_middle

/-- What is appended is found where nothing was. -/
theorem lookup_append (inside : i < table.buckets.length) (missing : table.lookup i p = none) (meets : p a = true) :
    (table.append i a).lookup i p = some a := by
  have bucket : (table.buckets.modify i (· ++ [a])).getD i [] = table.buckets.getD i [] ++ [a] := by
    rw [List.getD_eq_getElem?_getD, List.getElem?_modify_eq, List.getD_eq_getElem?_getD, List.getElem?_eq_getElem inside]
    rfl
  unfold lookup at missing
  unfold lookup append
  dsimp only
  rw [bucket, List.find?_append, missing, Option.none_or]
  exact List.find?_cons_of_pos meets

theorem changeFirst_find {f : α → α} (keeps : ∀ a, p (f a) = p a) (l : List α) :
    (changeFirst p f l).find? p = (l.find? p).map f := by
  induction l with
  | nil => rfl
  | cons b l ih =>
    unfold changeFirst
    by_cases here : p b = true
    · rw [if_pos here, List.find?_cons_of_pos here, List.find?_cons_of_pos ((keeps b).trans here)]
      rfl
    · rw [if_neg here, List.find?_cons_of_neg here, List.find?_cons_of_neg here, ih]

theorem lookup_change (inside : i < table.buckets.length) {f : α → α} (keeps : ∀ a, p (f a) = p a) :
    (table.change i p f).lookup i p = (table.lookup i p).map f := by
  have bucket : (table.buckets.modify i (changeFirst p f)).getD i [] = changeFirst p f (table.buckets.getD i []) := by
    rw [List.getD_eq_getElem?_getD, List.getElem?_modify_eq, List.getD_eq_getElem?_getD, List.getElem?_eq_getElem inside]
    rfl
  unfold lookup change
  dsimp only
  rw [bucket, changeFirst_find keeps]

theorem lookup_map {f : α → α} (keeps : ∀ a, p (f a) = p a) : (table.map f).lookup i p = (table.lookup i p).map f := by
  have bucket : (table.buckets.map fun bucket => bucket.map f).getD i [] = (table.buckets.getD i []).map f := by
    rw [List.getD_eq_getElem?_getD, List.getElem?_map, List.getD_eq_getElem?_getD]
    cases table.buckets[i]? <;> rfl
  have same : p ∘ f = p := by
    funext a
    exact keeps a
  unfold lookup map
  dsimp only
  rw [bucket, List.find?_map, same]

theorem find_split {l : List α} (found : l.find? p = some a) :
    ∃ front back, l = front ++ a :: back ∧ l.eraseP p = front ++ back ∧ ∀ f, changeFirst p f l = front ++ f a :: back := by
  induction l with
  | nil => cases found
  | cons b l ih =>
    by_cases here : p b = true
    · rw [List.find?_cons_of_pos here] at found
      obtain rfl := Option.some.inj found
      exact ⟨[], l, rfl, List.eraseP_cons_of_pos here, fun f => if_pos here⟩
    · rw [List.find?_cons_of_neg here] at found
      rcases ih found with ⟨front, back, split, erased, changed⟩
      refine ⟨b :: front, back, by rw [split]; rfl, ?_, ?_⟩
      · rw [List.eraseP_cons_of_neg here, erased]
        rfl
      · intro f
        unfold changeFirst
        rw [if_neg here, changed]
        rfl

/-- The entry that is found, and the others. -/
theorem lookup_entries (inside : i < table.buckets.length) (found : table.lookup i p = some a) :
    ∃ others, table.entries.Perm (a :: others) ∧ (table.unlink i p).entries.Perm others ∧
      ∀ f, (table.change i p f).entries.Perm (f a :: others) := by
  rcases modify_split inside with ⟨front, back, split, modified⟩
  rcases find_split found with ⟨before, after_, bucket, erased, changed⟩
  have middle : ∀ x, (front ++ (before ++ x :: after_) :: back).flatten.Perm
      (x :: (front.flatten ++ (before ++ (after_ ++ back.flatten)))) := by
    intro x
    rw [List.flatten_append, List.flatten_cons, List.append_assoc, List.cons_append, ← List.append_assoc,
      ← List.append_assoc front.flatten]
    exact List.perm_middle
  refine ⟨front.flatten ++ (before ++ (after_ ++ back.flatten)), ?_, ?_, ?_⟩
  · unfold entries
    rw [split, bucket]
    exact middle a
  · unfold entries unlink
    dsimp only
    rw [modified, erased, List.flatten_append, List.flatten_cons, List.append_assoc]
  · intro f
    unfold entries change
    dsimp only
    rw [modified, changed]
    exact middle (f a)

end Buckets

end Library
