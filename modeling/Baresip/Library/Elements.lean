import Mathlib.Data.List.TakeWhile

set_option linter.dupNamespace false

namespace Library

variable {α : Type*}

/-- Elements in a row, with one separator in front of the first and another in front of each later one. -/
def strung (sep sep' : α) : List (List α) → List α
  | [] => []
  | x :: xs => sep :: (x ++ strung sep' sep' xs)

@[simp] theorem strung_nil (sep sep' : α) : strung sep sep' [] = [] := rfl

@[simp] theorem strung_cons (sep sep' : α) (x : List α) (xs : List (List α)) :
    strung sep sep' (x :: xs) = sep :: (x ++ strung sep' sep' xs) := rfl

variable {sep sep' : α} {x w text : List α} {xs : List (List α)}

theorem strung_head : ∀ c ∈ (strung sep sep' xs).head?, c = sep := by
  cases xs with
  | nil => exact nofun
  | cons x xs =>
    rintro c ⟨⟩
    rfl

theorem strung_append (sep sep' : α) (xs ys : List (List α)) :
    strung sep sep' (xs ++ ys) = strung sep sep' xs ++ strung (if xs = [] then sep else sep') sep' ys := by
  induction xs generalizing sep with
  | nil => rfl
  | cons x xs ih =>
    rw [List.cons_append, strung_cons, strung_cons, ih, ite_self, if_neg (List.cons_ne_nil x xs)]
    simp

theorem strung_intercalate (x : List α) (xs : List (List α)) :
    strung sep sep' (x :: xs) = sep :: [sep'].intercalate (x :: xs) := by
  induction xs generalizing x sep with
  | nil => simp [List.intercalate_singleton]
  | cons y xs ih =>
    rw [strung_cons, ih, List.intercalate_cons_cons]
    simp

/-- What follows a place in the row is behind a separator, or it is inside an element and what is behind that. -/
theorem suffix_strung (suffix : w <:+ strung sep sep' xs) (more : w ≠ []) :
    (∃ before x after, xs = before ++ x :: after ∧
      w = (if before = [] then sep else sep') :: (x ++ strung sep' sep' after)) ∨
    ∃ before x after v, xs = before ++ x :: after ∧ v ≠ [] ∧ v <:+ x ∧ w = v ++ strung sep' sep' after := by
  induction xs generalizing sep with
  | nil => exact absurd (List.suffix_nil.mp suffix) more
  | cons x xs ih =>
    rw [strung_cons, List.suffix_cons_iff] at suffix
    rcases suffix with rfl | ⟨front, whole⟩
    · exact .inl ⟨[], x, xs, rfl, rfl⟩
    have from_ : (∃ v, v ≠ [] ∧ v <:+ x ∧ w = v ++ strung sep' sep' xs) ∨ w <:+ strung sep' sep' xs := by
      rcases List.append_eq_append_iff.mp whole with ⟨v, split, rest⟩ | ⟨v, -, rest⟩
      · by_cases empty : v = []
        · rw [empty, List.nil_append] at rest
          exact .inr (rest ▸ List.suffix_rfl)
        · exact .inl ⟨v, empty, ⟨front, split.symm⟩, rest⟩
      · exact .inr ⟨v, rest.symm⟩
    rcases from_ with ⟨v, some_, inside, rest⟩ | behind
    · exact .inr ⟨[], x, xs, v, rfl, some_, inside, rest⟩
    · rcases ih behind with ⟨before, y, after, split, rest⟩ | ⟨before, y, after, v, split, rest⟩
      · refine .inl ⟨x :: before, y, after, by rw [split, List.cons_append], ?_⟩
        rw [rest, ite_self, if_neg (List.cons_ne_nil x before)]
      · exact .inr ⟨x :: before, y, after, v, by rw [split, List.cons_append], rest⟩

variable [DecidableEq α]

/-- The elements of a text that begins with a separator. -/
def unstrung (sep : α) (text : List α) : List (List α) := if text = [] then [] else text.tail.splitOn sep

theorem strung_unstrung (begins : ∀ c ∈ text.head?, c = sep) : strung sep sep' (unstrung sep' text) = text := by
  unfold unstrung
  cases text with
  | nil => rfl
  | cons c text =>
    rw [if_neg (List.cons_ne_nil c text), List.tail_cons]
    obtain ⟨x, xs, split⟩ := List.exists_cons_of_ne_nil (List.splitOn_ne_nil sep' text)
    rw [split, strung_intercalate, ← split, List.intercalate_splitOn, begins c rfl]

theorem splitOn_without {a : α} : ∀ x ∈ text.splitOn a, a ∉ x := by
  induction text with
  | nil => simp
  | cons c text ih =>
    rw [List.splitOn_cons_eq_if_modifyHead]
    split_ifs with separates
    · exact List.forall_mem_cons.mpr ⟨List.not_mem_nil, ih⟩
    · obtain ⟨y, ys, split⟩ := List.exists_cons_of_ne_nil (List.splitOn_ne_nil a text)
      rw [split, List.forall_mem_cons] at ih
      rw [split, List.modifyHead_cons, List.forall_mem_cons]
      refine ⟨List.not_mem_cons_of_ne_of_not_mem ?_ ih.1, ih.2⟩
      rintro rfl
      exact separates (beq_self_eq_true a)

theorem unstrung_without : ∀ x ∈ unstrung sep text, sep ∉ x := by
  unfold unstrung
  split_ifs
  · exact nofun
  · exact splitOn_without

end Library
