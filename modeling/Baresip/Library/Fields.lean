import Mathlib.Data.List.TakeWhile

set_option linter.dupNamespace false

namespace Library

variable {α : Type*} (sep : α → Bool)

/-- The longest runs of a list without a separator. -/
def fields (text : List α) : List (List α) := (text.splitOnP sep).filter fun field => !field.isEmpty

variable {sep} {gap run after text : List α}

@[simp] theorem fields_nil : fields sep [] = [] := rfl

theorem fields_separator {a : α} (separates : sep a = true) (text : List α) :
    fields sep (a :: text) = fields sep text := by
  simp [fields, List.splitOnP_cons_eq_if_modifyHead, separates]

theorem fields_gap (separates : ∀ a ∈ gap, sep a = true) (text : List α) :
    fields sep (gap ++ text) = fields sep text := by
  induction gap with
  | nil => rfl
  | cons a gap ih =>
    rw [List.forall_mem_cons] at separates
    rw [List.cons_append, fields_separator separates.1, ih separates.2]

variable (sep) in
/-- A run that ends where a separator comes or the list ends. -/
structure IsField (run after : List α) : Prop where
  some_ : run ≠ []
  inside : ∀ a ∈ run, sep a = false
  ends : ∀ a ∈ after.head?, sep a = true

theorem fields_run (field : IsField sep run after) : fields sep (run ++ after) = run :: fields sep after := by
  have kept : (!run.isEmpty) = true := by simp [field.some_]
  cases after with
  | nil => simp [fields, List.splitOnP_eq_singleton field.inside, kept]
  | cons a after =>
    have separates := field.ends a rfl
    rw [fields_separator separates, fields, List.splitOnP_append_cons_of_forall_mem field.inside a separates]
    exact List.filter_cons_of_pos kept

theorem fields_le_cons (a : α) (text : List α) : (fields sep text).length ≤ (fields sep (a :: text)).length := by
  cases separates : sep a with
  | true => exact Nat.le_of_eq (by rw [fields_separator separates])
  | false =>
    obtain ⟨head, rest, split⟩ := List.exists_cons_of_ne_nil (List.splitOnP_ne_nil sep text)
    simp only [fields, List.splitOnP_cons_eq_if_modifyHead, separates, split, Bool.false_eq_true, if_false,
      List.modifyHead_cons, List.filter_cons, List.isEmpty_cons, Bool.not_false, if_true, List.length_cons]
    split <;> simp

theorem fields_le_append (front text : List α) : (fields sep text).length ≤ (fields sep (front ++ text)).length := by
  induction front with
  | nil => exact Nat.le_refl _
  | cons a front ih => exact Nat.le_trans ih (fields_le_cons a _)

variable (sep) in
/-- A list is all separators, or its first run stands behind a gap. -/
theorem fields_cases (text : List α) :
    (∀ a ∈ text, sep a = true) ∨
    ∃ gap run after, text = gap ++ (run ++ after) ∧ (∀ a ∈ gap, sep a = true) ∧ IsField sep run after := by
  have gap_all : ∀ a ∈ text.takeWhile sep, sep a = true := fun a => List.mem_takeWhile_imp
  by_cases none_ : text.dropWhile sep = []
  · left
    intro a member
    exact List.dropWhile_eq_nil_iff.mp none_ a member
  · right
    refine ⟨text.takeWhile sep, (text.dropWhile sep).takeWhile fun a => !sep a,
      (text.dropWhile sep).dropWhile fun a => !sep a, ?_, gap_all, ?_, ?_, ?_⟩
    · rw [List.takeWhile_append_dropWhile, List.takeWhile_append_dropWhile]
    · obtain ⟨a, rest, cons⟩ := List.exists_cons_of_ne_nil none_
      have first := List.head_dropWhile_not sep none_
      simp only [cons, List.head_cons] at first
      rw [cons, List.takeWhile_cons, first]
      exact List.cons_ne_nil _ _
    · intro a member
      simpa using List.mem_takeWhile_imp member
    · intro a first
      have stops := List.head?_dropWhile_not (fun a => !sep a) (text.dropWhile sep)
      rw [first] at stops
      simpa using stops

theorem fields_empty (separates : ∀ a ∈ text, sep a = true) : fields sep text = [] := by
  have none_ := fields_gap separates []
  rwa [List.append_nil] at none_

theorem fields_sound (text : List α) :
    ∀ run ∈ fields sep text, run ≠ [] ∧ (∀ a ∈ run, sep a = false) ∧ run <:+: text := by
  rcases fields_cases sep text with empty | ⟨gap, run, after, whole, separates, field⟩
  · rw [fields_empty empty]
    exact fun run member => absurd member List.not_mem_nil
  · have shorter : after.length < text.length := by
      have positive := List.length_pos_iff.mpr field.some_
      rw [whole, List.length_append, List.length_append]
      omega
    have inside_ : run <:+: text ∧ after <:+: text := by
      rw [whole]
      exact ⟨⟨gap, after, List.append_assoc _ _ _⟩, ⟨gap ++ run, [], by simp⟩⟩
    rw [whole, fields_gap separates, fields_run field, List.forall_mem_cons, ← whole]
    refine ⟨⟨field.some_, field.inside, inside_.1⟩, ?_⟩
    intro other member
    obtain ⟨some_, inside, within⟩ := fields_sound after other member
    exact ⟨some_, inside, within.trans inside_.2⟩
termination_by text.length

end Library
