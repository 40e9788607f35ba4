import Mathlib.Data.List.Rotate

set_option linter.dupNamespace false

namespace Library

variable {α : Type*}

/-- Each result is the head of a queue, which then moves to the end of it. -/
def Serves : List α → List α → Prop
  | _, [] => True
  | queue, r :: results => ∃ rest, queue = r :: rest ∧ Serves (rest ++ [r]) results

/-- Any results that follow each other, as many as there are members, are all the members. -/
def RoundRobin (members results : List α) : Prop :=
  ∀ i, i + members.length ≤ results.length → ((results.drop i).take members.length).Perm members

theorem Serves.front {front back results : List α} (serves : Serves (front ++ back) results)
    (long : front.length ≤ results.length) : results.take front.length = front := by
  induction front generalizing back results with
  | nil => rfl
  | cons a front ih =>
    cases results with
    | nil => simp at long
    | cons r results =>
      obtain ⟨rest, same, later⟩ := serves
      rw [List.cons_append] at same
      obtain ⟨rfl, rfl⟩ := List.cons.inj same
      rw [List.append_assoc] at later
      rw [List.length_cons, List.take_succ_cons, ih later (Nat.le_of_succ_le_succ long)]

theorem Serves.roundRobin {queue results : List α} (serves : Serves queue results) :
    RoundRobin queue results := by
  intro i
  induction i generalizing queue results with
  | zero =>
    intro long
    rw [← List.append_nil queue] at serves
    rw [List.drop_zero, serves.front (by simpa using long)]
  | succ i ih =>
    intro long
    cases results with
    | nil => simp at long
    | cons r results =>
      obtain ⟨rest, rfl, later⟩ := serves
      have size : (rest ++ [r]).length = (r :: rest).length := by simp
      have window := ih later (by rw [size]; simp only [List.length_cons] at long ⊢; omega)
      rw [size] at window
      exact window.trans (List.perm_append_singleton r rest)

theorem roundRobin_nil (members : List α) : RoundRobin members [] := by
  intro i long
  rw [List.length_nil] at long
  have empty : members = [] := List.eq_nil_of_length_eq_zero (by omega)
  simp [empty]

theorem RoundRobin.of_perm {members members' results : List α} (robin : RoundRobin members results)
    (perm : members.Perm members') : RoundRobin members' results := by
  intro i long
  rw [← perm.length_eq] at long ⊢
  exact (robin i long).trans perm

def moveFirst (p : α → Bool) (l : List α) : List α :=
  match l.find? p with
  | none => l
  | some a => l.eraseP p ++ [a]

variable {p : α → Bool} {l rest : List α} {a : α}

theorem find?_of_filter (first : l.filter p = a :: rest) : l.find? p = some a := by
  rw [← List.head?_filter, first, List.head?_cons]

theorem filter_eraseP (p : α → Bool) (l : List α) : (l.eraseP p).filter p = (l.filter p).tail := by
  induction l with
  | nil => rfl
  | cons b l ih =>
    by_cases here : p b = true
    · rw [List.eraseP_cons_of_pos here, List.filter_cons_of_pos here, List.tail_cons]
    · rw [List.eraseP_cons_of_neg here, List.filter_cons_of_neg here, List.filter_cons_of_neg here, ih]

theorem moveFirst_filter (first : l.filter p = a :: rest) : (moveFirst p l).filter p = rest ++ [a] := by
  have found := find?_of_filter first
  have holds : p a = true := List.find?_some found
  simp only [moveFirst, found]
  rw [List.filter_append, filter_eraseP, first, List.tail_cons, List.filter_singleton, holds, cond_true]

theorem moveFirst_perm (p : α → Bool) (l : List α) : (moveFirst p l).Perm l := by
  unfold moveFirst
  cases found : l.find? p with
  | none => rfl
  | some a =>
    obtain ⟨holds, before, after, rfl, clear⟩ := List.find?_eq_some_iff_append.mp found
    have none_ : ∀ b ∈ before, ¬ p b = true := by simpa using clear
    simp only
    rw [List.eraseP_append_right _ none_, List.eraseP_cons_of_pos holds, List.append_assoc]
    exact (List.perm_append_singleton a after).append_left before

end Library
