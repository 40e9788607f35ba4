import Mathlib.Data.List.Basic
import Mathlib.Order.Defs.LinearOrder
import Mathlib.Order.Lattice
import Mathlib.Tactic.Common

set_option linter.dupNamespace false

namespace Library

variable {α κ : Type*}

/-- An element is put before the first one that meets `p`, or else at the end. -/
def insertBefore (p : α → Bool) (a : α) (l : List α) : List α :=
  l.takeWhile (fun b => !p b) ++ a :: l.dropWhile fun b => !p b

/-- An element is put behind the last one that meets `p`, or else at the front. -/
def insertBehind (p : α → Bool) (a : α) (l : List α) : List α :=
  (l.reverse.dropWhile fun b => !p b).reverse ++ a :: (l.reverse.takeWhile fun b => !p b).reverse

section
variable {p : α → Bool} {a : α} {l front back : List α} {R : α → α → Prop}

theorem insertBefore_perm (p : α → Bool) (a : α) (l : List α) : (insertBefore p a l).Perm (a :: l) := by
  have whole : l = l.takeWhile (fun b => !p b) ++ l.dropWhile fun b => !p b := List.takeWhile_append_dropWhile.symm
  conv_rhs => rw [whole]
  exact List.perm_middle

theorem insertBehind_perm (p : α → Bool) (a : α) (l : List α) : (insertBehind p a l).Perm (a :: l) := by
  have whole : l = (l.reverse.dropWhile fun b => !p b).reverse ++ (l.reverse.takeWhile fun b => !p b).reverse := by
    rw [← List.reverse_append, List.takeWhile_append_dropWhile, List.reverse_reverse]
  conv_rhs => rw [whole]
  exact List.perm_middle

theorem insertBefore_split (before : ∀ b ∈ front, p b = false) (behind : ∀ b ∈ back, p b = true) :
    insertBefore p a (front ++ back) = front ++ a :: back := by
  have all : ∀ b ∈ front, (!p b) = true := fun b mem => by rw [before b mem]; rfl
  have none_ : back.takeWhile (fun b => !p b) = [] ∧ back.dropWhile (fun b => !p b) = back := by
    cases back with
    | nil => exact ⟨rfl, rfl⟩
    | cons b back =>
      have meets := behind b List.mem_cons_self
      simp [meets]
  unfold insertBefore
  rw [List.takeWhile_append_of_pos all, List.dropWhile_append_of_pos all, none_.1, none_.2, List.append_nil]

theorem insertBehind_split (before : ∀ b ∈ front, p b = true) (behind : ∀ b ∈ back, p b = false) :
    insertBehind p a (front ++ back) = front ++ a :: back := by
  have all : ∀ b ∈ back.reverse, (!p b) = true := fun b mem => by
    rw [behind b (List.mem_reverse.mp mem)]
    rfl
  have none_ : front.reverse.takeWhile (fun b => !p b) = [] ∧ front.reverse.dropWhile (fun b => !p b) = front.reverse := by
    cases last : front.reverse with
    | nil => exact ⟨rfl, rfl⟩
    | cons b rest =>
      have meets := before b (List.mem_reverse.mp (last ▸ List.mem_cons_self))
      simp [meets]
  unfold insertBehind
  rw [List.reverse_append, List.takeWhile_append_of_pos all, List.dropWhile_append_of_pos all, none_.1, none_.2,
    List.append_nil, List.reverse_reverse, List.reverse_reverse]

theorem pairwise_insert (sorted : (front ++ back).Pairwise R) (before : ∀ b ∈ front, R b a) (behind : ∀ b ∈ back, R a b) :
    (front ++ a :: back).Pairwise R := by
  rcases List.pairwise_append.mp sorted with ⟨first, second, across⟩
  apply List.pairwise_append.mpr
  refine ⟨first, List.pairwise_cons.mpr ⟨behind, second⟩, ?_⟩
  intro b mem c held
  rcases List.mem_cons.mp held with rfl | held
  · exact before b mem
  · exact across b mem c held

variable [LinearOrder κ] {key : α → κ}

/-- A sorted list is cut behind the keys that are not greater. -/
theorem sorted_cut (sorted : l.Pairwise fun a b => key a ≤ key b) (k : κ) : ∃ front back, l = front ++ back ∧
    (∀ b ∈ front, key b ≤ k) ∧ ∀ b ∈ back, k < key b := by
  induction l with
  | nil => exact ⟨[], [], rfl, by simp, by simp⟩
  | cons b l ih =>
    rcases List.pairwise_cons.mp sorted with ⟨least, others⟩
    by_cases small : key b ≤ k
    · rcases ih others with ⟨front, back, rfl, before, behind⟩
      refine ⟨b :: front, back, rfl, ?_, behind⟩
      intro c mem
      rcases List.mem_cons.mp mem with rfl | mem
      · exact small
      · exact before c mem
    · have large : k < key b := lt_of_not_ge small
      refine ⟨[], b :: l, rfl, by simp, ?_⟩
      intro c mem
      rcases List.mem_cons.mp mem with rfl | mem
      · exact large
      · exact lt_of_lt_of_le large (least c mem)

/-- From whichever end the place is searched, an element comes behind those with the same key. -/
theorem insert_stable (sorted : l.Pairwise R) (keyed : l.Pairwise fun a b => key a ≤ key b) (k : κ)
    (before : ∀ b ∈ l, key b ≤ k → R b a) (behind : ∀ b ∈ l, k < key b → R a b) :
    (insertBefore (fun b => decide (k < key b)) a l).Pairwise R ∧
      (insertBehind (fun b => decide (key b ≤ k)) a l).Pairwise R := by
  rcases sorted_cut keyed k with ⟨front, back, rfl, small, large⟩
  have placed := pairwise_insert sorted (fun b mem => before b (List.mem_append_left _ mem) (small b mem))
    fun b mem => behind b (List.mem_append_right _ mem) (large b mem)
  constructor
  · rw [insertBefore_split (fun b mem => decide_eq_false (not_lt.mpr (small b mem))) fun b mem => decide_eq_true (large b mem)]
    exact placed
  · rw [insertBehind_split (fun b mem => decide_eq_true (small b mem)) fun b mem => decide_eq_false (not_le.mpr (large b mem))]
    exact placed

end

end Library
