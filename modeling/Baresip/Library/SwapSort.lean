import Baresip.Library.Loops
import Mathlib.Data.List.Chain

set_option linter.dupNamespace false

namespace Library

section
variable {α : Type*} (before : α → α → Bool)

/-- One pass over the rest of a list with the element that is being moved along: an element that may not stand before
    the next one changes places with it. -/
def carry (x : α) : List α → List α × Bool
  | [] => ([x], false)
  | y :: rest =>
    if before x y then (x :: (carry y rest).1, (carry y rest).2)
    else (y :: (carry x rest).1, true)

def swapPass : List α → List α × Bool
  | [] => ([], false)
  | x :: rest => carry before x rest

def swapBody (l : List α) : List α ⊕ List α :=
  if (swapPass before l).2 then .inl (swapPass before l).1 else .inr (swapPass before l).1

end

section
variable {α : Type*} (key : α → Nat)

def total : List α → Nat
  | [] => 0
  | x :: l => key x + total l

/-- The sum of the keys, each as often as there are elements in front of it. -/
def weight : List α → Nat
  | [] => 0
  | _ :: l => total key l + weight l

/-- Passes until one of them changes nothing. -/
def swapSort (before : α → α → Bool) (l : List α) : List α :=
  (loop (swapBody before) (weight key l + 1) l).getD l

variable {key} {before : α → α → Bool} {x : α} {l : List α}

theorem total_perm {l' : List α} (perm : l.Perm l') : total key l = total key l' := by
  induction perm with
  | nil => rfl
  | cons x _ ih => simp only [total, ih]
  | swap x y l =>
    simp only [total]
    omega
  | trans _ _ ih ih' => exact ih.trans ih'

theorem carry_perm (before : α → α → Bool) (x : α) (l : List α) : (carry before x l).1.Perm (x :: l) := by
  induction l generalizing x with
  | nil => exact .rfl
  | cons y rest ih =>
    unfold carry
    split
    · exact (ih y).cons x
    · exact ((ih x).cons y).trans (.swap x y rest)

theorem swapPass_perm (before : α → α → Bool) (l : List α) : (swapPass before l).1.Perm l := by
  cases l with
  | nil => exact .rfl
  | cons x rest => exact carry_perm before x rest

theorem carry_chain (still : (carry before x l).2 = false) :
    (carry before x l).1 = x :: l ∧ (x :: l).IsChain fun a b => before a b = true := by
  induction l generalizing x with
  | nil => exact ⟨rfl, .singleton x⟩
  | cons y rest ih =>
    unfold carry at still ⊢
    split at still
    · rename_i fits
      obtain ⟨same, chain⟩ := ih still
      rw [if_pos fits, same]
      exact ⟨rfl, .cons_cons fits chain⟩
    · contradiction

theorem carry_weight (order : ∀ a b, before a b = decide (key b ≤ key a)) (x : α) (l : List α) :
    weight key (carry before x l).1 ≤ weight key (x :: l) ∧
      ((carry before x l).2 = true → weight key (carry before x l).1 < weight key (x :: l)) := by
  induction l generalizing x with
  | nil => exact ⟨Nat.le_refl _, nofun⟩
  | cons y rest ih =>
    unfold carry
    split
    · have rests : total key (carry before y rest).1 = total key (y :: rest) := total_perm (carry_perm before y rest)
      obtain ⟨le, lt⟩ := ih y
      simp only [weight, rests] at le lt ⊢
      exact ⟨by omega, fun swapped => Nat.add_lt_add_left (lt swapped) _⟩
    · rename_i refused
      rw [order, decide_eq_true_iff] at refused
      have rests : total key (carry before x rest).1 = total key (x :: rest) := total_perm (carry_perm before x rest)
      obtain ⟨le, -⟩ := ih x
      simp only [weight, total, rests] at le ⊢
      constructor
      · omega
      · intro
        omega

theorem swapBody_lowers (order : ∀ a b, before a b = decide (key b ≤ key a)) {l' : List α}
    (goes : swapBody before l = .inl l') : weight key l' < weight key l := by
  unfold swapBody at goes
  split at goes
  · rename_i swapped
    obtain rfl := Sum.inl.inj goes
    cases l with
    | nil => contradiction
    | cons x rest => exact (carry_weight order x rest).2 swapped
  · contradiction

theorem swapSort_returns (order : ∀ a b, before a b = decide (key b ≤ key a)) (l : List α) :
    Returns (swapBody before) l (swapSort key before l) := by
  obtain ⟨r, result⟩ := loop_of_rank (weight key) (fun s next => swapBody_lowers order)
    (Nat.lt_succ_self (weight key l))
  have same : swapSort key before l = r := by
    unfold swapSort
    rw [result, Option.getD_some]
  rw [same]
  exact ⟨_, result⟩

theorem swapBody_still {r : List α} (order : ∀ a b, before a b = decide (key b ≤ key a))
    (ends : swapBody before l = .inr r) : r = l ∧ r.Pairwise fun a b => key b ≤ key a := by
  unfold swapBody at ends
  split at ends
  · contradiction
  · rename_i still
    obtain rfl := Sum.inr.inj ends
    cases l with
    | nil => exact ⟨rfl, .nil⟩
    | cons x rest =>
      rw [Bool.not_eq_true] at still
      obtain ⟨same, chain⟩ := carry_chain (l := rest) still
      have falling : (x :: rest).IsChain fun a b => key b ≤ key a :=
        chain.imp fun a b fits => by simpa [order] using fits
      have : Trans (fun a b : α => key b ≤ key a) (fun a b => key b ≤ key a) (fun a b => key b ≤ key a) :=
        ⟨fun ab bc => Nat.le_trans bc ab⟩
      have sorted := falling.pairwise
      refine ⟨same, ?_⟩
      show ((carry before x rest).1).Pairwise _
      rw [same]
      exact sorted

theorem swapBody_perm {l' : List α} (goes : swapBody before l = .inl l') : l'.Perm l := by
  unfold swapBody at goes
  split at goes
  · obtain rfl := Sum.inl.inj goes
    exact swapPass_perm before l
  · contradiction

/-- What has been sorted is what there was, the larger keys first. -/
theorem swapSort_spec (order : ∀ a b, before a b = decide (key b ≤ key a)) (l : List α) :
    (swapSort key before l).Perm l ∧ (swapSort key before l).Pairwise fun a b => key b ≤ key a := by
  apply Returns.of_invariant (I := fun s => s.Perm l)
    (Q := fun r => r.Perm l ∧ r.Pairwise fun a b => key b ≤ key a) _ _ .rfl (swapSort_returns order l)
  · intro s next perm goes
    exact (swapBody_perm goes).trans perm
  · intro s r perm ends
    obtain ⟨rfl, sorted⟩ := swapBody_still order ends
    exact ⟨perm, sorted⟩

/-- Elements of one key do not pass each other. -/
theorem carry_filter (order : ∀ a b, before a b = decide (key b ≤ key a)) (k : Nat) (x : α) (l : List α) :
    (carry before x l).1.filter (key · = k) = (x :: l).filter (key · = k) := by
  induction l generalizing x with
  | nil => rfl
  | cons y rest ih =>
    unfold carry
    split
    · simp only [List.filter_cons (x := x), ih y]
    · rename_i refused
      rw [order, decide_eq_true_iff] at refused
      rw [List.filter_cons, ih x]
      by_cases first : key x = k
      · have other : key y ≠ k := by omega
        simp [first, other]
      · simp [first, List.filter_cons]

theorem swapSort_stable (order : ∀ a b, before a b = decide (key b ≤ key a)) (l : List α) (k : Nat) :
    (swapSort key before l).filter (key · = k) = l.filter (key · = k) := by
  apply Returns.of_invariant (I := fun s => s.filter (key · = k) = l.filter (key · = k))
    (Q := fun r => r.filter (key · = k) = l.filter (key · = k)) _ _ rfl (swapSort_returns order l)
  · intro s next same goes
    unfold swapBody at goes
    split at goes
    · obtain rfl := Sum.inl.inj goes
      cases s with
      | nil => exact same
      | cons x rest => exact (carry_filter order k x rest).trans same
    · contradiction
  · intro s r same ends
    obtain ⟨rfl, -⟩ := swapBody_still order ends
    exact same

/-- A list has been sorted: nothing stands in front of what is ahead of it, and elements of which neither is ahead of
    the other have kept their order. -/
structure SortedFrom (ahead : α → α → Bool) (l r : List α) : Prop where
  perm : r.Perm l
  sorted : r.Pairwise fun a b => ahead b a = false
  stable : ∀ x, r.filter (fun a => !ahead a x && !ahead x a) = l.filter fun a => !ahead a x && !ahead x a

theorem swapSort_sorted {ahead : α → α → Bool} (ahead_iff : ∀ a b, ahead a b = true ↔ key b < key a)
    (order : ∀ a b, before a b = decide (key b ≤ key a)) (l : List α) :
    SortedFrom ahead l (swapSort key before l) := by
  obtain ⟨perm, sorted⟩ := swapSort_spec order l
  have ties (x : α) : (fun a => !ahead a x && !ahead x a) = fun a => decide (key a = key x) := by
    funext a
    rw [Bool.eq_iff_iff, Bool.and_eq_true_iff, Bool.not_eq_true', Bool.not_eq_true', Bool.eq_false_iff,
      Bool.eq_false_iff, ne_eq, ne_eq, ahead_iff, ahead_iff, decide_eq_true_iff]
    omega
  constructor
  · exact perm
  · apply sorted.imp
    intro a b le
    rw [Bool.eq_false_iff, ne_eq, ahead_iff, Nat.not_lt]
    exact le
  · intro x
    rw [ties]
    exact swapSort_stable order l (key x)

end

section
variable {α : Type*} {R : α → α → Prop} {x y : α} {l l' : List α}

/-- `l'` is `l` with `x` at the place where a search from the tail stops: in front of `x` stands an element that
    may stand there, and all the elements behind `x` have been passed. -/
def Placed (R : α → α → Prop) (x : α) (l l' : List α) : Prop :=
  ∃ front back, l = front ++ back ∧ l' = front ++ x :: back ∧ (∀ y ∈ front.getLast?, R y x) ∧ ∀ y ∈ back, R x y

theorem Placed.last (front : ∀ y ∈ l.getLast?, R y x) : Placed R x l (l ++ [x]) :=
  ⟨l, [], (List.append_nil l).symm, rfl, front, nofun⟩

theorem Placed.perm (placed : Placed R x l l') : l'.Perm (x :: l) := by
  obtain ⟨front, back, rfl, rfl, -⟩ := placed
  exact List.perm_middle

theorem Placed.mem_iff (placed : Placed R x l l') : y ∈ l' ↔ y = x ∨ y ∈ l := by
  rw [placed.perm.mem_iff, List.mem_cons]

theorem Placed.isChain (placed : Placed R x l l') (chain : l.IsChain R) : l'.IsChain R := by
  obtain ⟨front, back, rfl, rfl, before, after⟩ := placed
  rw [List.isChain_append] at chain ⊢
  obtain ⟨first, last, -⟩ := chain
  refine ⟨first, last.cons fun y member => after y (List.mem_of_mem_head? member), ?_⟩
  intro y member z head
  obtain rfl : x = z := by simpa using head
  exact before y member

theorem Placed.pairwise (trans : ∀ {a b c}, R a b → R b c → R a c) (placed : Placed R x l l')
    (sorted : l.Pairwise R) : l'.Pairwise R := by
  have : Trans R R R := ⟨trans⟩
  exact (placed.isChain sorted.isChain).pairwise

/-- One step of the search, which goes through the reversed list. -/
theorem Placed.pass (after : R x y) (placed : Placed R x l l') : Placed R x (l ++ [y]) (l' ++ [y]) := by
  obtain ⟨front, back, rfl, rfl, before, rest⟩ := placed
  refine ⟨front, back ++ [y], List.append_assoc .., List.append_assoc .., before, ?_⟩
  intro z member
  rcases List.mem_append.mp member with inside | here
  · exact rest z inside
  · obtain rfl := List.mem_singleton.mp here
    exact after

end

end Library
