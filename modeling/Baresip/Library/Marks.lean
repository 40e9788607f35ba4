import Mathlib.Tactic.Common

set_option linter.dupNamespace false

namespace Library

variable {α : Type*} (here : List α → Bool) (width : Nat)

/-- Where a mark stands in a text, from left to right. The first `skip` elements are still those of the mark
    before. -/
def marks : Nat → Nat → List α → List Nat
  | _, _, [] => []
  | skip + 1, off, _ :: text => marks skip (off + 1) text
  | 0, off, a :: text => if here (a :: text) then off :: marks (width - 1) (off + 1) text else marks 0 (off + 1) text

theorem marks_nil (skip off : Nat) : marks here width skip off [] = [] := by
  cases skip <;> rfl

theorem marks_succ (skip off : Nat) (a : α) (text : List α) :
    marks here width (skip + 1) off (a :: text) = marks here width skip (off + 1) text := rfl

theorem marks_zero (off : Nat) (a : α) (text : List α) :
    marks here width 0 off (a :: text) =
      if here (a :: text) then off :: marks here width (width - 1) (off + 1) text
      else marks here width 0 (off + 1) text := rfl

/-- Each element with the one behind it. -/
def neighbours (l : List α) : List (α × α) := l.zip l.tail

@[simp] theorem neighbours_nil : neighbours ([] : List α) = [] := rfl

@[simp] theorem neighbours_singleton (a : α) : neighbours [a] = [] := rfl

@[simp] theorem neighbours_cons (a b : α) (l : List α) : neighbours (a :: b :: l) = (a, b) :: neighbours (b :: l) := rfl

variable {here width} {before after text : List α} {off skip m : Nat}

theorem mem_of_neighbours {l : List α} {p : α × α} (member : p ∈ neighbours l) : p.1 ∈ l ∧ p.2 ∈ l := by
  obtain ⟨a, b⟩ := p
  obtain ⟨first, second⟩ := List.of_mem_zip member
  exact ⟨first, List.mem_of_mem_tail second⟩

theorem marks_skip : marks here width skip off text = marks here width 0 (off + skip) (text.drop skip) := by
  induction text generalizing off skip with
  | nil => rw [List.drop_nil, marks_nil, marks_nil]
  | cons a text ih =>
    cases skip with
    | zero => rfl
    | succ skip =>
      rw [marks_succ, ih, List.drop_succ_cons]
      congr 1
      omega

theorem marks_none (none_ : ∀ i < text.length, here (text.drop i) = false) : marks here width 0 off text = [] := by
  induction text generalizing off with
  | nil => rfl
  | cons a text ih =>
    have first : here (a :: text) = false := none_ 0 (Nat.succ_pos _)
    rw [marks_zero, first, if_neg (by decide)]
    apply ih
    intro i less
    exact none_ (i + 1) (Nat.succ_lt_succ less)

theorem marks_first (positive : 0 < width) (some_ : after ≠ []) (stands : here after = true)
    (none_ : ∀ i < before.length, here ((before ++ after).drop i) = false) :
    marks here width 0 off (before ++ after) =
      (off + before.length) :: marks here width 0 (off + before.length + width) (after.drop width) := by
  induction before generalizing off with
  | nil =>
    obtain ⟨a, text, rfl⟩ := List.exists_cons_of_ne_nil some_
    obtain ⟨n, rfl⟩ := Nat.exists_eq_succ_of_ne_zero (Nat.ne_of_gt positive)
    rw [List.nil_append, marks_zero, if_pos stands, marks_skip, List.length_nil, List.drop_succ_cons]
    congr 2
    omega
  | cons a before ih =>
    have first : here (a :: (before ++ after)) = false := none_ 0 (Nat.succ_pos _)
    have rest := @ih (off + 1) fun i less => none_ (i + 1) (Nat.succ_lt_succ less)
    rw [List.cons_append, marks_zero, first, if_neg (by decide), rest, List.length_cons, Nat.add_assoc, Nat.add_comm 1]

variable (here text) in
/-- A mark stands nowhere in a text, or somewhere for the first time. -/
theorem marks_cases :
    (∀ i < text.length, here (text.drop i) = false) ∨
      ∃ before after, text = before ++ after ∧ after ≠ [] ∧ here after = true ∧
        ∀ i < before.length, here (text.drop i) = false := by
  induction text with
  | nil => exact .inl nofun
  | cons a text ih =>
    cases first : here (a :: text) with
    | true => exact .inr ⟨[], a :: text, rfl, List.cons_ne_nil _ _, first, nofun⟩
    | false =>
      have later : ∀ {n}, (∀ i < n, here (text.drop i) = false) →
          ∀ i < n + 1, here ((a :: text).drop i) = false := by
        intro n none_ i less
        cases i with
        | zero => exact first
        | succ i => exact none_ i (Nat.lt_of_succ_lt_succ less)
      rcases ih with none_ | ⟨before, after, rfl, some_, stands, none_⟩
      · exact .inl (later none_)
      · exact .inr ⟨a :: before, after, rfl, some_, stands, later none_⟩

theorem marks_sound (member : m ∈ marks here width skip off text) :
    ∃ before after, text = before ++ after ∧ here after = true ∧ m = off + before.length := by
  induction text generalizing off skip with
  | nil =>
    rw [marks_nil] at member
    contradiction
  | cons a text ih =>
    have later : ∀ {skip}, m ∈ marks here width skip (off + 1) text →
        ∃ before after, a :: text = before ++ after ∧ here after = true ∧ m = off + before.length := by
      intro skip member
      obtain ⟨before, after, rfl, stands, rfl⟩ := ih member
      exact ⟨a :: before, after, rfl, stands, by rw [List.length_cons]; omega⟩
    cases skip with
    | succ skip => exact later member
    | zero =>
      rw [marks_zero] at member
      split_ifs at member with stands
      · rcases List.mem_cons.mp member with rfl | behind
        · exact ⟨[], a :: text, rfl, stands, rfl⟩
        · exact later behind
      · exact later member

theorem marks_from (member : m ∈ marks here width skip off text) : off ≤ m := by
  obtain ⟨before, after, -, -, rfl⟩ := marks_sound member
  exact Nat.le_add_right _ _

theorem marks_sorted : (marks here width skip off text).Pairwise (· < ·) := by
  induction text generalizing off skip with
  | nil =>
    rw [marks_nil]
    exact List.Pairwise.nil
  | cons a text ih =>
    cases skip with
    | succ skip => exact ih
    | zero =>
      rw [marks_zero]
      split_ifs
      · exact List.pairwise_cons.mpr ⟨fun m member => marks_from member, ih⟩
      · exact ih

section
variable {l : List Nat} {x : Nat} {ab : Nat × Nat}

/-- Nothing in a sorted list stands between two neighbours. -/
theorem neighbours_around (sorted : l.Pairwise (· < ·)) (pair : ab ∈ neighbours l) (member : x ∈ l) :
    x ≤ ab.1 ∨ ab.2 ≤ x := by
  induction l with
  | nil => contradiction
  | cons a l ih =>
    cases l with
    | nil => contradiction
    | cons b l =>
      obtain ⟨less, rest⟩ := List.pairwise_cons.mp sorted
      rw [neighbours_cons] at pair
      rcases List.mem_cons.mp pair with rfl | later
      · rcases List.mem_cons.mp member with rfl | behind
        · exact .inl (Nat.le_refl _)
        · rcases List.mem_cons.mp behind with rfl | behind
          · exact .inr (Nat.le_refl _)
          · exact .inr (Nat.le_of_lt ((List.pairwise_cons.mp rest).1 x behind))
      · rcases List.mem_cons.mp member with rfl | behind
        · exact .inl (Nat.le_of_lt (less _ (mem_of_neighbours later).1))
        · exact ih rest later behind

theorem neighbours_of_lt {y : Nat} (sorted : l.Pairwise (· < ·)) (member : x ∈ l) (member' : y ∈ l) (less : x < y) :
    ∃ z, (x, z) ∈ neighbours l := by
  induction l with
  | nil => contradiction
  | cons a l ih =>
    obtain ⟨front, rest⟩ := List.pairwise_cons.mp sorted
    have behind : y ∈ l := by
      rcases List.mem_cons.mp member' with rfl | behind
      · rcases List.mem_cons.mp member with rfl | behind
        · exact absurd less (Nat.lt_irrefl _)
        · exact absurd (front x behind) (Nat.lt_asymm less)
      · exact behind
    cases l with
    | nil => contradiction
    | cons b l =>
      rcases List.mem_cons.mp member with rfl | later
      · exact ⟨b, List.mem_cons_self⟩
      · obtain ⟨z, pair⟩ := ih rest later behind
        exact ⟨z, List.mem_cons_of_mem _ pair⟩

/-- The first of at least two. -/
theorem neighbours_head (sorted : l.Pairwise (· < ·)) (first : x ∈ l.dropLast.head?) :
    ∃ y, (x, y) ∈ neighbours l ∧ ∀ z ∈ l, x ≤ z := by
  cases l with
  | nil => contradiction
  | cons a l =>
    cases l with
    | nil => contradiction
    | cons b l =>
      obtain rfl : a = x := Option.some.inj first
      refine ⟨b, List.mem_cons_self, ?_⟩
      intro z member
      rcases List.mem_cons.mp member with rfl | behind
      · exact Nat.le_refl _
      · exact Nat.le_of_lt ((List.pairwise_cons.mp sorted).1 z behind)

/-- The last of at least two. -/
theorem neighbours_last (sorted : l.Pairwise (· < ·)) (last : x ∈ l.tail.getLast?) :
    ∃ y, (y, x) ∈ neighbours l ∧ ∀ z ∈ l, z ≤ x := by
  induction l with
  | nil => contradiction
  | cons a l ih =>
    cases l with
    | nil => contradiction
    | cons b l =>
      obtain ⟨less, rest⟩ := List.pairwise_cons.mp sorted
      cases l with
      | nil =>
        obtain rfl : b = x := Option.some.inj last
        refine ⟨a, List.mem_cons_self, ?_⟩
        intro z member
        rcases List.mem_cons.mp member with rfl | behind
        · exact Nat.le_of_lt (less b (List.mem_singleton_self b))
        · exact Nat.le_of_eq (List.mem_singleton.mp behind)
      | cons c l =>
        rw [List.tail_cons, List.getLast?_cons_cons] at last
        obtain ⟨y, pair, upper⟩ := ih rest last
        refine ⟨y, List.mem_cons_of_mem _ pair, ?_⟩
        intro z member
        rcases List.mem_cons.mp member with rfl | behind
        · exact Nat.le_trans (Nat.le_of_lt (less b List.mem_cons_self)) (upper b List.mem_cons_self)
        · exact upper z behind

/-- Two neighbours lie between two neighbours of those that are kept, when the last one is kept. -/
theorem neighbours_kept {p : Nat → Bool} {h : Nat} (sorted : (h :: l).Pairwise (· < ·))
    (last : ∀ z ∈ l.getLast?, p z = true) (pair : ab ∈ neighbours (h :: l)) :
    ∃ cd ∈ neighbours (h :: l.filter p), cd.1 ≤ ab.1 ∧ ab.2 ≤ cd.2 := by
  induction l generalizing h ab with
  | nil => contradiction
  | cons b l ih =>
    obtain ⟨less, rest⟩ := List.pairwise_cons.mp sorted
    cases kept : p b with
    | true =>
      rw [List.filter_cons_of_pos kept, neighbours_cons]
      rcases List.mem_cons.mp pair with rfl | later
      · exact ⟨(h, b), List.mem_cons_self, Nat.le_refl _, Nat.le_refl _⟩
      · have last_ : ∀ z ∈ l.getLast?, p z = true := by
          cases l with
          | nil => exact nofun
          | cons c l => rwa [List.getLast?_cons_cons] at last
        obtain ⟨cd, member, around⟩ := ih rest last_ later
        exact ⟨cd, List.mem_cons_of_mem _ member, around⟩
    | false =>
      rw [List.filter_cons_of_neg (Bool.eq_false_iff.mp kept)]
      cases l with
      | nil =>
        rw [last b rfl] at kept
        contradiction
      | cons c l =>
        have skipped : (h :: c :: l).Pairwise (· < ·) := sorted.sublist (.cons_cons _ (.cons _ (.refl _)))
        rw [List.getLast?_cons_cons] at last
        have around {ab : Nat × Nat} := @ih ab h skipped last
        have first_ : h ≤ b := Nat.le_of_lt (less b List.mem_cons_self)
        have second : b ≤ c := Nat.le_of_lt ((List.pairwise_cons.mp rest).1 c List.mem_cons_self)
        rcases List.mem_cons.mp pair with rfl | later
        · obtain ⟨cd, member, left, right⟩ := @around (h, c) List.mem_cons_self
          exact ⟨cd, member, left, Nat.le_trans second right⟩
        · rcases List.mem_cons.mp later with rfl | later
          · obtain ⟨cd, member, left, right⟩ := @around (h, c) List.mem_cons_self
            exact ⟨cd, member, Nat.le_trans left first_, right⟩
          · exact around (List.mem_cons_of_mem _ later)

theorem neighbours_filter {p : Nat → Bool} (sorted : l.Pairwise (· < ·)) (first : ∀ z ∈ l.dropLast.head?, p z = true)
    (last : ∀ z ∈ l.tail.getLast?, p z = true) (pair : ab ∈ neighbours l) :
    ∃ cd ∈ neighbours (l.filter p), cd.1 ≤ ab.1 ∧ ab.2 ≤ cd.2 := by
  cases l with
  | nil => contradiction
  | cons a l =>
    cases l with
    | nil => contradiction
    | cons b l =>
      have kept : p a = true := first a rfl
      rw [List.filter_cons_of_pos kept]
      exact neighbours_kept sorted last pair

end

end Library
