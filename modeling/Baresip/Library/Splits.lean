import Mathlib.Data.List.DropRight
import Baresip.Library.Runs

set_option linter.dupNamespace false

namespace Library

variable {σ τ α : Type*}

section
variable (sep : σ → α → Bool) (next : σ → α → σ)

/-- The pieces of a list between its separators; which elements separate depends on what a machine has read. -/
def splits : σ → List α → List (List α)
  | _, [] => [[]]
  | s, a :: l => if sep s a then [] :: splits (next s a) l else (splits (next s a) l).modifyHead (a :: ·)

end

variable {sep : σ → α → Bool} {next : σ → α → σ} {s : σ} {x y l : List α} {a : α}

theorem splits_ne_nil (l : List α) : splits sep next s l ≠ [] := by
  induction l generalizing s with
  | nil => exact List.cons_ne_nil _ _
  | cons a l ih =>
    rw [splits]
    split
    · exact List.cons_ne_nil _ _
    · rw [ne_eq, List.modifyHead_eq_nil_iff]
      exact ih

theorem splits_quiet (quiet : Along next (fun s a => sep s a = false) s l) : splits sep next s l = [l] := by
  induction l generalizing s with
  | nil => rfl
  | cons a l ih =>
    rw [splits, quiet.1, if_neg Bool.false_ne_true, ih quiet.2, List.modifyHead_cons]

theorem splits_separator (quiet : Along next (fun s a => sep s a = false) s x)
    (separates : sep (x.foldl next s) a = true) :
    splits sep next s (x ++ a :: y) = x :: splits sep next (next (x.foldl next s) a) y := by
  induction x generalizing s with
  | nil => exact if_pos separates
  | cons b x ih =>
    rw [List.cons_append, splits, quiet.1, if_neg Bool.false_ne_true, ih quiet.2 separates, List.modifyHead_cons]
    rfl

variable (sep next s l) in
/-- A list has no separator, or its first piece ends at one. -/
theorem splits_cases : Along next (fun s a => sep s a = false) s l ∨
    ∃ x a y, l = x ++ a :: y ∧ Along next (fun s a => sep s a = false) s x ∧ sep (x.foldl next s) a = true := by
  induction l generalizing s with
  | nil => exact .inl trivial
  | cons b l ih =>
    cases separates : sep s b with
    | true => exact .inr ⟨[], b, l, rfl, trivial, separates⟩
    | false =>
      rcases ih (next s b) with quiet | ⟨x, a, y, rfl, quiet, at_⟩
      · exact .inl ⟨separates, quiet⟩
      · exact .inr ⟨b :: x, a, y, rfl, ⟨separates, quiet⟩, at_⟩

/-- The last piece ends the list, behind the first one and its separator when there are more. -/
theorem splits_last {s : σ} {l : List α} {first : List (List α)} {last : List α}
    (cut : splits sep next s l = first ++ [last]) :
    ∃ done, l = done ++ last ∧
      (first = [] ∧ done = [] ∨ ∃ x rest, first = x :: rest ∧ x <+: done ∧ x.length < done.length) := by
  rcases splits_cases sep next s l with quiet | ⟨x, a, y, rfl, quiet, separates⟩
  · rw [splits_quiet quiet, List.singleton_eq_append_iff] at cut
    rcases cut with ⟨rfl, last_⟩ | ⟨-, none_⟩
    · obtain rfl := List.cons.inj last_ |>.1
      exact ⟨[], rfl, .inl ⟨rfl, rfl⟩⟩
    · exact absurd none_ (List.cons_ne_nil _ _)
  · rw [splits_separator quiet separates, List.cons_eq_append_iff] at cut
    rcases cut with ⟨rfl, last_⟩ | ⟨first', rfl, later⟩
    · exact absurd (List.cons.inj last_).2.symm (splits_ne_nil y)
    · obtain ⟨done, rfl, -⟩ := splits_last later
      refine ⟨x ++ a :: done, by simp, .inr ⟨x, first', rfl, List.prefix_append _ _, ?_⟩⟩
      rw [List.length_append, List.length_cons]
      omega
termination_by l.length
decreasing_by
  subst_vars
  simp only [List.length_append, List.length_cons]
  omega

/-- Two machines split alike as long as they agree on each element that comes. -/
theorem splits_congr {sep' : τ → α → Bool} {next' : τ → α → τ} {R : σ → τ → Prop} {Q : τ → α → Prop}
    (agree : ∀ s t a, R s t → Q t a → sep s a = sep' t a ∧ R (next s a) (next' t a)) {t : τ} (related : R s t)
    (along : Along next' Q t l) : splits sep next s l = splits sep' next' t l := by
  induction l generalizing s t with
  | nil => rfl
  | cons a l ih =>
    obtain ⟨same, stay⟩ := agree s t a related along.1
    rw [splits, splits, same, ih stay along.2]

section
variable (blank : α → Bool)

/-- A list without what is blank at its two ends. -/
def trim (l : List α) : List α := (l.dropWhile blank).rdropWhile blank

/-- How many blanks a list ends with, behind as many others when it is all blank. -/
def trail (n : Nat) (l : List α) : Nat := l.foldl (fun n a => if blank a then n + 1 else 0) n

/-- Where the first element that is not blank stands. -/
def lead (l : List α) : Nat := (l.takeWhile blank).length

end

variable {blank : α → Bool} {n : Nat}

theorem trail_append (n : Nat) (x y : List α) : trail blank n (x ++ y) = trail blank (trail blank n x) y :=
  List.foldl_append

theorem trail_blank (all : ∀ a ∈ x, blank a = true) (n : Nat) : trail blank n x = n + x.length := by
  induction x generalizing n with
  | nil => rfl
  | cons a x ih =>
    rw [List.forall_mem_cons] at all
    show trail blank (if blank a then n + 1 else 0) x = n + (x.length + 1)
    rw [if_pos all.1, ih all.2]
    omega

theorem trail_cons (some_ : blank a = false) (n : Nat) (l : List α) : trail blank n (a :: l) = trail blank 0 l := by
  show trail blank (if blank a then n + 1 else 0) l = trail blank 0 l
  rw [some_, if_neg Bool.false_ne_true]

/-- Where a list is not blank, it matters no more how many blanks came before. -/
theorem trail_reset (n m : Nat) (some_ : ∃ a ∈ l, blank a = false) : trail blank n l = trail blank m l := by
  induction l generalizing n m with
  | nil =>
    obtain ⟨a, member, -⟩ := some_
    exact absurd member List.not_mem_nil
  | cons b l ih =>
    cases plain : blank b with
    | false => rw [trail_cons plain, trail_cons plain]
    | true =>
      obtain ⟨a, member, other⟩ := some_
      rcases List.mem_cons.mp member with rfl | later
      · rw [plain] at other
        contradiction
      · exact ih _ _ ⟨a, later, other⟩

theorem trim_eq_nil : trim blank l = [] ↔ ∀ a ∈ l, blank a = true := by
  rw [trim, List.rdropWhile_eq_nil_iff]
  constructor
  · intro rest
    by_contra some_
    push Not at some_
    have left : l.dropWhile blank ≠ [] := by
      rw [ne_eq, List.dropWhile_eq_nil_iff]
      push Not
      simpa using some_
    have first := List.head_dropWhile_not blank left
    rw [rest _ (List.head_mem left)] at first
    contradiction
  · intro all a member
    exact all a ((List.dropWhile_suffix _).subset member)

/-- A list that is not blank, from its first element that is not. -/
theorem trim_cases (some_ : trim blank l ≠ []) :
    ∃ x a y, l = x ++ a :: y ∧ (∀ b ∈ x, blank b = true) ∧ blank a = false := by
  have left : l.dropWhile blank ≠ [] := by
    intro none_
    rw [trim, none_, List.rdropWhile_nil] at some_
    exact some_ rfl
  obtain ⟨a, y, cons⟩ := List.exists_cons_of_ne_nil left
  have first := List.head_dropWhile_not blank left
  simp only [cons, List.head_cons] at first
  refine ⟨l.takeWhile blank, a, y, ?_, fun b => List.mem_takeWhile_imp, first⟩
  rw [← cons, List.takeWhile_append_dropWhile]

theorem lead_append (all : ∀ b ∈ x, blank b = true) (some_ : blank a = false) : lead blank (x ++ a :: y) = x.length := by
  rw [lead, List.takeWhile_append_of_pos all, List.takeWhile_cons_of_neg (by simp [some_]), List.append_nil]

theorem trim_append (all : ∀ b ∈ x, blank b = true) (some_ : blank a = false) :
    trim blank (x ++ a :: y) = (a :: y).rdropWhile blank := by
  rw [trim, List.dropWhile_append_of_pos all, List.dropWhile_cons_of_neg (by simp [some_])]

theorem lead_front (some_ : trim blank x ≠ []) (y : List α) : lead blank (x ++ y) = lead blank x := by
  obtain ⟨u, a, v, rfl, all, plain⟩ := trim_cases some_
  rw [List.append_assoc, List.cons_append, lead_append all plain, lead_append all plain]

theorem lead_lt (some_ : trim blank x ≠ []) : lead blank x < x.length := by
  obtain ⟨u, a, v, rfl, all, plain⟩ := trim_cases some_
  rw [lead_append all plain, List.length_append, List.length_cons]
  omega

theorem trim_front (all : ∀ b ∈ y, blank b = true) (x : List α) : trim blank (x ++ y) = trim blank x := by
  by_cases some_ : trim blank x = []
  · have both : trim blank (x ++ y) = [] := by
      rw [trim_eq_nil]
      intro a member
      rcases List.mem_append.mp member with front | back
      · exact trim_eq_nil.mp some_ a front
      · exact all a back
    rw [both, some_]
  · obtain ⟨u, a, v, rfl, before, plain⟩ := trim_cases some_
    rw [List.append_assoc, List.cons_append, trim_append before plain, trim_append before plain, List.rdropWhile,
      List.rdropWhile, ← List.cons_append, List.reverse_append, List.dropWhile_append_of_pos]
    exact fun b member => all b (List.mem_reverse.mp member)

theorem trail_le (n : Nat) (l : List α) : trail blank n l ≤ n + l.length := by
  induction l generalizing n with
  | nil => exact Nat.le_refl _
  | cons a l ih =>
    have rest := ih (if blank a then n + 1 else 0)
    show trail blank (if blank a then n + 1 else 0) l ≤ n + (l.length + 1)
    have first : (if blank a then n + 1 else 0) ≤ n + 1 := by split <;> omega
    omega

/-- What is left of a list without the blanks it ends with. -/
theorem take_trail (some_ : blank a = false) (y : List α) :
    (a :: y).take ((a :: y).length - trail blank 0 y) = (a :: y).rdropWhile blank := by
  induction y using List.reverseRecOn with
  | nil => simp [trail, List.rdropWhile_singleton, some_]
  | append_singleton y b ih =>
    rw [trail_append, ← List.cons_append]
    by_cases last : blank b = true
    · rw [List.rdropWhile_concat_pos _ _ _ last, ← ih]
      have room : trail blank 0 y ≤ 0 + y.length := trail_le 0 y
      show (a :: y ++ [b]).take ((a :: y ++ [b]).length - (if blank b then trail blank 0 y + 1 else 0)) = _
      rw [if_pos last, List.length_append, List.length_singleton, Nat.add_sub_add_right,
        List.take_append_of_le_length (Nat.sub_le _ _)]
    · rw [List.rdropWhile_concat_neg _ _ _ last]
      show (a :: y ++ [b]).take ((a :: y ++ [b]).length - (if blank b then trail blank 0 y + 1 else 0)) = _
      rw [if_neg last, Nat.sub_zero, List.take_length]

end Library
