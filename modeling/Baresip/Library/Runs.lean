import Mathlib.Tactic.Common

set_option linter.dupNamespace false

namespace Library

variable {σ α : Type*} (step : σ → α → σ)

/-- `P` holds in every state a run passes through, the first and the last included. -/
def Throughout (P : σ → Prop) : σ → List α → Prop
  | s, [] => P s
  | s, a :: as => P s ∧ Throughout P (step s a) as

/-- Every step of a run is taken in a state where its action meets `Q`. -/
def Along (Q : σ → α → Prop) : σ → List α → Prop
  | _, [] => True
  | s, a :: as => Q s a ∧ Along Q (step s a) as

section
variable {step} {P P' : σ → Prop} {Q Q' : σ → α → Prop} {s : σ} {a : α} {as bs : List α}

@[simp] theorem throughout_nil : Throughout step P s [] ↔ P s := Iff.rfl
@[simp] theorem throughout_cons :
    Throughout step P s (a :: as) ↔ P s ∧ Throughout step P (step s a) as := Iff.rfl
@[simp] theorem along_nil : Along step Q s [] := trivial
@[simp] theorem along_cons : Along step Q s (a :: as) ↔ Q s a ∧ Along step Q (step s a) as := Iff.rfl

theorem Throughout.first (h : Throughout step P s as) : P s := by
  cases as with
  | nil => exact h
  | cons a as => exact h.1

theorem Throughout.last (h : Throughout step P s as) : P (as.foldl step s) := by
  induction as generalizing s with
  | nil => exact h
  | cons a as ih => exact ih h.2

theorem Throughout.mono (h : Throughout step P s as) (imp : ∀ s, P s → P' s) : Throughout step P' s as := by
  induction as generalizing s with
  | nil => exact imp _ h
  | cons a as ih => exact ⟨imp _ h.1, ih h.2⟩

theorem Along.mono (h : Along step Q s as) (imp : ∀ s a, Q s a → Q' s a) : Along step Q' s as := by
  induction as generalizing s with
  | nil => trivial
  | cons a as ih => exact ⟨imp s a h.1, ih h.2⟩

theorem Along.and_forall {R : α → Prop} (h : Along step Q s as) (all : ∀ a ∈ as, R a) :
    Along step (fun s a => R a ∧ Q s a) s as := by
  induction as generalizing s with
  | nil => trivial
  | cons a as ih =>
    rw [List.forall_mem_cons] at all
    exact ⟨⟨all.1, h.1⟩, ih h.2 all.2⟩

theorem along_of_forall {R : α → Prop} (all : ∀ a ∈ as, R a) : Along step (fun _ => R) s as := by
  induction as generalizing s with
  | nil => trivial
  | cons a as ih =>
    rw [List.forall_mem_cons] at all
    exact ⟨all.1, ih all.2⟩

theorem along_append : Along step Q s (as ++ bs) ↔ Along step Q s as ∧ Along step Q (as.foldl step s) bs := by
  induction as generalizing s with
  | nil => simp
  | cons a as ih => simp [ih, and_assoc]

theorem along_congr (same : ∀ s a, Q s a ↔ Q' s a) : Along step Q s as ↔ Along step Q' s as :=
  ⟨fun h => h.mono fun s a => (same s a).mp, fun h => h.mono fun s a => (same s a).mpr⟩

theorem throughout_of_guarded (keeps : ∀ s a, P s → Q s a → P (step s a))
    (start : P s) (guarded : Along step Q s as) : Throughout step P s as := by
  induction as generalizing s with
  | nil => exact start
  | cons a as ih => exact ⟨start, ih (keeps s a start guarded.1) guarded.2⟩

theorem along_of_guarded (keeps : ∀ s a, P s → Q s a → P (step s a) ∧ Q' s a) (start : P s)
    (guarded : Along step Q s as) : Along step Q' s as := by
  induction as generalizing s with
  | nil => trivial
  | cons a as ih =>
    have next := keeps s a start guarded.1
    exact ⟨next.2, ih next.1 guarded.2⟩

theorem along_of_throughout (needs : ∀ s a, P (step s a) → Q s a) (h : Throughout step P s as) : Along step Q s as := by
  induction as generalizing s with
  | nil => trivial
  | cons a as ih => exact ⟨needs s a h.2.first, ih h.2⟩

theorem throughout_of_invariant (keeps : ∀ s a, P s → P (step s a)) (start : P s) :
    Throughout step P s as := by
  induction as generalizing s with
  | nil => exact start
  | cons a as ih => exact ⟨start, ih (keeps s a start)⟩

/-- When a guard is exactly what a step needs to keep an invariant, the runs that keep the invariant
    throughout are exactly those whose steps all meet the guard. -/
theorem throughout_iff_along (exact_ : ∀ s a, P s → (P (step s a) ↔ Q s a)) (start : P s) :
    Throughout step P s as ↔ Along step Q s as := by
  induction as generalizing s with
  | nil => simp [start]
  | cons a as ih =>
    simp only [throughout_cons, along_cons]
    constructor
    · rintro ⟨_, rest⟩
      have next := rest.first
      exact ⟨(exact_ s a start).mp next, (ih next).mp rest⟩
    · rintro ⟨guard, rest⟩
      have next := (exact_ s a start).mpr guard
      exact ⟨start, (ih next).mpr rest⟩

theorem along_of_invariant {I : σ → Prop} (keeps : ∀ s a, I s → I (step s a)) (each : ∀ s a, I s → Q s a)
    (start : I s) : Along step Q s as := by
  induction as generalizing s with
  | nil => trivial
  | cons a as ih => exact ⟨each s a start, ih (keeps s a start)⟩

/-- Where an invariant makes a condition on the action alone decide whether a step is as it should be. -/
theorem along_iff_forall_of_invariant {I : σ → Prop} {R : α → Prop} (keeps : ∀ s a, I s → I (step s a))
    (exact_ : ∀ s a, I s → (Q s a ↔ R a)) (start : I s) : Along step Q s as ↔ ∀ a ∈ as, R a := by
  induction as generalizing s with
  | nil => simp
  | cons a as ih => rw [along_cons, List.forall_mem_cons, exact_ s a start, ih (keeps s a start)]

/-- The same beside an invariant that every step keeps. -/
theorem throughout_iff_along_of_invariant {I : σ → Prop} (keeps : ∀ s a, I s → I (step s a))
    (exact_ : ∀ s a, I s → P s → (P (step s a) ↔ Q s a)) (start : I s) (first : P s) :
    Throughout step P s as ↔ Along step Q s as := by
  induction as generalizing s with
  | nil => simp [first]
  | cons a as ih =>
    simp only [throughout_cons, along_cons]
    constructor
    · rintro ⟨_, rest⟩
      have next := rest.first
      exact ⟨(exact_ s a start first).mp next, (ih (keeps s a start) next).mp rest⟩
    · rintro ⟨guard, rest⟩
      have next := (exact_ s a start first).mpr guard
      exact ⟨first, (ih (keeps s a start) next).mpr rest⟩

/-- The same where the guard is what a step needs to keep `P` and to meet `Q'` as well. -/
theorem throughout_and_along_iff {I : σ → Prop} (keeps : ∀ s a, I s → I (step s a))
    (exact_ : ∀ s a, I s → P s → (P (step s a) ∧ Q' s a ↔ Q s a)) (start : I s) (first : P s) :
    Throughout step P s as ∧ Along step Q' s as ↔ Along step Q s as := by
  induction as generalizing s with
  | nil => simp [first]
  | cons a as ih =>
    simp only [throughout_cons, along_cons]
    constructor
    · rintro ⟨⟨_, rest⟩, met, along⟩
      have next := rest.first
      exact ⟨(exact_ s a start first).mp ⟨next, met⟩, (ih (keeps s a start) next).mp ⟨rest, along⟩⟩
    · rintro ⟨guard, rest⟩
      have next := (exact_ s a start first).mpr guard
      have run := (ih (keeps s a start) next.1).mpr rest
      exact ⟨⟨first, run.1⟩, next.2, run.2⟩

/-- Repeating one action reaches a goal when it keeps an invariant and lowers a rank until then. -/
theorem reaches_of_rank {P Goal : σ → Prop} (rank : σ → Nat) (a : α)
    (lowers : ∀ s, P s → ¬ Goal s → P (step s a) ∧ rank (step s a) < rank s) (s : σ) (start : P s) :
    ∃ n, Goal ((List.replicate n a).foldl step s) := by
  by_cases there : Goal s
  · exact ⟨0, there⟩
  · obtain ⟨kept, lower⟩ := lowers s start there
    obtain ⟨n, reached⟩ := reaches_of_rank rank a lowers (step s a) kept
    exact ⟨n + 1, reached⟩
termination_by rank s

end

def throughoutDecidable (P : σ → Prop) [DecidablePred P] :
    (s : σ) → (as : List α) → Decidable (Throughout step P s as)
  | s, [] => inferInstanceAs (Decidable (P s))
  | s, a :: as =>
    have : Decidable (Throughout step P (step s a) as) := throughoutDecidable P (step s a) as
    inferInstanceAs (Decidable (P s ∧ Throughout step P (step s a) as))

instance (P : σ → Prop) [DecidablePred P] (s : σ) (as : List α) : Decidable (Throughout step P s as) :=
  throughoutDecidable step P s as

def alongDecidable (Q : σ → α → Prop) [∀ s a, Decidable (Q s a)] :
    (s : σ) → (as : List α) → Decidable (Along step Q s as)
  | _, [] => inferInstanceAs (Decidable True)
  | s, a :: as =>
    have : Decidable (Along step Q (step s a) as) := alongDecidable Q (step s a) as
    inferInstanceAs (Decidable (Q s a ∧ Along step Q (step s a) as))

instance (Q : σ → α → Prop) [∀ s a, Decidable (Q s a)] (s : σ) (as : List α) :
    Decidable (Along step Q s as) :=
  alongDecidable step Q s as

end Library
