import Baresip.Library.Runs

set_option linter.dupNamespace false

namespace Library

variable {α : Type*} {P Q : List α → α → Prop} {log : List α} {x : α}

/-- `P` holds of every entry of a log and the entries before it. -/
def Each (P : List α → α → Prop) (log : List α) : Prop :=
  ∀ before x after, log = before ++ x :: after → P before x

@[simp] theorem each_nil : Each P [] := by
  intro before x after whole
  exact absurd whole.symm (List.append_ne_nil_of_right_ne_nil _ (List.cons_ne_nil _ _))

theorem Each.concat (each : Each P log) (new : P log x) : Each P (log ++ [x]) := by
  intro before x' after whole
  rcases List.eq_nil_or_concat after with rfl | ⟨rest, last, rfl⟩
  · obtain ⟨rfl, same⟩ := List.append_inj' whole rfl
    rw [← List.head_eq_of_cons_eq same]
    exact new
  · rw [List.concat_eq_append, ← List.cons_append, ← List.append_assoc] at whole
    exact each before x' rest (List.append_inj' whole rfl).1

section
variable {σ τ β : Type*} (step : σ → α → σ)

/-- What the steps of a run put out, in order. -/
def outputs (out : σ → α → List β) : σ → List α → List β
  | _, [] => []
  | s, a :: as => out s a ++ outputs out (step s a) as

/-- Two runs over the same actions, side by side. -/
def sideBySide (step' : τ → α → τ) (s : σ × τ) (a : α) : σ × τ := (step s.1 a, step' s.2 a)

variable {step} {step' : τ → α → τ} {out out' : σ → α → List β} {as : List α}

theorem outputs_length_le (less : ∀ s a, (out' s a).length ≤ (out s a).length) (s : σ) :
    (outputs step out' s as).length ≤ (outputs step out s as).length := by
  induction as generalizing s with
  | nil => exact Nat.le_refl _
  | cons a as ih =>
    simp only [outputs, List.length_append]
    exact Nat.add_le_add (less s a) (ih _)

/-- Two outputs, one of which leaves things out, agree in the runs where it leaves out nothing. -/
theorem outputs_eq_iff (less : ∀ s a, (out' s a).length ≤ (out s a).length) (s : σ) :
    outputs step out s as = outputs step out' s as ↔ Along step (fun s a => out s a = out' s a) s as := by
  induction as generalizing s with
  | nil => simp [outputs]
  | cons a as ih =>
    rw [along_cons, ← ih]
    simp only [outputs]
    constructor
    · intro whole
      have lengths := congrArg List.length whole
      have first := less s a
      have rest : (outputs step out' (step s a) as).length ≤ (outputs step out (step s a) as).length :=
        outputs_length_le less (step s a)
      simp only [List.length_append] at lengths
      exact List.append_inj whole (by omega)
    · rintro ⟨first, rest⟩
      rw [first, rest]

theorem outputs_map {γ : Type*} (f : β → γ) (s : σ) :
    outputs step (fun s a => (out s a).map f) s as = (outputs step out s as).map f := by
  induction as generalizing s with
  | nil => rfl
  | cons a as ih => simp only [outputs, ih, List.map_append]

/-- What each step sets anew or leaves alone was set by the last step that sets it. -/
theorem foldl_last {get : σ → β} {sets : α → Option β} (each : ∀ s a, get (step s a) = (sets a).getD (get s)) (s : σ)
    (as : List α) : get (as.foldl step s) = (as.reverse.findSome? sets).getD (get s) := by
  induction as generalizing s with
  | nil => rfl
  | cons a as ih =>
    rw [List.foldl_cons, ih, each, List.reverse_cons, List.findSome?_append]
    cases as.reverse.findSome? sets with
    | none => cases set : sets a <;> simp [set]
    | some x => rfl

/-- The outputs of steps that bear the number of their step. -/
structure Stamped (step : σ → α → σ) (I : σ → Prop) (stamp : β → ℕ) (count : σ → ℕ) (out : σ → α → List β) : Prop where
  keeps : ∀ s a, I s → I (step s a)
  counts : ∀ s a, count (step s a) = count s + 1
  stamped : ∀ s a, I s → ∀ x ∈ out s a, stamp x = count s

variable {I : σ → Prop} {stamp : β → ℕ} {count : σ → ℕ} {s : σ}

theorem Stamped.later (h : Stamped step I stamp count out) (start : I s) :
    ∀ x ∈ outputs step out s as, count s ≤ stamp x := by
  induction as generalizing s with
  | nil => exact nofun
  | cons a as ih =>
    intro x member
    rcases List.mem_append.mp member with here | there
    · exact Nat.le_of_eq (h.stamped s a start x here).symm
    · have next := ih (h.keeps s a start) x there
      rw [h.counts] at next
      omega

/-- What a step put out is what bears its number. -/
theorem Stamped.front (h : Stamped step I stamp count out) (start : I s) (a : α) :
    (outputs step out s (a :: as)).filter (fun x => stamp x = count s) = out s a := by
  have none_ : (outputs step out (step s a) as).filter (fun x => stamp x = count s) = [] := by
    apply List.filter_eq_nil_iff.mpr
    intro x member
    have next := h.later (h.keeps s a start) x member
    rw [h.counts] at next
    rw [decide_eq_true_eq]
    omega
  have all : (out s a).filter (fun x => stamp x = count s) = out s a := by
    apply List.filter_eq_self.mpr
    intro x member
    exact decide_eq_true (h.stamped s a start x member)
  rw [outputs, List.filter_append, none_, all, List.append_nil]

/-- Two outputs that bear the numbers of their steps agree if each step puts out the same. -/
theorem outputs_eq_iff_of_stamped (h : Stamped step I stamp count out) (h' : Stamped step I stamp count out')
    (start : I s) :
    outputs step out s as = outputs step out' s as ↔ Along step (fun s a => out s a = out' s a) s as := by
  induction as generalizing s with
  | nil => simp [outputs]
  | cons a as ih =>
    have rest := ih (h.keeps s a start)
    rw [along_cons]
    constructor
    · intro whole
      have first : out s a = out' s a := by
        rw [← h.front start a, whole, h'.front start]
      simp only [outputs, first] at whole
      exact ⟨first, rest.mp (List.append_cancel_left whole)⟩
    · rintro ⟨first, along⟩
      simp only [outputs, first, rest.mpr along]

theorem outputs_left (step' : τ → α → τ) (out : σ → α → List β) (s : σ × τ) :
    outputs (sideBySide step step') (fun s a => out s.1 a) s as = outputs step out s.1 as := by
  induction as generalizing s with
  | nil => rfl
  | cons a as ih =>
    simp only [outputs, ih]
    rfl

theorem outputs_right (step' : τ → α → τ) (out : τ → α → List β) (s : σ × τ) :
    outputs (sideBySide step step') (fun s a => out s.2 a) s as = outputs step' out s.2 as := by
  induction as generalizing s with
  | nil => rfl
  | cons a as ih =>
    simp only [outputs, ih]
    rfl

end

end Library
