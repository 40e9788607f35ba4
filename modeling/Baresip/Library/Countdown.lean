import Mathlib.Data.List.Basic

set_option linter.dupNamespace false

namespace Library

variable {α : Type*} (done : α → Bool)

def pending (items : List α) : Nat := items.countP fun a => !done a

variable {done} {items : List α} {i : Nat} {a b : α}

theorem pending_eq_zero_iff : pending done items = 0 ↔ ∀ a ∈ items, done a = true := by
  simp [pending, List.countP_eq_zero]

theorem pending_set_same (here : items[i]? = some a) (same : done b = done a) :
    pending done (items.set i b) = pending done items := by
  obtain ⟨inside, value⟩ := List.getElem?_eq_some_iff.mp here
  have counted : (!done a) = true → 0 < pending done items := by
    intro open_
    exact List.countP_pos_iff.mpr ⟨a, List.mem_of_getElem? here, open_⟩
  unfold pending at counted ⊢
  rw [List.countP_set inside, value, same]
  cases open_ : done a with
  | true => simp
  | false =>
    have positive := counted (by simp [open_])
    simp only [Bool.not_false, if_true]
    omega

theorem pending_set_done (here : items[i]? = some a) (open_ : done a = false) (now : done b = true) :
    pending done (items.set i b) + 1 = pending done items := by
  obtain ⟨inside, value⟩ := List.getElem?_eq_some_iff.mp here
  have positive : 0 < pending done items :=
    List.countP_pos_iff.mpr ⟨a, List.mem_of_getElem? here, by simp [open_]⟩
  unfold pending at positive ⊢
  rw [List.countP_set inside, value, open_, now]
  simp only [Bool.not_false, Bool.not_true, if_true, Bool.false_eq_true, if_false]
  omega

variable (done)

/-- A counter that stands for the items still open, and how often it has come down to zero. -/
structure CountsDown (items : List α) (counter : Int) (fired : Nat) : Prop where
  counter_eq : counter = pending done items
  fired_eq : fired = if items ≠ [] ∧ counter = 0 then 1 else 0

variable {done} {counter : Int} {fired : Nat}

namespace CountsDown

theorem nonneg (counts : CountsDown done items counter fired) : 0 ≤ counter := by
  rw [counts.counter_eq]
  exact Int.natCast_nonneg _

theorem fired_le_one (counts : CountsDown done items counter fired) : fired ≤ 1 := by
  rw [counts.fired_eq]
  split <;> omega

theorem all_done (counts : CountsDown done items counter fired) (some_ : 0 < fired) :
    ∀ a ∈ items, done a = true := by
  rw [← pending_eq_zero_iff]
  have zero : items ≠ [] ∧ counter = 0 := by
    by_contra other
    rw [counts.fired_eq, if_neg other] at some_
    contradiction
  have counter_eq := counts.counter_eq
  omega

theorem fired_once (counts : CountsDown done items counter fired) (some_ : items ≠ [])
    (all : ∀ a ∈ items, done a = true) : fired = 1 := by
  have zero : counter = 0 := by
    rw [counts.counter_eq, pending_eq_zero_iff.mpr all]
    rfl
  rw [counts.fired_eq, if_pos ⟨some_, zero⟩]

theorem start (open_ : ∀ a ∈ items, done a = false) : CountsDown done items items.length 0 := by
  have all : pending done items = items.length := by
    rw [pending, List.countP_eq_length]
    simpa using open_
  constructor
  · rw [all]
  · rw [if_neg]
    rintro ⟨some_, zero⟩
    exact some_ (List.length_eq_zero_iff.mp (Int.natCast_eq_zero.mp zero))

theorem same (counts : CountsDown done items counter fired) (here : items[i]? = some a)
    (same : done b = done a) : CountsDown done (items.set i b) counter fired := by
  constructor
  · rw [pending_set_same here same]
    exact counts.counter_eq
  · simpa using counts.fired_eq

theorem congr (counts : CountsDown done items counter fired) {items' : List α}
    (same : items'.map done = items.map done) : CountsDown done items' counter fired := by
  have open_ : pending done items' = pending done items := by
    have counted := congrArg (List.countP (!·)) same
    simpa [List.countP_map, pending, Function.comp_def] using counted
  have empty : items' = [] ↔ items = [] := by
    rw [← List.map_eq_nil_iff, same, List.map_eq_nil_iff]
  constructor
  · rw [open_]
    exact counts.counter_eq
  · simp only [counts.fired_eq, ne_eq, empty]

theorem complete (counts : CountsDown done items counter fired) (here : items[i]? = some a)
    (open_ : done a = false) (now : done b = true) :
    CountsDown done (items.set i b) (counter - 1) (if counter - 1 = 0 then fired + 1 else fired) := by
  have one_less := pending_set_done here open_ now
  have counter_eq := counts.counter_eq
  have unfired : fired = 0 := by
    rw [counts.fired_eq, if_neg]
    omega
  have some_ : items.set i b ≠ [] := by
    rintro empty
    rw [List.set_eq_nil_iff] at empty
    simp [empty] at here
  constructor
  · omega
  · rw [unfired]
    simp [some_]

end CountsDown

end Library
