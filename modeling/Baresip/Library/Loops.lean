import Mathlib.Logic.Relation

set_option linter.dupNamespace false

namespace Library

variable {σ ρ : Type*}

/-- A loop whose body goes on with a new state or is done. -/
def loop (body : σ → σ ⊕ ρ) : Nat → σ → Option ρ
  | 0, _ => none
  | fuel + 1, s =>
    match body s with
    | .inl next => loop body fuel next
    | .inr r => some r

theorem loop_succ (body : σ → σ ⊕ ρ) (fuel : Nat) (s : σ) :
    loop body (fuel + 1) s = match body s with
      | .inl next => loop body fuel next
      | .inr r => some r := rfl

theorem loop_inl {body : σ → σ ⊕ ρ} {s next : σ} (fuel : Nat) (goes : body s = .inl next) :
    loop body (fuel + 1) s = loop body fuel next := by
  rw [loop_succ, goes]

theorem loop_inr {body : σ → σ ⊕ ρ} {s : σ} {r : ρ} (fuel : Nat) (ends : body s = .inr r) :
    loop body (fuel + 1) s = some r := by
  rw [loop_succ, ends]

/-- The loop ends: with enough fuel it has a result. -/
def Returns (body : σ → σ ⊕ ρ) (s : σ) (r : ρ) : Prop := ∃ fuel, loop body fuel s = some r

def Reaches (body : σ → σ ⊕ ρ) : σ → σ → Prop := Relation.ReflTransGen fun s next => body s = .inl next

variable {body : σ → σ ⊕ ρ} {s next : σ} {r r' : ρ}

theorem Returns.done (ends : body s = .inr r) : Returns body s r := ⟨1, loop_inr 0 ends⟩

theorem Returns.step (goes : body s = .inl next) (returns : Returns body next r) : Returns body s r := by
  obtain ⟨fuel, result⟩ := returns
  exact ⟨fuel + 1, by rw [loop_inl fuel goes, result]⟩

theorem Reaches.returns (reaches : Reaches body s next) (returns : Returns body next r) : Returns body s r := by
  induction reaches using Relation.ReflTransGen.head_induction_on with
  | refl => exact returns
  | head goes _ ih => exact ih.step goes

/-- What holds at the start and is kept by the body gives what holds of the result. -/
theorem Returns.of_invariant {I : σ → Prop} {Q : ρ → Prop} (keeps : ∀ s next, I s → body s = .inl next → I next)
    (ends : ∀ s r, I s → body s = .inr r → Q r) (start : I s) (returns : Returns body s r) : Q r := by
  obtain ⟨fuel, result⟩ := returns
  induction fuel generalizing s with
  | zero => contradiction
  | succ fuel ih =>
    cases goes : body s with
    | inl next =>
      rw [loop_inl fuel goes] at result
      exact ih (keeps s next start goes) result
    | inr out =>
      rw [loop_inr fuel goes] at result
      obtain rfl := Option.some.inj result
      exact ends s out start goes

theorem Returns.unique (returns : Returns body s r) (returns' : Returns body s r') : r = r' := by
  obtain ⟨fuel, result⟩ := returns
  obtain ⟨fuel', result'⟩ := returns'
  induction fuel generalizing s fuel' with
  | zero => contradiction
  | succ fuel ih =>
    cases fuel' with
    | zero => contradiction
    | succ fuel' =>
      cases goes : body s with
      | inl next =>
        rw [loop_inl _ goes] at result result'
        exact ih result fuel' result'
      | inr out =>
        rw [loop_inr _ goes] at result result'
        exact Option.some.inj (result.symm.trans result')

/-- A loop whose body lowers a rank as long as it goes on ends. -/
theorem returns_of_rank {I : σ → Prop} (rank : σ → Nat)
    (keeps : ∀ s next, I s → body s = .inl next → I next ∧ rank next < rank s) (s : σ) (start : I s) :
    ∃ r, Returns body s r := by
  cases goes : body s with
  | inl next =>
    obtain ⟨kept, lower⟩ := keeps s next start goes
    obtain ⟨r, returns⟩ := returns_of_rank rank keeps next kept
    exact ⟨r, returns.step goes⟩
  | inr r => exact ⟨r, .done goes⟩
termination_by rank s

/-- A rank that falls in the states that meet an invariant also bounds the fuel that is needed. -/
theorem loop_of_invariant {I : σ → Prop} (rank : σ → Nat)
    (keeps : ∀ s next, I s → body s = .inl next → I next ∧ rank next < rank s) {fuel : Nat} (start : I s)
    (enough : rank s < fuel) : ∃ r, loop body fuel s = some r := by
  induction fuel generalizing s with
  | zero => omega
  | succ fuel ih =>
    cases goes : body s with
    | inl next =>
      obtain ⟨kept, lower⟩ := keeps s next start goes
      rw [loop_inl fuel goes]
      exact ih kept (by omega)
    | inr r => exact ⟨r, loop_inr fuel goes⟩

theorem loop_of_rank (rank : σ → Nat) (lowers : ∀ s next, body s = .inl next → rank next < rank s) {fuel : Nat}
    (enough : rank s < fuel) : ∃ r, loop body fuel s = some r :=
  loop_of_invariant (I := fun _ => True) rank (fun s next _ goes => ⟨trivial, lowers s next goes⟩) trivial enough

/-! Chains of steps where there is a choice. -/

section
variable {ν : Type*} (next : ν → List ν)

/-- One leads to the other in so many steps. -/
inductive Chain : ν → ν → Nat → Prop
  | nil (x : ν) : Chain x x 0
  | cons {x y z : ν} {n : Nat} (step : y ∈ next x) (rest : Chain y z n) : Chain x z (n + 1)

/-- The same where a step counts as many as the place of the one that it takes, the first being 1. -/
inductive Weighed : ν → ν → Nat → Prop
  | nil (x : ν) : Weighed x x 0
  | cons {x y z : ν} {i n : Nat} (step : (next x)[i]? = some y) (rest : Weighed y z n) : Weighed x z (i + 1 + n)

variable {next} {x y z : ν} {n : Nat}

theorem Weighed.chain (weighed : Weighed next x y n) : ∃ k ≤ n, Chain next x y k := by
  induction weighed with
  | nil x => exact ⟨0, Nat.le_refl 0, .nil x⟩
  | cons step rest ih =>
    obtain ⟨k, fewer, chain⟩ := ih
    exact ⟨k + 1, by omega, .cons (List.mem_of_getElem? step) chain⟩

/-- Where there is never a choice every step counts 1. -/
theorem Chain.weighed (single : ∀ x, (next x).length ≤ 1) (chain : Chain next x y n) : Weighed next x y n := by
  induction chain with
  | nil x => exact .nil x
  | @cons x y z n step rest ih =>
    obtain ⟨i, inside, found⟩ := List.mem_iff_getElem.mp step
    have first : i = 0 := by
      have few := single x
      omega
    subst first
    have taken : (next x)[0]? = some y := by rw [List.getElem?_eq_getElem inside, found]
    have whole := Weighed.cons taken ih
    rwa [Nat.zero_add, Nat.add_comm] at whole

end

end Library
