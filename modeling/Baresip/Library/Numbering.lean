import Mathlib.Algebra.Ring.Nat
import Mathlib.Data.List.Nodup
import Mathlib.Tactic.Common

set_option linter.dupNamespace false

namespace Library

/-- Keys that have been given numbers from `low` on, one after another; `next` is the first that is free. -/
structure Numbered {κ : Type*} (low next : Nat) (pairs : List (Nat × κ)) : Prop where
  range : ∀ p ∈ pairs, low ≤ p.1 ∧ p.1 < next
  numbers : (pairs.map Prod.fst).Nodup
  keys : (pairs.map Prod.snd).Nodup

namespace Numbered

variable {κ : Type*} {low next : Nat} {pairs : List (Nat × κ)}

theorem nil (low next : Nat) : Numbered low next ([] : List (Nat × κ)) where
  range := by simp
  numbers := List.nodup_nil
  keys := List.nodup_nil

/-- A number may be left out. -/
theorem skip (numbered : Numbered low next pairs) : Numbered low (next + 1) pairs where
  range p mem := ⟨(numbered.range p mem).1, Nat.lt_succ_of_lt (numbered.range p mem).2⟩
  numbers := numbered.numbers
  keys := numbered.keys

theorem push {key : κ} (numbered : Numbered low next pairs) (from_low : low ≤ next) (fresh : key ∉ pairs.map Prod.snd) :
    Numbered low (next + 1) (pairs ++ [(next, key)]) where
  range p mem := by
    rcases List.mem_append.mp mem with old | new
    · exact numbered.skip.range p old
    · rw [List.mem_singleton.mp new]
      exact ⟨from_low, Nat.lt_succ_self next⟩
  numbers := by
    have free : next ∉ pairs.map Prod.fst := by
      intro mem
      rcases List.mem_map.mp mem with ⟨p, held, same⟩
      have below := (numbered.range p held).2
      omega
    rw [List.map_append]
    exact List.nodup_append.mpr ⟨numbered.numbers, List.nodup_singleton _, fun a mem b last => by
      rw [List.mem_singleton.mp last]
      rintro rfl
      exact free mem⟩
  keys := by
    rw [List.map_append]
    exact List.nodup_append.mpr ⟨numbered.keys, List.nodup_singleton _, fun a mem b last => by
      rw [List.mem_singleton.mp last]
      rintro rfl
      exact fresh mem⟩

theorem key_unique (numbered : Numbered low next pairs) {p q : Nat × κ} (mem : p ∈ pairs) (mem' : q ∈ pairs)
    (same : p.1 = q.1) : p = q := List.inj_on_of_nodup_map numbered.numbers mem mem' same

end Numbered

/-- The first `k` values of a counter of `w` bits that starts at one. -/
def serials (w k : Nat) : List (BitVec w) := (List.range k).map fun i => BitVec.ofNat w (i + 1)

@[simp] theorem serials_zero (w : Nat) : serials w 0 = [] := rfl

theorem serials_succ (w k : Nat) : serials w (k + 1) = serials w k ++ [BitVec.ofNat w (k + 1)] := by
  rw [serials, List.range_succ, List.map_append]
  rfl

theorem serials_nodup {w k : Nat} (fits : k < 2 ^ w) : (serials w k).Nodup := by
  apply List.Nodup.map_on
  · intro i inside j inside' same
    have small := List.mem_range.mp inside
    have small' := List.mem_range.mp inside'
    have values := congrArg BitVec.toNat same
    rw [BitVec.toNat_ofNat, BitVec.toNat_ofNat, Nat.mod_eq_of_lt (by omega), Nat.mod_eq_of_lt (by omega)] at values
    omega
  · exact List.nodup_range

section
variable {α β γ : Type*} [DecidableEq α] {l l' : List γ} {key : γ → α} {value : γ → β}

/-- The values that a log holds for a key, in order. -/
def valuesOf (key : γ → α) (value : γ → β) (l : List γ) (k : α) : List β := (l.filter fun x => key x = k).map value

theorem valuesOf_append (k : α) : valuesOf key value (l ++ l') k = valuesOf key value l k ++ valuesOf key value l' k := by
  simp [valuesOf]

/-- No pair is in a log twice if no value is in it twice for any key. -/
theorem nodup_of_valuesOf (each : ∀ k, (valuesOf key value l k).Nodup) : (l.map fun x => (key x, value x)).Nodup := by
  induction l with
  | nil => exact List.nodup_nil
  | cons x l ih =>
    rw [List.map_cons, List.nodup_cons]
    refine ⟨?_, ih fun k => ?_⟩
    · intro again
      rcases List.mem_map.mp again with ⟨y, member, same⟩
      rw [Prod.mk.injEq] at same
      have twice := each (key x)
      rw [valuesOf, List.filter_cons_of_pos (by simp), List.map_cons, List.nodup_cons] at twice
      apply twice.1
      rw [← same.2]
      apply List.mem_map_of_mem
      exact List.mem_filter.mpr ⟨member, by simpa using same.1⟩
    · have tail : valuesOf key value (x :: l) k = valuesOf key value [x] k ++ valuesOf key value l k := by
        rw [← valuesOf_append, List.singleton_append]
      have whole := each k
      rw [tail] at whole
      exact (List.nodup_append.mp whole).2.1

end

end Library
