import Mathlib.Algebra.Ring.Nat
import Mathlib.Data.List.Induction
import Mathlib.Tactic.Common

set_option linter.dupNamespace false

namespace Library

/-- The `n` bytes of a number, the most significant one first. -/
def putBe : Nat → Nat → List (BitVec 8)
  | 0, _ => []
  | n + 1, v => putBe n (v / 256) ++ [BitVec.ofNat 8 v]

def getBe (bytes : List (BitVec 8)) : Nat := bytes.foldl (fun v b => v * 256 + b.toNat) 0

@[simp] theorem putBe_length (n v : Nat) : (putBe n v).length = n := by
  induction n generalizing v with
  | zero => rfl
  | succ n ih => simp [putBe, ih]

theorem getBe_snoc (bytes : List (BitVec 8)) (b : BitVec 8) : getBe (bytes ++ [b]) = getBe bytes * 256 + b.toNat := by
  simp [getBe]

theorem getBe_putBe (n v : Nat) : getBe (putBe n v) = v % 256 ^ n := by
  induction n generalizing v with
  | zero => simp [getBe, putBe, Nat.mod_one]
  | succ n ih =>
    have pow : 256 ^ (n + 1) = 256 * 256 ^ n := Nat.pow_succ'
    rw [putBe, getBe_snoc, ih, BitVec.toNat_ofNat, pow, Nat.mod_mul]
    omega

theorem getBe_lt (bytes : List (BitVec 8)) : getBe bytes < 256 ^ bytes.length := by
  induction bytes using List.reverseRecOn with
  | nil => exact Nat.zero_lt_one
  | append_singleton bytes b ih =>
    have lt := b.isLt
    rw [getBe_snoc, List.length_append, List.length_singleton, Nat.pow_succ]
    omega

theorem putBe_getBe (bytes : List (BitVec 8)) : putBe bytes.length (getBe bytes) = bytes := by
  induction bytes using List.reverseRecOn with
  | nil => rfl
  | append_singleton bytes b ih =>
    have lt := b.isLt
    have high : (getBe bytes * 256 + b.toNat) / 256 = getBe bytes := by omega
    have low : BitVec.ofNat 8 (getBe bytes * 256 + b.toNat) = b := by
      apply BitVec.eq_of_toNat_eq
      rw [BitVec.toNat_ofNat]
      omega
    rw [List.length_append, List.length_singleton, putBe, getBe_snoc, high, low, ih]

/-- The number whose bytes are those of a bit vector is that vector. -/
theorem getBe_toNat {w n : Nat} (bytes : w = 8 * n) (v : BitVec w) : getBe (putBe n v.toNat) = v.toNat := by
  have pow : 2 ^ w = 256 ^ n := by rw [bytes, Nat.pow_mul]
  rw [getBe_putBe, Nat.mod_eq_of_lt (pow ▸ v.isLt)]

end Library
