import Mathlib.Logic.Function.Iterate
import Mathlib.Tactic.Common

set_option linter.dupNamespace false

namespace Library

variable {w : Nat} (poly : BitVec w)

/-- One step of a shift register towards its low end, which feeds back the bit that falls out. -/
def shift (s : BitVec w) : BitVec w := if s.getLsbD 0 then s >>> 1 ^^^ poly else s >>> 1

/-- The register takes in one byte. -/
def feed (s : BitVec w) (b : BitVec 8) : BitVec w := (shift poly)^[8] (s ^^^ b.setWidth w)

/-- Bytes as a number, the first one lowest. -/
def word : List (BitVec 8) → BitVec w
  | [] => 0
  | b :: bs => b.setWidth w ^^^ word bs <<< 8

@[simp] theorem word_nil : word [] = (0 : BitVec w) := rfl

theorem word_cons (b : BitVec 8) (bs : List (BitVec 8)) : word (b :: bs) = b.setWidth w ^^^ word bs <<< 8 := rfl

variable {poly} {s t : BitVec w} {n : Nat}

theorem shift_low (low : s.getLsbD 0 = false) : shift poly s = s >>> 1 := by
  rw [shift, if_neg (by rw [low]; decide)]

theorem shift_xor (s t : BitVec w) : shift poly (s ^^^ t) = shift poly s ^^^ shift poly t := by
  unfold shift
  rw [BitVec.getLsbD_xor, BitVec.ushiftRight_xor_distrib]
  cases s.getLsbD 0 with
  | false =>
    cases t.getLsbD 0 with
    | false => rfl
    | true => exact BitVec.xor_assoc _ _ _
  | true =>
    cases t.getLsbD 0 with
    | false =>
      show s >>> 1 ^^^ t >>> 1 ^^^ poly = s >>> 1 ^^^ poly ^^^ t >>> 1
      ac_rfl
    | true =>
      show s >>> 1 ^^^ t >>> 1 = (s >>> 1 ^^^ poly) ^^^ (t >>> 1 ^^^ poly)
      have both : s >>> 1 ^^^ poly ^^^ (t >>> 1 ^^^ poly) = s >>> 1 ^^^ t >>> 1 ^^^ (poly ^^^ poly) := by ac_rfl
      rw [both, BitVec.xor_self, BitVec.xor_zero]

theorem shifts_xor (n : Nat) (s t : BitVec w) :
    (shift poly)^[n] (s ^^^ t) = (shift poly)^[n] s ^^^ (shift poly)^[n] t := by
  induction n generalizing s t with
  | zero => rfl
  | succ n ih => rw [Function.iterate_succ_apply, Function.iterate_succ_apply, Function.iterate_succ_apply, shift_xor, ih]

/-- The same step on numbers, which computes faster. -/
def shiftNat (poly n : Nat) : Nat := if n.testBit 0 then (n >>> 1) ^^^ poly else n >>> 1

theorem shift_toNat (s : BitVec w) : (shift poly s).toNat = shiftNat poly.toNat s.toNat := by
  unfold shift shiftNat
  rw [BitVec.testBit_toNat]
  split
  · rw [BitVec.toNat_xor, BitVec.toNat_ushiftRight]
  · rw [BitVec.toNat_ushiftRight]

theorem shifts_toNat (n : Nat) (s : BitVec w) : ((shift poly)^[n] s).toNat = (shiftNat poly.toNat)^[n] s.toNat := by
  induction n generalizing s with
  | zero => rfl
  | succ n ih => rw [Function.iterate_succ_apply, Function.iterate_succ_apply, ih, shift_toNat]

/-- Nothing is fed back while the bits that fall out are clear. -/
theorem shifts_clear (clear : ∀ i < n, s.getLsbD i = false) : (shift poly)^[n] s = s >>> n := by
  induction n generalizing s with
  | zero => simp
  | succ n ih =>
    have later : ∀ i < n, (s >>> 1).getLsbD i = false := by
      intro i less
      rw [BitVec.getLsbD_ushiftRight, Nat.add_comm]
      exact clear (i + 1) (Nat.succ_lt_succ less)
    rw [Function.iterate_succ_apply, shift_low (clear 0 (Nat.succ_pos n)), ih later, ← BitVec.shiftRight_add, Nat.add_comm]

/-- The bit that has fallen out is seen in the top bit. -/
theorem shift_injective (top : poly.msb = true) : Function.Injective (shift poly) := by
  have fed (s : BitVec w) : (shift poly s).msb = s.getLsbD 0 := by
    have shifted : (s >>> 1).msb = false := by simp
    unfold shift
    cases low : s.getLsbD 0 with
    | false => exact shifted
    | true =>
      show (s >>> 1 ^^^ poly).msb = true
      rw [BitVec.msb_xor, shifted, top]
      rfl
  intro s t same
  have low : s.getLsbD 0 = t.getLsbD 0 := by rw [← fed, ← fed, same]
  have rest : s >>> 1 = t >>> 1 := by
    unfold shift at same
    rw [low] at same
    cases fell : t.getLsbD 0 with
    | false =>
      rw [fell] at same
      exact same
    | true =>
      rw [fell] at same
      exact (BitVec.xor_left_inj _).mp same
  apply BitVec.eq_of_getLsbD_eq
  intro i _
  cases i with
  | zero => exact low
  | succ i =>
    have bit := congrArg (fun x : BitVec w => x.getLsbD i) rest
    simpa [Nat.add_comm] using bit

/-- A table of what eight shifts make of each byte replaces them. -/
theorem feed_table (s : BitVec w) (b : BitVec 8) :
    feed poly s b = (shift poly)^[8] (((s ^^^ b.setWidth w).setWidth 8).setWidth w) ^^^ s >>> 8 := by
  let low : BitVec w := ((s ^^^ b.setWidth w).setWidth 8).setWidth w
  let high : BitVec w := s ^^^ b.setWidth w ^^^ low
  have parts : s ^^^ b.setWidth w = low ^^^ high := by
    show s ^^^ b.setWidth w = low ^^^ (s ^^^ b.setWidth w ^^^ low)
    rw [BitVec.xor_comm low, BitVec.xor_assoc, BitVec.xor_self, BitVec.xor_zero]
  have clear : ∀ i < 8, high.getLsbD i = false := by
    intro i less
    have inside : low.getLsbD i = (s ^^^ b.setWidth w).getLsbD i := by
      by_cases fits : i < w
      · simp [low, less, fits]
      · simp [BitVec.getLsbD_of_ge _ i (Nat.le_of_not_lt fits)]
    show (s ^^^ b.setWidth w ^^^ low).getLsbD i = false
    rw [BitVec.getLsbD_xor, inside, Bool.xor_self]
  have above : high >>> 8 = s >>> 8 := by
    apply BitVec.eq_of_getLsbD_eq
    intro i _
    simp [high, low]
  show feed poly s b = (shift poly)^[8] low ^^^ s >>> 8
  rw [feed, parts, shifts_xor, shifts_clear clear, above]

theorem feed_injective (top : poly.msb = true) (b : BitVec 8) : Function.Injective (feed poly · b) := by
  intro s t same
  have before := (shift_injective top).iterate 8 same
  exact (BitVec.xor_left_inj _).mp before

theorem feeds_injective (top : poly.msb = true) (bytes : List (BitVec 8)) :
    Function.Injective fun s => bytes.foldl (feed poly) s := by
  induction bytes with
  | nil => exact fun _ _ same => same
  | cons b bytes ih => exact fun _ _ same => feed_injective top b (ih same)

theorem word_high (bytes : List (BitVec 8)) : ∀ i, 8 * bytes.length ≤ i → (word bytes : BitVec w).getLsbD i = false := by
  induction bytes with
  | nil => simp
  | cons b bytes ih =>
    intro i above
    rw [List.length_cons] at above
    have rest := ih (i - 8) (by omega)
    rw [word_cons, BitVec.getLsbD_xor, BitVec.getLsbD_shiftLeft, rest, BitVec.getLsbD_setWidth,
      BitVec.getLsbD_of_ge b i (by omega)]
    simp

theorem word_shifted {bytes : List (BitVec 8)} (fits : 8 * (bytes.length + 1) ≤ w) :
    (word bytes <<< 8) >>> 8 = (word bytes : BitVec w) := by
  apply BitVec.eq_of_getLsbD_eq
  intro i inside
  rw [BitVec.getLsbD_ushiftRight, BitVec.getLsbD_shiftLeft]
  by_cases less : i < 8 * bytes.length
  · simp [show 8 + i < w by omega]
  · simp [word_high bytes i (by omega)]

/-- As many bytes as fit the register act on it like one number. -/
theorem feeds_word {bytes : List (BitVec 8)} (fits : 8 * bytes.length ≤ w) (s : BitVec w) :
    bytes.foldl (feed poly) s = (shift poly)^[8 * bytes.length] (s ^^^ word bytes) := by
  induction bytes generalizing s with
  | nil => simp
  | cons b bytes ih =>
    rw [List.length_cons] at fits
    have clear : ∀ i < 8, (word bytes <<< 8 : BitVec w).getLsbD i = false := by
      intro i less
      simp [BitVec.getLsbD_shiftLeft, less]
    have lifted : word bytes = (shift poly)^[8] (word bytes <<< 8) := by
      rw [shifts_clear clear, word_shifted fits]
    calc (b :: bytes).foldl (feed poly) s
      _ = (shift poly)^[8 * bytes.length] (feed poly s b ^^^ word bytes) := ih (by omega) _
      _ = (shift poly)^[8 * bytes.length] ((shift poly)^[8] (s ^^^ b.setWidth w ^^^ word bytes <<< 8)) := by
        rw [shifts_xor 8, ← lifted, feed]
      _ = (shift poly)^[8 * (bytes.length + 1)] (s ^^^ word (b :: bytes)) := by
        rw [← Function.iterate_add_apply, BitVec.xor_assoc, ← word_cons, Nat.mul_succ]

theorem word_injective {xs ys : List (BitVec 8)} (long : xs.length = ys.length) (fits : 8 * xs.length ≤ w)
    (same : (word xs : BitVec w) = word ys) : xs = ys := by
  induction xs generalizing ys with
  | nil => exact (List.length_eq_zero_iff.mp long.symm).symm
  | cons x xs ih =>
    cases ys with
    | nil => contradiction
    | cons y ys =>
      rw [List.length_cons, List.length_cons] at long
      rw [List.length_cons] at fits
      have low (b : BitVec 8) (bytes : List (BitVec 8)) : (word (b :: bytes) : BitVec w).setWidth 8 = b := by
        apply BitVec.eq_of_getLsbD_eq
        intro i less
        simp [word_cons, less, show i < w by omega]
      have first : x = y := by rw [← low x xs, ← low y ys, same]
      rw [word_cons, word_cons, first, BitVec.xor_right_inj] at same
      have rest := congrArg (fun x : BitVec w => x >>> 8) same
      rw [word_shifted (by omega), word_shifted (by omega)] at rest
      rw [first, ih (by omega) (by omega) rest]

/-- A change that fits the register changes what it comes to, whatever stands around it. -/
theorem burst_detected (top : poly.msb = true) {before xs ys after : List (BitVec 8)} (long : xs.length = ys.length)
    (fits : 8 * xs.length ≤ w)
    (same : (before ++ xs ++ after).foldl (feed poly) s = (before ++ ys ++ after).foldl (feed poly) s) : xs = ys := by
  rw [List.foldl_append, List.foldl_append, List.foldl_append, List.foldl_append] at same
  have middle := feeds_injective top after same
  have fits' : 8 * ys.length ≤ w := by rwa [← long]
  rw [@feeds_word w poly xs fits, @feeds_word w poly ys fits', ← long] at middle
  have words := (shift_injective top).iterate _ middle
  exact word_injective long fits ((BitVec.xor_right_inj _).mp words)

end Library
