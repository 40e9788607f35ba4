import Baresip.Vpx.Vpx
import Mathlib.Algebra.Ring.Nat

set_option linter.dupNamespace false

namespace Baresip.Vpx

open Re

/-- The size of the local buffer of `picid_enc`. -/
def picidBufSize : Nat := 8

/-- The mark of a byte that more bytes follow. -/
def mark (written : List Byte) : Byte := if written = [] then 0 else 0x80

theorem low_bits (b : Byte) (written : List Byte) : (b &&& 0x7f ||| mark written) &&& 0x7f = b &&& 0x7f := by
  by_cases last : written = []
  · rw [mark, if_pos last]
    revert b
    decide +kernel
  · rw [mark, if_neg last]
    revert b
    decide +kernel

theorem high_bit (b : Byte) (written : List Byte) : (b &&& 0x7f ||| mark written) &&& 0x80 = mark written := by
  by_cases last : written = []
  · rw [mark, if_pos last]
    revert b
    decide +kernel
  · rw [mark, if_neg last]
    revert b
    decide +kernel

/-- A number is its upper bits and its seven lowest. -/
theorem picid_split (picid : BitVec 64) :
    (picid >>> 7) <<< 7 ||| (picid.setWidth 8 &&& 0x7f : Byte).setWidth 64 = picid := by
  have mask : ∀ i < 64, (0x7f : Byte).getLsbD i = decide (i < 7) := by decide
  apply BitVec.eq_of_getLsbD_eq
  intro i inside
  simp only [BitVec.getLsbD_or, BitVec.getLsbD_shiftLeft, BitVec.getLsbD_ushiftRight, BitVec.getLsbD_setWidth,
    BitVec.getLsbD_and, mask i inside]
  by_cases low : i < 7
  · have byte : i < 8 := by omega
    simp [low, inside, byte]
  · have back : 7 + (i - 7) = i := by omega
    simp [low, inside, back]

theorem picid_shifted (picid : BitVec 64) : (picid >>> 7).toNat = picid.toNat / 128 := by
  rw [BitVec.toNat_ushiftRight, Nat.shiftRight_eq_div_pow]

/-- One turn of the loop of `picid_enc`. -/
theorem picidBytes_eq (picid : BitVec 64) (written : List Byte) :
    picidBytes picid written =
      if picid >>> 7 = 0 then (picid.setWidth 8 &&& 0x7f ||| mark written) :: written
      else picidBytes (picid >>> 7) ((picid.setWidth 8 &&& 0x7f ||| mark written) :: written) := by
  have byte : (if written = [] then picid.setWidth 8 &&& 0x7f else (picid.setWidth 8 &&& 0x7f : Byte) ||| 0x80) =
      picid.setWidth 8 &&& 0x7f ||| mark written := by
    by_cases last : written = []
    · simp [mark, last]
    · simp [mark, last]
  rw [picidBytes]
  simp only [byte, dite_eq_ite]

theorem picidBytes_induct {P : BitVec 64 → List Byte → Prop}
    (last : ∀ (picid : BitVec 64) written, picid >>> 7 = 0 → P picid written)
    (more : ∀ (picid : BitVec 64) written, picid >>> 7 ≠ 0 →
      P (picid >>> 7) ((picid.setWidth 8 &&& 0x7f ||| mark written) :: written) → P picid written)
    (picid : BitVec 64) (written : List Byte) : P picid written := by
  by_cases done : picid >>> 7 = 0
  · exact last picid written done
  · have positive : (picid >>> 7).toNat ≠ 0 := fun zero => done (BitVec.eq_of_toNat_eq zero)
    have shifted := picid_shifted picid
    exact more picid written done (picidBytes_induct last more _ _)
termination_by picid.toNat

theorem picidBytes_front (picid : BitVec 64) (written : List Byte) :
    ∃ front, 0 < front.length ∧ picidBytes picid written = front ++ written := by
  induction picid, written using picidBytes_induct with
  | last picid written done =>
    rw [picidBytes_eq, if_pos done]
    exact ⟨[_], Nat.one_pos, rfl⟩
  | more picid written further ih =>
    rcases ih with ⟨front, some_, split⟩
    rw [picidBytes_eq, if_neg further, split]
    exact ⟨front ++ [_], by simp, List.append_cons _ _ _⟩

/-- Every byte of the local buffer takes seven bits of the number. -/
theorem picidBytes_length (k : Nat) (picid : BitVec 64) (written : List Byte) :
    (picidBytes picid written).length ≤ written.length + (k + 1) ↔ picid.toNat < 128 ^ (k + 1) := by
  have shifted := picid_shifted picid
  rw [picidBytes_eq]
  by_cases done : picid >>> 7 = 0
  · have small : picid.toNat / 128 = 0 := by rw [← shifted, done]; rfl
    have power : 128 ^ 1 ≤ 128 ^ (k + 1) := Nat.pow_le_pow_right (by omega) (by omega)
    rw [if_pos done, List.length_cons]
    exact ⟨fun _ => by omega, fun _ => by omega⟩
  · have large : picid.toNat / 128 ≠ 0 := fun zero => done (BitVec.eq_of_toNat_eq (shifted.trans zero))
    rw [if_neg done]
    cases k with
    | zero =>
      rcases picidBytes_front (picid >>> 7) ((picid.setWidth 8 &&& 0x7f ||| mark written) :: written) with
        ⟨front, some_, split⟩
      rw [split, List.length_append, List.length_cons]
      exact ⟨fun _ => by omega, fun _ => by omega⟩
    | succ k =>
      have rest := picidBytes_length k (picid >>> 7) ((picid.setWidth 8 &&& 0x7f ||| mark written) :: written)
      rw [List.length_cons, shifted, Nat.div_lt_iff_lt_mul (by omega), ← Nat.pow_succ] at rest
      rw [← rest]
      omega

theorem picidBytes_fits (picid : BitVec 64) : (picidBytes picid []).length ≤ picidBufSize ↔ picid.toNat < 2 ^ 56 := by
  have groups := picidBytes_length 7 picid []
  rw [List.length_nil, Nat.zero_add] at groups
  exact groups

section
variable {mb : Mbuf} {picid : BitVec 64} {written front rest : List Byte}

/-- The bytes in front of `written` read back as the number, and reading goes on behind them. -/
theorem picidDec_front (inside : mb.endPos ≤ mb.buf.length) (split : picidBytes picid written = front ++ written)
    (left : mb.left = front ++ (written ++ rest)) :
    picidDec mb 0 = if written = [] then .ok (picid, mb.advance front.length)
      else picidDec (mb.advance front.length) picid := by
  -- what one byte does where `v` has been read in front of it
  have turn {mb : Mbuf} {v picid : BitVec 64} {written rest : List Byte} (inside : mb.endPos ≤ mb.buf.length)
      (value : v = picid >>> 7)
      (left : mb.left = (picid.setWidth 8 &&& 0x7f ||| mark written) :: (written ++ rest)) :
      picidDec mb v = if written = [] then .ok (picid, mb.advance 1) else picidDec (mb.advance 1) picid := by
    rw [picidDec_eq mb v inside, left]
    simp only [high_bit, low_bits, value, picid_split]
    by_cases last : written = []
    · rw [if_pos last, if_pos (by rw [mark, if_pos last])]
    · rw [if_neg last, if_neg (by rw [mark, if_neg last]; decide)]
  induction picid, written using picidBytes_induct generalizing front rest with
  | last picid written done =>
    rw [picidBytes_eq, if_pos done] at split
    have one : front = [picid.setWidth 8 &&& 0x7f ||| mark written] :=
      (List.append_cancel_right (by exact split : [_] ++ written = front ++ written)).symm
    subst one
    exact turn inside done.symm left
  | more picid written further ih =>
    rcases picidBytes_front (picid >>> 7) ((picid.setWidth 8 &&& 0x7f ||| mark written) :: written) with
      ⟨upper, -, before⟩
    rw [picidBytes_eq, if_neg further, before, List.append_cons] at split
    have whole : upper ++ [picid.setWidth 8 &&& 0x7f ||| mark written] = front := List.append_cancel_right split
    subst whole
    rw [List.append_assoc] at left
    have there : (mb.advance upper.length).left =
        (picid.setWidth 8 &&& 0x7f ||| mark written) :: (written ++ rest) := by
      rw [Mbuf.advance_left, left, List.drop_left]
      rfl
    have same : (mb.advance upper.length).endPos ≤ (mb.advance upper.length).buf.length := inside
    have past : (mb.advance upper.length).advance 1 = mb.advance (upper.length + 1) := by
      simp only [Mbuf.advance, Nat.add_assoc]
    rw [ih before left, if_neg (List.cons_ne_nil _ _), turn same rfl there, past, List.length_append,
      List.length_singleton]

theorem picidDec_picidBytes (inside : mb.endPos ≤ mb.buf.length) (left : mb.left = picidBytes picid [] ++ rest) :
    picidDec mb 0 = .ok (picid, mb.advance (picidBytes picid []).length) := by
  have split : picidBytes picid [] = picidBytes picid [] ++ [] := (List.append_nil _).symm
  rw [picidDec_front inside split left, if_pos rfl]

end

/-- What `vp8desc_enc` writes. -/
def descWritten (i n : Bool) (fi : Fi) (b : Bool) (picid : BitVec 64) : List Byte :=
  vp8descByte i n fi b :: if i then picidBytes picid [] else []

theorem vp8descEnc_written (mb : Mbuf) (start : Nat) (i n : Bool) (fi : Fi) (b : Bool) (picid : BitVec 64) :
    (vp8descEnc (mb.restart start) i n fi b picid).Holds start (descWritten i n fi b picid) := by
  have first := (mb.holds_restart start).write [vp8descByte i n fi b]
  cases i with
  | false => exact first
  | true => exact first.write (picidBytes picid [])

/-- The descriptor that holds what has been encoded. The number of a descriptor without one stays as it was. -/
def described (i n : Bool) (fi : Fi) (b : Bool) (picid : BitVec 64) (desc : Vp8Desc) : Vp8Desc :=
  ⟨BitVec.ofBool i, BitVec.ofBool n, fi.bits, BitVec.ofBool b, if i then picid else desc.picid⟩

theorem vp8descByte_flags (i n : Bool) (fi : Fi) (b : Bool) :
    (vp8descByte i n fi b >>> 4).extractLsb' 0 1 = BitVec.ofBool i ∧
      (vp8descByte i n fi b >>> 3).extractLsb' 0 1 = BitVec.ofBool n ∧
      (vp8descByte i n fi b >>> 1).extractLsb' 0 2 = fi.bits ∧
      (vp8descByte i n fi b).extractLsb' 0 1 = BitVec.ofBool b := by
  cases i <;> cases n <;> cases fi <;> cases b <;> decide

theorem vp8descDec_written {mb : Mbuf} {i n : Bool} {fi : Fi} {b : Bool} {picid : BitVec 64} {rest : List Byte}
    (desc : Vp8Desc) (inside : mb.endPos ≤ mb.buf.length) (left : mb.left = descWritten i n fi b picid ++ rest) :
    vp8descDec mb desc =
      .ok (described i n fi b picid desc, mb.advance (descWritten i n fi b picid).length) := by
  have length := Mbuf.left_length inside
  rcases vp8descByte_flags i n fi b with ⟨flagI, flagN, flagFi, flagB⟩
  unfold vp8descDec Mbuf.readU8
  rw [left, descWritten, List.cons_append, List.length_cons] at length
  rw [if_neg (by omega), left, descWritten, List.cons_append]
  simp only [flagI, flagN, flagFi, flagB]
  cases i with
  | false => rfl
  | true =>
    have there : (mb.advance 1).left = picidBytes picid [] ++ rest := by
      rw [Mbuf.advance_left, left]
      rfl
    have same : (mb.advance 1).endPos ≤ (mb.advance 1).buf.length := inside
    have past : (mb.advance 1).advance (picidBytes picid []).length =
        mb.advance ((picidBytes picid []).length + 1) := by
      simp only [Mbuf.advance, Nat.add_assoc, Nat.add_comm 1]
    rw [if_pos (by rfl), picidDec_picidBytes same there, past]
    rfl

/-- `picid_enc`, if it is called, stays inside its buffer. -/
def FitsPicid (i : Bool) (picid : BitVec 64) : Prop := i = true → (picidBytes picid []).length ≤ picidBufSize

/-- Decoding a descriptor that is followed by `rest` gives back what was encoded and ends where the encoder
    did; the encoder stays inside its local buffer exactly for the numbers of up to eight groups of seven bits. -/
theorem vp8desc_round_trip_iff (mb : Mbuf) (start : Nat) (i n : Bool) (fi : Fi) (b : Bool) (picid : BitVec 64)
    (rest : List Byte) (desc : Vp8Desc) :
    (FitsPicid i picid ∧
      ∃ out, vp8descDec (((vp8descEnc (mb.restart start) i n fi b picid).writeMem rest).setPos start) desc =
          .ok (described i n fi b picid desc, out) ∧
        out.pos = (vp8descEnc (mb.restart start) i n fi b picid).pos ∧ out.left = rest) ↔
      (i = true → picid.toNat < 2 ^ 56) := by
  have held := vp8descEnc_written mb start i n fi b picid
  have whole := held.write rest
  have some_ : descWritten i n fi b picid ++ rest ≠ [] := List.cons_ne_nil _ _
  have inside : (((vp8descEnc (mb.restart start) i n fi b picid).writeMem rest).setPos start).endPos ≤
      (((vp8descEnc (mb.restart start) i n fi b picid).writeMem rest).setPos start).buf.length := whole.fits some_
  constructor
  · rintro ⟨fits, -⟩ coded
    exact (picidBytes_fits picid).mp (fits coded)
  · intro small
    refine ⟨fun coded => (picidBytes_fits picid).mpr (small coded), _, vp8descDec_written desc inside whole.left, ?_, ?_⟩
    · exact (held.atEnd.trans held.ends).symm
    · rw [Mbuf.advance_left, whole.left, List.drop_left]

/-- The ninth group of a large number is written in front of the local buffer. -/
theorem picid_outside : ¬ FitsPicid true (BitVec.ofNat 64 (2 ^ 56)) := by
  intro fits
  have small := (picidBytes_fits _).mp (fits rfl)
  exact absurd small (by decide)

end Baresip.Vpx
