import Baresip.Re.Mbuf

set_option linter.dupNamespace false

namespace Baresip.Avcodec

open Re

def isStartcode (buf : List Byte) (p : Nat) : Bool :=
  buf.getD p 0 == 0 && buf.getD (p + 1) 0 == 0 && buf.getD (p + 2) 0 == 1

inductive Scan
  | found (p : Nat)
  | stopped (p : Nat)
  deriving DecidableEq, Repr

def scan (width : Nat) (hit : Nat → Option Nat) (p stop : Nat) : Scan :=
  if _h : p < stop ∧ 0 < width then
    match hit p with
    | some q => .found q
    | none => scan width hit (p + width) stop
  else .stopped p
termination_by stop - p
decreasing_by omega

def scanByte (buf : List Byte) (p : Nat) : Option Nat := if isStartcode buf p then some p else none

def scanBytes (buf : List Byte) (p stop : Nat) : Scan := scan 1 (scanByte buf) p stop

def wordAt (buf : List Byte) (p : Nat) : BitVec 32 :=
  buf.getD (p + 3) 0 ++ buf.getD (p + 2) 0 ++ buf.getD (p + 1) 0 ++ buf.getD p 0

def hasZero (x : BitVec 32) : Bool := (x - 0x01010101) &&& ~~~x &&& 0x80808080 != 0

def scanWord (buf : List Byte) (p : Nat) : Option Nat :=
  let b := fun i => buf.getD (p + i) 0
  if hasZero (wordAt buf p) then
    if b 1 == 0 && (b 0 == 0 && b 2 == 1) then some p
    else if b 1 == 0 && (b 2 == 0 && b 3 == 1) then some (p + 1)
    else if b 3 == 0 && (b 2 == 0 && b 4 == 1) then some (p + 2)
    else if b 3 == 0 && (b 4 == 0 && b 5 == 1) then some (p + 3)
    else none
  else none

def scanWords (buf : List Byte) (p stop : Nat) : Scan := scan 4 (scanWord buf) p stop

/-- The next aligned address, which is after `p` also where `p` is aligned itself. -/
def aligned (base p : Nat) : Nat := p + 4 - (base + p) % 4

/-- Positions are offsets into `buf`, whose first byte is at the address `base`. -/
def h264FindStartcode (base : Nat) (buf : List Byte) (p endp : Nat) : Nat :=
  match scanBytes buf p (min (aligned base p) (endp - 3)) with
  | .found q => q
  | .stopped p =>
    match scanWords buf p (endp - 3 - 3) with
    | .found q => q
    | .stopped p =>
      match scanBytes buf p (endp - 3) with
      | .found q => q
      | .stopped _ => endp

theorem hasZero_of_bit {x : BitVec 32} (i : Nat) (bit : i = 15 ∨ i = 31)
    (borrowed : (x - 0x01010101).getLsbD i = true) (clear : x.getLsbD i = false) : hasZero x = true := by
  unfold hasZero
  rw [bne_iff_ne]
  intro zero
  have none_ := congrArg (fun word => word.getLsbD i) zero
  have inside : i < 32 := by omega
  have mask : (0x80808080 : BitVec 32).getLsbD i = true := by
    rcases bit with rfl | rfl <;> decide
  simp only [BitVec.getLsbD_and, BitVec.getLsbD_not, borrowed, clear, mask, inside, decide_true,
    Bool.not_false, Bool.and_self] at none_
  rcases bit with rfl | rfl <;> simp at none_

theorem append_byte_toNat {n : Nat} (high : BitVec n) (low : Byte) :
    (high ++ low).toNat = high.toNat * 256 + low.toNat := by
  rw [BitVec.toNat_append, ← Nat.shiftLeft_add_eq_or_of_lt low.isLt, Nat.shiftLeft_eq]

theorem hasZero_second {b3 b2 b0 : Byte} : hasZero (b3 ++ b2 ++ (0 : Byte) ++ b0) = true := by
  have low := b0.isLt
  have middle := b2.isLt
  have high := b3.isLt
  have value : (b3 ++ b2 ++ (0 : Byte) ++ b0).toNat = b3.toNat * 16777216 + b2.toNat * 65536 + b0.toNat := by
    simp only [append_byte_toNat, BitVec.ofNat_eq_ofNat, BitVec.toNat_ofNat]
    omega
  apply hasZero_of_bit 15 (.inl rfl)
  · rw [BitVec.getLsbD, BitVec.toNat_sub, value, Nat.testBit_eq_decide_div_mod_eq]
    rw [decide_eq_true_eq]
    have minus : (16843009 : BitVec 32).toNat = 16843009 := rfl
    omega
  · rw [BitVec.getLsbD, value, Nat.testBit_eq_decide_div_mod_eq, decide_eq_false_iff_not]
    omega

theorem hasZero_fourth {b2 b1 b0 : Byte} : hasZero ((0 : Byte) ++ b2 ++ b1 ++ b0) = true := by
  have low := b0.isLt
  have middle := b1.isLt
  have high := b2.isLt
  have value : ((0 : Byte) ++ b2 ++ b1 ++ b0).toNat = b2.toNat * 65536 + b1.toNat * 256 + b0.toNat := by
    simp only [append_byte_toNat, BitVec.ofNat_eq_ofNat, BitVec.toNat_ofNat]
    omega
  apply hasZero_of_bit 31 (.inr rfl)
  · rw [BitVec.getLsbD, BitVec.toNat_sub, value, Nat.testBit_eq_decide_div_mod_eq]
    rw [decide_eq_true_eq]
    have minus : (16843009 : BitVec 32).toNat = 16843009 := rfl
    omega
  · rw [BitVec.getLsbD, value, Nat.testBit_eq_decide_div_mod_eq, decide_eq_false_iff_not]
    omega

def Clear (buf : List Byte) (p q : Nat) : Prop := ∀ i, p ≤ i → i < q → isStartcode buf i = false

def Finds (buf : List Byte) (width p : Nat) : Option Nat → Prop
  | some q => p ≤ q ∧ q < p + width ∧ isStartcode buf q = true ∧ Clear buf p q
  | none => Clear buf p (p + width)

def Scan.Sound (buf : List Byte) (width p stop : Nat) : Scan → Prop
  | found q => p < stop ∧ p ≤ q ∧ q + 1 < stop + width ∧ isStartcode buf q = true ∧ Clear buf p q
  | stopped q => p ≤ q ∧ stop ≤ q ∧ Clear buf p q

theorem Clear.trans {buf : List Byte} {p q r : Nat} (first : Clear buf p q) (second : Clear buf q r) :
    Clear buf p r := by
  intro i after before
  by_cases early : i < q
  · exact first i after early
  · exact second i (Nat.not_lt.mp early) before

theorem clear_self (buf : List Byte) (p : Nat) : Clear buf p p := by
  intro i after before
  omega

theorem scan_sound {buf : List Byte} {width : Nat} {hit : Nat → Option Nat} (positive : 0 < width)
    (finds : ∀ p, Finds buf width p (hit p)) (p stop : Nat) :
    (scan width hit p stop).Sound buf width p stop := by
  induction p using scan.induct width hit stop with
  | case1 p more q found =>
    have first := finds p
    rw [scan, dif_pos more]
    rw [found] at first
    simp only [found]
    obtain ⟨after, within, starts, clear⟩ := first
    exact ⟨more.1, after, by omega, starts, clear⟩
  | case2 p more none_ ih =>
    have first := finds p
    rw [scan, dif_pos more]
    rw [none_] at first
    simp only [none_]
    cases rest : scan width hit (p + width) stop with
    | found q =>
      rw [rest] at ih
      obtain ⟨-, after, within, starts, clear⟩ := ih
      exact ⟨more.1, by omega, within, starts, first.trans clear⟩
    | stopped q =>
      rw [rest] at ih
      obtain ⟨after, reached, clear⟩ := ih
      exact ⟨by omega, reached, first.trans clear⟩
  | case3 p done =>
    rw [scan, dif_neg done]
    exact ⟨Nat.le_refl p, by omega, clear_self buf p⟩

theorem scanByte_finds (buf : List Byte) (p : Nat) : Finds buf 1 p (scanByte buf p) := by
  unfold scanByte
  by_cases starts : isStartcode buf p = true
  · rw [if_pos starts]
    exact ⟨Nat.le_refl p, Nat.lt_succ_self p, starts, clear_self buf p⟩
  · rw [if_neg starts]
    intro i after before
    have here : i = p := by omega
    rw [here]
    exact Bool.not_eq_true _ ▸ starts

theorem hasZero_wordAt {buf : List Byte} {p : Nat}
    (zero : buf.getD (p + 1) 0 = 0 ∨ buf.getD (p + 3) 0 = 0) : hasZero (wordAt buf p) = true := by
  unfold wordAt
  rcases zero with second | fourth
  · rw [second]
    exact hasZero_second
  · rw [fourth]
    exact hasZero_fourth

theorem isStartcode_iff (buf : List Byte) (p : Nat) :
    isStartcode buf p = true ↔ buf.getD p 0 = 0 ∧ buf.getD (p + 1) 0 = 0 ∧ buf.getD (p + 2) 0 = 1 := by
  simp only [isStartcode, Bool.and_eq_true, beq_iff_eq, and_assoc]

theorem clear_of_bytes {buf : List Byte} {p width : Nat}
    (other : ∀ k, k < width → buf.getD (p + k) 0 = 0 → buf.getD (p + k + 1) 0 = 0 →
      buf.getD (p + k + 2) 0 ≠ 1) : Clear buf p (p + width) := by
  intro i after before
  obtain ⟨k, rfl⟩ := Nat.exists_eq_add_of_le after
  rw [Bool.eq_false_iff, ne_eq, isStartcode_iff]
  rintro ⟨zero0, zero1, one⟩
  exact other k (by omega) zero0 zero1 one

theorem scanWord_finds (buf : List Byte) (p : Nat) : Finds buf 4 p (scanWord buf p) := by
  have small : ∀ k, k < 4 → k = 0 ∨ k = 1 ∨ k = 2 ∨ k = 3 := by
    intro k bound
    omega
  have differ : (0 : Byte) ≠ 1 := by decide
  unfold scanWord
  by_cases zero : hasZero (wordAt buf p) = true
  · simp only [zero, ite_true, Nat.add_zero]
    split_ifs with first second third fourth
    all_goals
      simp only [Bool.and_eq_true, beq_iff_eq, not_and] at *
    · exact ⟨by omega, by omega, (isStartcode_iff buf p).mpr ⟨first.2.1, first.1, first.2.2⟩, clear_self buf p⟩
    · refine ⟨by omega, by omega, (isStartcode_iff buf (p + 1)).mpr second, clear_of_bytes ?_⟩
      intro k bound zero0 zero1
      obtain rfl : k = 0 := by omega
      rw [show p + 0 + 2 = p + 2 by omega, second.2.1]
      exact differ
    · refine ⟨by omega, by omega, (isStartcode_iff buf (p + 2)).mpr ⟨third.2.1, third.1, third.2.2⟩,
        clear_of_bytes ?_⟩
      intro k bound zero0 zero1
      obtain rfl | rfl : k = 0 ∨ k = 1 := by omega
      · rw [show p + 0 + 2 = p + 2 by omega, third.2.1]
        exact differ
      · rw [show p + 1 + 2 = p + 3 by omega, third.1]
        exact differ
    · refine ⟨by omega, by omega, (isStartcode_iff buf (p + 3)).mpr fourth, clear_of_bytes ?_⟩
      intro k bound zero0 zero1
      obtain rfl | rfl | rfl : k = 0 ∨ k = 1 ∨ k = 2 := by omega
      · exact first zero1 zero0
      · rw [show p + 1 + 2 = p + 3 by omega, fourth.1]
        exact differ
      · rw [show p + 2 + 2 = p + 4 by omega, fourth.2.1]
        exact differ
    · apply clear_of_bytes
      intro k bound zero0 zero1
      rcases small k bound with rfl | rfl | rfl | rfl
      · exact first zero1 zero0
      · exact second zero0 zero1
      · exact third zero1 zero0
      · exact fourth zero0 zero1
  · rw [if_neg zero]
    apply clear_of_bytes
    intro k bound zero0 zero1
    exfalso
    apply zero
    apply hasZero_wordAt
    rcases small k bound with rfl | rfl | rfl | rfl
    · exact .inl zero1
    · exact .inl zero0
    · exact .inr zero1
    · exact .inr zero0

theorem scanBytes_sound (buf : List Byte) (p stop : Nat) : (scanBytes buf p stop).Sound buf 1 p stop :=
  scan_sound (by omega) (scanByte_finds buf) p stop

theorem scanWords_sound (buf : List Byte) (p stop : Nat) : (scanWords buf p stop).Sound buf 4 p stop :=
  scan_sound (by omega) (scanWord_finds buf) p stop

/-- The position of the first start code that begins at `p` or later and more than three bytes before
    the end, or the end. -/
def FirstFrom (buf : List Byte) (p endp r : Nat) : Prop :=
  r = endp ∧ Clear buf p (endp - 3) ∨
    p ≤ r ∧ r + 3 < endp ∧ isStartcode buf r = true ∧ Clear buf p r

theorem h264FindStartcode_first (base : Nat) (buf : List Byte) (p endp : Nat) :
    FirstFrom buf p endp (h264FindStartcode base buf p endp) := by
  unfold h264FindStartcode
  have before := scanBytes_sound buf p (min (aligned base p) (endp - 3))
  cases first : scanBytes buf p (min (aligned base p) (endp - 3)) with
  | found q =>
    rw [first] at before
    obtain ⟨-, after, within, starts, clear⟩ := before
    have room : q + 3 < endp := by omega
    exact .inr ⟨after, room, starts, clear⟩
  | stopped q =>
    rw [first] at before
    obtain ⟨after, -, clear⟩ := before
    have words := scanWords_sound buf q (endp - 3 - 3)
    simp only
    cases second : scanWords buf q (endp - 3 - 3) with
    | found r =>
      rw [second] at words
      obtain ⟨some_, later, within, starts, still⟩ := words
      have room : r + 3 < endp := by omega
      exact .inr ⟨Nat.le_trans after later, room, starts, clear.trans still⟩
    | stopped r =>
      rw [second] at words
      obtain ⟨later, -, still⟩ := words
      have rest := scanBytes_sound buf r (endp - 3)
      simp only
      cases third : scanBytes buf r (endp - 3) with
      | found u =>
        rw [third] at rest
        obtain ⟨-, last, within, starts, toEnd⟩ := rest
        have room : u + 3 < endp := by omega
        exact .inr ⟨Nat.le_trans after (Nat.le_trans later last), room, starts,
          (clear.trans still).trans toEnd⟩
      | stopped u =>
        rw [third] at rest
        obtain ⟨last, reached, toEnd⟩ := rest
        refine .inl ⟨rfl, ?_⟩
        intro i from_ until_
        exact ((clear.trans still).trans toEnd) i from_ (by omega)

theorem FirstFrom.unique {buf : List Byte} {p endp r r' : Nat} (first : FirstFrom buf p endp r)
    (first' : FirstFrom buf p endp r') : r = r' := by
  rcases first with ⟨rfl, clear⟩ | ⟨after, inside, starts, clear⟩
  · rcases first' with ⟨rfl, -⟩ | ⟨after, inside, starts, -⟩
    · rfl
    · rw [clear r' after (by omega)] at starts
      contradiction
  · rcases first' with ⟨rfl, clear'⟩ | ⟨after', inside', starts', clear'⟩
    · rw [clear' r after (by omega)] at starts
      contradiction
    · rcases Nat.lt_trichotomy r r' with less | same | more
      · rw [clear' r after less] at starts
        contradiction
      · exact same
      · rw [clear r' after' more] at starts'
        contradiction

/-- The search byte by byte. -/
def findStartcodeBytes (buf : List Byte) (p endp : Nat) : Nat :=
  match scanBytes buf p (endp - 3) with
  | .found q => q
  | .stopped _ => endp

theorem findStartcodeBytes_first (buf : List Byte) (p endp : Nat) :
    FirstFrom buf p endp (findStartcodeBytes buf p endp) := by
  have bytes := scanBytes_sound buf p (endp - 3)
  unfold findStartcodeBytes
  cases scanned : scanBytes buf p (endp - 3) with
  | found q =>
    rw [scanned] at bytes
    rcases bytes with ⟨-, after, within, starts, clear⟩
    have room : q + 3 < endp := by omega
    exact .inr ⟨after, room, starts, clear⟩
  | stopped q =>
    rw [scanned] at bytes
    rcases bytes with ⟨-, reached, clear⟩
    refine .inl ⟨rfl, ?_⟩
    intro i after before
    exact clear i after (Nat.lt_of_lt_of_le before reached)

/-- Wherever the buffer is aligned, the search by words agrees with the search by bytes. -/
theorem h264FindStartcode_bytes (base : Nat) (buf : List Byte) (p endp : Nat) :
    h264FindStartcode base buf p endp = findStartcodeBytes buf p endp ∧
      FirstFrom buf p endp (h264FindStartcode base buf p endp) := by
  have words := h264FindStartcode_first base buf p endp
  exact ⟨words.unique (findStartcodeBytes_first buf p endp), words⟩

theorem h264FindStartcode_eq {buf : List Byte} {p endp r : Nat} (base : Nat)
    (first : FirstFrom buf p endp r) : h264FindStartcode base buf p endp = r :=
  (h264FindStartcode_first base buf p endp).unique first

end Baresip.Avcodec
