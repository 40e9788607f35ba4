import Baresip.Re.Regex
import Mathlib.Data.Nat.Find

set_option linter.dupNamespace false

/-! The comparison that is built where the platform has no `strncasecmp`. -/

namespace Baresip.Re.Casecmp

abbrev Memory := Nat → Byte

/-- A pointer-length object, by the address of its text. -/
structure PlAt where
  p : Nat
  l : Nat
  deriving DecidableEq, Repr

def LOWER (d : BitVec 32) : BitVec 32 := d ||| 0x20202020

section
variable (mem : Memory)

def wordAt (p : Nat) : BitVec 32 := mem (p + 3) ++ mem (p + 2) ++ mem (p + 1) ++ mem p

def wordWise : Nat → Nat → Nat → Bool
  | 0, _, _ => true
  | n + 1, p1, p2 => LOWER (wordAt mem p1) == LOWER (wordAt mem p2) && wordWise n (p1 + 4) (p2 + 4)

def byteWise : Nat → Nat → Nat → Bool
  | 0, _, _ => true
  | n + 1, p1, p2 => tolower (mem p1) == tolower (mem p2) && byteWise n (p1 + 1) (p2 + 1)

/-- `ptrSize` is the size of a pointer. -/
def casecmp (ptrSize : Nat) (pl : PlAt) (str : Nat) : Option Errno :=
  let len := pl.l - pl.l % 4
  if pl.p &&& (ptrSize - 1) ≠ 0 then if byteWise mem pl.l pl.p str then none else some .EINVAL
  else if str &&& (ptrSize - 1) ≠ 0 then if byteWise mem pl.l pl.p str then none else some .EINVAL
  else if ¬ wordWise mem (len / 4) pl.p str then some .EINVAL
  else if byteWise mem (pl.l - len) (pl.p + len) (str + len) then none else some .EINVAL

/-- Two pointers to one object have one text, which the last check before the comparison finds. -/
def plCasecmp (ptrSize : Nat) (pl1 pl2 : PlAt) : Option Errno :=
  if pl1.l ≠ pl2.l then some .EINVAL
  else if pl1.l = 0 then none
  else if pl1.p = pl2.p then none
  else casecmp mem ptrSize pl1 pl2.p

def strlen (str : Nat) (ended : ∃ n, mem (str + n) = 0) : Nat := Nat.find ended

def plStrcasecmp (ptrSize : Nat) (pl : PlAt) (str : Nat) (ended : ∃ n, mem (str + n) = 0) : Option Errno :=
  plCasecmp mem ptrSize pl ⟨str, strlen mem str ended⟩

/-- The strings have one length, and differ in nothing but the case of letters. -/
def SameText (pl1 pl2 : PlAt) : Prop :=
  pl1.l = pl2.l ∧ ∀ i < pl1.l, tolower (mem (pl1.p + i)) = tolower (mem (pl2.p + i))

/-- Both texts are aligned, and where they differ in more than case it is within whole words, by the bit that
    makes a letter small. -/
structure Confused (ptrSize : Nat) (pl1 pl2 : PlAt) : Prop where
  left : pl1.p &&& (ptrSize - 1) = 0
  right : pl2.p &&& (ptrSize - 1) = 0
  length : pl1.l = pl2.l
  words : ∀ i < pl1.l - pl1.l % 4, mem (pl1.p + i) ||| 0x20 = mem (pl2.p + i) ||| 0x20
  tail : ∀ i < pl1.l, pl1.l - pl1.l % 4 ≤ i → tolower (mem (pl1.p + i)) = tolower (mem (pl2.p + i))
  differ : ∃ i < pl1.l, tolower (mem (pl1.p + i)) ≠ tolower (mem (pl2.p + i))

end

section
variable {mem : Memory} {ptrSize : Nat} {pl1 pl2 : PlAt}

theorem tolower_folds (c : Byte) : tolower c ||| 0x20 = c ||| 0x20 := by
  revert c
  decide +kernel

theorem append_eq {v w : Nat} {x x' : BitVec v} {y y' : BitVec w} : x ++ y = x' ++ y' ↔ x = x' ∧ y = y' := by
  constructor
  · intro same
    have low : y = y' := by
      have bits := congrArg (BitVec.setWidth w) same
      simpa [BitVec.setWidth_append] using bits
    subst low
    exact ⟨(BitVec.append_left_inj y).mp same, rfl⟩
  · rintro ⟨rfl, rfl⟩
    rfl

theorem lower_word (p1 p2 : Nat) :
    LOWER (wordAt mem p1) = LOWER (wordAt mem p2) ↔ ∀ i < 4, mem (p1 + i) ||| 0x20 = mem (p2 + i) ||| 0x20 := by
  have fold (p : Nat) : LOWER (wordAt mem p) =
      (mem (p + 3) ||| 0x20) ++ (mem (p + 2) ||| 0x20) ++ (mem (p + 1) ||| 0x20) ++ (mem p ||| 0x20) := by
    rw [← BitVec.or_append, ← BitVec.or_append, ← BitVec.or_append]
    rfl
  rw [fold, fold, append_eq, append_eq, append_eq]
  constructor
  · rintro ⟨⟨⟨three, two⟩, one⟩, zero⟩ i below
    have cases : i = 0 ∨ i = 1 ∨ i = 2 ∨ i = 3 := by omega
    rcases cases with rfl | rfl | rfl | rfl
    · exact zero
    · exact one
    · exact two
    · exact three
  · intro same
    exact ⟨⟨⟨same 3 (by decide), same 2 (by decide)⟩, same 1 (by decide)⟩, same 0 (by decide)⟩

theorem wordWise_iff (n p1 p2 : Nat) :
    wordWise mem n p1 p2 = true ↔ ∀ i < 4 * n, mem (p1 + i) ||| 0x20 = mem (p2 + i) ||| 0x20 := by
  induction n generalizing p1 p2 with
  | zero => simp [wordWise]
  | succ n ih =>
    rw [wordWise, Bool.and_eq_true, beq_iff_eq, lower_word, ih]
    constructor
    · rintro ⟨first, later⟩ i below
      by_cases early : i < 4
      · exact first i early
      · have behind := later (i - 4) (by omega)
        rwa [show p1 + 4 + (i - 4) = p1 + i by omega, show p2 + 4 + (i - 4) = p2 + i by omega] at behind
    · intro all
      refine ⟨fun i below => all i (by omega), fun i below => ?_⟩
      rw [Nat.add_assoc, Nat.add_assoc]
      exact all (4 + i) (by omega)

theorem byteWise_iff (n p1 p2 : Nat) :
    byteWise mem n p1 p2 = true ↔ ∀ i < n, tolower (mem (p1 + i)) = tolower (mem (p2 + i)) := by
  induction n generalizing p1 p2 with
  | zero => simp [byteWise]
  | succ n ih =>
    rw [byteWise, Bool.and_eq_true, beq_iff_eq, ih]
    constructor
    · rintro ⟨first, later⟩ i below
      cases i with
      | zero => exact first
      | succ i =>
        have behind := later i (Nat.lt_of_succ_lt_succ below)
        rwa [Nat.add_right_comm p1 1 i, Nat.add_right_comm p2 1 i] at behind
    · intro all
      refine ⟨all 0 (Nat.succ_pos n), fun i below => ?_⟩
      rw [Nat.add_right_comm p1 1 i, Nat.add_right_comm p2 1 i]
      exact all (i + 1) (Nat.succ_lt_succ below)

theorem byteWise_sameText (length : pl1.l = pl2.l) :
    (if byteWise mem pl1.l pl1.p pl2.p then none else some Errno.EINVAL) = none ↔ SameText mem pl1 pl2 := by
  rw [SameText, and_iff_right length, ← byteWise_iff]
  split <;> simp_all

/-- Bytes that are alike in lower case are alike with the bit set. -/
theorem SameText.folded (same : SameText mem pl1 pl2) {i : Nat} (inside : i < pl1.l) :
    mem (pl1.p + i) ||| 0x20 = mem (pl2.p + i) ||| 0x20 := by
  rw [← tolower_folds, same.2 i inside, tolower_folds]

theorem wordWise_confused (left : pl1.p &&& (ptrSize - 1) = 0) (right : pl2.p &&& (ptrSize - 1) = 0)
    (length : pl1.l = pl2.l) (words : wordWise mem ((pl1.l - pl1.l % 4) / 4) pl1.p pl2.p = true)
    (tail : byteWise mem (pl1.l - (pl1.l - pl1.l % 4)) (pl1.p + (pl1.l - pl1.l % 4)) (pl2.p + (pl1.l - pl1.l % 4)) = true) :
    SameText mem pl1 pl2 ∨ Confused mem ptrSize pl1 pl2 := by
  rw [wordWise_iff, show 4 * ((pl1.l - pl1.l % 4) / 4) = pl1.l - pl1.l % 4 by omega] at words
  rw [byteWise_iff] at tail
  by_cases alike : ∀ i < pl1.l, tolower (mem (pl1.p + i)) = tolower (mem (pl2.p + i))
  · exact Or.inl ⟨length, alike⟩
  · refine Or.inr ⟨left, right, length, words, ?_, ?_⟩
    · intro i inside behind
      have found := tail (i - (pl1.l - pl1.l % 4)) (by omega)
      rwa [Nat.add_assoc, Nat.add_assoc, Nat.add_sub_cancel' behind] at found
    · push Not at alike
      exact alike

theorem plCasecmp_none_iff (mem : Memory) (ptrSize : Nat) (pl1 pl2 : PlAt) :
    plCasecmp mem ptrSize pl1 pl2 = none ↔ SameText mem pl1 pl2 ∨ Confused mem ptrSize pl1 pl2 := by
  by_cases length : pl1.l = pl2.l
  swap
  · rw [plCasecmp, if_pos length]
    exact iff_of_false (by simp) fun either => length (either.elim And.left Confused.length)
  by_cases empty : pl1.l = 0
  · rw [plCasecmp, if_neg (not_not_intro length), if_pos empty]
    exact iff_of_true rfl (Or.inl ⟨length, fun i inside => absurd inside (by omega)⟩)
  by_cases here : pl1.p = pl2.p
  · rw [plCasecmp, if_neg (not_not_intro length), if_neg empty, if_pos here]
    exact iff_of_true rfl (Or.inl ⟨length, fun i _ => by rw [here]⟩)
  rw [plCasecmp, if_neg (not_not_intro length), if_neg empty, if_neg here, casecmp]
  by_cases left : pl1.p &&& (ptrSize - 1) = 0
  swap
  · rw [if_pos left, byteWise_sameText length]
    exact ⟨Or.inl, fun either => either.resolve_right fun confused => left confused.left⟩
  by_cases right : pl2.p &&& (ptrSize - 1) = 0
  swap
  · rw [if_neg (not_not_intro left), if_pos right, byteWise_sameText length]
    exact ⟨Or.inl, fun either => either.resolve_right fun confused => right confused.right⟩
  rw [if_neg (not_not_intro left), if_neg (not_not_intro right)]
  constructor
  · intro equal
    split at equal
    · cases equal
    next words =>
      split at equal
      next tail => exact wordWise_confused left right length (not_not.mp words) tail
      · cases equal
  · intro either
    have words : wordWise mem ((pl1.l - pl1.l % 4) / 4) pl1.p pl2.p = true := by
      rw [wordWise_iff, show 4 * ((pl1.l - pl1.l % 4) / 4) = pl1.l - pl1.l % 4 by omega]
      intro i inside
      exact either.elim (fun same => same.folded (by omega)) fun confused => confused.words i inside
    have tail : byteWise mem (pl1.l - (pl1.l - pl1.l % 4)) (pl1.p + (pl1.l - pl1.l % 4))
        (pl2.p + (pl1.l - pl1.l % 4)) = true := by
      rw [byteWise_iff]
      intro i inside
      rw [Nat.add_assoc, Nat.add_assoc]
      exact either.elim (fun same => same.2 _ (by omega)) fun confused => confused.tail _ (by omega) (Nat.le_add_right _ _)
    rw [if_neg (not_not_intro words), if_pos tail]

theorem Confused.apart (confused : Confused mem ptrSize pl1 pl2) : ¬ SameText mem pl1 pl2 := by
  intro same
  obtain ⟨i, inside, differ⟩ := confused.differ
  exact differ (same.2 i inside)

theorem plCasecmp_agrees (mem : Memory) (ptrSize : Nat) (pl1 pl2 : PlAt) :
    (plCasecmp mem ptrSize pl1 pl2 = none ↔ SameText mem pl1 pl2) ↔ ¬ Confused mem ptrSize pl1 pl2 := by
  rw [plCasecmp_none_iff]
  constructor
  · intro agrees confused
    exact confused.apart (agrees.mp (Or.inr confused))
  · intro clear
    exact or_iff_left clear

/-- The two comparisons find strings equal that are, and no others, exactly when the strings are not confused. -/
theorem casecmp_agrees (mem : Memory) (ptrSize : Nat) (pl : PlAt) :
    (∀ pl2, (plCasecmp mem ptrSize pl pl2 = none ↔ SameText mem pl pl2) ↔ ¬ Confused mem ptrSize pl pl2) ∧
      ∀ str ended, (plStrcasecmp mem ptrSize pl str ended = none ↔ SameText mem pl ⟨str, strlen mem str ended⟩) ↔
        ¬ Confused mem ptrSize pl ⟨str, strlen mem str ended⟩ :=
  ⟨plCasecmp_agrees mem ptrSize pl, fun str ended => plCasecmp_agrees mem ptrSize pl ⟨str, strlen mem str ended⟩⟩

/-- `x-^y` at one aligned address and `x-~y` at another, both followed by a NUL. -/
def tokens : Memory
  | 0x1000 | 0x2000 => 0x78
  | 0x1001 | 0x2001 => 0x2d
  | 0x1002 => 0x5e
  | 0x2002 => 0x7e
  | 0x1003 | 0x2003 => 0x79
  | _ => 0

theorem tokens_confused :
    ¬ (plCasecmp tokens 4 ⟨0x1000, 4⟩ ⟨0x2000, 4⟩ = none ↔ SameText tokens ⟨0x1000, 4⟩ ⟨0x2000, 4⟩) := by
  intro agrees
  have same := agrees.mp (by decide +kernel)
  have differ := same.2 2 (by decide)
  revert differ
  decide +kernel

end

end Baresip.Re.Casecmp
