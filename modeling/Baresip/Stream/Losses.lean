import Baresip.Library.Runs
import Baresip.Stream.InOrder

set_option linter.dupNamespace false

namespace Baresip.Stream

open Re Library

/-- A packet that moves the sequence number forward, or one that is a duplicate or late. -/
inductive Arrival
  | forward (d : Nat) (small : 1 ≤ d ∧ d ≤ 2999)
  | behind (k : Nat) (near : k ≤ 100)

/-- The sequence number of a packet that arrives after the number `highest`. -/
def Arrival.seq (highest : BitVec 16) : Arrival → BitVec 16
  | .forward d _ => highest + .ofNat 16 d
  | .behind k _ => highest - .ofNat 16 k

def Arrival.highest (highest : BitVec 16) : Arrival → BitVec 16
  | .forward d _ => highest + .ofNat 16 d
  | .behind _ _ => highest

/-- What is lost in front of a packet. -/
def Arrival.gap : Arrival → Int
  | .forward d _ => d - 1
  | .behind _ _ => 0

/-- The number that the sender has reached, the field of the stream, and the sum of the positive results of `lostcalc`. -/
structure Count where
  highest : BitVec 16
  pseq : BitVec 32
  lost : Int

def Count.step (c : Count) (a : Arrival) : Count :=
  let (lostc, pseq) := lostcalc c.pseq (a.seq c.highest)
  ⟨a.highest c.highest, pseq, if 0 < lostc then c.lost + lostc else c.lost⟩

def gaps : List Arrival → Int
  | [] => 0
  | a :: arrivals => a.gap + gaps arrivals

/-- A duplicate and a late packet have a negative result and leave the field alone. -/
def Count.Ignores (c : Count) (a : Arrival) : Prop :=
  ∀ k near, a = .behind k near → (lostcalc c.pseq (a.seq c.highest)).1 < 0 ∧ (lostcalc c.pseq (a.seq c.highest)).2 = c.pseq

structure Accounts (pseq : BitVec 32) (arrivals : List Arrival) : Prop where
  total : (arrivals.foldl Count.step ⟨pseq.setWidth 16, pseq, 0⟩).lost = gaps arrivals
  late : Along Count.step Count.Ignores ⟨pseq.setWidth 16, pseq, 0⟩ arrivals

section
variable {pseq : BitVec 32} {c : Count} {d k : Nat}

theorem lostcalc_forward (known : pseq ≠ .allOnes 32) (small : 1 ≤ d ∧ d ≤ 2999) :
    lostcalc pseq (pseq.setWidth 16 + .ofNat 16 d) = ((d : Int) - 1, (pseq.setWidth 16 + .ofNat 16 d).setWidth 32) := by
  have value : (BitVec.ofNat 16 d).toNat = d := by
    rw [BitVec.toNat_ofNat]
    exact Nat.mod_eq_of_lt (by omega)
  have diff : ((pseq.setWidth 16 + .ofNat 16 d).setWidth 32 - pseq).setWidth 16 = BitVec.ofNat 16 d := by
    apply BitVec.eq_of_toNat_eq
    simp only [BitVec.toNat_setWidth, BitVec.toNat_sub, BitVec.toNat_add, BitVec.toNat_ofNat]
    have range := pseq.isLt
    omega
  have moved : BitVec.ofNat 16 d ≠ 0 := by
    intro none_
    have zero := congrArg BitVec.toNat none_
    rw [value] at zero
    exact absurd zero (by simp; omega)
  have few : BitVec.ofNat 16 d < 3000 := by
    rw [BitVec.lt_def, value]
    simp
    omega
  rw [lostcalc_of_delta known diff, if_neg moved, if_pos few, value]

theorem lostcalc_behind (known : pseq ≠ .allOnes 32) (near : k ≤ 100) :
    (lostcalc pseq (pseq.setWidth 16 - .ofNat 16 k)).1 < 0 ∧ (lostcalc pseq (pseq.setWidth 16 - .ofNat 16 k)).2 = pseq := by
  have diff : ((pseq.setWidth 16 - .ofNat 16 k).setWidth 32 - pseq).setWidth 16 = -BitVec.ofNat 16 k := by
    apply BitVec.eq_of_toNat_eq
    simp only [BitVec.toNat_setWidth, BitVec.toNat_sub, BitVec.toNat_neg, BitVec.toNat_ofNat]
    have range := pseq.isLt
    omega
  rw [lostcalc_of_delta known diff]
  by_cases same : k = 0
  · subst same
    rw [if_pos (by decide : -BitVec.ofNat 16 0 = 0)]
    exact ⟨(by decide : (-1 : Int) < 0), rfl⟩
  · have value : (-BitVec.ofNat 16 k).toNat = 65536 - k := by
      rw [BitVec.toNat_neg, BitVec.toNat_ofNat]
      omega
    have moved : -BitVec.ofNat 16 k ≠ 0 := by
      intro none_
      have zero := congrArg BitVec.toNat none_
      rw [value] at zero
      exact absurd zero (by simp; omega)
    have far : ¬-BitVec.ofNat 16 k < 3000 := by
      rw [BitVec.lt_def, value]
      simp
      omega
    have late : ¬-BitVec.ofNat 16 k < 0xff9c := by
      rw [BitVec.lt_def, value]
      simp
      omega
    rw [if_neg moved, if_neg far, if_neg late]
    exact ⟨(by decide : (-2 : Int) < 0), rfl⟩

/-- The field holds the number that the sender has reached. -/
def Count.Known (c : Count) : Prop := c.pseq ≠ .allOnes 32 ∧ c.pseq.setWidth 16 = c.highest

theorem Count.Known.step (known : c.Known) (a : Arrival) :
    (c.step a).Known ∧ (c.step a).lost = c.lost + a.gap ∧ c.Ignores a := by
  rcases known with ⟨known, same⟩
  cases a with
  | forward d small =>
    have lost := lostcalc_forward known small
    rw [same] at lost
    refine ⟨?_, ?_, fun _ _ other => by cases other⟩
    · unfold Count.step Count.Known Arrival.seq Arrival.highest
      dsimp only
      rw [lost]
      constructor
      · intro all
        have value := congrArg BitVec.toNat all
        have range := (c.highest + BitVec.ofNat 16 d).isLt
        rw [BitVec.toNat_setWidth_of_le (by decide)] at value
        simp at value
        omega
      · exact BitVec.setWidth_setWidth_of_le _ (by decide)
    · unfold Count.step Arrival.seq Arrival.gap
      dsimp only
      rw [lost]
      dsimp only
      split <;> omega
  | behind k near =>
    have late := lostcalc_behind known near
    rw [same] at late
    refine ⟨?_, ?_, fun _ _ _ => late⟩
    · unfold Count.step Count.Known Arrival.seq Arrival.highest
      dsimp only
      rw [late.2]
      exact ⟨known, same⟩
    · unfold Count.step Arrival.seq Arrival.gap
      dsimp only
      rw [if_neg (Int.not_lt.mpr (Int.le_of_lt late.1)), Int.add_zero]

theorem run_lost (known : c.Known) (arrivals : List Arrival) : (arrivals.foldl Count.step c).lost = c.lost + gaps arrivals := by
  induction arrivals generalizing c with
  | nil => exact (Int.add_zero _).symm
  | cons a arrivals ih =>
    rcases known.step a with ⟨next, gained, _⟩
    rw [List.foldl_cons, ih next, gained, gaps, Int.add_assoc]

theorem accounts (known : pseq ≠ .allOnes 32) (arrivals : List Arrival) : Accounts pseq arrivals where
  total := by
    rw [run_lost ⟨known, rfl⟩]
    exact Int.zero_add _
  late := along_of_invariant (I := Count.Known) (fun _ a known => (known.step a).1) (fun _ a known => (known.step a).2.2)
    ⟨known, rfl⟩

end

/-- From any number on the lost packets are counted exactly; before the first packet there is no number, and the first
    packet sets it. -/
theorem lost_exactly (pseq : BitVec 32) (arrivals : List Arrival) :
    (pseq ≠ .allOnes 32 → Accounts pseq arrivals) ∧
      ∀ seq, lostcalc (.allOnes 32) seq = (0, seq.setWidth 32) ∧ Accounts (seq.setWidth 32) arrivals := by
  refine ⟨fun known => accounts known arrivals, fun seq => ⟨rfl, accounts ?_ arrivals⟩⟩
  intro all
  have value := congrArg BitVec.toNat all
  have range := seq.isLt
  rw [BitVec.toNat_setWidth_of_le (by decide)] at value
  simp at value
  omega

end Baresip.Stream
