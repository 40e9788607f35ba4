import Baresip.Rtcp.Losses

set_option linter.dupNamespace false

namespace Baresip.Rtcp

open Re Library

structure RtcpStatsTx where
  sent : BitVec 32
  lost : BitVec 32
  jit : BitVec 32
  deriving DecidableEq, Repr

structure RtcpStatsRx where
  sent : BitVec 32
  lost : Int
  jit : BitVec 32
  deriving DecidableEq, Repr

structure RtcpStats where
  tx : RtcpStatsTx
  rx : RtcpStatsRx
  deriving DecidableEq, Repr

def rtcpStats (sess : RtcpSess) (ssrc : BitVec 32) : Except Errno RtcpStats :=
  match sess.memberFind ssrc with
  | none => .error .ENOENT
  | some mbr =>
    .ok
      { tx := ⟨sess.txstat.psent, mbr.cumLost, mbr.jit⟩
        rx :=
          match mbr.s with
          | none => ⟨0, 0, 0⟩
          | some s => ⟨s.received, s.calcLost, if sess.srateRx ≠ 0 then 1000000 * (s.jitter >>> 4) / sess.srateRx else 0⟩ }

/-! Packets that come as fast as their timestamps go on. -/

/-- A source, the milliseconds that the clock shows, and the timestamp of the last packet. -/
structure Pace where
  s : RtpSource
  now : Nat
  ts : BitVec 32

/-- A packet, and how many milliseconds after the one before it comes. -/
structure PacedPacket where
  gap : Nat
  seq : BitVec 16
  payloadSize : BitVec 32
  ntp : Except Errno NtpTime
  time : BitVec 64

namespace Pace

/-- The sampling rate is `q` kHz. -/
def srate (q : Nat) : BitVec 32 := .ofNat 32 (1000 * q)

def step (q : Nat) (p : Pace) (packet : PacedPacket) : Pace where
  s := p.s.receive (srate q) ⟨packet.ntp, .ofNat 64 (p.now + packet.gap), packet.time⟩ packet.seq
    (p.ts + .ofNat 32 (q * packet.gap)) packet.payloadSize
  now := p.now + packet.gap
  ts := p.ts + .ofNat 32 (q * packet.gap)

def start (q : Nat) (now : Nat) (ts : BitVec 32) (peer : Sa) (packet : PacedPacket) : Pace :=
  step q ⟨RtcpSess.firstSource packet.seq peer, now, ts⟩ packet

/-- How often the product of the clock and the rate has wrapped. -/
def wraps (q now : Nat) : Nat := now * (1000 * q) / 2 ^ 32

/-- The product has wrapped a multiple of 1000 times between two packets, or else what has been received has wrapped to
    nothing, which makes the source skip its estimate. -/
def Unbroken (q : Nat) (p : Pace) (packet : PacedPacket) : Prop :=
  p.s.rtpRxBytes = 0 ∨ wraps q (p.now + packet.gap) % 1000 = wraps q p.now % 1000

def Steady (p : Pace) : Prop := p.s.jitter = 0

section
variable {q : Nat} {p : Pace} {s : RtpSource}

/-- The arrival time in timestamp units. -/
def tsArrive (q now : Nat) : BitVec 32 := (BitVec.ofNat 64 now).setWidth 32 * srate q / 1000

/-- How much the arrival time has fallen behind by the wraps. -/
def behind (q now : Nat) : Nat := (2 ^ 32 * wraps q now + 999) / 1000

theorem tsArrive_behind (q now : Nat) : (tsArrive q now).toNat + behind q now = q * now := by
  have product : now * (1000 * q) = 1000 * (q * now) := by
    rw [Nat.mul_left_comm, Nat.mul_comm now q]
  have value : (tsArrive q now).toNat = 1000 * (q * now) % 2 ^ 32 / 1000 := by
    have thousand : (1000 : BitVec 32).toNat = 1000 := rfl
    rw [tsArrive, srate, BitVec.toNat_udiv, BitVec.toNat_mul, BitVec.toNat_setWidth, BitVec.toNat_ofNat, BitVec.toNat_ofNat,
      thousand, Nat.mod_mod_of_dvd _ (by decide), Nat.mod_mul_mod, Nat.mul_mod_mod, product]
  rw [value, behind, wraps, product]
  generalize q * now = ticks
  omega

theorem behind_eq {a b : Nat} :
    (2 ^ 32 * a + 999) / 1000 % 2 ^ 32 = (2 ^ 32 * b + 999) / 1000 % 2 ^ 32 ↔ a % 1000 = b % 1000 := by
  have reduced (k : Nat) : (2 ^ 32 * k + 999) / 1000 % 2 ^ 32 = (2 ^ 32 * (k % 1000) + 999) / 1000 := by
    have cut : 2 ^ 32 * k + 999 = 2 ^ 32 * (k % 1000) + 999 + 1000 * (2 ^ 32 * (k / 1000)) := by omega
    have below : k % 1000 < 1000 := Nat.mod_lt _ (by decide)
    rw [cut, Nat.add_mul_div_left _ _ (by decide), Nat.add_mul_mod_self_left, Nat.mod_eq_of_lt (by omega)]
  rw [reduced, reduced]
  omega

/-- The transit time stays the same when the wraps do. -/
theorem transit_same (q now gap : Nat) (ts : BitVec 32) :
    tsArrive q (now + gap) - (ts + .ofNat 32 (q * gap)) - (tsArrive q now - ts) = 0 ↔
      wraps q (now + gap) % 1000 = wraps q now % 1000 := by
  have before := tsArrive_behind q now
  have after_ := tsArrive_behind q (now + gap)
  rw [Nat.mul_add] at after_
  have moved : (BitVec.ofNat 32 (q * gap)).toNat = q * gap % 2 ^ 32 := BitVec.toNat_ofNat _ _
  rw [← behind_eq]
  change _ ↔ behind q (now + gap) % 2 ^ 32 = behind q now % 2 ^ 32
  have difference : tsArrive q (now + gap) - (ts + .ofNat 32 (q * gap)) - (tsArrive q now - ts) =
      tsArrive q (now + gap) - (tsArrive q now + .ofNat 32 (q * gap)) := by
    generalize BitVec.ofNat 32 (q * gap) = g
    bv_omega
  have zero (x : BitVec 32) : 0 + x = x := BitVec.zero_add x
  rw [difference, BitVec.sub_eq_iff_eq_add, zero, ← BitVec.toNat_inj, BitVec.toNat_add, moved]
  have small := (tsArrive q now).isLt
  have small' := (tsArrive q (now + gap)).isLt
  omega

theorem updateSeq_keeps (s : RtpSource) (seq : BitVec 16) :
    (s.updateSeq seq).2.transit = s.transit ∧ (s.updateSeq seq).2.jitter = s.jitter ∧
      (s.updateSeq seq).2.rtpRxBytes = s.rtpRxBytes := by
  rw [RtpSource.updateSeq]
  dsimp only
  split_ifs <;> exact ⟨rfl, rfl, rfl⟩

theorem calcJitter_transit (s : RtpSource) (rtpTs arrival : BitVec 32) : (s.calcJitter rtpTs arrival).transit = arrival - rtpTs := by
  rw [RtpSource.calcJitter]
  split <;> rfl

/-- An estimate that is 0 stays 0 when it is not made, or when the transit time has not changed. -/
theorem calcJitter_zero (quiet : s.jitter = 0) (rtpTs arrival : BitVec 32) :
    (s.calcJitter rtpTs arrival).jitter = 0 ↔ s.rtpRxBytes = 0 ∨ arrival - rtpTs - s.transit = 0 := by
  rw [RtpSource.calcJitter]
  by_cases first : s.rtpRxBytes = 0
  · rw [if_pos first]
    exact iff_of_true quiet (Or.inl first)
  · rw [if_neg first]
    dsimp only
    rw [quiet, or_iff_right first]
    generalize arrival - rtpTs - s.transit = d
    have none_ (x : BitVec 32) : (0 : BitVec 32) + (x - ((0 : BitVec 32) + 8) >>> 4) = x := (BitVec.zero_add _).trans (BitVec.sub_zero x)
    rw [none_]
    split
    · exact BitVec.neg_eq_zero_iff
    · rfl

end

section
variable {q : Nat} {p : Pace}

/-- The transit time is that of the last packet. -/
def Transits (q : Nat) (p : Pace) : Prop := q ≠ 0 → p.s.transit = tsArrive q p.now - p.ts

theorem srate_zero (rate : 1000 * q < 2 ^ 32) : srate q ≠ 0 ↔ q ≠ 0 := by
  rw [srate, ne_eq, ← BitVec.toNat_inj, BitVec.toNat_ofNat, Nat.mod_eq_of_lt rate]
  show ¬ 1000 * q = 0 ↔ _
  omega

theorem step_transits (rate : 1000 * q < 2 ^ 32) (p : Pace) (packet : PacedPacket) : Transits q (step q p packet) := by
  intro some_
  have used : srate q ≠ 0 := (srate_zero rate).mpr some_
  simp only [step, RtpSource.receive, if_pos used]
  exact calcJitter_transit _ _ _

theorem step_steady (rate : 1000 * q < 2 ^ 32) (packet : PacedPacket) (transits : Transits q p) (steady : Steady p) :
    Steady (step q p packet) ↔ Unbroken q p packet := by
  obtain ⟨transit, jitter, bytes⟩ := updateSeq_keeps p.s packet.seq
  by_cases zero : q = 0
  · subst zero
    refine iff_of_true ?_ (Or.inr ?_)
    · exact jitter.trans steady
    · rw [wraps, wraps, Nat.mul_zero, Nat.mul_zero]
  · have used : srate q ≠ 0 := (srate_zero rate).mpr zero
    have estimated := calcJitter_zero (jitter.trans steady) (p.ts + .ofNat 32 (q * packet.gap)) (tsArrive q (p.now + packet.gap))
    rw [transit, bytes, transits zero, transit_same] at estimated
    simp only [Steady, step, RtpSource.receive, if_pos used]
    exact estimated

theorem start_steady (peer : Sa) (q now : Nat) (ts : BitVec 32) (packet : PacedPacket) : Steady (start q now ts peer packet) := by
  obtain ⟨transit, jitter, bytes⟩ := updateSeq_keeps (RtcpSess.firstSource packet.seq peer) packet.seq
  simp only [Steady, start, step, RtpSource.receive]
  split
  · exact (calcJitter_zero jitter _ _).mpr (Or.inl bytes)
  · exact jitter

/-- The estimate stays 0 through a run exactly when no packet comes behind a wrap. -/
theorem steady_iff (rate : 1000 * q < 2 ^ 32) (now : Nat) (ts : BitVec 32) (peer : Sa) (first : PacedPacket)
    (packets : List PacedPacket) :
    Throughout (step q) Steady (start q now ts peer first) packets ↔
      Along (step q) (Unbroken q) (start q now ts peer first) packets :=
  throughout_iff_along_of_invariant (fun p packet _ => step_transits rate p packet)
    (fun _ packet transits steady => step_steady rate packet transits steady) (step_transits rate _ first)
    (start_steady peer q now ts first)

end

end Pace

/-! Jitter in microseconds. -/

/-- The jitter in microseconds is what it should be, if there is room for it. -/
def Micros (us : BitVec 32) (jitter srate : BitVec 32) : Prop :=
  1000000 * jitter.toNat / srate.toNat < 2 ^ 32 → us.toNat = 1000000 * jitter.toNat / srate.toNat

/-- The product has room, or else the quotient has none. -/
def Roomy (jitter srate : BitVec 32) : Prop :=
  1000000 * jitter.toNat < 2 ^ 32 ∨ 2 ^ 32 ≤ 1000000 * jitter.toNat / srate.toNat

section
variable {sess : RtcpSess} {clock : Clock} {mbr : RtpMember} {s : RtpSource}

/-- A quotient of which the dividend has wrapped is too small. -/
theorem wrapped_quotient {n d : Nat} (positive : 0 < d) (small : d < 2 ^ 32) (wraps : 2 ^ 32 ≤ n) : n % 2 ^ 32 / d < n / d := by
  have less : n % 2 ^ 32 + d ≤ n := by omega
  calc n % 2 ^ 32 / d < n % 2 ^ 32 / d + 1 := Nat.lt_succ_self _
    _ = (n % 2 ^ 32 + d) / d := (Nat.add_div_right _ positive).symm
    _ ≤ n / d := Nat.div_le_div_right less

theorem micros_iff {srate : BitVec 32} (rated : srate ≠ 0) (jitter : BitVec 32) :
    Micros (1000000 * jitter / srate) jitter srate ↔ Roomy jitter srate := by
  have positive : 0 < srate.toNat := Nat.pos_of_ne_zero fun zero => rated (BitVec.eq_of_toNat_eq zero)
  have value : (1000000 * jitter / srate).toNat = 1000000 * jitter.toNat % 2 ^ 32 / srate.toNat := by
    rw [BitVec.toNat_udiv, BitVec.toNat_mul]
    rfl
  rw [Micros, Roomy, value]
  constructor
  · intro micros
    by_contra tight
    rw [not_or, Nat.not_lt, Nat.not_le] at tight
    exact Nat.ne_of_lt (wrapped_quotient positive srate.isLt tight.1) (micros tight.2)
  · rintro (room | none_) fits
    · rw [Nat.mod_eq_of_lt room]
    · exact absurd fits (Nat.not_lt.mpr none_)

/-- The jitter of a source that the statistics give. -/
theorem rtcpStats_micros {src : BitVec 32} {stats : RtcpStats} (found : sess.memberFind src = some mbr) (source : mbr.s = some s)
    (rated : sess.srateRx ≠ 0) (given : rtcpStats sess src = .ok stats) :
    Micros stats.rx.jit (s.jitter >>> 4) sess.srateRx ↔ Roomy (s.jitter >>> 4) sess.srateRx := by
  have jit : stats.rx.jit = 1000000 * (s.jitter >>> 4) / sess.srateRx := by
    rw [rtcpStats, found] at given
    cases given
    simp only [source]
    exact if_pos rated
  rw [jit]
  exact micros_iff rated _

/-- The jitter of a report block. -/
theorem handleRrBlock_micros (rated : sess.srateTx ≠ 0) (clock : Clock) (mbr : RtpMember) (rr : RtcpRr) :
    Micros (sess.handleRrBlock clock mbr rr).jit rr.jitter sess.srateTx ↔ Roomy rr.jitter sess.srateTx := by
  have jit : (sess.handleRrBlock clock mbr rr).jit = 1000000 * rr.jitter / sess.srateTx := by
    rw [RtcpSess.handleRrBlock, if_pos rated]
    dsimp only
    split <;> rfl
  rw [jit]
  exact micros_iff rated _

/-- The estimate is exact on a run at the pace of the timestamps, and the figures in microseconds are, exactly when no
    product wraps. -/
theorem jitter_exact {q : Nat} (rate : 1000 * q < 2 ^ 32) :
    (∀ now ts peer first packets, Throughout (Pace.step q) Pace.Steady (Pace.start q now ts peer first) packets ↔
      Along (Pace.step q) (Pace.Unbroken q) (Pace.start q now ts peer first) packets) ∧
    (∀ (sess : RtcpSess) (src : BitVec 32) (mbr : RtpMember) (s : RtpSource) (stats : RtcpStats),
      sess.memberFind src = some mbr → mbr.s = some s → sess.srateRx ≠ 0 → rtcpStats sess src = .ok stats →
        (Micros stats.rx.jit (s.jitter >>> 4) sess.srateRx ↔ Roomy (s.jitter >>> 4) sess.srateRx)) ∧
    (∀ (sess : RtcpSess) (clock : Clock) (mbr : RtpMember) (rr : RtcpRr), sess.srateTx ≠ 0 →
      (Micros (sess.handleRrBlock clock mbr rr).jit rr.jitter sess.srateTx ↔ Roomy rr.jitter sess.srateTx)) :=
  ⟨Pace.steady_iff rate, fun _ _ _ _ _ found source rated given => rtcpStats_micros found source rated given,
    fun _ clock mbr rr rated => handleRrBlock_micros rated clock mbr rr⟩

end

/-- 20 ms of telephone speech. -/
def voicePacket (gap : Nat) (seq : BitVec 16) : PacedPacket := ⟨gap, seq, 160, .error .ENOSYS, 0⟩

/-- A session that has had one packet. -/
def heard : RtcpSess :=
  { RtcpSess.alloc 1 with srateTx := 8000, srateRx := 8000 }.sessRxRtp 7 Losses.stopped 1 0 160 .unspec

theorem jitter_exact_heard :
    (Throughout (Pace.step 8) Pace.Steady (Pace.start 8 0 0 .unspec (voicePacket 0 1)) [voicePacket 20 2] ↔
      Along (Pace.step 8) (Pace.Unbroken 8) (Pace.start 8 0 0 .unspec (voicePacket 0 1)) [voicePacket 20 2]) ∧
    (∃ (s : RtpSource) (stats : RtcpStats), heard.sourceOf 7 = some s ∧ rtcpStats heard 7 = .ok stats ∧
      (Micros stats.rx.jit (s.jitter >>> 4) heard.srateRx ↔ Roomy (s.jitter >>> 4) heard.srateRx)) ∧
    (Micros (heard.handleRrBlock Losses.stopped ⟨none, 7, 0, 0, 0⟩ ⟨1, 0, 0, 0, 80, 0, 0⟩).jit 80 heard.srateTx ↔
      Roomy 80 heard.srateTx) := by
  obtain ⟨estimate, own, received⟩ := @jitter_exact 8 (by decide)
  refine ⟨estimate 0 0 .unspec (voicePacket 0 1) [voicePacket 20 2], ?_, ?_⟩
  · exact ⟨_, _, rfl, rfl, own heard 7 _ _ _ rfl rfl (by decide) rfl⟩
  · exact received heard Losses.stopped ⟨none, 7, 0, 0, 0⟩ ⟨1, 0, 0, 0, 80, 0, 0⟩ (by decide)

/-- The clock has run for nine minutes, and a jitter of half a second is reported. -/
theorem clock_and_jitter_wrap :
    ¬ Pace.Steady (Pace.step 8 (Pace.start 8 536860 0 .unspec (voicePacket 0 1)) (voicePacket 20 2)) ∧
      ¬ Micros (heard.handleRrBlock Losses.stopped ⟨none, 7, 0, 0, 0⟩ ⟨1, 0, 0, 0, 4295, 0, 0⟩).jit 4295 heard.srateTx := by
  constructor
  · rw [Pace.Steady]
    decide +kernel
  · rw [Micros]
    decide +kernel

end Baresip.Rtcp
