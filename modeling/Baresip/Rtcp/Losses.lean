import Mathlib.Algebra.Ring.Int.Defs
import Baresip.Rtcp.Members

set_option linter.dupNamespace false

namespace Baresip.Rtcp

open Re Library

/-- What a packet does to the source that it comes from. -/
def RtpSource.receive (s : RtpSource) (srateRx : BitVec 32) (clock : Clock) (seq : BitVec 16) (ts payloadSize : BitVec 32) :
    RtpSource :=
  let s := (s.updateSeq seq).2
  let tsArrive := clock.jiffies.setWidth 32 * srateRx / 1000
  let s := if srateRx ≠ 0 then s.calcJitter ts tsArrive else s
  { s with rtpRxBytes := s.rtpRxBytes + payloadSize }

/-- The source of a member, once it has sent. -/
def RtcpSess.sourceOf (sess : RtcpSess) (src : BitVec 32) : Option RtpSource := (sess.memberFind src).bind fun mbr => mbr.s

section
variable {sess sess' : RtcpSess} {src : BitVec 32} {clock : Clock} {mbr : RtpMember}

theorem getMember_sourceOf (got : sess.getMember src = some (mbr, sess')) :
    mbr.s = sess.sourceOf src ∧ sess'.srateRx = sess.srateRx := by
  rw [RtcpSess.getMember] at got
  rw [RtcpSess.sourceOf]
  cases found : sess.memberFind src with
  | some old =>
    rw [found] at got
    cases got
    exact ⟨rfl, rfl⟩
  | none =>
    rw [found] at got
    dsimp only at got
    split at got
    · cases got
    · cases got
      exact ⟨rfl, rfl⟩

theorem changeMember_memberFind (inside : sess.slot src < sess.members.buckets.length) {f : RtpMember → RtpMember}
    (keeps : ∀ mbr, (f mbr).src = mbr.src) : (sess.changeMember src f).memberFind src = (sess.memberFind src).map f := by
  have slot : (sess.changeMember src f).slot src = sess.slot src := by
    show (src &&& BitVec.ofNat 32 ((sess.members.change _ _ f).buckets.length - 1)).toNat = _
    rw [Buckets.change_size]
    rfl
  have same (mbr : RtpMember) : RtcpSess.isMember src (f mbr) = RtcpSess.isMember src mbr := by
    rw [RtcpSess.isMember, RtcpSess.isMember, keeps]
  rw [RtcpSess.memberFind, slot]
  exact Buckets.lookup_change inside same

/-- A session that has room for the member hands the packet to its source, which it adds first if there is none. -/
theorem sessRxRtp_sourceOf (counted : sess.Counted) (got : sess.getMember src = some (mbr, sess')) (seq : BitVec 16)
    (ts payloadSize : BitVec 32) (peer : Sa) :
    (sess.sessRxRtp src clock seq ts payloadSize peer).sourceOf src =
      some (((sess.sourceOf src).getD (RtcpSess.firstSource seq peer)).receive sess.srateRx clock seq ts payloadSize) := by
  obtain ⟨counted', found, -⟩ := counted.getMember got
  obtain ⟨source, srate⟩ := getMember_sourceOf got
  have inside := counted'.slot src
  have received (senderc : BitVec 32) := @changeMember_memberFind { sess' with senderc := senderc } src inside
    (fun mbr => { mbr with
      s := some ((mbr.s.getD (RtcpSess.firstSource seq peer)).receive sess'.srateRx clock seq ts payloadSize) }) fun _ => rfl
  rw [RtcpSess.sessRxRtp, got, RtcpSess.sourceOf]
  dsimp only
  rw [← source, ← srate]
  split
  · refine (congrArg (Option.bind · _) (received (sess'.senderc + 1))).trans ?_
    rw [show ({ sess' with senderc := sess'.senderc + 1 } : RtcpSess).memberFind src = some mbr from found]
    rfl
  · refine (congrArg (Option.bind · _) (received sess'.senderc)).trans ?_
    rw [show ({ sess' with senderc := sess'.senderc } : RtcpSess).memberFind src = some mbr from found]
    rfl

/-- A report ends the interval of every source. -/
theorem mkSr_sourceOf {ntp : NtpTime} (now : clock.ntp = .ok ntp) (mb : Mbuf) (src : BitVec 32) :
    (sess.mkSr clock mb).2.2.sourceOf src = (sess.sourceOf src).map fun s => s.calcFractionLost.2 := by
  have found : (sess.mkSr clock mb).2.2.memberFind src = (sess.memberFind src).map RtcpSess.reported := by
    rw [RtcpSess.mkSr, now, RtcpSess.memberFind, RtcpSess.slot, Buckets.map_size]
    exact Buckets.lookup_map fun _ => rfl
  rw [RtcpSess.sourceOf, found, RtcpSess.sourceOf]
  cases sess.memberFind src <;> rfl

end

/-- A packet with its sequence number as it would be if it did not wrap, or what else there is between the packets. -/
inductive SourceEvent
  | packet (number : Int) (ts payloadSize srateRx : BitVec 32) (clock : Clock)
  | senderReport (ntp : NtpTime) (rtpTs psent osent : BitVec 32) (clock : Clock)
  | report

/-- A source, and what it should know: the first and the greatest number, how many packets have come, and how many were
    expected and had come at the last report. -/
structure Losses where
  s : RtpSource
  first : Int
  max : Int
  received : Int
  expectedPrior : Int
  receivedPrior : Int

namespace Losses

def expected (l : Losses) : Int := l.max - l.first + 1

/-- The number of packets lost. -/
def lost (l : Losses) : Int := l.expected - l.received

/-- The packets expected since the last report, and those of them that are lost. -/
def expectedInterval (l : Losses) : Int := l.expected - l.expectedPrior
def lostInterval (l : Losses) : Int := l.expectedInterval - (l.received - l.receivedPrior)

/-- A source that has just been added, before its first packet counts. -/
def opened (first : BitVec 16) (peer : Sa) : Losses := ⟨RtcpSess.firstSource first peer, first.toNat, first.toNat - 1, 0, 0, 0⟩

def step (l : Losses) : SourceEvent → Losses
  | .packet number ts payloadSize srateRx clock =>
    { l with
      s := l.s.receive srateRx clock (.ofInt 16 number) ts payloadSize
      max := Max.max l.max number
      received := l.received + 1 }
  | .senderReport ntp rtpTs psent osent clock =>
    { l with s := { l.s with srRecv := clock.jiffies, lastSr := ntp, rtpTs := rtpTs, psent := psent, osent := osent } }
  | .report => { l with s := l.s.calcFractionLost.2, expectedPrior := l.expected, receivedPrior := l.received }

def start (first : BitVec 16) (peer : Sa) (ts payloadSize srateRx : BitVec 32) (clock : Clock) : Losses :=
  (opened first peer).step (.packet first.toNat ts payloadSize srateRx clock)

structure Within (l : Losses) : Prop where
  interval : l.expectedInterval < 2 ^ 23
  total : l.expected < 2 ^ 31
  received : l.received < 2 ^ 31

/-- A packet is near the greatest number, and no counter is too great behind it. -/
def Near (l : Losses) : SourceEvent → Prop
  | event@(.packet number ..) => l.max - 100 < number ∧ number < l.max + 3000 ∧ (l.step event).Within
  | _ => True

/-- What would be reported now is what has been lost. -/
structure Exact (l : Losses) : Prop where
  lost : l.s.calcLost = Max.max (-RtpSource.lostLimit) (min RtpSource.lostLimit l.lost)
  fraction : (l.s.calcFractionLost.1.toNat : Int) = if l.lostInterval ≤ 0 then 0 else 256 * l.lostInterval / l.expectedInterval

/-- The counters of a source are those of its packets, in 16 or in 32 bits. -/
structure Tracks (l : Losses) : Prop where
  probation : l.s.probation = 0
  base : l.s.baseSeq = .ofInt 32 l.first
  maxSeq : l.s.maxSeq = .ofInt 16 l.max
  cycles : l.s.cycles = .ofInt 32 (l.max / 65536 * 65536)
  received : l.s.received = .ofInt 32 l.received
  expectedPrior : l.s.expectedPrior = .ofInt 32 l.expectedPrior
  receivedPrior : l.s.receivedPrior = .ofInt 32 l.receivedPrior
  ordered : l.first ≤ l.max + 1
  prior : l.expectedPrior ≤ l.expected
  some_ : l.expectedPrior < l.expected → l.receivedPrior < l.received
  past : l.receivedPrior ≤ l.received
  natural : 0 ≤ l.receivedPrior

section
variable {l : Losses} {s : RtpSource} {number : Int} {ts payloadSize srateRx : BitVec 32} {clock : Clock}

theorem calcJitter_frame (s : RtpSource) (rtpTs arrival : BitVec 32) :
    ∃ transit jitter, s.calcJitter rtpTs arrival = { s with transit := transit, jitter := jitter } := by
  rw [RtpSource.calcJitter]
  dsimp only
  split
  · exact ⟨_, s.jitter, rfl⟩
  · exact ⟨_, _, rfl⟩

theorem receive_frame (s : RtpSource) (srateRx : BitVec 32) (clock : Clock) (seq : BitVec 16) (ts payloadSize : BitVec 32) :
    ∃ transit jitter bytes, s.receive srateRx clock seq ts payloadSize =
      { (s.updateSeq seq).2 with transit := transit, jitter := jitter, rtpRxBytes := bytes } := by
  rw [RtpSource.receive]
  split
  · obtain ⟨transit, jitter, frame⟩ := calcJitter_frame (s.updateSeq seq).2 ts (clock.jiffies.setWidth 32 * srateRx / 1000)
    rw [frame]
    exact ⟨transit, jitter, _, rfl⟩
  · exact ⟨_, _, _, rfl⟩

theorem ofInt_seq_diff (a b : Int) : (BitVec.ofInt 16 a - BitVec.ofInt 16 b).toNat = ((a - b) % 65536).toNat := by
  rw [BitVec.toNat_sub, BitVec.toNat_ofInt, BitVec.toNat_ofInt]
  omega

theorem ofInt_sub (a b : Int) : BitVec.ofInt 32 a - BitVec.ofInt 32 b = BitVec.ofInt 32 (a - b) := by
  rw [BitVec.sub_eq_iff_eq_add, ← BitVec.ofInt_add, Int.sub_add_cancel]

/-- A packet that moves the maximum forward, or is the greatest one again. -/
theorem updateSeq_forward (quiet : s.probation = 0) {max : Int} (top : s.maxSeq = .ofInt 16 max) (ahead : max ≤ number)
    (near : number < max + 3000) :
    (s.updateSeq (.ofInt 16 number)).2 =
      { s with
        cycles := if BitVec.ofInt 16 number < s.maxSeq then s.cycles + RTP_SEQ_MOD else s.cycles
        maxSeq := .ofInt 16 number
        received := s.received + 1 } := by
  have short : (BitVec.ofInt 16 number - s.maxSeq).toNat < RtpSource.MAX_DROPOUT := by
    rw [top, ofInt_seq_diff, RtpSource.MAX_DROPOUT]
    omega
  rw [RtpSource.updateSeq, if_neg (not_not_intro quiet), if_pos short]
  split <;> rfl

/-- A packet that is late. -/
theorem updateSeq_behind (quiet : s.probation = 0) {max : Int} (top : s.maxSeq = .ofInt 16 max) (late : number < max)
    (near : max - 100 < number) : (s.updateSeq (.ofInt 16 number)).2 = { s with received := s.received + 1 } := by
  have far : ¬ (BitVec.ofInt 16 number - s.maxSeq).toNat < RtpSource.MAX_DROPOUT := by
    rw [top, ofInt_seq_diff, RtpSource.MAX_DROPOUT]
    omega
  have last : ¬ (BitVec.ofInt 16 number - s.maxSeq).toNat ≤ RTP_SEQ_MOD.toNat - RtpSource.MAX_MISORDER := by
    rw [top, ofInt_seq_diff, RtpSource.MAX_MISORDER, show RTP_SEQ_MOD.toNat = 65536 from rfl]
    omega
  rw [RtpSource.updateSeq, if_neg (not_not_intro quiet), if_neg far, if_neg last]

/-- The cycles go on where the number does. -/
theorem cycles_forward {max : Int} (ahead : max ≤ number) (near : number < max + 3000) :
    (if BitVec.ofInt 16 number < BitVec.ofInt 16 max then BitVec.ofInt 32 (max / 65536 * 65536) + RTP_SEQ_MOD
      else BitVec.ofInt 32 (max / 65536 * 65536)) = BitVec.ofInt 32 (number / 65536 * 65536) := by
  have below : BitVec.ofInt 16 number < BitVec.ofInt 16 max ↔ number % 65536 < max % 65536 := by
    rw [BitVec.lt_def, BitVec.toNat_ofInt, BitVec.toNat_ofInt]
    omega
  have cycle : RTP_SEQ_MOD = BitVec.ofInt 32 65536 := rfl
  split
  next wraps =>
    rw [cycle, ← BitVec.ofInt_add]
    congr 1
    rw [below] at wraps
    omega
  next same =>
    congr 1
    rw [below] at same
    omega

theorem received_next (n : Int) : BitVec.ofInt 32 n + 1 = BitVec.ofInt 32 (n + 1) := (BitVec.ofInt_add n 1).symm

theorem Tracks.packet (tracks : l.Tracks) (behind : l.max - 100 < number) (ahead : number < l.max + 3000) :
    (l.step (.packet number ts payloadSize srateRx clock)).Tracks := by
  obtain ⟨transit, jitter, bytes, frame⟩ := receive_frame l.s srateRx clock (.ofInt 16 number) ts payloadSize
  have ordered := tracks.ordered
  have prior := tracks.prior
  have past := tracks.past
  have some_ := tracks.some_
  simp only [expected] at prior some_
  rcases Int.lt_or_le number l.max with late | forward
  · rw [updateSeq_behind tracks.probation tracks.maxSeq late behind] at frame
    have top : Max.max l.max number = l.max := Int.max_eq_left (Int.le_of_lt late)
    simp only [step, frame, top]
    refine ⟨tracks.probation, tracks.base, tracks.maxSeq, tracks.cycles, ?_, tracks.expectedPrior, tracks.receivedPrior,
      ordered, prior, ?_, Int.le_trans past (Int.le_add_one (Int.le_refl _)), tracks.natural⟩
    · exact (congrArg (· + 1) tracks.received).trans (received_next _)
    · intro more
      exact Int.lt_add_one_of_le past
  · rw [updateSeq_forward tracks.probation tracks.maxSeq forward ahead, tracks.maxSeq, tracks.cycles,
      cycles_forward forward ahead] at frame
    have top : Max.max l.max number = number := Int.max_eq_right forward
    simp only [step, frame, top]
    refine ⟨tracks.probation, tracks.base, rfl, rfl, ?_, tracks.expectedPrior, tracks.receivedPrior,
      Int.le_trans ordered (Int.add_le_add_right forward 1), ?_, ?_, Int.le_trans past (Int.le_add_one (Int.le_refl _)),
      tracks.natural⟩
    · exact (congrArg (· + 1) tracks.received).trans (received_next _)
    · simp only [expected]
      omega
    · intro more
      exact Int.lt_add_one_of_le past

theorem expected_ofInt (tracks : l.Tracks) : l.s.expected = .ofInt 32 l.expected := by
  have top : l.s.maxSeq.setWidth 32 = BitVec.ofInt 32 (l.max % 65536) := by
    apply BitVec.eq_of_toNat_eq
    rw [tracks.maxSeq, BitVec.toNat_setWidth, BitVec.toNat_ofInt, BitVec.toNat_ofInt]
    omega
  rw [RtpSource.expected, tracks.cycles, top, tracks.base, ← BitVec.ofInt_add, ofInt_sub, received_next]
  congr 1
  simp only [expected]
  omega

theorem Tracks.report (tracks : l.Tracks) : (l.step .report).Tracks := by
  have frame : l.s.calcFractionLost.2 = { l.s with expectedPrior := l.s.expected, receivedPrior := l.s.received } := by
    rw [RtpSource.calcFractionLost]
    dsimp only
    split <;> rfl
  simp only [step, frame]
  refine ⟨tracks.probation, tracks.base, tracks.maxSeq, tracks.cycles, tracks.received, expected_ofInt tracks, tracks.received,
    tracks.ordered, Int.le_refl _, ?_, Int.le_refl _, Int.le_trans tracks.natural tracks.past⟩
  intro more
  exact absurd more (Int.lt_irrefl _)

theorem Tracks.step (tracks : l.Tracks) (within : l.Within) {event : SourceEvent} (near : l.Near event) :
    (l.step event).Tracks ∧ (l.step event).Within := by
  cases event with
  | packet number ts payloadSize srateRx clock =>
    obtain ⟨behind, ahead, bounds⟩ := near
    exact ⟨tracks.packet behind ahead, bounds⟩
  | senderReport ntp rtpTs psent osent clock =>
    exact ⟨⟨tracks.probation, tracks.base, tracks.maxSeq, tracks.cycles, tracks.received, tracks.expectedPrior,
      tracks.receivedPrior, tracks.ordered, tracks.prior, tracks.some_, tracks.past, tracks.natural⟩,
      ⟨within.interval, within.total, within.received⟩⟩
  | report =>
    refine ⟨tracks.report, ?_, within.total, within.received⟩
    show l.expected - l.expected < _
    omega

theorem opened_tracks {first : BitVec 16} (nonzero : first ≠ 0) (peer : Sa) : (opened first peer).Tracks := by
  have positive : first.toNat ≠ 0 := fun zero => nonzero (BitVec.eq_of_toNat_eq zero)
  have small := first.isLt
  refine ⟨rfl, ?_, ?_, ?_, rfl, rfl, rfl, ?_, ?_, fun more => ?_, Int.le_refl _, Int.le_refl _⟩
  · apply BitVec.eq_of_toNat_eq
    simp only [opened, RtcpSess.firstSource, RtpSource.initSeq, BitVec.toNat_setWidth, BitVec.toNat_ofInt]
    omega
  · apply BitVec.eq_of_toNat_eq
    simp only [opened, RtcpSess.firstSource, BitVec.toNat_ofInt, BitVec.toNat_sub,
      show (1 : BitVec 16).toNat = 1 from rfl]
    omega
  · have none_ : (opened first peer).max / 65536 * 65536 = 0 := by
      simp only [opened]
      omega
    rw [none_]
    rfl
  · simp only [opened]
    omega
  · simp only [opened, expected]
    omega
  · simp only [opened, expected] at more
    omega

theorem start_tracks {first : BitVec 16} (nonzero : first ≠ 0) (peer : Sa) (ts payloadSize srateRx : BitVec 32) (clock : Clock) :
    (start first peer ts payloadSize srateRx clock).Tracks ∧ (start first peer ts payloadSize srateRx clock).Within := by
  have top : Max.max ((first.toNat : Int) - 1) first.toNat = first.toNat := Int.max_eq_right (by omega)
  refine ⟨(opened_tracks nonzero peer).packet ?_ ?_, ?_, ?_, ?_⟩
  · simp only [opened]
    omega
  · simp only [opened]
    omega
  all_goals
    simp only [start, opened, step, expectedInterval, expected, top]
    omega

theorem toInt_ofInt_small {n : Int} (low : -2147483648 ≤ n) (high : n < 2147483648) : (BitVec.ofInt 32 n).toInt = n :=
  BitVec.toInt_ofInt_eq_self (by decide) low high

theorem Tracks.lost_exact (tracks : l.Tracks) (within : l.Within) :
    l.s.calcLost = Max.max (-RtpSource.lostLimit) (min RtpSource.lostLimit l.lost) := by
  have ordered := tracks.ordered
  have total := within.total
  have received := within.received
  have past := Int.le_trans tracks.natural tracks.past
  simp only [expected] at total
  rw [RtpSource.calcLost, expected_ofInt tracks, tracks.received, ofInt_sub, toInt_ofInt_small]
  · rfl
  · simp only [expected]
    omega
  · simp only [expected]
    omega

/-- Division of numbers that are not negative, and a quotient of one byte. -/
theorem sdiv_byte {a b : Int} (dividend : 0 ≤ a) (small : a < 2147483648) (divisor : 0 < b) (wide : b < 2147483648)
    (byte : a / b < 256) :
    ((((BitVec.ofInt 32 a).sdiv (BitVec.ofInt 32 b)).setWidth 8).toNat : Int) = a / b := by
  have left : (BitVec.ofInt 32 a).toNat = a.toNat := by
    rw [BitVec.toNat_ofInt]
    omega
  have right : (BitVec.ofInt 32 b).toNat = b.toNat := by
    rw [BitVec.toNat_ofInt]
    omega
  have first : (BitVec.ofInt 32 a).msb = false := by
    rw [BitVec.msb_eq_false_iff_two_mul_lt, left]
    omega
  have second : (BitVec.ofInt 32 b).msb = false := by
    rw [BitVec.msb_eq_false_iff_two_mul_lt, right]
    omega
  have quotient : ((a.toNat / b.toNat : Nat) : Int) = a / b := by
    rw [Int.natCast_ediv, Int.toNat_of_nonneg dividend, Int.toNat_of_nonneg (Int.le_of_lt divisor)]
  have least : a.toNat / b.toNat < 2 ^ 8 := by omega
  rw [BitVec.sdiv_eq, first, second, BitVec.toNat_setWidth, BitVec.udiv_eq, BitVec.toNat_udiv, left, right, Nat.mod_eq_of_lt least, quotient]

theorem Tracks.fraction_exact (tracks : l.Tracks) (within : l.Within) :
    (l.s.calcFractionLost.1.toNat : Int) = if l.lostInterval ≤ 0 then 0 else 256 * l.lostInterval / l.expectedInterval := by
  have prior := tracks.prior
  have past := tracks.past
  have natural := tracks.natural
  have some_ := tracks.some_
  have interval := within.interval
  have received := within.received
  have total : l.s.expected - l.s.expectedPrior = .ofInt 32 l.expectedInterval := by
    rw [expected_ofInt tracks, tracks.expectedPrior, ofInt_sub]
    rfl
  have missing : .ofInt 32 l.expectedInterval - (l.s.received - l.s.receivedPrior) = .ofInt 32 l.lostInterval := by
    rw [tracks.received, tracks.receivedPrior, ofInt_sub, ofInt_sub]
    rfl
  have least : l.lostInterval = l.expectedInterval - (l.received - l.receivedPrior) := rfl
  have whole : l.expectedInterval = l.expected - l.expectedPrior := rfl
  have signed : (BitVec.ofInt 32 l.lostInterval).toInt = l.lostInterval := toInt_ofInt_small (by omega) (by omega)
  rw [RtpSource.calcFractionLost, total, missing, signed]
  by_cases none_ : l.lostInterval ≤ 0
  · rw [if_pos (Or.inr none_), if_pos none_]
    rfl
  · have some_packet : l.expectedInterval ≠ 0 := by omega
    have nonzero : BitVec.ofInt 32 l.expectedInterval ≠ 0 := by
      intro zero
      have value := congrArg BitVec.toInt zero
      rw [toInt_ofInt_small (by omega) (by omega)] at value
      exact some_packet value
    have few : 256 * l.lostInterval / l.expectedInterval < 256 := by
      apply Int.ediv_lt_of_lt_mul (by omega)
      omega
    have shifted : BitVec.ofInt 32 l.lostInterval <<< 8 = BitVec.ofInt 32 (256 * l.lostInterval) := by
      apply BitVec.eq_of_toNat_eq
      rw [BitVec.toNat_shiftLeft, BitVec.toNat_ofInt, BitVec.toNat_ofInt, Nat.shiftLeft_eq]
      omega
    rw [if_neg (not_or_intro nonzero none_), if_neg none_, shifted]
    exact sdiv_byte (by omega) (by omega) (by omega) (by omega) few

theorem Tracks.exact (tracks : l.Tracks) (within : l.Within) : l.Exact :=
  ⟨tracks.lost_exact within, tracks.fraction_exact within⟩

/-- A whole cycle is lost with the first packet. -/
theorem start_zero (peer : Sa) (ts payloadSize srateRx : BitVec 32) (clock : Clock) :
    (start 0 peer ts payloadSize srateRx clock).s.calcLost = 65536 := by
  obtain ⟨transit, jitter, bytes, frame⟩ := receive_frame (RtcpSess.firstSource 0 peer) srateRx clock 0 ts payloadSize
  have wraps := @updateSeq_forward (RtcpSess.firstSource 0 peer) 0 rfl (-1) rfl (by decide) (by decide)
  have cycle : BitVec.ofInt 16 0 < (RtcpSess.firstSource 0 peer).maxSeq := by
    show BitVec.ofInt 16 0 < (0 : BitVec 16) - 1
    decide
  rw [show BitVec.ofInt 16 0 = 0 from rfl] at wraps cycle
  rw [wraps, if_pos cycle] at frame
  simp only [start, opened, step]
  rw [show BitVec.ofInt 16 ((0 : BitVec 16).toNat : Int) = 0 from rfl, frame]
  show Max.max (-RtpSource.lostLimit) (min RtpSource.lostLimit
    (0 + RTP_SEQ_MOD + BitVec.setWidth 32 (0 : BitVec 16) - BitVec.setWidth 32 (0 : BitVec 16) + 1 - (0 + 1)).toInt) = 65536
  decide

/-- From the first packet on, the counts of lost packets are exact in every state of every run exactly when the first
    sequence number is not zero. -/
theorem losses_exact (first : BitVec 16) (peer : Sa) (ts payloadSize srateRx : BitVec 32) (clock : Clock)
    {events : List SourceEvent} (near : Along step Near (start first peer ts payloadSize srateRx clock) events) :
    Throughout step Exact (start first peer ts payloadSize srateRx clock) events ↔ first ≠ 0 := by
  constructor
  · rintro exact_ rfl
    have lost := exact_.first.lost
    have none_ : (start 0 peer ts payloadSize srateRx clock).lost = 0 := rfl
    rw [start_zero, none_] at lost
    revert lost
    decide
  · intro nonzero
    have run : Throughout step (fun l => l.Tracks ∧ l.Within) (start first peer ts payloadSize srateRx clock) events :=
      throughout_of_guarded (fun l event tracks near => tracks.1.step tracks.2 near)
        (start_tracks nonzero peer ts payloadSize srateRx clock) near
    exact run.mono fun l tracks => tracks.1.exact tracks.2

end

def stopped : Clock := ⟨.error .ENOSYS, 0, 0⟩

/-- The number wraps, a packet is missing, and another one comes late. -/
def wrapping : List SourceEvent :=
  [.packet 65538 0 0 0 stopped, .report, .packet 65536 0 0 0 stopped]

theorem losses_exact_wrapping :
    Throughout step Exact (start 65535 .unspec 0 0 0 stopped) wrapping ↔ (65535 : BitVec 16) ≠ 0 :=
  losses_exact 65535 .unspec 0 0 0 stopped ⟨⟨by decide, by decide, by decide, by decide, by decide⟩, trivial,
    ⟨by decide, by decide, by decide, by decide, by decide⟩, trivial⟩

/-- One packet has come and 65537 are expected. -/
theorem first_packet_lost : ¬ (start 0 .unspec 0 0 0 stopped).Exact := by
  intro exact_
  have lost := exact_.lost
  revert lost
  decide +kernel

end Losses

end Baresip.Rtcp
