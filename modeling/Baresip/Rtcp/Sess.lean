import Baresip.Library.Buckets
import Baresip.Re.Sa
import Baresip.Rtcp.Encode
import Baresip.Rtcp.Packet

set_option linter.dupNamespace false

namespace Baresip.Rtcp

open Re Library

structure NtpTime where
  hi : BitVec 32
  lo : BitVec 32
  deriving DecidableEq, Repr

/-- The middle 32 bits. -/
def ntpCompact (ntp : NtpTime) : BitVec 32 := (ntp.hi &&& 0xffff) <<< 16 ||| ntp.lo >>> 16

def ntpCompact2us (ntpc : BitVec 32) : BitVec 64 :=
  let hi : BitVec 32 := ntpc >>> 16 &&& 0xffff
  let lo : BitVec 32 := (ntpc &&& 0xffff) <<< 16
  1000000 * hi.setWidth 64 + (1000000 * lo.setWidth 64) >>> 32

/-- What the clocks say while a packet is handled or a report is made. -/
structure Clock where
  ntp : Except Errno NtpTime
  jiffies : BitVec 64
  time : BitVec 64

structure RtpSource where
  rtpPeer : Sa
  maxSeq : BitVec 16
  cycles : BitVec 32
  baseSeq : BitVec 32
  badSeq : BitVec 32
  probation : BitVec 32
  received : BitVec 32
  expectedPrior : BitVec 32
  receivedPrior : BitVec 32
  transit : BitVec 32
  jitter : BitVec 32
  rtpRxBytes : BitVec 32
  srRecv : BitVec 64
  lastSr : NtpTime
  rtpTs : BitVec 32
  psent : BitVec 32
  osent : BitVec 32
  deriving DecidableEq, Repr

def RTP_SEQ_MOD : BitVec 32 := 1 <<< 16

namespace RtpSource

def zero (peer : Sa) : RtpSource := ⟨peer, 0, 0, 0, 0, 0, 0, 0, 0, 0, 0, 0, 0, ⟨0, 0⟩, 0, 0, 0⟩

def initSeq (s : RtpSource) (seq : BitVec 16) : RtpSource :=
  { s with
    baseSeq := seq.setWidth 32
    maxSeq := seq
    badSeq := RTP_SEQ_MOD + 1
    cycles := 0
    received := 0
    receivedPrior := 0
    expectedPrior := 0 }

def MAX_DROPOUT : Nat := 3000
def MAX_MISORDER : Nat := 100
def MIN_SEQUENTIAL : BitVec 32 := 2

/-- Whether the packet counts, and the source behind it. -/
def updateSeq (s : RtpSource) (seq : BitVec 16) : Bool × RtpSource :=
  let udelta := (seq - s.maxSeq).toNat
  let counted (s : RtpSource) : Bool × RtpSource := (true, { s with received := s.received + 1 })
  if s.probation ≠ 0 then
    if seq.toNat = s.maxSeq.toNat + 1 then
      let s := { s with probation := s.probation - 1, maxSeq := seq }
      if s.probation = 0 then counted (s.initSeq seq) else (false, s)
    else (false, { s with probation := MIN_SEQUENTIAL - 1, maxSeq := seq })
  else if udelta < MAX_DROPOUT then
    let s := if seq < s.maxSeq then { s with cycles := s.cycles + RTP_SEQ_MOD } else s
    counted { s with maxSeq := seq }
  else if udelta ≤ RTP_SEQ_MOD.toNat - MAX_MISORDER then
    if seq.setWidth 32 = s.badSeq then counted (s.initSeq seq)
    else (false, { s with badSeq := (seq.setWidth 32 + 1) &&& (RTP_SEQ_MOD - 1) })
  else counted s

/-- The difference of two transit times is signed. -/
def calcJitter (s : RtpSource) (rtpTs arrival : BitVec 32) : RtpSource :=
  let transit := arrival - rtpTs
  let d := transit - s.transit
  let s := { s with transit := transit }
  if s.rtpRxBytes = 0 then s
  else
    let d := if d.msb then -d else d
    { s with jitter := s.jitter + (d - (s.jitter + 8) >>> 4) }

/-- How many packets should have come. -/
def expected (s : RtpSource) : BitVec 32 := s.cycles + s.maxSeq.setWidth 32 - s.baseSeq + 1

def lostLimit : Int := 0x7fffff

/-- The number of lost packets, which is clamped at 24 bits. -/
def calcLost (s : RtpSource) : Int := max (-lostLimit) (min lostLimit (s.expected - s.received).toInt)

/-- The fraction lost since the last report, which this call ends. -/
def calcFractionLost (s : RtpSource) : BitVec 8 × RtpSource :=
  let expectedInterval := s.expected - s.expectedPrior
  let receivedInterval := s.received - s.receivedPrior
  let lostInterval := expectedInterval - receivedInterval
  let s := { s with expectedPrior := s.expected, receivedPrior := s.received }
  if expectedInterval = 0 ∨ lostInterval.toInt ≤ 0 then (0, s)
  else (((lostInterval <<< 8).sdiv expectedInterval).setWidth 8, s)

end RtpSource

def calcLsr (lastSr : NtpTime) : BitVec 32 := if lastSr.hi ≠ 0 then ntpCompact lastSr else 0

def calcDlsr (clock : Clock) (srRecv : BitVec 64) : BitVec 32 :=
  if srRecv ≠ 0 then ((65536 * (clock.jiffies - srRecv)) / 1000).setWidth 32 else 0

/-- The round trip time in microseconds. It is left as it was when there is no time. -/
def calcRtt (clock : Clock) (rtt lsr dlsr : BitVec 32) : BitVec 32 :=
  match clock.ntp with
  | .error _ => rtt
  | .ok now =>
    let us := ntpCompact2us (ntpCompact now) - ntpCompact2us lsr - 1000000 * dlsr.setWidth 64 / 65536
    let us : BitVec 32 := us.setWidth 32
    if us.msb then 0 else us

def MAX_MEMBERS : Nat := 8
def RTCP_HEADROOM : Nat := 4

structure RtpMember where
  s : Option RtpSource
  src : BitVec 32
  cumLost : BitVec 32
  jit : BitVec 32
  rtt : BitVec 32
  deriving DecidableEq, Repr

structure Txstat where
  psent : BitVec 32
  osent : BitVec 32
  tsOffset : BitVec 32
  start : BitVec 64
  deriving DecidableEq, Repr

/-- A session, and every sender report that it has encoded. -/
structure RtcpSess where
  ssrc : BitVec 32
  members : Buckets RtpMember
  armed : Bool
  cname : Option (List Byte)
  memberc : BitVec 32
  senderc : BitVec 32
  srateTx : BitVec 32
  srateRx : BitVec 32
  txstat : Txstat
  reports : List (List Byte)
  deriving DecidableEq, Repr

namespace RtcpSess

def alloc (ssrc : BitVec 32) : RtcpSess :=
  ⟨ssrc, .empty MAX_MEMBERS, false, none, 0, 0, 0, 0, ⟨0, 0, 0, 0⟩, []⟩

section
variable (sess : RtcpSess) (src : BitVec 32) (clock : Clock)

/-- The number of the bucket of a source. -/
def slot : Nat := (src &&& BitVec.ofNat 32 (sess.members.buckets.length - 1)).toNat

def isMember (mbr : RtpMember) : Bool := mbr.src = src

def memberFind : Option RtpMember := sess.members.lookup (sess.slot src) (isMember src)

def memberAdd : RtcpSess := { sess with members := sess.members.append (sess.slot src) ⟨none, src, 0, 0, 0⟩ }

def changeMember (f : RtpMember → RtpMember) : RtcpSess :=
  { sess with members := sess.members.change (sess.slot src) (isMember src) f }

/-- The member, and the session that has it. -/
def getMember : Option (RtpMember × RtcpSess) :=
  match sess.memberFind src with
  | some mbr => some (mbr, sess)
  | none =>
    if sess.memberc.toNat ≥ MAX_MEMBERS then none
    else some (⟨none, src, 0, 0, 0⟩, { sess.memberAdd src with memberc := sess.memberc + 1 })

def handleRrBlock (mbr : RtpMember) (rr : RtcpRr) : RtpMember :=
  let mbr := { mbr with cumLost := rr.lost.signExtend 32 }
  let mbr := if sess.srateTx ≠ 0 then { mbr with jit := 1000000 * rr.jitter / sess.srateTx } else mbr
  if rr.lsr ≠ 0 ∧ rr.dlsr ≠ 0 then { mbr with rtt := calcRtt clock mbr.rtt rr.lsr rr.dlsr } else mbr

def handleIncomingRr (rrv : List RtcpRr) : RtcpSess :=
  match sess.getMember src with
  | none => sess
  | some (_, sess) => sess.changeMember src fun mbr => rrv.foldl (sess.handleRrBlock clock) mbr

def handleIncomingSr (ntp : NtpTime) (rtpTs psent osent : BitVec 32) (rrv : List RtcpRr) : RtcpSess :=
  match sess.getMember src with
  | none => sess
  | some (_, sess) =>
    sess.changeMember src fun mbr =>
      let mbr := { mbr with s := mbr.s.map fun s =>
        { s with srRecv := clock.jiffies, lastSr := ntp, rtpTs := rtpTs, psent := psent, osent := osent } }
      rrv.foldl (sess.handleRrBlock clock) mbr

/-- One of the sources of a packet that says goodbye. -/
def leave : RtcpSess :=
  match sess.memberFind src with
  | none => sess
  | some mbr =>
    let sess := if mbr.s.isSome then { sess with senderc := sess.senderc - 1 } else sess
    { sess with
      memberc := sess.memberc - 1
      members := sess.members.unlink (sess.slot src) (isMember src) }

def handleIncomingBye (srcv : List (BitVec 32)) : RtcpSess := srcv.foldl leave sess

/-- A decoded packet has as many blocks and sources as its count says. -/
def rtcpHandler (msg : RtcpMsg) : RtcpSess :=
  match msg.r with
  | .sr ssrc ntpSec ntpFrac rtpTs psent osent rrv => sess.handleIncomingSr ssrc clock ⟨ntpSec, ntpFrac⟩ rtpTs psent osent rrv
  | .rr ssrc rrv => sess.handleIncomingRr ssrc clock rrv
  | .bye srcv _ => sess.handleIncomingBye srcv
  | _ => sess

/-- The source of the first packet. -/
def firstSource (seq : BitVec 16) (peer : Sa) : RtpSource :=
  { (RtpSource.zero peer).initSeq seq with maxSeq := seq - 1 }

def sessRxRtp (seq : BitVec 16) (ts : BitVec 32) (payloadSize : BitVec 32) (peer : Sa) : RtcpSess :=
  match sess.getMember src with
  | none => sess
  | some (mbr, sess) =>
    let sess := if mbr.s.isNone then { sess with senderc := sess.senderc + 1 } else sess
    sess.changeMember src fun mbr =>
      let s := mbr.s.getD (firstSource seq peer)
      let s := (s.updateSeq seq).2
      let tsArrive := clock.jiffies.setWidth 32 * sess.srateRx / 1000
      let s := if sess.srateRx ≠ 0 then s.calcJitter ts tsArrive else s
      { mbr with s := some { s with rtpRxBytes := s.rtpRxBytes + payloadSize } }

def sessTxRtp (ts payloadSize : BitVec 32) : RtcpSess :=
  let txstat := { sess.txstat with osent := sess.txstat.osent + payloadSize, psent := sess.txstat.psent + 1 }
  { sess with txstat := if txstat.start = 0 then { txstat with tsOffset := ts, start := clock.time } else txstat }

/-- The report block of a member that sends. -/
def reportBlock (mbr : RtpMember) : Option RtcpRr :=
  mbr.s.map fun s =>
    ⟨mbr.src, s.calcFractionLost.1, .ofInt 24 s.calcLost, s.cycles ||| s.maxSeq.setWidth 32, s.jitter.ushiftRight 4, calcLsr s.lastSr,
      calcDlsr clock s.srRecv⟩

/-- The source remembers what has been reported. -/
def reported (mbr : RtpMember) : RtpMember := { mbr with s := mbr.s.map fun s => s.calcFractionLost.2 }

/-- What `sender_apply_handler` writes for one entry of the table. -/
def senderApply (mb : Mbuf) (mbr : RtpMember) : Mbuf :=
  match reportBlock clock mbr with
  | some rr => rtcpRrEncode mb rr
  | none => mb

/-- All report blocks. -/
def encodeHandler : Encode := fun mb => (none, sess.members.entries.foldl (senderApply clock) mb)

def mkSr (mb : Mbuf) : Option Errno × Mbuf × RtcpSess :=
  match clock.ntp with
  | .error e => (some e, mb, sess)
  | .ok ntp =>
    let dur : BitVec 32 := (clock.time - sess.txstat.start).setWidth 32
    let rtpTs := if sess.txstat.start ≠ 0 then sess.txstat.tsOffset + dur * sess.srateTx else 0
    let (err, mb) := rtcpVencode sess.senderc
      (.sr sess.ssrc ntp.hi ntp.lo rtpTs sess.txstat.psent sess.txstat.osent (some (sess.encodeHandler clock))) mb
    (err, mb, { sess with members := sess.members.map reported })

/-- The sender report of the compound, which is the first packet behind the headroom. The description of the source that
    follows it and the sending have no part in the session. -/
def sendRtcpReport : RtcpSess :=
  match sess.mkSr clock { Mbuf.alloc 512 with pos := RTCP_HEADROOM } with
  | (some _, _, sess) => sess
  | (none, mb, sess) => { sess with reports := sess.reports ++ [(mb.setPos RTCP_HEADROOM).left] }

/-- The timer starts itself again. -/
def timeout : RtcpSess := if sess.armed then sess.sendRtcpReport clock else sess

/-- The canonical name is required. -/
def enable (enabled : Bool) (cname : Option (List Byte)) : RtcpSess :=
  match cname with
  | none => { sess with cname := none }
  | some cname => { sess with cname := some cname, armed := enabled }

end

end RtcpSess

/-- What happens to a session. -/
inductive SessEvent
  | rxRtp (seq : BitVec 16) (ts ssrc payloadSize : BitVec 32) (peer : Sa) (clock : Clock)
  | rtcp (msg : RtcpMsg) (clock : Clock)
  | txRtp (ts payloadSize : BitVec 32) (clock : Clock)
  | timeout (clock : Clock)
  | setSrate (srateTx srateRx : BitVec 32)
  | enable (enabled : Bool) (cname : Option (List Byte))

def sessStep (sess : RtcpSess) : SessEvent → RtcpSess
  | .rxRtp seq ts ssrc payloadSize peer clock => sess.sessRxRtp ssrc clock seq ts payloadSize peer
  | .rtcp msg clock => sess.rtcpHandler clock msg
  | .txRtp ts payloadSize clock => sess.sessTxRtp clock ts payloadSize
  | .timeout clock => sess.timeout clock
  | .setSrate srateTx srateRx => { sess with srateTx := srateTx, srateRx := srateRx }
  | .enable enabled cname => sess.enable enabled cname

end Baresip.Rtcp
