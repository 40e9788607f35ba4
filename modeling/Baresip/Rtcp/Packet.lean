import Baresip.Library.Decoder
import Baresip.Library.Loops
import Baresip.Re.Mbuf

set_option linter.dupNamespace false

namespace Baresip.Rtcp

open Re Library

/-- The packet types that are told apart. A number of another type is skipped. -/
inductive RtcpType
  | FIR | NACK | SR | RR | SDES | BYE | APP | RTPFB | PSFB
  deriving DecidableEq, Repr

namespace RtcpType

def code : RtcpType → BitVec 8
  | FIR => 192
  | NACK => 193
  | SR => 200
  | RR => 201
  | SDES => 202
  | BYE => 203
  | APP => 204
  | RTPFB => 205
  | PSFB => 206

def all : List RtcpType := [FIR, NACK, SR, RR, SDES, BYE, APP, RTPFB, PSFB]

def ofCode (pt : BitVec 8) : Option RtcpType := all.find? fun type => type.code = pt

theorem ofCode_code (type : RtcpType) : ofCode type.code = some type := by
  cases type <;> rfl

end RtcpType

def RTCP_VERSION : BitVec 2 := 2

def RTCP_HDR_SIZE : Nat := 4
def RTCP_SRC_SIZE : Nat := 4
def RTCP_SR_SIZE : Nat := 20
def RTCP_RR_SIZE : Nat := 24
def RTCP_APP_SIZE : Nat := 8
def RTCP_FIR_SIZE : Nat := 4
def RTCP_NACK_SIZE : Nat := 8
def RTCP_FB_SIZE : Nat := 8

def RTCP_SDES_END : Byte := 0

def RTCP_RTPFB_GNACK : BitVec 5 := 1
def RTCP_PSFB_PLI : BitVec 5 := 1
def RTCP_PSFB_SLI : BitVec 5 := 2

structure RtcpHdr where
  version : BitVec 2
  p : BitVec 1
  count : BitVec 5
  pt : BitVec 8
  length : BitVec 16
  deriving DecidableEq, Repr

/-- The number of lost packets is signed. -/
structure RtcpRr where
  ssrc : BitVec 32
  fraction : BitVec 8
  lost : BitVec 24
  lastSeq : BitVec 32
  jitter : BitVec 32
  lsr : BitVec 32
  dlsr : BitVec 32
  deriving DecidableEq, Repr

structure RtcpSdesItem where
  type : Byte
  length : BitVec 8
  data : List Byte
  deriving DecidableEq, Repr

structure RtcpSdes where
  src : BitVec 32
  itemv : List RtcpSdesItem
  deriving DecidableEq, Repr

structure Gnack where
  pid : BitVec 16
  blp : BitVec 16
  deriving DecidableEq, Repr

structure Sli where
  first : BitVec 16
  number : BitVec 16
  picid : BitVec 8
  deriving DecidableEq, Repr

/-- Feedback control information, which is read for some formats only. -/
inductive Fci
  | none
  | gnackv (gnackv : List Gnack)
  | sliv (sliv : List Sli)
  deriving DecidableEq, Repr

/-- What a packet carries. The data of an application packet is empty where the source has none. -/
inductive RtcpBody
  | sr (ssrc ntpSec ntpFrac rtpTs psent osent : BitVec 32) (rrv : List RtcpRr)
  | rr (ssrc : BitVec 32) (rrv : List RtcpRr)
  | sdes (sdesv : List RtcpSdes)
  | bye (srcv : List (BitVec 32)) (reason : Option (List Byte))
  | app (src : BitVec 32) (name data : List Byte)
  | fir (ssrc : BitVec 32)
  | nack (ssrc : BitVec 32) (fsn blp : BitVec 16)
  | fb (ssrcPacket ssrcMedia n : BitVec 32) (fci : Fci)
  | unknown
  deriving DecidableEq, Repr

structure RtcpMsg where
  hdr : RtcpHdr
  r : RtcpBody
  deriving DecidableEq, Repr

abbrev Dec := Decoder Byte Errno

open Decoder

def readU8 : Dec (BitVec 8) := BitVec.ofNat 8 <$> number 1
def readU16 : Dec (BitVec 16) := BitVec.ofNat 16 <$> number 2
def readU32 : Dec (BitVec 32) := BitVec.ofNat 32 <$> number 4

/-- The bytes up to the next multiple of four behind the start, as far as there are any. -/
def slurp (start : Nat) : List Byte → List Byte
  | [] => []
  | b :: left => if (start - (left.length + 1)) % 4 ≠ 0 then slurp start left else b :: left

def slurpPadding (start : Nat) : Dec Unit := fun left => .ok ((), slurp start left)

/-- What is read, and then the padding behind it, which is counted from where the reading has started. -/
def padded {α : Type} (d : Dec α) : Dec α := do
  let start ← remaining
  let a ← d
  slurpPadding start
  return a

def rtcpHdrDecode : Dec RtcpHdr := do
  need RTCP_HDR_SIZE .EBADMSG
  let b ← readU8
  let pt ← readU8
  let length ← readU16
  return ⟨b.extractLsb' 6 2, b.extractLsb' 5 1, b.extractLsb' 0 5, pt, length⟩

def rtcpRrDecode : Dec RtcpRr := do
  need RTCP_RR_SIZE .EBADMSG
  let ssrc ← readU32
  let w ← readU32
  let lastSeq ← readU32
  let jitter ← readU32
  let lsr ← readU32
  let dlsr ← readU32
  return ⟨ssrc, w.extractLsb' 24 8, w.extractLsb' 0 24, lastSeq, jitter, lsr, dlsr⟩

/-- The items of a chunk, up to the end marker or the end of the buffer. -/
def sdesItemsDecode : List Byte → Except Errno (List RtcpSdesItem × List Byte)
  | [] => .ok ([], [])
  | type :: left =>
    if type = RTCP_SDES_END then .ok ([], left)
    else
      match left with
      | [] => .error .EBADMSG
      | length :: left =>
        if left.length < length.toNat then .error .EBADMSG
        else
          match sdesItemsDecode (left.drop length.toNat) with
          | .error e => .error e
          | .ok (items, rest) => .ok (⟨type, length, left.take length.toNat⟩ :: items, rest)
termination_by left => left.length
decreasing_by
  simp only [List.length_drop, List.length_cons]
  omega

def rtcpSdesDecode : Dec RtcpSdes := do
  need RTCP_SRC_SIZE .EBADMSG
  padded do
    let src ← readU32
    let items ← sdesItemsDecode
    return ⟨src, items⟩

def gnackDecode : Dec Gnack := do
  let pid ← readU16
  let blp ← readU16
  return ⟨pid, blp⟩

def sliDecode : Dec Sli := do
  let v ← readU32
  return ⟨(v.extractLsb' 19 13).setWidth 16, (v.extractLsb' 6 13).setWidth 16, (v.extractLsb' 0 6).setWidth 8⟩

/-- The size that is checked is computed in 32 bits. -/
def rtcpRtpfbDecode (fmt : BitVec 5) (n : BitVec 32) : Dec Fci :=
  if fmt = RTCP_RTPFB_GNACK then do
    need (n * 4).toNat .EBADMSG
    let gnackv ← many n.toNat gnackDecode
    return .gnackv gnackv
  else return .none

def rtcpPsfbDecode (fmt : BitVec 5) (n : BitVec 32) : Dec Fci :=
  if fmt = RTCP_PSFB_PLI then return .none
  else if fmt = RTCP_PSFB_SLI then do
    need (n * 4).toNat .EBADMSG
    let sliv ← many n.toNat sliDecode
    return .sliv sliv
  else return .none

/-- A feedback packet of either type. The header's length counts the two sources, and nothing says it is not below 2. -/
def fbDecode (length : BitVec 16) (fciDecode : BitVec 32 → Dec Fci) : Dec RtcpBody := do
  need RTCP_FB_SIZE .EBADMSG
  let ssrcPacket ← readU32
  let ssrcMedia ← readU32
  let n : BitVec 32 := length.setWidth 32 - 2
  let fci ← fciDecode n
  return .fb ssrcPacket ssrcMedia n fci

/-- The reason is a string, which ends at its first zero byte. -/
def reasonDecode : Dec (List Byte) := do
  let len ← readU8
  need len.toNat .EBADMSG
  let str ← next len.toNat
  return str.takeWhile (· != 0)

/-- The switch over the packet type, behind the header. -/
def bodyDecode (hdr : RtcpHdr) : Dec RtcpBody :=
  let count := hdr.count.toNat
  let rem := 4 * hdr.length.toNat
  match RtcpType.ofCode hdr.pt with
  | some .SR => do
    need (RTCP_SRC_SIZE + RTCP_SR_SIZE) .EBADMSG
    let ssrc ← readU32
    let ntpSec ← readU32
    let ntpFrac ← readU32
    let rtpTs ← readU32
    let psent ← readU32
    let osent ← readU32
    let rrv ← many count rtcpRrDecode
    return .sr ssrc ntpSec ntpFrac rtpTs psent osent rrv
  | some .RR => do
    need RTCP_SRC_SIZE .EBADMSG
    let ssrc ← readU32
    let rrv ← many count rtcpRrDecode
    return .rr ssrc rrv
  | some .SDES => do
    let sdesv ← many count rtcpSdesDecode
    return .sdes sdesv
  | some .BYE => do
    need (count * 4) .EBADMSG
    let srcv ← many count readU32
    if rem > count * 4 then
      let reason ← reasonDecode
      return .bye srcv (some reason)
    else return .bye srcv none
  | some .APP => do
    need RTCP_APP_SIZE .EBADMSG
    let src ← readU32
    let name ← next 4
    if rem > RTCP_APP_SIZE then
      need (rem - RTCP_APP_SIZE) .EBADMSG
      let data ← next (rem - RTCP_APP_SIZE)
      return .app src name data
    else return .app src name []
  | some .FIR => do
    need RTCP_FIR_SIZE .EBADMSG
    let ssrc ← readU32
    return .fir ssrc
  | some .NACK => do
    need RTCP_NACK_SIZE .EBADMSG
    let ssrc ← readU32
    let fsn ← readU16
    let blp ← readU16
    return .nack ssrc fsn blp
  | some .RTPFB => fbDecode hdr.length (rtcpRtpfbDecode hdr.count)
  | some .PSFB => fbDecode hdr.length (rtcpPsfbDecode hdr.count)
  | none => do
    let _ ← next rem
    return .unknown

def packetDecode : Dec RtcpMsg := do
  need RTCP_HDR_SIZE .EBADMSG
  padded do
    let hdr ← rtcpHdrDecode
    if hdr.version ≠ RTCP_VERSION then fail .EBADMSG
    else
      need (4 * hdr.length.toNat) .EBADMSG
      let r ← bodyDecode hdr
      return ⟨hdr, r⟩

/-- The position of the buffer is moved by what has been taken. -/
def rtcpDecode (mb : Mbuf) : Except Errno (RtcpMsg × Mbuf) :=
  match packetDecode mb.left with
  | .error e => .error e
  | .ok (msg, rest) => .ok (msg, mb.advance (mb.left.length - rest.length))

/-- One turn of the loop of `rtcp_recv_handler`, which hands every message on and ends at the first error. -/
def rtcpRecv (s : Mbuf × List RtcpMsg) : (Mbuf × List RtcpMsg) ⊕ List RtcpMsg :=
  match rtcpDecode s.1 with
  | .error _ => .inr s.2
  | .ok (msg, mb) => .inl (mb, s.2 ++ [msg])

end Baresip.Rtcp
