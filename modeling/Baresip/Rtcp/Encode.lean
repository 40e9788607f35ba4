import Baresip.Re.Written
import Baresip.Rtcp.Packet

set_option linter.dupNamespace false

namespace Baresip.Rtcp

open Re Library

/-- What writes into a buffer, and may fail. -/
abbrev Encode := Mbuf → Option Errno × Mbuf

/-- The arguments that follow the type and the count, by the type. -/
inductive RtcpArgs
  | sr (ssrc ntpSec ntpFrac rtpTs psent osent : BitVec 32) (ench : Option Encode)
  | rr (ssrc : BitVec 32) (ench : Option Encode)
  | sdes (ench : Option Encode)
  | bye (srcv : List (BitVec 32)) (reason : Option (List Byte))
  | app (src : BitVec 32) (name : List Byte) (data : Option (List Byte))
  | fir (ssrc : BitVec 32)
  | nack (ssrc : BitVec 32) (fsn blp : BitVec 16)
  | rtpfb (ssrcPacket ssrcMedia : BitVec 32) (ench : Option Encode)
  | psfb (ssrcPacket ssrcMedia : BitVec 32) (ench : Option Encode)

def RtcpArgs.type : RtcpArgs → RtcpType
  | sr .. => .SR
  | rr .. => .RR
  | sdes .. => .SDES
  | bye .. => .BYE
  | app .. => .APP
  | fir .. => .FIR
  | nack .. => .NACK
  | rtpfb .. => .RTPFB
  | psfb .. => .PSFB

def be16 (v : BitVec 16) : List Byte := putBe 2 v.toNat
def be32 (v : BitVec 32) : List Byte := putBe 4 v.toNat

def writeU16 (mb : Mbuf) (v : BitVec 16) : Mbuf := mb.writeMem (be16 v)
def writeU32 (mb : Mbuf) (v : BitVec 32) : Mbuf := mb.writeMem (be32 v)

def runEnch : Option Encode → Encode
  | some ench, mb => ench mb
  | none, mb => (none, mb)

def rtcpHdrEncode (mb : Mbuf) (count : BitVec 8) (type : RtcpType) (length : BitVec 16) : Mbuf :=
  writeU16 ((mb.writeU8 (RTCP_VERSION.setWidth 8 <<< 6 ||| count)).writeU8 type.code) length

/-- At most three zero bytes, until the size is a multiple of four. -/
def padEncode (size : Mbuf → Nat) : Nat → Mbuf → Mbuf
  | 0, mb => mb
  | n + 1, mb => if size mb % 4 ≠ 0 then padEncode size n (mb.writeU8 0) else mb

/-- The switch over the packet type. The caller has as many sources as the count says. -/
def bodyEncode (count : Nat) : RtcpArgs → Encode
  | .sr ssrc ntpSec ntpFrac rtpTs psent osent ench, mb =>
    runEnch ench ([ssrc, ntpSec, ntpFrac, rtpTs, psent, osent].foldl writeU32 mb)
  | .rr ssrc ench, mb => runEnch ench (writeU32 mb ssrc)
  | .sdes ench, mb => runEnch ench mb
  | .bye srcv reason, mb =>
    let mb := (srcv.take count).foldl writeU32 mb
    match reason with
    | some reason => (none, (mb.writeU8 (.ofNat 8 reason.length)).writeMem reason)
    | none => (none, mb)
  | .app src name data, mb =>
    let mb := (writeU32 mb src).writeMem (name.take 4)
    match data with
    | some data => if data.length % 4 ≠ 0 then (some .EBADMSG, mb) else (none, mb.writeMem data)
    | none => (none, mb)
  | .fir ssrc, mb => (none, writeU32 mb ssrc)
  | .nack ssrc fsn blp, mb => (none, writeU16 (writeU16 (writeU32 mb ssrc) fsn) blp)
  | .rtpfb ssrcPacket ssrcMedia ench, mb => runEnch ench (writeU32 (writeU32 mb ssrcPacket) ssrcMedia)
  | .psfb ssrcPacket ssrcMedia ench, mb => runEnch ench (writeU32 (writeU32 mb ssrcPacket) ssrcMedia)

/-- The header is left out, and written when its length is known. -/
def rtcpVencode (count : BitVec 32) (args : RtcpArgs) : Encode := fun mb =>
  let pos := mb.pos
  let (err, mb) := bodyEncode count.toNat args (mb.restart (pos + RTCP_HDR_SIZE))
  match err with
  | some e => (some e, mb)
  | none =>
    let mb := padEncode (fun mb => mb.endPos - pos) 3 mb
    let len : BitVec 16 := .ofNat 16 ((mb.endPos - pos - RTCP_HDR_SIZE) / 4)
    (none, (rtcpHdrEncode (mb.setPos pos) (count.setWidth 8) args.type len).skipToEnd)

def rtcpRrEncode (mb : Mbuf) (rr : RtcpRr) : Mbuf :=
  [rr.ssrc, rr.fraction ++ rr.lost, rr.lastSeq, rr.jitter, rr.lsr, rr.dlsr].foldl writeU32 mb

/-- The type and the value of an item, which may be missing. -/
abbrev SdesArg := Byte × Option (List Byte)

/-- The writing ends at a value that is too long. -/
def sdesItemsEncode : List SdesArg → Encode
  | [], mb => (none, mb)
  | (_, none) :: items, mb => sdesItemsEncode items mb
  | (type, some v) :: items, mb =>
    if v.length > 255 then (some .EINVAL, mb)
    else sdesItemsEncode items (((mb.writeU8 type).writeU8 (.ofNat 8 v.length)).writeMem v)

def rtcpSdesEncode (src : BitVec 32) (items : List SdesArg) : Encode := fun mb =>
  if items = [] then (some .EINVAL, mb)
  else
    let start := mb.pos
    let (err, mb) := sdesItemsEncode items (writeU32 mb src)
    match err with
    | some e => (some e, mb)
    | none => (none, padEncode (fun mb => mb.pos - start) 3 (mb.writeU8 RTCP_SDES_END))

def rtcpRtpfbGnackEncode (mb : Mbuf) (gnack : Gnack) : Mbuf := writeU16 (writeU16 mb gnack.pid) gnack.blp

def rtcpPsfbSliEncode (mb : Mbuf) (sli : Sli) : Mbuf :=
  writeU32 mb (sli.first.setWidth 32 <<< 19 ||| sli.number.setWidth 32 <<< 6 ||| sli.picid.setWidth 32)

end Baresip.Rtcp
