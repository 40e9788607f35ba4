import Baresip.Stun.Msg
import Baresip.Turn.Chan

set_option linter.dupNamespace false

namespace Baresip.Turn

open Re Stun Library

structure ChanHdr where
  nr : BitVec 16
  len : BitVec 16
  deriving DecidableEq, Repr

/-- `turnc_chan_hdr_encode` -/
def chanHdrEncode (hdr : ChanHdr) (mb : Mbuf) : Mbuf := writeAll mb [putBe 2 hdr.nr.toNat, putBe 2 hdr.len.toNat]

/-- `turnc_chan_hdr_decode`, with the bytes behind the header. -/
def chanHdrDecode (left : List Byte) : Option (ChanHdr × List Byte) :=
  if left.length < CHAN_HDR_SIZE then none
  else
    let (nr, left) := readBe 2 left
    let (len, left) := readBe 2 left
    some (⟨.ofNat 16 nr, .ofNat 16 len⟩, left)

def STUN_METHOD_SEND : BitVec 16 := 0x006
def STUN_METHOD_DATA : BitVec 16 := 0x007
def STUN_CLASS_INDICATION : BitVec 8 := 0x1
def STUN_CLASS_SUCCESS_RESP : BitVec 8 := 0x2
def STUN_CLASS_ERROR_RESP : BitVec 8 := 0x3

/-- `STUN_CLASS` -/
def stunClass (type : BitVec 16) : BitVec 8 := ((type >>> 7 ||| type >>> 4) &&& 0x3).setWidth 8

/-- `STUN_METHOD` -/
def stunMethod (type : BitVec 16) : BitVec 16 :=
  (type &&& 0x3e00) >>> 2 ||| (type &&& 0x00e0) >>> 1 ||| (type &&& 0x000f)

def sendindTid : BitVec 96 := 0

/-- `stun_attr_encode` of the data that the buffer itself holds, behind the room for the attribute's header. -/
def dataEncode (mb : Mbuf) (pad : Byte) : Mbuf :=
  let start := mb.pos + 4
  let len := mb.endPos - start
  let mb := writeAll (mb.setPos (start - 4)) [putBe 2 StunAttrib.DATA.code.toNat, putBe 2 len]
  let mb := mb.advance len
  writeAll mb (List.replicate (padding (mb.pos - start)) [pad])

/-- `stun_msg_encode` of a Send indication, and its error. -/
def sendIndication (mb : Mbuf) (dst : Sa) : Option StunErr × Mbuf :=
  let start := mb.pos
  let (err, mb) := attrEncode sendindTid (mb.advance STUN_HEADER_SIZE) StunAttrib.XOR_PEER_ADDR.code (.sa dst) 0
  let mb := dataEncode mb 0
  let hdr : StunHdr :=
    { type := stunType STUN_METHOD_SEND STUN_CLASS_INDICATION
      len := .ofNat 16 (mb.pos - start - STUN_HEADER_SIZE)
      cookie := STUN_MAGIC_COOKIE
      tid := sendindTid }
  let mb := hdrEncode (mb.setPos start) hdr
  (if err then some .EAFNOSUPPORT else none, mb.advance hdr.len.toNat)

namespace Channels

variable (c : Channels)

/-- The error, where the datagram goes and what it is. -/
def udpSendHandler (dst : Sa) (mb : Mbuf) : Option StunErr × Sa × Mbuf :=
  if mb.pos < CHAN_HDR_SIZE then (none, dst, mb)
  else
    match c.findPeer dst with
    | some chan =>
      let hdr : ChanHdr := ⟨chan.nr, .ofNat 16 mb.getLeft⟩
      let mb := chanHdrEncode hdr (mb.setPos (mb.pos - CHAN_HDR_SIZE))
      (none, c.turnc.srv, mb.setPos (mb.pos - CHAN_HDR_SIZE))
    | none =>
      let indlen := stunIndlen dst
      if mb.pos < indlen then (none, dst, mb)
      else
        let pos := mb.pos - indlen
        let (err, mb) := sendIndication (mb.setPos pos) dst
        (err, c.turnc.srv, mb.setPos pos)

/-- What is handed to the socket, or the error before that. -/
def turncPacket (dst : Sa) (mb : Mbuf) : Except StunErr Mbuf :=
  match c.findPeer dst with
  | some chan =>
    if mb.pos < CHAN_HDR_SIZE then .error .EINVAL
    else
      let hdr : ChanHdr := ⟨chan.nr, .ofNat 16 mb.getLeft⟩
      let pos := mb.pos - CHAN_HDR_SIZE
      let mb := chanHdrEncode hdr (mb.setPos pos)
      let mb :=
        if c.turnc.proto = .tcp then writeAll mb.skipToEnd (List.replicate (padding hdr.len.toNat) [0]) else mb
      .ok (mb.setPos pos)
  | none =>
    let indlen := stunIndlen dst
    if mb.pos < indlen then .error .EINVAL
    else
      let pos := mb.pos - indlen
      match sendIndication (mb.setPos pos) dst with
      | (some e, _) => .error e
      | (none, mb) => .ok (mb.setPos pos)

/-- `turnc_send`: where the packet goes and what it is. `udp_send` passes a datagram through the helpers of the
    socket, of which the client's own is one. -/
def turncSend (dst : Sa) (mb : Mbuf) : Except StunErr (Sa × Mbuf) :=
  match c.turncPacket dst mb with
  | .error e => .error e
  | .ok mb =>
    match c.turnc.proto with
    | .udp =>
      match c.udpSendHandler c.turnc.srv mb with
      | (some e, _, _) => .error e
      | (none, dst, mb) => .ok (dst, mb)
    | .tcp => .ok (c.turnc.srv, mb)

end Channels

inductive RecvErr
  | EBADMSG | ENOSYS | EPROTO
  deriving DecidableEq, Repr

/-- What becomes of a packet: it is not for the client, it is dropped, it is given to the STUN transactions, or its
    payload is handed on with another source. -/
inductive Received
  | notHandled
  | dropped (err : RecvErr)
  | transaction (msg : StunMsg) (ua : List (BitVec 16))
  | handedOn (src : Sa) (payload : List Byte)
  deriving DecidableEq, Repr

namespace Channels

variable (c : Channels)

/-- A packet that is no STUN message. -/
def recvChannelData (left : List Byte) : Received :=
  match chanHdrDecode left with
  | none => .dropped .EBADMSG
  | some (hdr, left) =>
    if left.length < hdr.len.toNat then .dropped .EBADMSG
    else
      match c.findNumb hdr.nr with
      | none => .dropped .EBADMSG
      | some chan => .handedOn chan.peer left

/-- `turnc_recv`; a message has the fields that `stun_msg_attr` finds, each as its type is decoded. -/
def turncRecv (left : List Byte) : Received :=
  match msgDecode left with
  | some (.ok (msg, ua)) =>
    let class_ := stunClass msg.hdr.type
    if class_ = STUN_CLASS_INDICATION then
      if ua.length > 0 then .dropped .ENOSYS
      else if stunMethod msg.hdr.type ≠ STUN_METHOD_DATA then .dropped .ENOSYS
      else
        match (msg.attr .XOR_PEER_ADDR).map Attr.v, (msg.attr .DATA).map Attr.v with
        | some (.sa peer), some (.mb data) => .handedOn peer data
        | _, _ => .dropped .EPROTO
    else if class_ = STUN_CLASS_ERROR_RESP ∨ class_ = STUN_CLASS_SUCCESS_RESP then .transaction msg ua
    else .dropped .ENOSYS
  | _ => c.recvChannelData left

/-- `udp_recv_handler`, which drops whatever it does not hand on. -/
def udpRecvHandler (src : Sa) (left : List Byte) : Received :=
  if c.turnc.srv.cmp src .all = false ∧ c.turnc.psrv.cmp src .all = false then .notHandled else c.turncRecv left

end Channels

end Baresip.Turn
