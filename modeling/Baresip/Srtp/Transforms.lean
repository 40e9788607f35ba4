import Baresip.Library.Runs
import Baresip.Re.Sdp
import Baresip.Srtp.Srtp

set_option linter.dupNamespace false

namespace Baresip.Srtp

open Re Library

section
inductive PacketKind
  | rtp | rtcp
  deriving DecidableEq, Repr

/-- The transforms of libsrtp on the session in use, each with its status, the session after it and the
    packet. The header stays in the clear. -/
structure SrtpLib (Ctx : Type) where
  protect : PacketKind → Option Ctx → List Byte → Nat × Option Ctx × List Byte
  unprotect : PacketKind → Option Ctx → List Byte → Nat × Option Ctx × List Byte
  header_kept : ∀ kind session packet, (unprotect kind session packet).1 = 0 →
    (unprotect kind session packet).2.2.take 2 = packet.take 2

variable {δ Ctx : Type} (lib : SrtpLib Ctx)

structure Transformed (Ctx : Type) where
  err : Option Errno
  st : MencSt Ctx
  packet : List Byte
  applied : List PacketKind

def enc (kind : PacketKind) (st : MencSt Ctx) (packet : List Byte) : Transformed Ctx :=
  if !st.useSrtp then ⟨none, st, packet, []⟩
  else
    let (status, session, out) := lib.protect kind st.tx.session packet
    let st := { st with tx := { st.tx with session := session } }
    if status ≠ 0 then ⟨some .EPROTO, st, packet, [kind]⟩ else ⟨none, st, out, [kind]⟩

def rtpEnc := enc lib .rtp
def rtcpEnc := enc lib .rtcp

def errStatusAuthFail : Nat := 7
def errStatusReplayFail : Nat := 9

def dec (kind : PacketKind) (st : MencSt Ctx) (packet : List Byte) : Transformed Ctx :=
  if !st.useSrtp then ⟨none, st, packet, []⟩
  else
    let (status, session, out) := lib.unprotect kind (st.rx.bind (·.session)) packet
    let st := { st with rx := st.rx.map fun rx => { rx with session := session } }
    if status = 0 then ⟨none, st, out, [kind]⟩
    else if status = errStatusAuthFail then ⟨some .EINVAL, st, packet, [kind]⟩
    else if status = errStatusReplayFail then ⟨some .ENOENT, st, packet, [kind]⟩
    else ⟨some .ENOSYS, st, packet, [kind]⟩

def rtpDec := dec lib .rtp
def rtcpDec := dec lib .rtcp

def mencSendHandler (sdpm : SdpMedia δ) (st : MencSt Ctx) (dst : Sa) (packet : List Byte) : Transformed Ctx :=
  if dst.cmp sdpm.raddr .all then rtpEnc lib st packet else ⟨none, st, packet, []⟩

def mencSendRtcp (sdpm : SdpMedia δ) (st : MencSt Ctx) (dst : Sa) (packet : List Byte) : Transformed Ctx :=
  if dst.cmp (sdpMediaRaddrRtcp sdpm) .all then rtcpEnc lib st packet else ⟨none, st, packet, []⟩

def mencRecvHandler := rtpDec lib
def mencRecvRtcp := rtcpDec lib

structure RtpSock where
  seq : BitVec 16
  ssrc : BitVec 32
  rtcpPeer : Sa
  rtcpMux : Bool
  deriving DecidableEq, Repr

/-- What became of a packet that went through the helpers: its kind, whether SRTP was in use, the
    transforms it met, and the kind as which it was parsed, when it was received and not dropped. -/
structure Handled where
  kind : PacketKind
  secured : Bool
  applied : List PacketKind
  parsed : Option PacketKind
  deriving DecidableEq, Repr

/-- A stream whose media are encrypted. `cfgRtcp` and `cfgRtcpMux` are the settings `rtcp_enable` and
    `rtcp_mux`; with the first off the module gets no RTCP socket. -/
structure Stream (δ Ctx : Type) where
  cfgRtcp : Bool
  cfgRtcpMux : Bool
  sdp : SdpMedia δ
  rtp : RtpSock
  rtcpMux : Bool
  ptEnc : Int
  menc : MencSt Ctx
  handled : List Handled

/-- `udp_send` on one of the two sockets: with `kind` the module's helper on it. -/
def udpSend (s : Stream δ Ctx) (sock kind : PacketKind) (dst : Sa) (packet : List Byte) :
    Option Errno × Stream δ Ctx :=
  let sent := match sock with
    | .rtp => mencSendHandler lib s.sdp s.menc dst packet
    | .rtcp => if s.cfgRtcp then mencSendRtcp lib s.sdp s.menc dst packet else ⟨none, s.menc, packet, []⟩
  let entry : Handled := ⟨kind, s.menc.useSrtp, sent.applied, none⟩
  (sent.err, { s with menc := sent.st, handled := s.handled ++ [entry] })

def rtpHdrEncode (marker : Bool) (pt : BitVec 7) (seq : BitVec 16) (ts ssrc : BitVec 32) : List Byte :=
  [0x80, (if marker then 0x80 else 0) ||| pt.setWidth 8, seq.extractLsb' 8 8, seq.extractLsb' 0 8] ++
    Mbuf.htonl ts ++ Mbuf.htonl ssrc

def rtpSend (s : Stream δ Ctx) (dst : Sa) (marker : Bool) (pt : Int) (ts : BitVec 32) (payload : List Byte) :
    Option Errno × Stream δ Ctx :=
  if pt < 0 ∨ 127 < pt then (some .EINVAL, s)
  else
    let packet := rtpHdrEncode marker (.ofInt 7 pt) s.rtp.seq ts s.rtp.ssrc ++ payload
    udpSend lib { s with rtp := { s.rtp with seq := s.rtp.seq + 1 } } .rtp .rtp dst packet

def streamSend (s : Stream δ Ctx) (marker : Bool) (pt : Int) (ts : BitVec 32) (payload : List Byte) :
    Option Errno × Stream δ Ctx :=
  if !s.sdp.raddr.isset .all then (none, s)
  else if !sdpMediaSendrecv s.sdp then (none, s)
  else
    let pt := if pt < 0 then s.ptEnc else pt
    if pt ≥ 0 then rtpSend lib s s.sdp.raddr marker pt ts payload else (none, s)

def sendKeepalive (s : Stream δ Ctx) (pt : Int) (ts : BitVec 32) : Option Errno × Stream δ Ctx :=
  rtpSend lib s s.sdp.raddr false pt ts []

def rtcpSend (s : Stream δ Ctx) (packet : List Byte) : Option Errno × Stream δ Ctx :=
  if !s.rtp.rtcpPeer.isset .all then (some .EINVAL, s)
  else udpSend lib s (if s.rtp.rtcpMux then .rtp else .rtcp) .rtcp s.rtp.rtcpPeer packet

def isRtcp (packet : List Byte) : Bool :=
  match packet with
  | _ :: b :: _ => 64 ≤ b &&& 0x7f && b &&& 0x7f ≤ 95
  | _ => false

def udpRecvHandler (rtcpMux : Bool) (packet : List Byte) : Option PacketKind :=
  if rtcpMux then
    if packet.length < 2 then none
    else if isRtcp packet then some .rtcp
    else some .rtp
  else some .rtp

def wireKind (s : Stream δ Ctx) (sock : PacketKind) (packet : List Byte) : PacketKind :=
  match sock with
  | .rtp => if s.rtp.rtcpMux && isRtcp packet then .rtcp else .rtp
  | .rtcp => .rtcp

def udpRead (s : Stream δ Ctx) (sock : PacketKind) (packet : List Byte) : Stream δ Ctx :=
  let received := match sock with
    | .rtp => mencRecvHandler lib s.menc packet
    | .rtcp => if s.cfgRtcp then mencRecvRtcp lib s.menc packet else ⟨none, s.menc, packet, []⟩
  let parsed := if received.err.isSome then none
    else match sock with
      | .rtp => udpRecvHandler s.rtp.rtcpMux received.packet
      | .rtcp => some .rtcp
  let entry : Handled := ⟨wireKind s sock packet, s.menc.useSrtp, received.applied, parsed⟩
  { s with menc := received.st, handled := s.handled ++ [entry] }

def streamHasMedia (s : Stream δ Ctx) : Bool :=
  (sdpMediaRformat s.sdp none).isSome && s.sdp.raddr.port != 0

def streamRemoteSet (s : Stream δ Ctx) : Stream δ Ctx :=
  let mux := s.rtcpMux || s.cfgRtcpMux && (sdpMediaRattr s.sdp "rtcp-mux").isSome
  let peer := if mux then s.sdp.raddr else sdpMediaRaddrRtcp s.sdp
  { s with rtcpMux := mux, rtp := { s.rtp with rtcpMux := mux, rtcpPeer := peer } }

def streamUpdate (s : Stream δ Ctx) (beyond : List Byte) (created : Created Ctx) : Stream δ Ctx :=
  let s := { s with ptEnc := ((sdpMediaRformat s.sdp none).map (·.pt)).getD (-1) }
  let s := if streamHasMedia s then streamRemoteSet s else s
  { s with menc := afterUpdate s.menc ⟨sdpMediaRattr s.sdp "crypto", beyond, created⟩ }

inductive Action (δ Ctx : Type)
  | sdpDecode (sdp : SdpMedia δ)
  | update (beyond : List Byte) (created : Created Ctx)
  | send (marker : Bool) (pt : Int) (ts : BitVec 32) (payload : List Byte)
  | keepalive (pt : Int) (ts : BitVec 32)
  | rtcpSend (packet : List Byte)
  | recv (sock : PacketKind) (packet : List Byte)

def step (s : Stream δ Ctx) : Action δ Ctx → Stream δ Ctx
  | .sdpDecode sdp => { s with sdp := sdp }
  | .update beyond created => streamUpdate s beyond created
  | .send marker pt ts payload => (streamSend lib s marker pt ts payload).2
  | .keepalive pt ts => (sendKeepalive lib s pt ts).2
  | .rtcpSend packet => (rtcpSend lib s packet).2
  | .recv sock packet => udpRead lib s sock packet

def streamAlloc (cfgRtcp cfgRtcpMux : Bool) (sdp : SdpMedia δ) (seq : BitVec 16) (ssrc : BitVec 32)
    (key : List Byte) (created : Created Ctx) : Stream δ Ctx where
  cfgRtcp := cfgRtcp
  cfgRtcpMux := cfgRtcpMux
  sdp := sdp
  rtp := ⟨seq, ssrc, .unspec, false⟩
  rtcpMux := false
  ptEnc := -1
  menc := setupSrtp key created
  handled := []

end

variable {δ Ctx : Type} (lib : SrtpLib Ctx)

/-- With SRTP in use a packet meets the transform of its kind, once, before it is parsed as that kind. -/
structure Handled.Right (h : Handled) : Prop where
  applied : h.secured = true → h.applied = [h.kind]
  parsed : h.secured = true → ∀ kind ∈ h.parsed, kind = h.kind

def AllRight (s : Stream δ Ctx) : Prop := ∀ h ∈ s.handled, h.Right

/-- What the two sides need to agree on while SRTP is in use: RTCP goes over its own socket, on which the
    module has its helper, to the address that the module takes for that of the peer. -/
def SocketsAgree (s : Stream δ Ctx) : Action δ Ctx → Prop
  | .rtcpSend _ => s.menc.useSrtp = true → s.rtp.rtcpPeer.isset .all = true →
    s.rtp.rtcpMux = false ∧ s.cfgRtcp = true ∧ s.rtp.rtcpPeer.cmp (sdpMediaRaddrRtcp s.sdp) .all = true
  | .recv .rtp packet => s.menc.useSrtp = true → s.rtp.rtcpMux = true → isRtcp packet = false
  | .recv .rtcp _ => s.menc.useSrtp = true → s.cfgRtcp = true
  | _ => True

theorem enc_applied (kind : PacketKind) (st : MencSt Ctx) (packet : List Byte) :
    (enc lib kind st packet).applied = if st.useSrtp then [kind] else [] := by
  unfold enc
  cases st.useSrtp with
  | false => rfl
  | true =>
    simp only [Bool.not_true, Bool.false_eq_true, if_false, if_true]
    split <;> rfl

theorem dec_applied (kind : PacketKind) (st : MencSt Ctx) (packet : List Byte) :
    (dec lib kind st packet).applied = if st.useSrtp then [kind] else [] := by
  unfold dec
  cases st.useSrtp with
  | false => rfl
  | true =>
    simp only [Bool.not_true, Bool.false_eq_true, if_false, if_true]
    split
    · rfl
    · split
      · rfl
      · split <;> rfl

theorem dec_header (kind : PacketKind) (st : MencSt Ctx) (packet : List Byte) :
    (dec lib kind st packet).packet.take 2 = packet.take 2 := by
  unfold dec
  cases st.useSrtp with
  | false => rfl
  | true =>
    simp only [Bool.not_true, Bool.false_eq_true, if_false]
    split
    · rename_i ok
      exact lib.header_kept kind _ packet ok
    · split
      · rfl
      · split <;> rfl

theorem isRtcp_header {packet packet' : List Byte} (same : packet.take 2 = packet'.take 2) :
    isRtcp packet = isRtcp packet' := by
  match packet, packet' with
  | [], [] => rfl
  | [], _ :: _ => simp at same
  | [_], [] => simp at same
  | [_], [_] => rfl
  | [_], _ :: _ :: _ => simp at same
  | _ :: _ :: _, [] => simp at same
  | _ :: _ :: _, [_] => simp at same
  | _ :: b :: _, _ :: b' :: _ =>
    simp only [List.take_succ_cons, List.cons.injEq] at same
    simp only [isRtcp, same.2.1]

theorem allRight_log {s s' : Stream δ Ctx} (right : AllRight s) {entry : Handled}
    (logged : s'.handled = s.handled ++ [entry]) : AllRight s' ↔ entry.Right := by
  unfold AllRight
  rw [logged]
  constructor
  · intro all
    exact all entry (by simp)
  · intro new h member
    rw [List.mem_append, List.mem_singleton] at member
    rcases member with old | rfl
    · exact right h old
    · exact new

theorem allRight_same {s s' : Stream δ Ctx} (right : AllRight s) (same : s'.handled = s.handled) :
    AllRight s' := by
  unfold AllRight
  rw [same]
  exact right

theorem sent_right (kind : PacketKind) (secured : Bool) (applied : List PacketKind) :
    Handled.Right ⟨kind, secured, applied, none⟩ ↔ (secured = true → applied = [kind]) := by
  constructor
  · exact fun right => right.applied
  · exact fun applied => ⟨applied, fun _ => nofun⟩

theorem rtpSend_right {s : Stream δ Ctx} (right : AllRight s) (marker : Bool) (pt : Int) (ts : BitVec 32)
    (payload : List Byte) : AllRight (rtpSend lib s s.sdp.raddr marker pt ts payload).2 := by
  unfold rtpSend
  split
  · exact right
  · apply (allRight_log right rfl).mpr
    rw [sent_right]
    intro secured
    have inUse : s.menc.useSrtp = true := secured
    simp only [mencSendHandler, Sa.cmp_self s.sdp.known, if_true, rtpEnc, enc_applied, inUse]

theorem streamSend_right {s : Stream δ Ctx} (right : AllRight s) (marker : Bool) (pt : Int) (ts : BitVec 32)
    (payload : List Byte) : AllRight (streamSend lib s marker pt ts payload).2 := by
  unfold streamSend
  split
  · exact right
  · split
    · exact right
    · simp only
      split
      · split
        · exact rtpSend_right lib right marker _ ts payload
        · exact right
      · split
        · exact rtpSend_right lib right marker _ ts payload
        · exact right

theorem rtcpSend_right_iff {s : Stream δ Ctx} (right : AllRight s) (packet : List Byte) :
    AllRight (rtcpSend lib s packet).2 ↔ SocketsAgree s (.rtcpSend packet) := by
  unfold rtcpSend SocketsAgree
  cases set : s.rtp.rtcpPeer.isset .all with
  | false => simp [right]
  | true =>
    simp only [Bool.not_true, Bool.false_eq_true, if_false]
    rw [allRight_log right rfl, sent_right]
    apply imp_congr_right
    intro secured
    cases mux : s.rtp.rtcpMux with
    | true =>
      -- the helper of the RTP socket either applies the transform of RTP or none
      simp only [if_true, mencSendHandler, Bool.true_eq_false, false_and, imp_false, not_true]
      split
      · simp [rtpEnc, enc_applied, secured]
      · simp
    | false =>
      cases helper : s.cfgRtcp with
      | false => simp
      | true =>
        simp only [Bool.false_eq_true, if_false, if_true, mencSendRtcp, true_and, true_imp_iff]
        cases peer : s.rtp.rtcpPeer.cmp (sdpMediaRaddrRtcp s.sdp) .all with
        | true => simp [rtcpEnc, enc_applied, secured]
        | false => simp

theorem parsed_kind (rtcpMux : Bool) (st : MencSt Ctx) (packet : List Byte) :
    ∀ kind ∈ udpRecvHandler rtcpMux (dec lib .rtp st packet).packet,
      kind = if rtcpMux && isRtcp packet then .rtcp else .rtp := by
  intro kind parsed
  have header := isRtcp_header (dec_header lib .rtp st packet)
  unfold udpRecvHandler at parsed
  rw [header] at parsed
  cases rtcpMux with
  | false => simpa [eq_comm] using parsed
  | true =>
    simp only [if_true] at parsed
    split at parsed
    · contradiction
    · cases rtcp : isRtcp packet <;> simpa [rtcp, eq_comm] using parsed

theorem mem_of_kept {dropped : Bool} {parsed : Option PacketKind} {kind : PacketKind}
    (member : kind ∈ if dropped then none else parsed) : kind ∈ parsed := by
  cases dropped with
  | false => exact member
  | true => contradiction

theorem recvRtp_right_iff {s : Stream δ Ctx} (right : AllRight s) (packet : List Byte) :
    AllRight (udpRead lib s .rtp packet) ↔ SocketsAgree s (.recv .rtp packet) := by
  unfold udpRead SocketsAgree
  rw [allRight_log right rfl]
  simp only [mencRecvHandler, rtpDec]
  constructor
  · intro entry secured mux
    have applied := entry.applied secured
    simp only [dec_applied, secured, if_true, wireKind, mux, Bool.true_and] at applied
    cases rtcp : isRtcp packet with
    | false => rfl
    | true =>
      rw [rtcp] at applied
      contradiction
  · intro agree
    constructor
    · intro secured
      have inUse : s.menc.useSrtp = true := secured
      have plain : (s.rtp.rtcpMux && isRtcp packet) = false := by
        rw [Bool.and_eq_false_imp]
        exact agree inUse
      simp only [dec_applied, inUse, if_true, wireKind, plain, Bool.false_eq_true, if_false]
    · intro _ kind parsed
      exact parsed_kind lib s.rtp.rtcpMux s.menc packet kind (mem_of_kept parsed)

theorem recvRtcp_right_iff {s : Stream δ Ctx} (right : AllRight s) (packet : List Byte) :
    AllRight (udpRead lib s .rtcp packet) ↔ SocketsAgree s (.recv .rtcp packet) := by
  unfold udpRead SocketsAgree
  rw [allRight_log right rfl]
  constructor
  · intro entry secured
    have applied := entry.applied secured
    cases helper : s.cfgRtcp with
    | false => simp [helper] at applied
    | true => rfl
  · intro agree
    constructor
    · intro secured
      have inUse : s.menc.useSrtp = true := secured
      simp only [agree inUse, if_true, mencRecvRtcp, rtcpDec, dec_applied, inUse, wireKind]
    · intro _ kind parsed
      exact (Option.mem_some.mp (mem_of_kept parsed)).symm

theorem step_right_iff (s : Stream δ Ctx) (a : Action δ Ctx) (right : AllRight s) :
    AllRight (step lib s a) ↔ SocketsAgree s a := by
  cases a with
  | sdpDecode sdp => exact iff_of_true (allRight_same right rfl) trivial
  | update beyond created =>
    have same : (streamUpdate s beyond created).handled = s.handled := by
      unfold streamUpdate
      simp only
      split <;> rfl
    exact iff_of_true (allRight_same right same) trivial
  | send marker pt ts payload => exact iff_of_true (streamSend_right lib right marker pt ts payload) trivial
  | keepalive pt ts => exact iff_of_true (rtpSend_right lib right false pt ts []) trivial
  | rtcpSend packet => exact rtcpSend_right_iff lib right packet
  | recv sock packet =>
    cases sock with
    | rtp => exact recvRtp_right_iff lib right packet
    | rtcp => exact recvRtcp_right_iff lib right packet

def transparent : SrtpLib Unit where
  protect _ session packet := (0, session, packet)
  unprotect _ session packet := (0, session, packet)
  header_kept _ _ _ _ := rfl

def pcmu : SdpFormat Unit := ⟨some "0", none, none, some "PCMU", none, none, true, true, 0, 8000, 1⟩

def muxedLine : SdpMedia Unit where
  lfmtl := [pcmu]
  rfmtl := [pcmu]
  rattrl := [("rtcp-mux", []),
    ("crypto", ascii "1 AES_CM_128_HMAC_SHA1_80 inline:AAAAAAAAAAAAAAAAAAAAAAAAAAAAAAAAAAAAAAAA")]
  raddr := .inet 0x0a000001 5004
  raddrRtcp := .init
  ldir := .sendrecv
  rdir := .sendrecv
  disabled := false
  known := nofun

end Baresip.Srtp
