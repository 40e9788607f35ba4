import Baresip.Turn.Bindings
import Baresip.Turn.Indication

set_option linter.dupNamespace false

namespace Baresip.Turn

open Re Stun Library

/-- Whether a ChannelData message with the declared length fills its packet: exactly with its padding on a stream, and
    not more than a datagram otherwise. -/
def Complete : Proto → Nat → Nat → Prop
  | .udp, len, size => CHAN_HDR_SIZE + len ≤ size
  | .tcp, len, size => CHAN_HDR_SIZE + rounded len = size

instance (proto : Proto) (len size : Nat) : Decidable (Complete proto len size) := by
  cases proto with
  | udp => exact inferInstanceAs (Decidable (_ ≤ _))
  | tcp => exact inferInstanceAs (Decidable (_ = _))

/-- The peer and the payload that a relay finds in a Send indication. -/
def readIndication (packet : List Byte) : Option (Sa × List Byte) :=
  match msgDecode packet with
  | some (.ok (msg, _)) =>
    if packet.length = STUN_HEADER_SIZE + msg.hdr.len.toNat ∧
        msg.hdr.type = stunType STUN_METHOD_SEND STUN_CLASS_INDICATION then
      match (msg.attr .XOR_PEER_ADDR).map Attr.v, (msg.attr .DATA).map Attr.v with
      | some (.sa peer), some (.mb data) => some (peer, data)
      | _, _ => none
    else none
  | _ => none

/-- What a relay that has bound channels to peers reads from a packet of the client. -/
def relayRead (proto : Proto) (bound : BitVec 16 → Option Sa) (packet : List Byte) : Option (Sa × List Byte) :=
  let nr := getBe (packet.take 2)
  let len := getBe ((packet.drop 2).take 2)
  if 0x4000 ≤ nr ∧ nr < 0x8000 then
    if Complete proto len packet.length then
      (bound (.ofNat 16 nr)).map fun peer => (peer, (packet.drop CHAN_HDR_SIZE).take len)
    else none
  else readIndication packet

section
variable {dst : Sa} {payload rest : List Byte}

/-- A header whose type has the two upper bits clear is read as it was written. -/
theorem hdrDecode_bytes {hdr : StunHdr} (masked : hdr.type &&& 0x3fff = hdr.type) (clear : hdr.type &&& 0xc000 = 0)
    (aligned : hdr.len.toNat % 4 = 0) (enough : hdr.len.toNat ≤ rest.length) :
    hdrDecode ((hdrWrites hdr).flatten ++ rest) = .ok (hdr, rest) := by
  have low : hdr.len &&& 0x3 = 0 := by
    apply BitVec.eq_of_toNat_eq
    rw [BitVec.toNat_and]
    show hdr.len.toNat &&& (2 ^ 2 - 1) = 0
    rw [Nat.and_two_pow_sub_one_eq_mod]
    exact aligned
  have bytes : (hdrWrites hdr).flatten ++ rest = putBe 2 hdr.type.toNat ++ (putBe 2 hdr.len.toNat ++
      (putBe 4 hdr.cookie.toNat ++ (putBe 12 hdr.tid.toNat ++ rest))) := by
    unfold hdrWrites
    rw [masked]
    simp
  unfold hdrDecode
  rw [bytes, if_neg (by simp [STUN_HEADER_SIZE]; omega), readBe_append (putBe_length _ _)]
  dsimp only
  rw [@put_get 16 2 rfl, if_neg (not_not.mpr clear), readBe_append (putBe_length _ _)]
  dsimp only
  rw [@put_get 16 2 rfl, if_neg (not_not.mpr low), readBe_append (putBe_length _ _)]
  dsimp only
  rw [readBe_append (putBe_length _ _)]
  dsimp only
  rw [if_neg (by omega), @put_get 32 4 rfl, @put_get 96 12 rfl]

theorem padding_aligned (n : Nat) : rounded n % 4 = 0 := by
  unfold rounded padding
  omega

/-- The lengths of a Send indication fit in their fields. -/
def IndicationFits (dst : Sa) (n : Nat) : Prop := 8 + (peerBytes dst).length + rounded n < 65536

theorem msgDecode_indication (known : dst ≠ .unspec) (fits : IndicationFits dst payload.length) :
    msgDecode (indicationBytes dst payload) = some (.ok
      (⟨indicationHdr dst payload,
        [⟨StunAttrib.XOR_PEER_ADDR.code, .sa dst⟩, ⟨StunAttrib.DATA.code, .mb payload⟩], indicationBytes dst payload⟩,
        [])) := by
  have small : (indicationBody dst payload).length < 65536 := by
    rw [indicationBody_length]
    exact fits
  have len : (indicationHdr dst payload).len.toNat = (indicationBody dst payload).length := by
    show (BitVec.ofNat 16 _).toNat = _
    rw [BitVec.toNat_ofNat]
    exact Nat.mod_eq_of_lt small
  have aligned : (indicationHdr dst payload).len.toNat % 4 = 0 := by
    have peer := peerBytes_aligned dst
    have data := padding_aligned payload.length
    rw [len, indicationBody_length]
    omega
  have masked : stunType STUN_METHOD_SEND STUN_CLASS_INDICATION &&& 0x3fff =
      stunType STUN_METHOD_SEND STUN_CLASS_INDICATION := by decide
  have clear : stunType STUN_METHOD_SEND STUN_CLASS_INDICATION &&& 0xc000 = 0 := by decide
  have header : hdrDecode (indicationBytes dst payload) = .ok (indicationHdr dst payload, indicationBody dst payload) :=
    hdrDecode_bytes masked clear aligned (Nat.le_of_eq len)
  have peer : attrDecode sendindTid (indicationBody dst payload) =
      .ok (⟨StunAttrib.XOR_PEER_ADDR.code, .sa dst⟩, attrBytes StunAttrib.DATA.code payload ++ zeros payload.length) := by
    have none_ : ([] : List Byte).length = padding (peerBytes dst).length := by
      have aligned := peerBytes_aligned dst
      unfold padding
      simp [aligned]
    apply attrDecode_bytes (by rw [indicationBody_length] at small; omega) none_
    rw [peer_format]
    unfold valueDecode
    simp only [if_true, addrDecode_peer known]
  have data : attrDecode sendindTid (attrBytes StunAttrib.DATA.code payload ++ zeros payload.length) =
      .ok (⟨StunAttrib.DATA.code, .mb payload⟩, []) := by
    have decoded := @attrDecode_bytes [] sendindTid StunAttrib.DATA.code payload (zeros payload.length) (.mb payload)
      (by rw [indicationBody_length, rounded] at small; omega) (zeros_length _) (by
        rw [data_format]
        unfold valueDecode
        rw [List.take_left, List.drop_left])
    rwa [List.append_nil] at decoded
  have known_ (attrib : StunAttrib) (v : AttrValue) : noteUnknown [] ⟨attrib.code, v⟩ = [] := by
    unfold noteUnknown formatOf
    rw [StunAttrib.ofCode_code]
    exact if_neg (by simp)
  have size : (indicationBody dst payload).length < Stun.sizeValues := Nat.lt_trans small (by decide)
  have behind : (attrBytes StunAttrib.DATA.code payload ++ zeros payload.length).length < Stun.sizeValues := by
    have length : (indicationBody dst payload).length = 4 + (peerBytes dst).length +
        (attrBytes StunAttrib.DATA.code payload ++ zeros payload.length).length := by
      unfold indicationBody
      rw [List.length_append, attrBytes_length]
    omega
  have fuel : (indicationBody dst payload).length + 1 = (indicationBody dst payload).length - 2 + 1 + 1 + 1 := by
    rw [indicationBody_length]
    omega
  unfold msgDecode
  rw [header]
  dsimp only
  rw [len, Nat.sub_self, fuel]
  have first : attrsBody sendindTid 0 ⟨indicationBody dst payload, [], []⟩ =
      .inl ⟨attrBytes StunAttrib.DATA.code payload ++ zeros payload.length,
        [⟨StunAttrib.XOR_PEER_ADDR.code, .sa dst⟩], []⟩ := by
    have on : goesOn (indicationBody dst payload).length 0 = true := by
      rw [goesOn_inside (Nat.zero_le _) size, indicationBody_length]
      omega
    have taken := @attrsBody_item sendindTid _ _ 0 ⟨indicationBody dst payload, [], []⟩ on peer
    rw [taken, known_]
    rfl
  have second : attrsBody sendindTid 0 ⟨attrBytes StunAttrib.DATA.code payload ++ zeros payload.length,
        [⟨StunAttrib.XOR_PEER_ADDR.code, .sa dst⟩], []⟩ =
      .inl ⟨[], [⟨StunAttrib.XOR_PEER_ADDR.code, .sa dst⟩, ⟨StunAttrib.DATA.code, .mb payload⟩], []⟩ := by
    have on : goesOn (attrBytes StunAttrib.DATA.code payload ++ zeros payload.length).length 0 = true := by
      rw [goesOn_inside (Nat.zero_le _) behind, List.length_append, attrBytes_length]
      omega
    have taken := @attrsBody_item sendindTid _ _ 0 ⟨attrBytes StunAttrib.DATA.code payload ++ zeros payload.length,
      [⟨StunAttrib.XOR_PEER_ADDR.code, .sa dst⟩], []⟩ on data
    rw [taken, known_]
    rfl
  have third : attrsBody sendindTid 0
      ⟨[], [⟨StunAttrib.XOR_PEER_ADDR.code, .sa dst⟩, ⟨StunAttrib.DATA.code, .mb payload⟩], []⟩ =
        .inr (.ok ⟨[], [⟨StunAttrib.XOR_PEER_ADDR.code, .sa dst⟩, ⟨StunAttrib.DATA.code, .mb payload⟩], []⟩) :=
    attrsBody_done (show ¬ goesOn 0 0 = true by decide)
  show (loop (attrsBody sendindTid 0) _ _).map _ = _
  rw [loop_inl _ first, loop_inl _ second, loop_inr _ third]
  rfl

theorem relayRead_indication (proto : Proto) (bound : BitVec 16 → Option Sa) (known : dst ≠ .unspec)
    (fits : IndicationFits dst payload.length) :
    relayRead proto bound (indicationBytes dst payload) = some (dst, payload) := by
  have first : getBe ((indicationBytes dst payload).take 2) = 0x16 := by
    unfold indicationBytes hdrWrites
    rw [List.flatten_cons, List.append_assoc, List.take_left' (putBe_length _ _)]
    exact @getBe_toNat 16 2 rfl (stunType STUN_METHOD_SEND STUN_CLASS_INDICATION &&& 0x3fff)
  have small : (indicationBody dst payload).length < 65536 := by
    rw [indicationBody_length]
    exact fits
  have size : (indicationBytes dst payload).length = STUN_HEADER_SIZE + (indicationHdr dst payload).len.toNat := by
    have len : (indicationHdr dst payload).len.toNat = (indicationBody dst payload).length := by
      show (BitVec.ofNat 16 _).toNat = _
      rw [BitVec.toNat_ofNat]
      exact Nat.mod_eq_of_lt small
    have header : (hdrWrites (indicationHdr dst payload)).flatten.length = STUN_HEADER_SIZE := by
      simp [hdrWrites, STUN_HEADER_SIZE]
    rw [len, indicationBytes, List.length_append, header]
  have read : readIndication (indicationBytes dst payload) = some (dst, payload) := by
    unfold readIndication
    rw [msgDecode_indication known fits]
    exact if_pos ⟨size, rfl⟩
  unfold relayRead
  dsimp only
  rw [first, if_neg (by omega), read]

/-- The bytes of a ChannelData message and what follows its payload. -/
def channelDataBytes (nr : BitVec 16) (len : Nat) (payload : List Byte) : List Byte :=
  putBe 2 nr.toNat ++ (putBe 2 len ++ payload)

theorem channelData_parts (nr : BitVec 16) (len : Nat) (payload : List Byte) :
    (channelDataBytes nr len payload).take 2 = putBe 2 nr.toNat ∧
      ((channelDataBytes nr len payload).drop 2).take 2 = putBe 2 len ∧
      (channelDataBytes nr len payload).drop 4 = payload := by
  have two := putBe_length 2 nr.toNat
  have two' := putBe_length 2 len
  unfold channelDataBytes
  refine ⟨?_, ?_, ?_⟩
  · exact List.take_left' two
  · rw [List.drop_left' two, List.take_left' two']
  · rw [show 4 = 2 + 2 from rfl, ← List.drop_drop, List.drop_left' two, List.drop_left' two']

theorem relayRead_channelData {proto : Proto} {bound : BitVec 16 → Option Sa} {nr : BitVec 16} {peer : Sa}
    (isBound : bound nr = some peer) (range : 0x4000 ≤ nr.toNat ∧ nr.toNat < 0x8000) (fits : payload.length < 65536)
    (complete : Complete proto payload.length (CHAN_HDR_SIZE + (payload ++ rest).length)) :
    relayRead proto bound (channelDataBytes nr payload.length (payload ++ rest)) = some (peer, payload) := by
  rcases channelData_parts nr payload.length (payload ++ rest) with ⟨first, second, behind⟩
  have size : (channelDataBytes nr payload.length (payload ++ rest)).length = CHAN_HDR_SIZE + (payload ++ rest).length := by
    unfold channelDataBytes CHAN_HDR_SIZE
    rw [List.length_append, List.length_append, putBe_length, putBe_length]
    omega
  have nrRead : getBe (putBe 2 nr.toNat) = nr.toNat := @getBe_toNat 16 2 rfl nr
  have lenRead : getBe (putBe 2 payload.length) = payload.length := by
    rw [getBe_putBe]
    exact Nat.mod_eq_of_lt fits
  unfold relayRead
  dsimp only
  rw [first, second, nrRead, lenRead, if_pos range, size, if_pos complete, BitVec.ofNat_toNat, BitVec.setWidth_eq,
    isBound]
  show some (peer, ((channelDataBytes nr payload.length (payload ++ rest)).drop 4).take payload.length) = _
  rw [behind, List.take_left]

end

theorem left_at {front data tail : List Byte} {p q : Nat} (place : p = front.length) :
    ((⟨front ++ (data ++ tail), q, p + data.length⟩ : Mbuf).setPos p).left = data := by
  unfold Mbuf.left Mbuf.setPos Mbuf.getLeft
  dsimp only
  rw [place, List.drop_left, Nat.add_sub_cancel_left, List.take_left]

theorem putBe_ofNat (n : Nat) : putBe 2 (BitVec.ofNat 16 n).toNat = putBe 2 n := by
  have back := putBe_getBe (putBe 2 n)
  rw [putBe_length, getBe_putBe] at back
  rw [BitVec.toNat_ofNat]
  exact back

/-- The header of a ChannelData message is written over the room before the payload. -/
theorem chanHdrEncode_inPlace {front gap payload tail : List Byte} {p : Nat} (place : p = front.length)
    (four : gap.length = 4) (nr : BitVec 16) :
    chanHdrEncode ⟨nr, .ofNat 16 payload.length⟩ ⟨front ++ (gap ++ (payload ++ tail)), p, p + 4 + payload.length⟩ =
      ⟨front ++ (channelDataBytes nr payload.length payload ++ tail), p + 4, p + 4 + payload.length⟩ := by
  unfold chanHdrEncode
  rw [writeAll_over place (by simp [four]) (by simp), putBe_ofNat]
  simp [channelDataBytes]

namespace Channels

/-- The peers of the channels, by their numbers. -/
def bound (c : Channels) (nr : BitVec 16) : Option Sa := (c.findNumb nr).map Chan.peer

/-- The room that the framing for a destination needs before a payload. -/
def headroom (c : Channels) (dst : Sa) : Nat := if (c.findPeer dst).isSome then CHAN_HDR_SIZE else stunIndlen dst

/-- The destination is an address, and the length of the payload fits in the fields of its framing. -/
def Fits (c : Channels) (dst : Sa) (n : Nat) : Prop :=
  dst ≠ .unspec ∧ if (c.findPeer dst).isSome then n < 65536 else IndicationFits dst n

/-- A payload as it is sent to the relay. -/
def framed (c : Channels) (proto : Proto) (dst : Sa) (payload : List Byte) : List Byte :=
  match c.findPeer dst with
  | some chan => channelDataBytes chan.nr payload.length (payload ++ if proto = .tcp then zeros payload.length else [])
  | none => indicationBytes dst payload

/-- A buffer with a payload behind some room. -/
def payloadBuf (room payload tail : List Byte) : Mbuf :=
  ⟨room ++ (payload ++ tail), room.length, room.length + payload.length⟩

section
variable {c : Channels} {dst : Sa} {room payload tail : List Byte} {proto : Proto} {mb : Mbuf}

theorem relayRead_framed (inv : Inv c) (fits : Fits c dst payload.length) :
    relayRead proto c.bound (c.framed proto dst payload) = some (dst, payload) := by
  rcases fits with ⟨known, small⟩
  unfold framed
  cases found : c.findPeer dst with
  | none =>
    rw [found] at small
    exact relayRead_indication proto c.bound known small
  | some chan =>
    rw [found] at small
    have held := findPeer_some inv found
    have range := inv.numbered.range _ held
    have most := inv.counter.2
    have isBound : c.bound chan.nr = some dst := by
      unfold bound
      cases other : c.findNumb chan.nr with
      | none =>
        have differ := List.find?_eq_none.mp other chan (List.mem_of_find?_eq_some found)
        simp at differ
      | some chan' =>
        have here := findNumb_some other
        have mem : (chan'.nr.toNat, chan'.peer) ∈ c.names := List.mem_map_of_mem here.1
        have same := inv.numbered.key_unique mem held (congrArg BitVec.toNat here.2)
        exact congrArg (fun p => some p.2) same
    apply relayRead_channelData isBound
    · exact ⟨range.1, Nat.lt_of_lt_of_le range.2 (Nat.le_succ_of_le most)⟩
    · exact small
    · cases proto with
      | udp => simp [Complete]
      | tcp => simp [Complete, rounded]

/-- With too little room the helper leaves a datagram as it is. -/
theorem udpSendHandler_short (short : mb.pos < c.headroom dst) : c.udpSendHandler dst mb = (none, dst, mb) := by
  unfold headroom at short
  unfold udpSendHandler
  by_cases none_ : mb.pos < CHAN_HDR_SIZE
  · exact if_pos none_
  · rw [if_neg none_]
    cases found : c.findPeer dst with
    | none =>
      rw [found] at short
      exact if_pos short
    | some chan =>
      rw [found] at short
      exact absurd short none_

/-- A buffer whose room is cut where the framing begins. -/
theorem payloadBuf_cut {n : Nat} (enough : n ≤ room.length) : ∃ front gap, gap.length = n ∧
    front.length + n = room.length ∧
    ∀ payload tail, (payloadBuf room payload tail).buf = front ++ (gap ++ (payload ++ tail)) ∧
      (payloadBuf room payload tail).endPos = front.length + n + payload.length := by
  rcases cut_at (room.length - n) (show room.length = room.length - n + n by omega) with
    ⟨front, gap, rfl, before, length⟩
  have sum : front.length + n = (front ++ gap).length := by rw [List.length_append, length]
  refine ⟨front, gap, length, sum, ?_⟩
  intro payload tail
  constructor
  · exact List.append_assoc _ _ _
  · rw [sum]
    rfl

theorem payloadBuf_left : (payloadBuf room payload tail).getLeft = payload.length := Nat.add_sub_cancel_left _ _

theorem encoded_channelData (nr : BitVec 16) (enough : CHAN_HDR_SIZE ≤ room.length) : ∃ front : List Byte,
    (payloadBuf room payload tail).pos - CHAN_HDR_SIZE = front.length ∧ front.length + CHAN_HDR_SIZE = room.length ∧
      chanHdrEncode ⟨nr, .ofNat 16 (payloadBuf room payload tail).getLeft⟩
        ((payloadBuf room payload tail).setPos ((payloadBuf room payload tail).pos - CHAN_HDR_SIZE)) =
          ⟨front ++ (channelDataBytes nr payload.length payload ++ tail), front.length + 4,
            front.length + 4 + payload.length⟩ := by
  rcases payloadBuf_cut enough with ⟨front, gap, length, sum, shape⟩
  rcases shape payload tail with ⟨buf, ends⟩
  have pos : (payloadBuf room payload tail).pos - CHAN_HDR_SIZE = front.length := by
    show room.length - _ = _
    omega
  have placed : (payloadBuf room payload tail).setPos front.length =
      ⟨front ++ (gap ++ (payload ++ tail)), front.length, front.length + 4 + payload.length⟩ := by
    unfold Mbuf.setPos
    rw [buf, ends]
    rfl
  exact ⟨front, pos, sum, by rw [pos, placed, payloadBuf_left, chanHdrEncode_inPlace rfl length]⟩

theorem encoded_indication (known : dst ≠ .unspec) (enough : stunIndlen dst ≤ room.length) :
    let pos := (payloadBuf room payload tail).pos - stunIndlen dst
    (sendIndication ((payloadBuf room payload tail).setPos pos) dst).1 = none ∧
      ((sendIndication ((payloadBuf room payload tail).setPos pos) dst).2.setPos pos).left =
        indicationBytes dst payload := by
  rcases payloadBuf_cut enough with ⟨front, gap, length, sum, shape⟩
  rcases shape payload tail with ⟨buf, ends⟩
  have pos : (payloadBuf room payload tail).pos - stunIndlen dst = front.length := by
    show room.length - _ = _
    omega
  have placed : (payloadBuf room payload tail).setPos front.length =
      ⟨front ++ (gap ++ (payload ++ tail)), front.length, front.length + gap.length + payload.length⟩ := by
    unfold Mbuf.setPos
    rw [buf, ends, length]
  dsimp only
  rw [pos, placed]
  exact sendIndication_inPlace known rfl length payload tail

theorem channelDataBytes_length (nr : BitVec 16) (len : Nat) (payload : List Byte) :
    (channelDataBytes nr len payload).length = 4 + payload.length := by
  unfold channelDataBytes
  rw [List.length_append, List.length_append, putBe_length, putBe_length]
  omega

/-- With enough room the datagram goes to the server in its framing. -/
theorem udpSendHandler_framed (enough : c.headroom dst ≤ room.length) (known : dst ≠ .unspec) :
    ∃ packet, c.udpSendHandler dst (payloadBuf room payload tail) = (none, c.turnc.srv, packet) ∧
      packet.left = c.framed .udp dst payload := by
  have four : ¬ (payloadBuf room payload tail).pos < CHAN_HDR_SIZE := by
    have least : CHAN_HDR_SIZE ≤ c.headroom dst := by
      unfold headroom
      split_ifs
      · exact Nat.le_refl _
      · cases dst <;> simp [stunIndlen, CHAN_HDR_SIZE]
    exact Nat.not_lt.mpr (Nat.le_trans least enough)
  unfold headroom at enough
  unfold udpSendHandler framed
  rw [if_neg four]
  cases found : c.findPeer dst with
  | some chan =>
    rw [found] at enough
    rcases @encoded_channelData room payload tail chan.nr enough with ⟨front, pos, sum, encoded⟩
    refine ⟨_, rfl, ?_⟩
    dsimp only
    rw [encoded]
    show ((⟨_, _, _⟩ : Mbuf).setPos (front.length + 4 - 4)).left = _
    rw [Nat.add_sub_cancel, Nat.add_assoc, ← channelDataBytes_length chan.nr payload.length payload, left_at rfl]
    simp
  | none =>
    rw [found] at enough
    rcases @encoded_indication dst room payload tail known enough with ⟨fine, bytes⟩
    refine ⟨_, ?_, bytes⟩
    dsimp only
    rw [← fine]
    exact if_neg (Nat.not_lt.mpr enough)

theorem turncPacket_short (short : mb.pos < c.headroom dst) : c.turncPacket dst mb = .error .EINVAL := by
  unfold headroom at short
  unfold turncPacket
  cases found : c.findPeer dst with
  | none =>
    rw [found] at short
    exact if_pos short
  | some chan =>
    rw [found] at short
    exact if_pos short

theorem turncPacket_framed (enough : c.headroom dst ≤ room.length) (known : dst ≠ .unspec) :
    ∃ packet, c.turncPacket dst (payloadBuf room payload tail) = .ok packet ∧
      packet.left = c.framed c.turnc.proto dst payload ∧ packet.pos + c.headroom dst = room.length := by
  unfold headroom at enough ⊢
  unfold turncPacket framed
  cases found : c.findPeer dst with
  | some chan =>
    rw [found] at enough
    rcases @encoded_channelData room payload tail chan.nr enough with ⟨front, pos, sum, encoded⟩
    have fits : ¬ (payloadBuf room payload tail).pos < CHAN_HDR_SIZE := Nat.not_lt.mpr enough
    dsimp only
    rw [if_neg fits, encoded, pos]
    refine ⟨_, rfl, ?_, sum⟩
    cases proto : c.turnc.proto with
    | udp =>
      show ((⟨_, _, _⟩ : Mbuf).setPos front.length).left = _
      rw [Nat.add_assoc, ← channelDataBytes_length chan.nr payload.length payload, left_at rfl]
      simp
    | tcp =>
      have same : padding (BitVec.ofNat 16 payload.length).toNat = padding payload.length := by
        rw [BitVec.toNat_ofNat]
        unfold padding
        omega
      have ends : front.length + 4 + payload.length =
          (front ++ channelDataBytes chan.nr payload.length payload).length := by
        rw [List.length_append, channelDataBytes_length, Nat.add_assoc]
      rcases writeAll_end (List.replicate (padding payload.length) [0]) ends tail with ⟨tail', written⟩
      have total : front.length + 4 + payload.length + padding payload.length =
          front.length + (channelDataBytes chan.nr payload.length (payload ++ zeros payload.length)).length := by
        rw [channelDataBytes_length, List.length_append, zeros_length]
        omega
      have padded : writeAll (Mbuf.skipToEnd ⟨front ++ (channelDataBytes chan.nr payload.length payload ++ tail),
          front.length + 4, front.length + 4 + payload.length⟩) (List.replicate (padding payload.length) [0]) =
            ⟨front ++ (channelDataBytes chan.nr payload.length (payload ++ zeros payload.length) ++ tail'),
              front.length + 4 + payload.length + padding payload.length,
              front.length + 4 + payload.length + padding payload.length⟩ := by
        show writeAll ⟨front ++ (channelDataBytes chan.nr payload.length payload ++ tail), front.length + 4 + payload.length,
          front.length + 4 + payload.length⟩ _ = _
        rw [← List.append_assoc, written, zeros_flatten, zeros_length]
        simp only [channelDataBytes, List.append_assoc]
      rw [payloadBuf_left, same, if_pos rfl, padded, total]
      exact left_at rfl
  | none =>
    rw [found] at enough
    rcases @encoded_indication dst room payload tail known enough with ⟨fine, bytes⟩
    have fits : ¬ (payloadBuf room payload tail).pos < stunIndlen dst := Nat.not_lt.mpr enough
    dsimp only
    rw [if_neg fits]
    generalize sendIndication ((payloadBuf room payload tail).setPos _) dst = result at fine bytes ⊢
    rcases result with ⟨err, mb⟩
    obtain rfl : err = none := fine
    exact ⟨_, rfl, bytes, Nat.sub_add_cancel enough⟩

end

end Channels

end Baresip.Turn
