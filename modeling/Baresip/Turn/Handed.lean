import Baresip.Library.Runs
import Baresip.Stun.Received
import Baresip.Turn.Relayed

set_option linter.dupNamespace false

namespace Baresip.Turn

open Re Stun Library

/-- Where the data of an attribute is in the bytes of its message, with the header that declares its length. -/
def Placed (bytes : List Byte) (attr : Attr) : Prop :=
  attr.type = StunAttrib.DATA.code →
    ∃ data before behind, attr.v = .mb data ∧ data.length < 65536 ∧
      bytes = before ++ (attrBytes StunAttrib.DATA.code data ++ behind)

section
variable {bytes left rest : List Byte} {tid : BitVec 96} {attr : Attr} {msg : StunMsg} {ua : List (BitVec 16)}

/-- An item begins with its type and its length. -/
theorem item_bytes (four : 4 + itemLen left ≤ left.length) :
    left = attrBytes (itemType left) ((left.drop 4).take (itemLen left)) ++ left.drop (4 + itemLen left) := by
  have first : (left.take 2).length = 2 := by
    rw [List.length_take]
    omega
  have second : ((left.drop 2).take 2).length = 2 := by
    rw [List.length_take, List.length_drop]
    omega
  have value : ((left.drop 4).take (itemLen left)).length = itemLen left := by
    rw [List.length_take, List.length_drop]
    omega
  have type : putBe 2 (itemType left).toNat = left.take 2 := by
    have back := putBe_getBe (left.take 2)
    rw [first] at back
    unfold itemType
    rw [putBe_ofNat, back]
  have len : putBe 2 (itemLen left) = (left.drop 2).take 2 := by
    have back := putBe_getBe ((left.drop 2).take 2)
    rwa [second] at back
  unfold attrBytes
  rw [value, type, len, List.append_assoc, List.append_assoc, ← List.drop_drop, List.take_append_drop,
    show 4 = 2 + 2 from rfl, ← List.drop_drop, List.take_append_drop, List.take_append_drop]

theorem decoded_placed {front : List Byte} (decoded : Decoded tid left attr rest) (split : bytes = front ++ left) :
    Placed bytes attr := by
  intro type
  rcases decoded.value with ⟨behind, value⟩
  have isData : itemType left = StunAttrib.DATA.code := decoded.type.symm.trans type
  have format : itemFormat left = some .data := by
    unfold itemFormat
    rw [isData, data_format]
  rw [format] at value
  have data := (Prod.mk.inj (Except.ok.inj value)).1
  have four := decoded.four
  have short : ((left.drop 4).take (itemLen left)).length < 65536 := by
    have lt := getBe_lt ((left.drop 2).take 2)
    have two : ((left.drop 2).take 2).length = 2 := by
      rw [List.length_take, List.length_drop]
      omega
    rw [two] at lt
    rw [List.length_take]
    exact Nat.lt_of_le_of_lt (Nat.min_le_left _ _) lt
  refine ⟨(left.drop 4).take (itemLen left), front, left.drop (4 + itemLen left), data.symm, short, ?_⟩
  rw [← isData, ← item_bytes four, split]

/-- The attributes that are decoded so far, and the bytes that are left. -/
def PlacedSt (bytes : List Byte) (s : AttrsSt) : Prop :=
  (∃ front, bytes = front ++ s.left) ∧ ∀ attr ∈ s.attrl, Placed bytes attr

theorem attrsBody_placed {extra : Nat} {s next : AttrsSt} (placed : PlacedSt bytes s)
    (goes : attrsBody tid extra s = .inl next) : PlacedSt bytes next := by
  rcases placed with ⟨⟨front, split⟩, placed⟩
  unfold attrsBody at goes
  split at goes
  · split at goes
    · cases goes
    · rename_i attr rest result
      cases goes
      have decoded := attrDecode_decoded result
      constructor
      · rw [decoded.rest_eq]
        exact ⟨front ++ s.left.take _, by rw [List.append_assoc, List.take_append_drop, split]⟩
      · intro other mem
        rcases List.mem_append.mp mem with old | last
        · exact placed other old
        · rw [List.mem_singleton.mp last]
          exact decoded_placed decoded split
  · cases goes

/-- What is decoded of a message's data is what its bytes declare. -/
theorem attrs_placed (decoded : msgDecode bytes = some (.ok (msg, ua))) : ∀ attr ∈ msg.attrl, Placed bytes attr := by
  unfold msgDecode at decoded
  split at decoded
  · cases decoded
  · rename_i hdr left result
    have header := hdrDecode_decoded result
    rcases Option.map_eq_some_iff.mp decoded with ⟨r, ends, results⟩
    have start : PlacedSt bytes ⟨left, [], []⟩ := by
      constructor
      · rw [header.left_eq]
        exact ⟨_, (List.take_append_drop STUN_HEADER_SIZE bytes).symm⟩
      · simp
    have holds : ∀ s, r = .ok s → ∀ attr ∈ s.attrl, Placed bytes attr := by
      apply Returns.of_invariant (fun s next placed goes => attrsBody_placed placed goes) _ start ⟨_, ends⟩
      intro s r placed done
      unfold attrsBody at done
      split at done
      · split at done
        · cases done
          exact fun _ failed => by cases failed
        · cases done
      · cases done
        rintro _ ⟨rfl⟩
        exact placed.2
    split at results
    · cases results
    · cases results
      exact holds _ rfl

end

namespace Channels

variable {c : Channels} {dst src peer : Sa} {bytes room payload tail handed : List Byte}

/-- A ChannelData message from the server, with the payload that its header declares and whatever follows it. -/
def ChannelDataFrom (c : Channels) (bytes : List Byte) (peer : Sa) (payload behind : List Byte) : Prop :=
  ∃ nr, c.bound nr = some peer ∧ payload.length < 65536 ∧
    bytes = channelDataBytes nr payload.length (payload ++ behind)

/-- A Data indication from the server, with the payload that its attribute declares. -/
def DataFrom (bytes : List Byte) (peer : Sa) (payload : List Byte) : Prop :=
  ∃ msg ua before behind, msgDecode bytes = some (.ok (msg, ua)) ∧
    stunClass msg.hdr.type = STUN_CLASS_INDICATION ∧ stunMethod msg.hdr.type = STUN_METHOD_DATA ∧
    (msg.attr .XOR_PEER_ADDR).map Attr.v = some (.sa peer) ∧ payload.length < 65536 ∧
    bytes = before ++ (attrBytes StunAttrib.DATA.code payload ++ behind)

theorem recvChannelData_handed (received : c.recvChannelData bytes = .handedOn peer handed) :
    ∃ payload behind, c.ChannelDataFrom bytes peer payload behind ∧ handed = payload ++ behind := by
  unfold recvChannelData chanHdrDecode at received
  by_cases short : bytes.length < CHAN_HDR_SIZE
  · rw [if_pos short] at received
    cases received
  have four : 4 ≤ bytes.length := Nat.not_lt.mp short
  have two : 2 ≤ (bytes.drop 2).length := by
    rw [List.length_drop]
    omega
  rw [if_neg short, readBe_le (by omega)] at received
  dsimp only at received
  rw [readBe_le two, List.drop_drop] at received
  dsimp only at received
  have first : (bytes.take 2).length = 2 := by
    rw [List.length_take]
    omega
  have second : ((bytes.drop 2).take 2).length = 2 := by
    rw [List.length_take]
    omega
  have len : (BitVec.ofNat 16 (getBe ((bytes.drop 2).take 2))).toNat = getBe ((bytes.drop 2).take 2) := by
    have lt := getBe_lt ((bytes.drop 2).take 2)
    rw [second] at lt
    rw [BitVec.toNat_ofNat]
    exact Nat.mod_eq_of_lt lt
  have lenBytes : putBe 2 (getBe ((bytes.drop 2).take 2)) = (bytes.drop 2).take 2 := by
    have back := putBe_getBe ((bytes.drop 2).take 2)
    rwa [second] at back
  have nrBytes : putBe 2 (BitVec.ofNat 16 (getBe (bytes.take 2))).toNat = bytes.take 2 := by
    have back := putBe_getBe (bytes.take 2)
    rw [first] at back
    rw [putBe_ofNat, back]
  rw [len] at received
  split_ifs at received with cut
  split at received
  · cases received
  · rename_i chan found
    cases received
    have size : ((bytes.drop 4).take (getBe ((bytes.drop 2).take 2))).length = getBe ((bytes.drop 2).take 2) := by
      rw [List.length_take]
      exact Nat.min_eq_left (Nat.not_lt.mp cut)
    refine ⟨(bytes.drop 4).take (getBe ((bytes.drop 2).take 2)), (bytes.drop 4).drop (getBe ((bytes.drop 2).take 2)),
      ⟨.ofNat 16 (getBe (bytes.take 2)), ?_, ?_, ?_⟩, (List.take_append_drop _ _).symm⟩
    · unfold bound
      rw [found]
      rfl
    · rw [size, ← len]
      exact BitVec.isLt _
    · unfold channelDataBytes
      rw [size, nrBytes, lenBytes, List.take_append_drop, show 4 = 2 + 2 from rfl, ← List.drop_drop,
        List.take_append_drop, List.take_append_drop]

theorem turncRecv_handed (received : c.turncRecv bytes = .handedOn peer handed) :
    (∃ payload behind, c.ChannelDataFrom bytes peer payload behind ∧ handed = payload ++ behind) ∨
      DataFrom bytes peer handed := by
  unfold turncRecv at received
  split at received
  · rename_i msg ua decoded
    dsimp only at received
    split_ifs at received with indication unknown method response
    split at received
    · rename_i peer' data peerFound dataFound
      cases received
      right
      rcases Option.map_eq_some_iff.mp dataFound with ⟨attr, found, value⟩
      have mem : attr ∈ msg.attrl := List.mem_of_find?_eq_some found
      have type : attr.type = StunAttrib.DATA.code := by simpa using List.find?_some found
      rcases attrs_placed decoded attr mem type with ⟨data, before, behind, same, short, split⟩
      rw [value] at same
      cases same
      exact ⟨msg, ua, before, behind, decoded, indication, not_not.mp method, peerFound, short, split⟩
    · cases received
  · exact Or.inl (recvChannelData_handed received)

/-- What is handed on of a packet from the server. -/
def HandedOn (c : Channels) (bytes : List Byte) (peer : Sa) (handed : List Byte) : Prop :=
  (∃ payload behind, c.ChannelDataFrom bytes peer payload behind ∧ handed = payload ++ behind) ∨
    DataFrom bytes peer handed

/-- Both ways to send and both ways to receive, for payloads whose length fits in its fields. Too little room is how a
    sender says that a datagram is not for the relay. -/
structure Relays (c : Channels) : Prop where
  sent : ∀ dst room payload tail, c.Fits dst payload.length → c.headroom dst ≤ room.length →
    (c.turnc.proto = .udp → room.length < c.headroom dst + c.headroom c.turnc.srv) →
      ∃ packet, c.turncSend dst (payloadBuf room payload tail) = .ok (c.turnc.srv, packet) ∧
        relayRead c.turnc.proto c.bound packet.left = some (dst, payload)
  refused : ∀ dst room payload tail, room.length < c.headroom dst →
    c.turncSend dst (payloadBuf room payload tail) = .error .EINVAL
  helped : ∀ dst room payload tail, c.Fits dst payload.length → c.headroom dst ≤ room.length →
    ∃ packet, c.udpSendHandler dst (payloadBuf room payload tail) = (none, c.turnc.srv, packet) ∧
      relayRead .udp c.bound packet.left = some (dst, payload)
  direct : ∀ dst room payload tail, room.length < c.headroom dst →
    c.udpSendHandler dst (payloadBuf room payload tail) = (none, dst, payloadBuf room payload tail)
  received : ∀ bytes peer handed, c.turncRecv bytes = .handedOn peer handed → HandedOn c bytes peer handed
  helperReceived : ∀ src bytes peer handed, c.udpRecvHandler src bytes = .handedOn peer handed →
    (c.turnc.srv.cmp src .all = true ∨ c.turnc.psrv.cmp src .all = true) ∧ HandedOn c bytes peer handed

theorem turncSend_relayed (inv : Inv c) (fits : c.Fits dst payload.length) (enough : c.headroom dst ≤ room.length)
    (once : c.turnc.proto = .udp → room.length < c.headroom dst + c.headroom c.turnc.srv) :
    ∃ packet, c.turncSend dst (payloadBuf room payload tail) = .ok (c.turnc.srv, packet) ∧
      relayRead c.turnc.proto c.bound packet.left = some (dst, payload) := by
  rcases @turncPacket_framed c dst room payload tail enough fits.1 with ⟨packet, made, bytes, pos⟩
  have read := @relayRead_framed c dst payload c.turnc.proto inv fits
  rw [← bytes] at read
  unfold turncSend
  rw [made]
  dsimp only
  cases proto : c.turnc.proto with
  | tcp =>
    rw [proto] at read
    exact ⟨packet, rfl, read⟩
  | udp =>
    rw [proto] at read
    have short : packet.pos < c.headroom c.turnc.srv := by
      have less := once proto
      omega
    dsimp only
    rw [udpSendHandler_short short]
    exact ⟨packet, rfl, read⟩

theorem Inv.relays (inv : Inv c) : Relays c where
  sent _ _ _ _ fits enough once := turncSend_relayed inv fits enough once
  refused dst room payload tail short := by
    unfold turncSend
    rw [turncPacket_short (show (payloadBuf room payload tail).pos < c.headroom dst from short)]
  helped dst room payload tail fits enough := by
    rcases @udpSendHandler_framed c dst room payload tail enough fits.1 with ⟨packet, made, bytes⟩
    exact ⟨packet, made, by rw [bytes]; exact relayRead_framed inv fits⟩
  direct _ _ _ _ short := udpSendHandler_short short
  received _ _ _ handed := turncRecv_handed handed
  helperReceived src bytes peer payload handed := by
    unfold udpRecvHandler at handed
    split_ifs at handed with other
    constructor
    · by_contra neither
      simp only [not_or, Bool.not_eq_true] at neither
      exact other neither
    · exact turncRecv_handed handed

/-- A relay recovers what is sent to it, and what it sends is handed on, in every state that a client's channels can
    be in. -/
theorem client_relays (md5 : List Byte → List Byte) (turnc : Turnc) (actions : List ChanAction) :
    Relays (actions.foldl (step md5) (alloc turnc)) :=
  (throughout_of_invariant (Inv.step md5) (Inv.alloc turnc)).last.relays

/-- Without room before it a payload goes to the peer itself. -/
theorem sent_past_relay : ¬ ∀ room payload tail dst packet,
    (alloc client).udpSendHandler Channels.peer (payloadBuf room payload tail) = (none, dst, packet) →
      dst = client.srv := by
  intro all
  have same := all [] [1#8, 2#8, 3#8] [] Channels.peer (payloadBuf [] [1#8, 2#8, 3#8] []) rfl
  exact absurd same (by decide)

end Channels

end Baresip.Turn
