import Baresip.Rtcp.Widths

set_option linter.dupNamespace false

namespace Baresip.Rtcp

open Re Library Decoder

variable {mb next : Mbuf} {left bytes : List Byte} {hdr : RtcpHdr} {w : Nat} {r : RtcpBody} {msg : RtcpMsg} {msgs : List RtcpMsg}

/-- A received datagram, which is unread. -/
structure Datagram extends Unread where
  small : mb.getLeft < 2 ^ 16

def header (left : List Byte) : Option RtcpHdr :=
  match rtcpHdrDecode left with
  | .ok (hdr, _) => some hdr
  | .error _ => none

/-- The packet in front has its header, its length and all of its fields in what is left of the datagram. The fields take
    `w` bytes. -/
structure Whole (left : List Byte) (hdr : RtcpHdr) (w : Nat) : Prop where
  header : header left = some hdr
  version : hdr.version = RTCP_VERSION
  length : 4 * hdr.length.toNat ≤ (left.drop RTCP_HDR_SIZE).length
  fields : fieldsWidth hdr (left.drop RTCP_HDR_SIZE) = some w
  enough : w ≤ (left.drop RTCP_HDR_SIZE).length

/-- How many bytes a packet has, as its header says. -/
def RtcpHdr.size (hdr : RtcpHdr) : Nat := RTCP_HDR_SIZE + 4 * hdr.length.toNat

/-- From one packet to the next, as its header says where it ends. -/
def Skips (left behind : List Byte) : Prop := ∃ hdr w, Whole left hdr w ∧ behind = left.drop hdr.size

/-- From packet to packet the fields with their padding end where the packet does. -/
def LengthsAgree (bytes : List Byte) : Prop :=
  ∀ left, Relation.ReflTransGen Skips bytes left → ∀ hdr w, Whole left hdr w → pad4 w = 4 * hdr.length.toNat

/-- The packet in front is whole, and its fields are within it. -/
def Fits (left : List Byte) : Prop := ∃ hdr w, Whole left hdr w ∧ w ≤ 4 * hdr.length.toNat

/-- The first `n` of the bytes that are left. -/
def cut (mb : Mbuf) (n : Nat) : Mbuf := { mb with endPos := mb.pos + n }

/-- A packet that has been decoded from its own bytes. The number of entries of a feedback packet, which is its length
    less 2, has not wrapped. -/
structure Contained (mb : Mbuf) (msg : RtcpMsg) (next : Mbuf) : Prop where
  advances : next = mb.advance msg.hdr.size
  own : rtcpDecode (cut mb msg.hdr.size) = .ok (msg, (cut mb msg.hdr.size).advance msg.hdr.size)
  unwrapped : RtcpType.ofCode msg.hdr.pt = some .RTPFB ∨ RtcpType.ofCode msg.hdr.pt = some .PSFB → 2 ≤ msg.hdr.length.toNat

/-- The bytes of a packet and nothing else are the message. -/
def Decodes (packet : List Byte) (msg : RtcpMsg) : Prop :=
  packet.length = msg.hdr.size ∧ packetDecode packet = .ok (msg, [])

/-- Every message of the loop is from the bytes of its packet, what does not fit is refused, and the messages that are
    handed on are those of the packets in their order, up to the first that does not fit. -/
structure SplitExactly (d : Mbuf) : Prop where
  contained : ∀ mb msgs msg next, Reaches rtcpRecv (d, []) (mb, msgs) → rtcpDecode mb = .ok (msg, next) →
    Contained mb msg next
  refused : ∀ mb msgs, Reaches rtcpRecv (d, []) (mb, msgs) → ¬ Fits mb.left → ∃ e, rtcpDecode mb = .error e
  inOrder : ∃ msgs packets rest, Returns rtcpRecv (d, []) msgs ∧ d.left = packets.flatten ++ rest ∧
    List.Forall₂ Decodes packets msgs ∧ ¬ Fits rest

theorem hdrDecode_ok (header : header left = some hdr) :
    rtcpHdrDecode left = .ok (hdr, left.drop RTCP_HDR_SIZE) ∧ RTCP_HDR_SIZE ≤ left.length ∧
      rtcpHdrDecode.Reads (left.take RTCP_HDR_SIZE) hdr := by
  cases rtcpHdrDecode_sized.measured left with
  | fails e short result =>
    unfold Rtcp.header at header
    rw [result] at header
    cases header
  | takes w h is enough result own =>
    obtain rfl := Option.some.inj is
    unfold Rtcp.header at header
    rw [result] at header
    obtain rfl := Option.some.inj header
    rcases rtcpHdrDecode_sized.full.run enough with ⟨h', reads, result'⟩
    obtain rfl : h = h' := congrArg Prod.fst (Except.ok.inj (result.symm.trans result'))
    exact ⟨result, enough, reads⟩

theorem pad4_header (w : Nat) : pad4 (RTCP_HDR_SIZE + w) = RTCP_HDR_SIZE + pad4 w := by
  unfold pad4 RTCP_HDR_SIZE
  omega

theorem packetDecode_ok (header : rtcpHdrDecode left = .ok (hdr, left.drop RTCP_HDR_SIZE)) (some_ : RTCP_HDR_SIZE ≤ left.length)
    (version : hdr.version = RTCP_VERSION) (length : 4 * hdr.length.toNat ≤ (left.drop RTCP_HDR_SIZE).length)
    (enough : w ≤ (left.drop RTCP_HDR_SIZE).length)
    (body : bodyDecode hdr (left.drop RTCP_HDR_SIZE) = .ok (r, (left.drop RTCP_HDR_SIZE).drop w)) :
    packetDecode left = .ok (⟨hdr, r⟩, left.drop (min (RTCP_HDR_SIZE + pad4 w) left.length)) := by
  unfold packetDecode
  rw [bind_ok (need_ok (Nat.not_lt.mpr some_)), ← pad4_header]
  rw [List.length_drop] at enough
  apply padded_ok _ (by omega)
  rw [bind_ok header, if_neg (not_not.mpr version), bind_ok (need_ok (Nat.not_lt.mpr length)), bind_ok body, List.drop_drop]
  rfl

theorem packetDecode_error (small : left.length < 2 ^ 16) (partly : ∀ hdr w, ¬ Whole left hdr w) :
    ∃ e, packetDecode left = .error e := by
  unfold packetDecode
  by_cases some_ : left.length < RTCP_HDR_SIZE
  · exact ⟨_, bind_error (need_error some_)⟩
  · rcases rtcpHdrDecode_sized.full.run (Nat.not_lt.mp some_) with ⟨hdr, _, result⟩
    have is : header left = some hdr := by
      unfold header
      rw [result]
    rw [bind_ok (need_ok some_)]
    suffices ∃ e, (do
        let hdr ← rtcpHdrDecode
        if hdr.version ≠ RTCP_VERSION then fail .EBADMSG
        else
          need (4 * hdr.length.toNat) .EBADMSG
          let r ← bodyDecode hdr
          return (⟨hdr, r⟩ : RtcpMsg)) left = .error e from this.imp fun _ => padded_error
    rw [bind_ok result]
    by_cases version : hdr.version = RTCP_VERSION
    · rw [if_neg (not_not.mpr version)]
      by_cases length : (left.drop RTCP_HDR_SIZE).length < 4 * hdr.length.toNat
      · exact ⟨_, bind_error (need_error length)⟩
      · rw [bind_ok (need_ok length)]
        have less : (left.drop RTCP_HDR_SIZE).length < 2 ^ 32 - 8 := by
          rw [List.length_drop]
          omega
        cases bodyDecode_measured hdr (left.drop RTCP_HDR_SIZE) (Nat.not_lt.mp length) less with
        | fails e short failed => exact ⟨e, bind_error failed⟩
        | takes w r fields enough _ _ => exact absurd ⟨is, version, Nat.not_lt.mp length, fields, enough⟩ (partly hdr w)
    · rw [if_pos version]
      exact ⟨_, rfl⟩

/-- What becomes of a whole packet. -/
theorem Whole.decoded (whole : Whole left hdr w) (small : left.length < 2 ^ 16) :
    ∃ r, packetDecode left = .ok (⟨hdr, r⟩, left.drop (min (RTCP_HDR_SIZE + pad4 w) left.length)) ∧
      (pad4 w = 4 * hdr.length.toNat → packetDecode (left.take hdr.size) = .ok (⟨hdr, r⟩, [])) := by
  rcases hdrDecode_ok whole.header with ⟨first, some_, own⟩
  have less : (left.drop RTCP_HDR_SIZE).length < 2 ^ 32 - 8 := by
    rw [List.length_drop]
    omega
  have rest : (left.drop RTCP_HDR_SIZE).length = left.length - RTCP_HDR_SIZE := List.length_drop
  have length := whole.length
  have enough := whole.enough
  cases bodyDecode_measured hdr (left.drop RTCP_HDR_SIZE) whole.length less with
  | fails e short failed => exact absurd whole.enough (Nat.not_le.mpr (short w whole.fields))
  | takes w' r fields _ body reads =>
    obtain rfl : w = w' := Option.some.inj (whole.fields.symm.trans fields)
    refine ⟨r, packetDecode_ok first some_ whole.version whole.length whole.enough body, ?_⟩
    intro exact_
    have aligned : w ≤ pad4 w := by
      unfold pad4
      omega
    rcases reads with reads | all
    · have front : (left.take hdr.size).take RTCP_HDR_SIZE = left.take RTCP_HDR_SIZE := by
        rw [List.take_take, Nat.min_eq_left (by unfold RtcpHdr.size; omega)]
      have behind : (left.take hdr.size).drop RTCP_HDR_SIZE = (left.drop RTCP_HDR_SIZE).take (4 * hdr.length.toNat) := by
        rw [List.drop_take]
        congr 1
        unfold RtcpHdr.size
        omega
      have size : ((left.take hdr.size).drop RTCP_HDR_SIZE).length = 4 * hdr.length.toNat := by
        rw [behind, List.length_take]
        omega
      have whole_ : (left.take hdr.size).length = hdr.size := by
        rw [List.length_take]
        unfold RtcpHdr.size
        omega
      have header_ : rtcpHdrDecode (left.take hdr.size) = .ok (hdr, (left.take hdr.size).drop RTCP_HDR_SIZE) := by
        have here := own ((left.take hdr.size).drop RTCP_HDR_SIZE)
        rw [← front, List.take_append_drop] at here
        exact here
      have body_ : bodyDecode hdr ((left.take hdr.size).drop RTCP_HDR_SIZE) =
          .ok (r, ((left.take hdr.size).drop RTCP_HDR_SIZE).drop w) := by
        have here := reads (((left.take hdr.size).drop RTCP_HDR_SIZE).drop w)
        have same : (left.drop RTCP_HDR_SIZE).take w = ((left.take hdr.size).drop RTCP_HDR_SIZE).take w := by
          rw [behind, List.take_take, Nat.min_eq_left (by omega)]
        rw [same, List.take_append_drop] at here
        exact here
      have decoded := packetDecode_ok header_ (by rw [whole_]; exact Nat.le_add_right _ _) whole.version
        (Nat.le_of_eq size.symm) (by omega) body_
      rw [whole_, exact_, show RTCP_HDR_SIZE + 4 * hdr.length.toNat = hdr.size from rfl, Nat.min_self,
        List.drop_eq_nil_of_le (Nat.le_of_eq whole_)] at decoded
      exact decoded
    · have same : hdr.size = left.length := by
        unfold RtcpHdr.size
        omega
      have decoded := packetDecode_ok first some_ whole.version whole.length whole.enough body
      rw [exact_, show RTCP_HDR_SIZE + 4 * hdr.length.toNat = hdr.size from rfl, same, Nat.min_self,
        List.drop_length] at decoded
      rw [same, List.take_length]
      exact decoded

theorem Whole.feedback (whole : Whole left hdr w) (fits : w ≤ 4 * hdr.length.toNat)
    (type : RtcpType.ofCode hdr.pt = some .RTPFB ∨ RtcpType.ofCode hdr.pt = some .PSFB) : 2 ≤ hdr.length.toNat := by
  have fields := whole.fields
  unfold fieldsWidth at fields
  have least : RTCP_FB_SIZE ≤ w := by
    rcases type with type | type <;> rw [type] at fields <;> dsimp only at fields <;> split at fields
    · unfold fciWidth at fields
      split at fields
      · obtain rfl := Option.some.inj fields
        unfold RTCP_FB_SIZE
        omega
      · cases fields
    · exact Nat.le_of_eq (Option.some.inj fields)
    · unfold fciWidth at fields
      split at fields
      · obtain rfl := Option.some.inj fields
        unfold RTCP_FB_SIZE
        omega
      · cases fields
    · exact Nat.le_of_eq (Option.some.inj fields)
  unfold RTCP_FB_SIZE at least
  omega

/-- A buffer that is read in its order, inside its allocation, and has less than a datagram can have. -/
structure Reading (mb : Mbuf) : Prop where
  ordered : mb.pos ≤ mb.endPos
  inside : mb.endPos ≤ mb.buf.length
  small : mb.getLeft < 2 ^ 16

theorem Reading.length (reading : Reading mb) : mb.left.length = mb.getLeft := Mbuf.left_length reading.inside

theorem Reading.advance (reading : Reading mb) {n : Nat} (fits : n ≤ mb.left.length) : Reading (mb.advance n) := by
  have ordered := reading.ordered
  have small := reading.small
  rw [reading.length] at fits
  unfold Mbuf.getLeft at small fits
  refine ⟨?_, reading.inside, ?_⟩
  · show mb.pos + n ≤ mb.endPos
    omega
  · show mb.endPos - (mb.pos + n) < _
    omega

theorem cut_left {n : Nat} (reading : Reading mb) (fits : n ≤ mb.left.length) : (cut mb n).left = mb.left.take n := by
  rw [reading.length] at fits
  unfold Mbuf.getLeft at fits
  unfold Mbuf.left Mbuf.getLeft cut
  dsimp only
  rw [List.take_take, Nat.min_eq_left fits, Nat.add_sub_cancel_left]

theorem rtcpDecode_ok {k : Nat} (fits : k ≤ mb.left.length) (result : packetDecode mb.left = .ok (msg, mb.left.drop k)) :
    rtcpDecode mb = .ok (msg, mb.advance k) := by
  unfold rtcpDecode
  rw [result]
  dsimp only
  rw [List.length_drop, Nat.sub_sub_self fits]

theorem rtcpDecode_error {e : Errno} (result : packetDecode mb.left = .error e) : rtcpDecode mb = .error e := by
  unfold rtcpDecode
  rw [result]

/-- What the source does with a whole packet, wherever its fields end. -/
theorem Whole.advances (whole : Whole mb.left hdr w) (reading : Reading mb) :
    ∃ r, rtcpDecode mb = .ok (⟨hdr, r⟩, mb.advance (min (RTCP_HDR_SIZE + pad4 w) mb.left.length)) := by
  rcases whole.decoded (reading.length ▸ reading.small) with ⟨r, decoded, _⟩
  exact ⟨r, rtcpDecode_ok (Nat.min_le_right _ _) decoded⟩

theorem Whole.size_le (whole : Whole left hdr w) : hdr.size ≤ left.length := by
  have length := whole.length
  have some_ := (hdrDecode_ok whole.header).2.1
  rw [List.length_drop] at length
  unfold RtcpHdr.size
  omega

theorem decoded_whole (reading : Reading mb) (decoded : rtcpDecode mb = .ok (msg, next)) : ∃ w, Whole mb.left msg.hdr w := by
  by_cases partly : ∀ hdr w, ¬ Whole mb.left hdr w
  · rcases packetDecode_error (reading.length ▸ reading.small) partly with ⟨e, failed⟩
    rw [rtcpDecode_error failed] at decoded
    cases decoded
  · push Not at partly
    rcases partly with ⟨hdr, w, whole⟩
    rcases whole.advances reading with ⟨r, result⟩
    obtain rfl : (⟨hdr, r⟩ : RtcpMsg) = msg := congrArg Prod.fst (Except.ok.inj (result.symm.trans decoded))
    exact ⟨w, whole⟩

/-- Fields that end where the packet does are decoded from its own bytes. -/
theorem Whole.contained (whole : Whole mb.left msg.hdr w) (reading : Reading mb) (exact_ : pad4 w = 4 * msg.hdr.length.toNat)
    (decoded : rtcpDecode mb = .ok (msg, next)) : Contained mb msg next := by
  rcases whole.decoded (reading.length ▸ reading.small) with ⟨r, result, own⟩
  have own := own exact_
  have fits := whole.size_le
  rw [exact_, show RTCP_HDR_SIZE + 4 * msg.hdr.length.toNat = msg.hdr.size from rfl, Nat.min_eq_left fits] at result
  have same := (rtcpDecode_ok fits result).symm.trans decoded
  have is : (⟨msg.hdr, r⟩ : RtcpMsg) = msg := congrArg Prod.fst (Except.ok.inj same)
  rw [is] at own
  have cutLength : (cut mb msg.hdr.size).left.length = msg.hdr.size := by
    rw [cut_left reading fits, List.length_take, Nat.min_eq_left fits]
  refine ⟨(congrArg Prod.snd (Except.ok.inj same)).symm, ?_, ?_⟩
  · apply rtcpDecode_ok (Nat.le_of_eq cutLength.symm)
    rw [List.drop_eq_nil_of_le (Nat.le_of_eq cutLength), cut_left reading fits]
    exact own
  · apply whole.feedback
    unfold pad4 at exact_
    omega

/-- One that advances by its length has fields that end there. -/
theorem Whole.exact_of_advances (whole : Whole mb.left msg.hdr w) (reading : Reading mb)
    (decoded : rtcpDecode mb = .ok (msg, mb.advance msg.hdr.size)) : pad4 w = 4 * msg.hdr.length.toNat := by
  rcases whole.advances reading with ⟨r, result⟩
  have next := congrArg Prod.snd (Except.ok.inj (result.symm.trans decoded))
  have pos : mb.pos + min (RTCP_HDR_SIZE + pad4 w) mb.left.length = mb.pos + msg.hdr.size := congrArg Mbuf.pos next
  have enough := whole.enough
  rw [List.length_drop] at enough
  have some_ := (hdrDecode_ok whole.header).2.1
  unfold pad4 RtcpHdr.size at *
  omega

theorem Datagram.reading (d : Datagram) : Reading d.mb := ⟨d.ordered, d.inside, d.small⟩

/-- A turn of the loop that goes on. -/
theorem rtcpRecv_next (decoded : rtcpDecode mb = .ok (msg, next)) : rtcpRecv (mb, msgs) = .inl (next, msgs ++ [msg]) := by
  unfold rtcpRecv
  dsimp only
  rw [decoded]

theorem rtcpRecv_done {e : Errno} (refused : rtcpDecode mb = .error e) : rtcpRecv (mb, msgs) = .inr msgs := by
  unfold rtcpRecv
  dsimp only
  rw [refused]

/-- The positions at which the packets start are those of the loop. -/
theorem reaches_of_skips (d : Datagram)
    (contained : ∀ mb msgs msg next, Reaches rtcpRecv (d.mb, []) (mb, msgs) → rtcpDecode mb = .ok (msg, next) →
      Contained mb msg next) (skips : Relation.ReflTransGen Skips d.mb.left left) :
    ∃ mb msgs, Reaches rtcpRecv (d.mb, []) (mb, msgs) ∧ mb.left = left ∧ Reading mb := by
  induction skips with
  | refl => exact ⟨d.mb, [], .refl, rfl, d.reading⟩
  | tail _ step ih =>
    rcases ih with ⟨mb, msgs, reaches, rfl, reading⟩
    rcases step with ⟨hdr, w, whole, rfl⟩
    rcases whole.advances reading with ⟨r, decoded⟩
    have advances := (contained _ _ _ _ reaches decoded).advances
    rw [advances] at decoded
    exact ⟨mb.advance hdr.size, _, reaches.tail (rtcpRecv_next decoded), Mbuf.advance_left _ _,
      reading.advance whole.size_le⟩

theorem lengthsAgree_of_contained (d : Datagram)
    (contained : ∀ mb msgs msg next, Reaches rtcpRecv (d.mb, []) (mb, msgs) → rtcpDecode mb = .ok (msg, next) →
      Contained mb msg next) : LengthsAgree d.mb.left := by
  intro left skips hdr w whole
  rcases reaches_of_skips d contained skips with ⟨mb, msgs, reaches, rfl, reading⟩
  rcases whole.advances reading with ⟨r, decoded⟩
  have advances := (contained _ _ _ _ reaches decoded).advances
  rw [advances] at decoded
  have here : Whole mb.left (⟨hdr, r⟩ : RtcpMsg).hdr w := whole
  exact here.exact_of_advances reading decoded

/-- The loop is at the start of a packet. -/
structure AtPacket (bytes : List Byte) (s : Mbuf × List RtcpMsg) : Prop where
  reading : Reading s.1
  skips : Relation.ReflTransGen Skips bytes s.1.left

theorem AtPacket.contained {s : Mbuf × List RtcpMsg} (at_ : AtPacket bytes s) (agree : LengthsAgree bytes)
    (decoded : rtcpDecode s.1 = .ok (msg, next)) : Contained s.1 msg next ∧ ∃ w, Whole s.1.left msg.hdr w := by
  rcases decoded_whole at_.reading decoded with ⟨w, whole⟩
  exact ⟨whole.contained at_.reading (agree _ at_.skips _ _ whole) decoded, w, whole⟩

theorem AtPacket.after_ {s : Mbuf × List RtcpMsg} (at_ : AtPacket bytes s) (agree : LengthsAgree bytes)
    (decoded : rtcpDecode s.1 = .ok (msg, next)) (msgs : List RtcpMsg) : AtPacket bytes (next, msgs) := by
  rcases at_.contained agree decoded with ⟨contained, w, whole⟩
  rw [contained.advances]
  constructor
  · exact at_.reading.advance whole.size_le
  · apply at_.skips.tail
    exact ⟨msg.hdr, w, whole, Mbuf.advance_left _ _⟩

theorem AtPacket.reached {s t : Mbuf × List RtcpMsg} (at_ : AtPacket bytes s) (agree : LengthsAgree bytes)
    (reaches : Reaches rtcpRecv s t) : AtPacket bytes t := by
  induction reaches with
  | refl => exact at_
  | @tail s' t' _ step ih =>
    unfold rtcpRecv at step
    cases decoded : rtcpDecode s'.1 with
    | error e =>
      rw [decoded] at step
      cases step
    | ok result =>
      rw [decoded] at step
      obtain rfl := Sum.inl.inj step
      exact ih.after_ agree decoded _

theorem AtPacket.refused {s : Mbuf × List RtcpMsg} (at_ : AtPacket bytes s) (agree : LengthsAgree bytes)
    (outside : ¬ Fits s.1.left) : ∃ e, rtcpDecode s.1 = .error e := by
  cases decoded : rtcpDecode s.1 with
  | error e => exact ⟨e, rfl⟩
  | ok result =>
    rcases decoded_whole at_.reading decoded with ⟨w, whole⟩
    have exact_ := agree _ at_.skips _ _ whole
    apply absurd _ outside
    refine ⟨_, w, whole, ?_⟩
    unfold pad4 at exact_
    omega

theorem AtPacket.inOrder {s : Mbuf × List RtcpMsg} (at_ : AtPacket bytes s) (agree : LengthsAgree bytes) :
    ∃ msgs packets rest, Returns rtcpRecv s (s.2 ++ msgs) ∧ s.1.left = packets.flatten ++ rest ∧
      List.Forall₂ Decodes packets msgs ∧ ¬ Fits rest := by
  induction size : s.1.left.length using Nat.strong_induction_on generalizing s with
  | _ size ih =>
    subst size
    rcases s with ⟨mb, msgs⟩
    cases decoded : rtcpDecode mb with
    | error e =>
      refine ⟨[], [], mb.left, ?_, rfl, .nil, ?_⟩
      · rw [List.append_nil]
        exact .done (rtcpRecv_done decoded)
      · rintro ⟨hdr, w, whole, _⟩
        rcases whole.advances at_.reading with ⟨r, taken⟩
        rw [decoded] at taken
        cases taken
    | ok result =>
      rcases result with ⟨msg, next⟩
      rcases at_.contained agree decoded with ⟨contained, w, whole⟩
      have fits : msg.hdr.size ≤ mb.left.length := whole.size_le
      have behind : next.left = mb.left.drop msg.hdr.size := by
        rw [contained.advances, Mbuf.advance_left]
      have shorter : next.left.length < mb.left.length := by
        have four : 4 ≤ msg.hdr.size := Nat.le_add_right _ _
        rw [behind, List.length_drop]
        omega
      rcases ih _ shorter (at_.after_ agree decoded (msgs ++ [msg])) rfl with ⟨later, packets, rest, returns, flat, decodes, last⟩
      refine ⟨msg :: later, mb.left.take msg.hdr.size :: packets, rest, ?_, ?_, .cons ?_ decodes, last⟩
      · rw [List.append_assoc] at returns
        exact .step (rtcpRecv_next decoded) returns
      · rw [List.flatten_cons, List.append_assoc, ← flat]
        dsimp only
        rw [behind, List.take_append_drop]
      · have length : (mb.left.take msg.hdr.size).length = msg.hdr.size := by
          rw [List.length_take, Nat.min_eq_left fits]
        refine ⟨length, ?_⟩
        rcases whole.decoded (at_.reading.length ▸ at_.reading.small) with ⟨r, result, own⟩
        have same := (rtcpDecode_ok (Nat.min_le_right _ _) result).symm.trans decoded
        have is : (⟨msg.hdr, r⟩ : RtcpMsg) = msg := congrArg Prod.fst (Except.ok.inj same)
        have alone := own (agree _ at_.skips _ _ whole)
        rw [is] at alone
        exact alone

/-- A datagram is split into exactly its packets if and only if, from packet to packet, the fields end where the length
    says. -/
theorem splitExactly_iff (d : Datagram) : SplitExactly d.mb ↔ LengthsAgree d.mb.left := by
  constructor
  · intro split
    exact lengthsAgree_of_contained d split.contained
  · intro agree
    have start : AtPacket d.mb.left (d.mb, []) := ⟨d.reading, .refl⟩
    constructor
    · intro mb msgs msg next reaches decoded
      exact ((start.reached agree reaches).contained agree decoded).1
    · intro mb msgs reaches outside
      exact (start.reached agree reaches).refused agree outside
    · rcases start.inOrder agree with ⟨msgs, packets, rest, returns, flat, decodes, last⟩
      exact ⟨msgs, packets, rest, returns, flat, decodes, last⟩

/-- A feedback packet of a format that is not known, with an entry of four bytes, in front of a packet that says goodbye. -/
def unknownFormat : Datagram where
  toUnread := .ofBytes [0x83, 205, 0, 3, 0, 0, 0, 1, 0, 0, 0, 2, 0, 0, 0, 3, 0x81, 203, 0, 1, 0, 0, 0, 1]
  small := by decide

theorem entry_not_passed : ¬ SplitExactly unknownFormat.mb := by
  intro split
  have decoded : rtcpDecode unknownFormat.mb =
      .ok (⟨⟨2, 0, 3, 205, 3⟩, .fb 1 2 1 .none⟩, unknownFormat.mb.advance 12) := rfl
  have advances := (split.contained _ _ _ _ .refl decoded).advances
  exact absurd (congrArg Mbuf.pos advances) (by decide)

end Baresip.Rtcp
