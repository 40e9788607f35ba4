import Baresip.Stun.Encoded
import Baresip.Turn.Framing

set_option linter.dupNamespace false

namespace Baresip.Turn

open Re Stun Library

/-- The value of an address attribute of a Send indication. -/
def peerBytes (dst : Sa) : List Byte := ((addrBytes dst (some sendindTid)).getD []).flatten

def zeros (n : Nat) : List Byte := List.replicate (padding n) 0

/-- The attributes of a Send indication. -/
def indicationBody (dst : Sa) (payload : List Byte) : List Byte :=
  attrBytes StunAttrib.XOR_PEER_ADDR.code (peerBytes dst) ++
    (attrBytes StunAttrib.DATA.code payload ++ zeros payload.length)

def indicationHdr (dst : Sa) (payload : List Byte) : StunHdr where
  type := stunType STUN_METHOD_SEND STUN_CLASS_INDICATION
  len := .ofNat 16 (indicationBody dst payload).length
  cookie := STUN_MAGIC_COOKIE
  tid := sendindTid

def indicationBytes (dst : Sa) (payload : List Byte) : List Byte :=
  (hdrWrites (indicationHdr dst payload)).flatten ++ indicationBody dst payload

section
variable {dst : Sa} {front gap payload rest tail : List Byte} {p : Nat}

theorem peer_format : formatOf StunAttrib.XOR_PEER_ADDR.code = some (.addr true) := by
  rw [formatOf, StunAttrib.ofCode_code]
  rfl

theorem data_format : formatOf StunAttrib.DATA.code = some .data := by
  rw [formatOf, StunAttrib.ofCode_code]
  rfl

@[simp] theorem zeros_length (n : Nat) : (zeros n).length = padding n := List.length_replicate

theorem zeros_flatten (n : Nat) : (List.replicate (padding n) [(0 : Byte)]).flatten = zeros n := by
  unfold zeros
  induction padding n with
  | zero => rfl
  | succ n ih =>
    rw [List.replicate_succ, List.replicate_succ, List.flatten_cons, ih]
    rfl

theorem peerBytes_length (known : dst ≠ .unspec) : 28 + (peerBytes dst).length = stunIndlen dst := by
  cases dst with
  | unspec => contradiction
  | inet addr port => simp [peerBytes, addrBytes, stunIndlen]
  | inet6 addr port => simp [peerBytes, addrBytes, stunIndlen]

theorem peerBytes_aligned (dst : Sa) : (peerBytes dst).length % 4 = 0 := by
  cases dst with
  | unspec => rfl
  | inet addr port => simp [peerBytes, addrBytes]
  | inet6 addr port => simp [peerBytes, addrBytes]

theorem peer_value (known : dst ≠ .unspec) : ∃ writes,
    valueBytes sendindTid (formatOf StunAttrib.XOR_PEER_ADDR.code) (.sa dst) = some writes ∧
      writes.flatten = peerBytes dst := by
  rw [peer_format]
  cases dst with
  | unspec => contradiction
  | inet addr port => exact ⟨_, rfl, rfl⟩
  | inet6 addr port => exact ⟨_, rfl, rfl⟩

theorem xorPort_twice (port : BitVec 16) (tid : BitVec 96) : xorPort (xorPort port (some tid)) (some tid) = port := by
  simp only [xorPort, BitVec.xor_assoc, BitVec.xor_self, BitVec.xor_zero]

theorem xorIn_twice (addr : BitVec 32) (tid : BitVec 96) : xorIn (xorIn addr (some tid)) (some tid) = addr := by
  simp only [xorIn, BitVec.xor_assoc, BitVec.xor_self, BitVec.xor_zero]

theorem xorIn6_twice (addr : BitVec 128) (tid : BitVec 96) : xorIn6 (xorIn6 addr (some tid)) (some tid) = addr := by
  simp only [xorIn6, in6XorTid, BitVec.xor_assoc, BitVec.xor_self, BitVec.xor_zero]

/-- The parts of an address that is written with the given family. -/
theorem address_parts {kind : Byte} {port addr : List Byte} (two : port.length = 2) :
    family (0#8 :: kind :: (port ++ (addr ++ rest))) = kind.toNat ∧
      ((0#8 :: kind :: (port ++ (addr ++ rest))).drop 2).take 2 = port ∧
      ((0#8 :: kind :: (port ++ (addr ++ rest))).drop 4).take addr.length = addr ∧
      (0#8 :: kind :: (port ++ (addr ++ rest))).drop (4 + addr.length) = rest := by
  have behind : (0#8 :: kind :: (port ++ (addr ++ rest))).drop 2 = port ++ (addr ++ rest) := rfl
  have four : (0#8 :: kind :: (port ++ (addr ++ rest))).drop 4 = addr ++ rest := by
    have further : (4 : Nat) = 2 + port.length := by rw [two]
    rw [further, ← List.drop_drop, behind, List.drop_left]
  refine ⟨?_, ?_, ?_, ?_⟩
  · have second : (0#8 :: kind :: (port ++ (addr ++ rest))).drop 1 = [kind] ++ (port ++ (addr ++ rest)) := rfl
    unfold family
    rw [second, readBe_append (show [kind].length = 1 from rfl)]
    simp [getBe]
  · rw [behind, ← two, List.take_left]
  · rw [four, List.take_left]
  · rw [← List.drop_drop, four, List.drop_left]

theorem put_get {w n : Nat} (bits : w = 8 * n) (v : BitVec w) : BitVec.ofNat w (getBe (putBe n v.toNat)) = v := by
  rw [getBe_toNat bits, BitVec.ofNat_toNat, BitVec.setWidth_eq]

/-- The address that is written is the one that is read. -/
theorem addrDecode_peer (known : dst ≠ .unspec) : addrDecode (some sendindTid) (peerBytes dst ++ rest) = .ok (dst, rest) := by
  cases dst with
  | unspec => exact absurd rfl known
  | inet addr port =>
    have bytes : peerBytes (.inet addr port) ++ rest = 0#8 :: 1#8 ::
        (putBe 2 (xorPort port (some sendindTid)).toNat ++ (putBe 4 (xorIn addr (some sendindTid)).toNat ++ rest)) := by
      simp [peerBytes, addrBytes, Sa.port]
    rcases @address_parts rest 1#8 _ (putBe 4 (xorIn addr (some sendindTid)).toNat)
      (putBe_length 2 (xorPort port (some sendindTid)).toNat) with ⟨kind, second, third, behind⟩
    rw [putBe_length] at third behind
    rw [bytes, addrDecode_inet kind (by simp; omega), third, second, behind, @put_get 32 4 rfl,
      @put_get 16 2 rfl, xorPort_twice,
      xorIn_twice]
  | inet6 addr port =>
    have bytes : peerBytes (.inet6 addr port) ++ rest = 0#8 :: 2#8 ::
        (putBe 2 (xorPort port (some sendindTid)).toNat ++ (putBe 16 (xorIn6 addr (some sendindTid)).toNat ++ rest)) := by
      simp [peerBytes, addrBytes, Sa.port]
    rcases @address_parts rest 2#8 _ (putBe 16 (xorIn6 addr (some sendindTid)).toNat)
      (putBe_length 2 (xorPort port (some sendindTid)).toNat) with ⟨kind, second, third, behind⟩
    rw [putBe_length] at third behind
    rw [bytes, addrDecode_inet6 kind (by simp; omega), third, second, behind, @put_get 128 16 rfl,
      @put_get 16 2 rfl, xorPort_twice,
      xorIn6_twice]

/-- The data that is in the buffer gets its header and its padding where it is. -/
theorem dataEncode_inPlace (place : p = front.length) (four : gap.length = 4) (payload tail : List Byte) : ∃ tail',
    dataEncode ⟨front ++ (gap ++ (payload ++ tail)), p, p + 4 + payload.length⟩ 0 =
      ⟨front ++ (attrBytes StunAttrib.DATA.code payload ++ (zeros payload.length ++ tail')),
        p + 4 + payload.length + padding payload.length, p + 4 + payload.length + padding payload.length⟩ := by
  have length : p + 4 + payload.length - (p + 4) = payload.length := Nat.add_sub_cancel_left _ _
  have header : writeAll (⟨front ++ (gap ++ (payload ++ tail)), p, p + 4 + payload.length⟩ : Mbuf)
      [putBe 2 StunAttrib.DATA.code.toNat, putBe 2 payload.length] =
        ⟨front ++ (attrBytes StunAttrib.DATA.code payload ++ tail), p + 4, p + 4 + payload.length⟩ := by
    rw [writeAll_over place (by simp [four]) (by simp)]
    simp [attrBytes]
  have whole : front ++ (attrBytes StunAttrib.DATA.code payload ++ tail) =
      front ++ attrBytes StunAttrib.DATA.code payload ++ tail := (List.append_assoc _ _ _).symm
  have ends : p + 4 + payload.length = (front ++ attrBytes StunAttrib.DATA.code payload).length := by
    rw [List.length_append, attrBytes_length, place, Nat.add_assoc]
  rcases writeAll_end (List.replicate (padding payload.length) [0]) ends tail with ⟨tail', written⟩
  refine ⟨tail', ?_⟩
  unfold dataEncode
  simp only [Mbuf.setPos, Mbuf.advance, length, Nat.add_sub_cancel, header, whole]
  rw [written, zeros_flatten, zeros_length, List.append_assoc]

theorem cut_at (n : Nat) {gap : List Byte} {m : Nat} (length : gap.length = n + m) :
    ∃ first second, gap = first ++ second ∧ first.length = n ∧ second.length = m := by
  refine ⟨gap.take n, gap.drop n, (List.take_append_drop n gap).symm, ?_, ?_⟩
  · rw [List.length_take]
    omega
  · rw [List.length_drop]
    omega

theorem indicationBody_length (dst : Sa) (payload : List Byte) :
    (indicationBody dst payload).length = 8 + (peerBytes dst).length + rounded payload.length := by
  simp only [indicationBody, List.length_append, attrBytes_length, zeros_length, rounded]
  omega

/-- A Send indication is made around the payload, in the room before it and behind it. -/
theorem sendIndication_inPlace (known : dst ≠ .unspec) (place : p = front.length) (room : gap.length = stunIndlen dst)
    (payload tail : List Byte) :
    (sendIndication ⟨front ++ (gap ++ (payload ++ tail)), p, p + gap.length + payload.length⟩ dst).1 = none ∧
      ((sendIndication ⟨front ++ (gap ++ (payload ++ tail)), p, p + gap.length + payload.length⟩ dst).2.setPos p).left =
        indicationBytes dst payload := by
  have peer := peerBytes_length known
  rcases peer_value known with ⟨writes, value, flat⟩
  rcases cut_at 20 (show gap.length = 20 + (8 + (peerBytes dst).length) by omega) with ⟨g0, others, rfl, twenty, length⟩
  rcases cut_at (4 + (peerBytes dst).length) (show others.length = 4 + (peerBytes dst).length + 4 by omega) with
    ⟨g1, g2, rfl, middle, last⟩
  have atPeer : p + 20 = (front ++ g0).length := by rw [List.length_append, twenty, place]
  have atData : p + 20 + (4 + (peerBytes dst).length) =
      (front ++ g0 ++ attrBytes StunAttrib.XOR_PEER_ADDR.code (peerBytes dst)).length := by
    rw [List.length_append, attrBytes_length, atPeer]
  have ends : p + (g0 ++ (g1 ++ g2)).length + payload.length = p + 20 + (4 + (peerBytes dst).length) + 4 + payload.length := by
    rw [List.length_append, List.length_append]
    omega
  have peerEncoded : attrEncode sendindTid
      ⟨front ++ (g0 ++ (g1 ++ g2) ++ (payload ++ tail)), p + 20, p + 20 + (4 + (peerBytes dst).length) + 4 + payload.length⟩
      StunAttrib.XOR_PEER_ADDR.code (.sa dst) 0 =
        (false, ⟨front ++ g0 ++ attrBytes StunAttrib.XOR_PEER_ADDR.code (peerBytes dst) ++ (g2 ++ (payload ++ tail)),
          p + 20 + (4 + (peerBytes dst).length), p + 20 + (4 + (peerBytes dst).length) + 4 + payload.length⟩) := by
    have split : front ++ (g0 ++ (g1 ++ g2) ++ (payload ++ tail)) = (front ++ g0) ++ (g1 ++ (g2 ++ (payload ++ tail))) := by
      simp only [List.append_assoc]
    rw [split, attrEncode_over value (by rw [flat]; exact peerBytes_aligned dst) atPeer (by rw [flat]; exact middle)
      (by omega), flat]
    simp only [List.append_assoc]
  rcases dataEncode_inPlace atData last payload tail with ⟨tail', dataEncoded⟩
  have body : front ++ g0 ++ attrBytes StunAttrib.XOR_PEER_ADDR.code (peerBytes dst) ++
      (attrBytes StunAttrib.DATA.code payload ++ (zeros payload.length ++ tail')) =
        front ++ (g0 ++ (indicationBody dst payload ++ tail')) := by
    simp only [indicationBody, List.append_assoc]
  have total : p + 20 + (4 + (peerBytes dst).length) + 4 + payload.length + padding payload.length =
      p + 20 + (indicationBody dst payload).length := by
    rw [indicationBody_length, rounded]
    omega
  have len : p + 20 + (indicationBody dst payload).length - p - STUN_HEADER_SIZE = (indicationBody dst payload).length := by
    unfold STUN_HEADER_SIZE
    omega
  have header : hdrEncode ⟨front ++ (g0 ++ (indicationBody dst payload ++ tail')), p,
      p + 20 + (indicationBody dst payload).length⟩ (indicationHdr dst payload) =
        ⟨front ++ ((hdrWrites (indicationHdr dst payload)).flatten ++ (indicationBody dst payload ++ tail')), p + 20,
          p + 20 + (indicationBody dst payload).length⟩ := by
    unfold hdrEncode
    rw [writeAll_over place (by simp [hdrWrites, twenty]) (by simp [hdrWrites])]
    simp [hdrWrites]
  have encoded : sendIndication
      ⟨front ++ (g0 ++ (g1 ++ g2) ++ (payload ++ tail)), p, p + (g0 ++ (g1 ++ g2)).length + payload.length⟩ dst =
        (none, ⟨front ++ ((hdrWrites (indicationHdr dst payload)).flatten ++ (indicationBody dst payload ++ tail')),
          p + 20 + (indicationHdr dst payload).len.toNat, p + 20 + (indicationBody dst payload).length⟩) := by
    unfold sendIndication
    simp only [Mbuf.advance, STUN_HEADER_SIZE, ends, peerEncoded, dataEncoded, body, total, Mbuf.setPos]
    simp only [STUN_HEADER_SIZE] at len
    simp only [len]
    have same : (⟨stunType STUN_METHOD_SEND STUN_CLASS_INDICATION, .ofNat 16 (indicationBody dst payload).length,
      STUN_MAGIC_COOKIE, sendindTid⟩ : StunHdr) = indicationHdr dst payload := rfl
    rw [same, header]
    rfl
  rw [encoded]
  refine ⟨rfl, ?_⟩
  have twenty' : (hdrWrites (indicationHdr dst payload)).flatten.length = 20 := by simp [hdrWrites]
  have width : p + 20 + (indicationBody dst payload).length - p =
      ((hdrWrites (indicationHdr dst payload)).flatten ++ indicationBody dst payload).length := by
    rw [List.length_append, twenty']
    omega
  unfold Mbuf.left Mbuf.setPos Mbuf.getLeft indicationBytes
  dsimp only
  rw [place, List.drop_left, ← place, width, ← List.append_assoc, List.take_left]

end

end Baresip.Turn
