import Baresip.Stun.Tiles

set_option linter.dupNamespace false

namespace Baresip.Stun

open Re Library

/-- The digests of the message are taken over its own bytes: no length wraps around or is past them. -/
structure DigestsInside (msg : StunMsg) : Prop where
  received : STUN_HEADER_SIZE + msg.hdr.len.toNat ≤ msg.bytes.length
  integrity (mi : (msg.attr .MSG_INTEGRITY).isSome) : msg.miLen + MI_SIZE = STUN_HEADER_SIZE + msg.miHdr.len.toNat ∧
    msg.miHdr.len.toNat + (if (msg.attr .FINGERPRINT).isSome then FP_SIZE else 0) = msg.hdr.len.toNat
  fingerprint (fp : (msg.attr .FINGERPRINT).isSome) : msg.fpLen + FP_SIZE = STUN_HEADER_SIZE + msg.hdr.len.toNat

section
variable {bytes left : List Byte} {hdr : StunHdr} {msg : StunMsg} {attrs : List Attr} {attrib : StunAttrib}

theorem low_bits (len : BitVec 16) (zero : len &&& 0x3 = 0) : len.toNat % 4 = 0 := by
  have bits : len.toNat &&& 3 = 0 := by
    have same := congrArg BitVec.toNat zero
    rwa [BitVec.toNat_and] at same
  rwa [show (3 : Nat) = 2 ^ 2 - 1 from rfl, Nat.and_two_pow_sub_one_eq_mod] at bits

/-- The header of a message, and the bytes behind it. -/
structure HdrDecoded (bytes : List Byte) (hdr : StunHdr) (left : List Byte) : Prop where
  enough : STUN_HEADER_SIZE ≤ bytes.length
  left_eq : left = bytes.drop STUN_HEADER_SIZE
  aligned : hdr.len.toNat % 4 = 0
  inside : hdr.len.toNat ≤ left.length

theorem hdrDecode_decoded (decoded : hdrDecode bytes = .ok (hdr, left)) : HdrDecoded bytes hdr left := by
  unfold hdrDecode at decoded
  split at decoded
  · cases decoded
  · rename_i enough
    have long : 20 ≤ bytes.length := Nat.not_lt.mp enough
    have h1 : 2 ≤ bytes.length := by omega
    have h2 : 2 ≤ (bytes.drop 2).length := by rw [List.length_drop]; omega
    have h3 : 4 ≤ (bytes.drop 4).length := by rw [List.length_drop]; omega
    have h4 : 12 ≤ (bytes.drop 8).length := by rw [List.length_drop]; omega
    rw [readBe_le h1] at decoded
    dsimp only at decoded
    split at decoded
    · cases decoded
    · rw [readBe_le h2] at decoded
      dsimp only at decoded
      split at decoded
      · cases decoded
      · rename_i zero
        rw [List.drop_drop, readBe_le h3] at decoded
        dsimp only at decoded
        rw [List.drop_drop, readBe_le h4] at decoded
        dsimp only at decoded
        rw [List.drop_drop] at decoded
        split at decoded
        · cases decoded
        · rename_i inside
          cases decoded
          exact ⟨long, rfl, low_bits _ (not_not.mp zero), Nat.not_lt.mp inside⟩

theorem attrsBody_inl {tid : BitVec 96} {extra : Nat} {s next : AttrsSt} (goes : attrsBody tid extra s = .inl next) :
    ∃ attr, attrDecode tid s.left = .ok (attr, next.left) := by
  unfold attrsBody at goes
  split at goes
  · split at goes
    · cases goes
    · rename_i attr rest result
      cases goes
      exact ⟨attr, result⟩
  · cases goes

theorem attrs_end (tid : BitVec 96) (extra : Nat) (s : AttrsSt) :
    ∃ r, loop (attrsBody tid extra) (s.left.length + 1) s = some r := by
  apply loop_of_rank fun s => s.left.length
  · intro s next goes
    obtain ⟨attr, result⟩ := attrsBody_inl goes
    exact (attrDecode_decoded result).shorter
  · exact Nat.lt_succ_self _

theorem msgDecode_isSome (bytes : List Byte) : (msgDecode bytes).isSome := by
  unfold msgDecode
  split
  · rfl
  · rename_i hdr left _
    obtain ⟨r, ends⟩ := attrs_end hdr.tid (left.length - hdr.len.toNat) ⟨left, [], []⟩
    rw [ends]
    rfl

theorem msgDecode_walked {ua : List (BitVec 16)} (fits : bytes.length < sizeValues)
    (decoded : msgDecode bytes = some (.ok (msg, ua))) :
    HdrDecoded bytes msg.hdr (bytes.drop STUN_HEADER_SIZE) ∧ msg.bytes = bytes ∧
      Walked msg.hdr.tid (bytes.length - STUN_HEADER_SIZE - msg.hdr.len.toNat) (bytes.drop STUN_HEADER_SIZE)
        ((bytes.drop STUN_HEADER_SIZE).take msg.hdr.len.toNat) msg.attrl := by
  unfold msgDecode at decoded
  split at decoded
  · cases decoded
  · rename_i hdr left result
    have header := hdrDecode_decoded result
    obtain rfl := header.left_eq
    obtain ⟨r, ends, results⟩ := Option.map_eq_some_iff.mp decoded
    split at results
    · cases results
    · cases results
      have enough := header.enough
      have inside := header.inside
      have aligned := header.aligned
      rw [List.length_drop] at inside
      have short : (bytes.drop STUN_HEADER_SIZE).length + 4 ≤ sizeValues := by
        rw [List.length_drop]
        unfold STUN_HEADER_SIZE at *
        omega
      have whole : ((bytes.drop STUN_HEADER_SIZE).take hdr.len.toNat).length % 4 = 0 := by
        rw [List.length_take, List.length_drop, Nat.min_eq_left inside]
        exact aligned
      obtain ⟨attrs, attrl, walked⟩ :=
        loop_walked (s := ⟨bytes.drop STUN_HEADER_SIZE, [], []⟩)
          (List.take_append_drop hdr.len.toNat (bytes.drop STUN_HEADER_SIZE)).symm List.length_drop whole short ends
      rw [List.length_drop] at walked
      rw [List.nil_append] at attrl
      exact ⟨header, rfl, attrl ▸ walked⟩

theorem trailerSize_attr {attr : Attr} (found : msg.attr attrib = some attr) :
    attr ∈ msg.attrl ∧ attr.type = attrib.code :=
  ⟨List.mem_of_find?_eq_some found, by simpa using List.find?_some found⟩

theorem trailer_le {attr : Attr} (mem : attr ∈ attrs) : trailerSize attr ≤ trailersSize attrs := by
  induction attrs with
  | nil => cases mem
  | cons first attrs ih =>
    unfold trailersSize
    rcases List.mem_cons.mp mem with rfl | mem
    · exact Nat.le_add_right _ _
    · exact Nat.le_trans (ih mem) (Nat.le_add_left _ _)

theorem trailers_le {attr other : Attr} (mem : attr ∈ attrs) (mem' : other ∈ attrs) (differ : attr ≠ other) :
    trailerSize attr + trailerSize other ≤ trailersSize attrs := by
  induction attrs with
  | nil => cases mem
  | cons first attrs ih =>
    unfold trailersSize
    rcases List.mem_cons.mp mem with rfl | later
    · rcases List.mem_cons.mp mem' with rfl | later'
      · exact absurd rfl differ
      · exact Nat.add_le_add_left (trailer_le later') _
    · rcases List.mem_cons.mp mem' with rfl | later'
      · rw [Nat.add_comm]
        exact Nat.add_le_add_left (trailer_le later) _
      · exact Nat.le_trans (ih later later') (Nat.le_add_left _ _)

theorem wraps_less {n len m : Nat} (fits : len ≤ n) (small : n < m) : (n + m - len) % m + len = n := by
  rw [wraps_back fits small]
  omega

theorem digestsInside (received : STUN_HEADER_SIZE + msg.hdr.len.toNat ≤ msg.bytes.length)
    (trailers : trailersSize msg.attrl ≤ msg.hdr.len.toNat) : DigestsInside msg where
  received := received
  integrity mi := by
    obtain ⟨mi, found⟩ := Option.isSome_iff_exists.mp mi
    obtain ⟨mem, type⟩ := trailerSize_attr found
    have size : trailerSize mi = MI_SIZE := by rw [trailerSize, if_pos type]
    have bound := msg.hdr.len.isLt
    unfold StunMsg.miLen StunMsg.miHdr
    by_cases fp : (msg.attr .FINGERPRINT).isSome
    · rw [if_pos fp, if_pos fp]
      obtain ⟨fp, found'⟩ := Option.isSome_iff_exists.mp fp
      obtain ⟨mem', type'⟩ := trailerSize_attr found'
      have size' : trailerSize fp = FP_SIZE := by
        unfold trailerSize
        rw [type']
        rfl
      have differ : mi ≠ fp := by
        rintro rfl
        rw [type] at type'
        cases type'
      have both := Nat.le_trans (trailers_le mem mem' differ) trailers
      rw [size, size'] at both
      have less : (msg.hdr.len - .ofNat 16 FP_SIZE).toNat = msg.hdr.len.toNat - FP_SIZE := by
        apply BitVec.toNat_sub_of_le
        show FP_SIZE ≤ msg.hdr.len.toNat
        omega
      dsimp only
      rw [less]
      unfold MI_SIZE FP_SIZE STUN_HEADER_SIZE at *
      refine ⟨wraps_less (by omega) (Nat.lt_of_lt_of_le (show _ < 65556 by omega) (by decide)), by omega⟩
    · rw [if_neg fp, if_neg fp]
      have one := Nat.le_trans (trailer_le mem) trailers
      rw [size] at one
      unfold MI_SIZE STUN_HEADER_SIZE at *
      exact ⟨wraps_less (by omega) (Nat.lt_of_lt_of_le (show _ < 65556 by omega) (by decide)), rfl⟩
  fingerprint fp := by
    obtain ⟨fp, found⟩ := Option.isSome_iff_exists.mp fp
    obtain ⟨mem, type⟩ := trailerSize_attr found
    have size : trailerSize fp = FP_SIZE := by
      unfold trailerSize
      rw [type]
      rfl
    have bound := msg.hdr.len.isLt
    have one := Nat.le_trans (trailer_le mem) trailers
    rw [size] at one
    unfold StunMsg.fpLen FP_SIZE STUN_HEADER_SIZE at *
    exact wraps_less (by omega) (Nat.lt_of_lt_of_le (show _ < 65556 by omega) (by decide))

/-- What is to hold of a message that has been decoded from the bytes. -/
structure Framed (bytes : List Byte) (msg : StunMsg) : Prop where
  tiles : Tiles msg.hdr.tid (bytes.length - STUN_HEADER_SIZE - msg.hdr.len.toNat) (bytes.drop STUN_HEADER_SIZE)
    msg.attrl
  digests : DigestsInside msg

/-- Every item of the body, as its header gives its length, has a length that the decoder takes. -/
def BodyFits (bytes : List Byte) (len : Nat) : Prop :=
  LengthsFit len ((bytes.drop STUN_HEADER_SIZE).take len)

end

/-- A binding request with a priority. -/
def priorityRequest : List Byte :=
  [0x00, 0x01, 0x00, 0x08, 0x21, 0x12, 0xa4, 0x42, 0, 0, 0, 0, 0, 0, 0, 0, 0, 0, 0, 1,
    0x00, 0x24, 0x00, 0x04, 0x6e, 0x00, 0x01, 0xff]

def priorityMsg : StunMsg :=
  ⟨⟨1, 8, STUN_MAGIC_COOKIE, 1⟩, [⟨StunAttrib.PRIORITY.code, .uint32 0x6e0001ff⟩], priorityRequest⟩

theorem priorityRequest_decoded : msgDecode priorityRequest = some (.ok (priorityMsg, [])) := by rfl

/-- The address has a length of 4, and is read over the header of the attribute behind it. -/
def shortAddress : List Byte :=
  [0x01, 0x01, 0x00, 0x10, 0x21, 0x12, 0xa4, 0x42, 0, 0, 0, 0, 0, 0, 0, 0, 0, 0, 0, 1,
    0x00, 0x01, 0x00, 0x04, 0x00, 0x01, 0x12, 0x34, 0x00, 0x24, 0x00, 0x04, 0x00, 0x1a, 0x00, 0x00]

def shortAddressMsg : StunMsg where
  hdr := ⟨0x101, 16, STUN_MAGIC_COOKIE, 1⟩
  attrl := [⟨StunAttrib.MAPPED_ADDR.code, .sa (.inet 0x00240004 0x1234)⟩, ⟨StunAttrib.DONT_FRAGMENT.code, .empty⟩]
  bytes := shortAddress

end Baresip.Stun
