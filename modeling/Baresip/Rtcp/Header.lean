import Baresip.Re.Jbuf
import Baresip.Rtcp.Elements

set_option linter.dupNamespace false

namespace Baresip.Re

/-- `ntohs(mbuf_read_u16(mb))`, which is 0 when fewer than two bytes are left. -/
def Mbuf.readNtohs (mb : Mbuf) : BitVec 16 × Mbuf :=
  match mb.left with
  | a :: b :: _ => (a ++ b, mb.advance 2)
  | _ => (0, mb)

end Baresip.Re

namespace Baresip.Rtcp

open Re Library

def RTP_HEADER_SIZE : Nat := 12

def flag (b : Bool) : Byte := (BitVec.ofBool b).setWidth 8

def hdrBuf0 (hdr : RtpHeader) : Byte :=
  (hdr.ver &&& 0x02) <<< 6 ||| (flag hdr.pad &&& 0x01) <<< 5 ||| (flag hdr.ext &&& 0x01) <<< 4 ||| (hdr.cc &&& 0x0f) <<< 0

def hdrBuf1 (hdr : RtpHeader) : Byte := (flag hdr.m &&& 0x01) <<< 7 ||| (hdr.pt &&& 0x7f) <<< 0

def rtpHdrEncode (mb : Mbuf) (hdr : RtpHeader) : Mbuf :=
  let mb := mb.writeMem [hdrBuf0 hdr, hdrBuf1 hdr]
  let mb := writeU16 mb hdr.seq
  let mb := writeU32 mb hdr.ts
  let mb := writeU32 mb hdr.ssrc
  (hdr.csrc.take hdr.cc.toNat).foldl writeU32 mb

/-- `n` contributing sources from the `i`-th on. -/
def csrcDecode : Nat → Nat → List (BitVec 32) → Mbuf → List (BitVec 32) × Mbuf
  | 0, _, csrc, mb => (csrc, mb)
  | n + 1, i, csrc, mb => csrcDecode n (i + 1) (csrc.set i mb.readNtohl.1) mb.readNtohl.2

/-- The extension is read up to its length, and what it carries is passed over. -/
def extDecode (hdr : RtpHeader) (mb : Mbuf) : Except Errno (RtpHeader × Mbuf) :=
  if mb.getLeft < 4 then .error .EBADMSG
  else
    let (type, mb) := mb.readNtohs
    let (len, mb) := mb.readNtohs
    if mb.getLeft < len.toNat * 4 then .error .EBADMSG
    else .ok ({ hdr with x := ⟨type, len⟩ }, mb.advance (len.toNat * 4))

def csrcsDecode (hdr : RtpHeader) (mb : Mbuf) : Except Errno (RtpHeader × Mbuf) :=
  if mb.getLeft < hdr.cc.toNat * 4 then .error .EBADMSG
  else
    let (csrc, mb) := csrcDecode hdr.cc.toNat 0 hdr.csrc mb
    .ok ({ hdr with csrc := csrc }, mb)

def fixedDecode (hdr : RtpHeader) (b0 b1 : Byte) (mb : Mbuf) : RtpHeader × Mbuf :=
  let (seq, mb) := mb.readNtohs
  let (ts, mb) := mb.readNtohl
  let (ssrc, mb) := mb.readNtohl
  ({ hdr with
      ver := (b0 >>> 6) &&& 0x03
      pad := (b0 >>> 5) &&& 0x01 != 0
      ext := (b0 >>> 4) &&& 0x01 != 0
      cc := (b0 >>> 0) &&& 0x0f
      m := (b1 >>> 7) &&& 0x01 != 0
      pt := (b1 >>> 0) &&& 0x7f
      seq := seq
      ts := ts
      ssrc := ssrc }, mb)

def rtpHdrDecode (hdr : RtpHeader) (mb : Mbuf) : Except Errno (RtpHeader × Mbuf) :=
  if mb.getLeft < RTP_HEADER_SIZE then .error .EBADMSG
  else do
    let (buf, mb) ← mb.readMem 2
    let (hdr, mb) := fixedDecode hdr (buf.getD 0 0) (buf.getD 1 0) mb
    let (hdr, mb) ← csrcsDecode hdr mb
    if hdr.ext then extDecode hdr mb else .ok (hdr, mb)

/-! What reading takes from the unread bytes. -/

section
variable {mb mb' : Mbuf} {hdr hdr' : RtpHeader} {rest : List Byte}

theorem toNat_snoc {w : Nat} (x : BitVec w) (b : Byte) : (x ++ b).toNat = x.toNat * 256 + b.toNat := by
  have shifted := Nat.shiftLeft_add_eq_or_of_lt b.isLt x.toNat
  rw [BitVec.toNat_append, ← shifted, Nat.shiftLeft_eq]

theorem readNtohs_left (v : BitVec 16) (left : mb.left = be16 v ++ rest) :
    mb.readNtohs = (v, mb.advance 2) ∧ (mb.advance 2).left = rest := by
  obtain ⟨a, b, bytes⟩ : ∃ a b, be16 v = [a, b] := ⟨_, _, rfl⟩
  have value : a ++ b = v := by
    have whole := getBe_toNat (n := 2) rfl v
    rw [show putBe 2 v.toNat = [a, b] from bytes] at whole
    apply BitVec.eq_of_toNat_eq
    rw [toNat_snoc, ← whole]
    simp [getBe]
  rw [bytes] at left
  refine ⟨?_, ?_⟩
  · rw [Mbuf.readNtohs, left]
    simp [value]
  · rw [Mbuf.advance_left, left]
    rfl

theorem readNtohl_left (v : BitVec 32) (left : mb.left = be32 v ++ rest) :
    mb.readNtohl = (v, mb.advance 4) ∧ (mb.advance 4).left = rest := by
  obtain ⟨a, b, c, d, bytes⟩ : ∃ a b c d, be32 v = [a, b, c, d] := ⟨_, _, _, _, rfl⟩
  have value : a ++ b ++ c ++ d = v := by
    have whole := getBe_toNat (n := 4) rfl v
    rw [show putBe 4 v.toNat = [a, b, c, d] from bytes] at whole
    apply BitVec.eq_of_toNat_eq
    rw [toNat_snoc, toNat_snoc, toNat_snoc, ← whole]
    simp [getBe]
  rw [bytes] at left
  refine ⟨?_, ?_⟩
  · rw [Mbuf.readNtohl, left]
    simp [value]
  · rw [Mbuf.advance_left, left]
    rfl

theorem readMem_left {data : List Byte} (left : mb.left = data ++ rest) :
    mb.readMem data.length = .ok (data, mb.advance data.length) ∧ (mb.advance data.length).left = rest := by
  have short : data.length ≤ mb.getLeft := by
    have length := congrArg List.length left
    rw [Mbuf.left, List.length_take, List.length_append] at length
    omega
  have taken : (mb.buf.drop mb.pos).take data.length = data := by
    have front := congrArg (List.take data.length) left
    rwa [Mbuf.left, List.take_take, Nat.min_eq_left short, List.take_left] at front
  refine ⟨?_, ?_⟩
  · rw [Mbuf.readMem, if_neg (Nat.not_lt.mpr short), taken]
  · rw [Mbuf.advance_left, left, List.drop_left]

theorem csrcDecode_left (words : List (BitVec 32)) {i : Nat} {csrc : List (BitVec 32)}
    (room : i + words.length ≤ csrc.length) (left : mb.left = words.flatMap be32 ++ rest) :
    csrcDecode words.length i csrc mb =
        (csrc.take i ++ words ++ csrc.drop (i + words.length), mb.advance (words.length * 4)) ∧
      (mb.advance (words.length * 4)).left = rest := by
  induction words generalizing i csrc mb with
  | nil =>
    refine ⟨?_, ?_⟩
    · simp [csrcDecode, Mbuf.advance]
    · simpa [Mbuf.advance] using left
  | cons word words ih =>
    rw [List.flatMap_cons, List.append_assoc] at left
    obtain ⟨read, behind⟩ := readNtohl_left word left
    have next : i + 1 + words.length ≤ (csrc.set i word).length := by
      rw [List.length_set, Nat.add_right_comm]
      exact room
    obtain ⟨decoded, last⟩ := ih next behind
    have inside : i < csrc.length := by
      rw [List.length_cons] at room
      omega
    have moved : (mb.advance 4).advance (words.length * 4) = mb.advance ((word :: words).length * 4) := by
      simp only [Mbuf.advance, List.length_cons]
      congr 1
      omega
    rw [moved] at decoded last
    refine ⟨?_, last⟩
    rw [List.length_cons, csrcDecode, read, decoded]
    have front : (csrc.set i word).take (i + 1) = csrc.take i ++ [word] := by
      rw [List.take_add_one, List.take_set_of_le (Nat.le_refl i), List.getElem?_set_self inside]
      rfl
    have back : (csrc.set i word).drop (i + 1 + words.length) = csrc.drop (i + (words.length + 1)) := by
      rw [List.drop_set_of_lt (by omega), Nat.add_right_comm, Nat.add_assoc]
    rw [front, back, List.append_assoc (csrc.take i)]
    rfl

end

/-! What the encoder writes, and what the decoder makes of it. -/

section
variable {hdr hdr₀ : RtpHeader} {mb : Mbuf} {rest : List Byte}

/-- A version 2 header whose fields fit into the bits that carry them. -/
structure WireRange (hdr : RtpHeader) : Prop where
  ver : hdr.ver = 2
  cc : hdr.cc.toNat ≤ 15
  pt : hdr.pt.toNat < 128
  csrc : hdr.csrc.length = 16

def rtpHdrBytes (hdr : RtpHeader) : List Byte :=
  [hdrBuf0 hdr, hdrBuf1 hdr] ++ (be16 hdr.seq ++ (be32 hdr.ts ++ (be32 hdr.ssrc ++
    (hdr.csrc.take hdr.cc.toNat).flatMap be32)))

theorem foldl_writeU32 (words : List (BitVec 32)) {front : List Byte} (written : mb.Written front) :
    (words.foldl writeU32 mb).Written (front ++ words.flatMap be32) := by
  induction words generalizing mb front with
  | nil => simpa using written
  | cons word words ih =>
    rw [List.foldl_cons, List.flatMap_cons, ← List.append_assoc]
    exact ih (written.write (be32 word))

theorem rtpHdrEncode_written {front : List Byte} (written : mb.Written front) (hdr : RtpHeader) :
    (rtpHdrEncode mb hdr).Written (front ++ rtpHdrBytes hdr) := by
  have fixed := (((written.write [hdrBuf0 hdr, hdrBuf1 hdr]).write (be16 hdr.seq)).write (be32 hdr.ts)).write (be32 hdr.ssrc)
  have whole := foldl_writeU32 (hdr.csrc.take hdr.cc.toNat) fixed
  simp only [List.append_assoc] at whole
  exact whole

theorem first_bits (pad ext : Bool) (cc : Byte) (small : cc.toNat ≤ 15) :
    let b := ((2 : Byte) &&& 0x02) <<< 6 ||| (flag pad &&& 0x01) <<< 5 ||| (flag ext &&& 0x01) <<< 4 ||| (cc &&& 0x0f) <<< 0
    (b >>> 6) &&& 0x03 = 2 ∧ ((b >>> 5) &&& 0x01 != 0) = pad ∧ ((b >>> 4) &&& 0x01 != 0) = ext ∧ (b >>> 0) &&& 0x0f = cc := by
  revert pad ext cc
  decide +kernel

theorem second_bits (m : Bool) (pt : Byte) (small : pt.toNat < 128) :
    let b := (flag m &&& 0x01) <<< 7 ||| (pt &&& 0x7f) <<< 0
    ((b >>> 7) &&& 0x01 != 0) = m ∧ (b >>> 0) &&& 0x7f = pt := by
  revert m pt
  decide +kernel

theorem hdrBuf0_bits (range : WireRange hdr) :
    (hdrBuf0 hdr >>> 6) &&& 0x03 = hdr.ver ∧ ((hdrBuf0 hdr >>> 5) &&& 0x01 != 0) = hdr.pad ∧
      ((hdrBuf0 hdr >>> 4) &&& 0x01 != 0) = hdr.ext ∧ (hdrBuf0 hdr >>> 0) &&& 0x0f = hdr.cc := by
  rw [hdrBuf0, range.ver]
  exact first_bits hdr.pad hdr.ext hdr.cc range.cc

def fixedPart (hdr hdr₀ : RtpHeader) : RtpHeader := { hdr with csrc := hdr₀.csrc, x := hdr₀.x }

/-- The header that comes out when there is no extension: what the wire does not carry stays as it was. -/
def received (hdr hdr₀ : RtpHeader) : RtpHeader :=
  { hdr with csrc := hdr.csrc.take hdr.cc.toNat ++ hdr₀.csrc.drop hdr.cc.toNat, x := hdr₀.x }

theorem getLeft_ge (front : List Byte) (left : mb.left = front ++ rest) : front.length ≤ mb.getLeft := by
  have length := congrArg List.length left
  rw [Mbuf.left, List.length_take, List.length_append] at length
  omega

theorem fixedDecode_left (range : WireRange hdr) (hdr₀ : RtpHeader)
    (left : mb.left = be16 hdr.seq ++ (be32 hdr.ts ++ (be32 hdr.ssrc ++ rest))) :
    fixedDecode hdr₀ (hdrBuf0 hdr) (hdrBuf1 hdr) mb = (fixedPart hdr hdr₀, mb.advance 10) ∧
      (mb.advance 10).left = rest := by
  obtain ⟨seq, left⟩ := readNtohs_left hdr.seq left
  obtain ⟨ts, left⟩ := readNtohl_left hdr.ts left
  obtain ⟨ssrc, left⟩ := readNtohl_left hdr.ssrc left
  obtain ⟨ver, pad, ext, cc⟩ := hdrBuf0_bits range
  obtain ⟨m, pt⟩ : ((hdrBuf1 hdr >>> 7) &&& 0x01 != 0) = hdr.m ∧ (hdrBuf1 hdr >>> 0) &&& 0x7f = hdr.pt :=
    second_bits hdr.m hdr.pt range.pt
  refine ⟨?_, left⟩
  rw [fixedDecode, seq]
  dsimp only
  rw [ts]
  dsimp only
  rw [ssrc, ver, pad, ext, cc, m, pt]
  rfl

theorem WireRange.sources (range : WireRange hdr) : (hdr.csrc.take hdr.cc.toNat).length = hdr.cc.toNat := by
  rw [List.length_take, range.csrc]
  exact Nat.min_eq_left (Nat.le_succ_of_le range.cc)

theorem rtpHdrBytes_length (range : WireRange hdr) : (rtpHdrBytes hdr).length = RTP_HEADER_SIZE + hdr.cc.toNat * 4 := by
  simp only [rtpHdrBytes, List.length_append, be16_length, be32_length, flatMap_be32_length, range.sources, RTP_HEADER_SIZE,
    List.length_cons, List.length_nil]
  omega

theorem csrcsDecode_left (range : WireRange hdr) (room : hdr₀.csrc.length = 16)
    (left : mb.left = (hdr.csrc.take hdr.cc.toNat).flatMap be32 ++ rest) :
    csrcsDecode (fixedPart hdr hdr₀) mb = .ok (received hdr hdr₀, mb.advance (hdr.cc.toNat * 4)) := by
  have enough := getLeft_ge _ left
  rw [flatMap_be32_length, range.sources] at enough
  have inside : 0 + (hdr.csrc.take hdr.cc.toNat).length ≤ hdr₀.csrc.length := by
    rw [range.sources, room, Nat.zero_add]
    exact Nat.le_succ_of_le range.cc
  obtain ⟨decoded, -⟩ := csrcDecode_left _ inside left
  rw [range.sources, Nat.zero_add] at decoded
  have size : ¬ mb.getLeft < (fixedPart hdr hdr₀).cc.toNat * 4 := Nat.not_lt.mpr enough
  rw [csrcsDecode, if_neg size]
  dsimp only [fixedPart]
  rw [decoded]
  rfl

theorem rtpHdrDecode_left (range : WireRange hdr) (room : hdr₀.csrc.length = 16) (left : mb.left = rtpHdrBytes hdr ++ rest) :
    rtpHdrDecode hdr₀ mb =
      if hdr.ext then extDecode (received hdr hdr₀) (mb.advance (rtpHdrBytes hdr).length)
      else .ok (received hdr hdr₀, mb.advance (rtpHdrBytes hdr).length) := by
  have size := rtpHdrBytes_length range
  have enough : ¬ mb.getLeft < RTP_HEADER_SIZE := by
    have whole := getLeft_ge _ left
    omega
  simp only [rtpHdrBytes, List.append_assoc] at left
  obtain ⟨read, left⟩ := readMem_left left
  obtain ⟨fixed, left⟩ := fixedDecode_left range hdr₀ left
  have sources := csrcsDecode_left range room left
  have moved : ((mb.advance 2).advance 10).advance (hdr.cc.toNat * 4) = mb.advance (rtpHdrBytes hdr).length := by
    simp only [size, RTP_HEADER_SIZE, Mbuf.advance, Mbuf.mk.injEq, true_and, and_true]
    omega
  rw [rtpHdrDecode, if_neg enough, show mb.readMem 2 = _ from read]
  have found : fixedDecode hdr₀ ([hdrBuf0 hdr, hdrBuf1 hdr].getD 0 0) ([hdrBuf0 hdr, hdrBuf1 hdr].getD 1 0)
      (mb.advance [hdrBuf0 hdr, hdrBuf1 hdr].length) = _ := fixed
  dsimp only [bind, Except.bind]
  rw [found]
  dsimp only
  rw [sources]
  dsimp only [List.length_cons, List.length_nil]
  rw [moved]
  rfl

/-- Behind the header there is nothing of the extension that its bit announces. -/
theorem extDecode_passes {hdr' : RtpHeader} {mb' : Mbuf} (inside : mb.endPos ≤ mb.buf.length)
    (decoded : extDecode hdr mb = .ok (hdr', mb')) : mb.pos < mb'.pos := by
  rw [extDecode] at decoded
  split at decoded
  · cases decoded
  next enough =>
    obtain ⟨a, b, rest, left⟩ : ∃ a b rest, mb.left = a :: b :: rest := by
      have length := mb.left_length inside
      match h : mb.left with
      | [] | [_] =>
        rw [h] at length
        simp at length
        omega
      | a :: b :: rest => exact ⟨a, b, rest, rfl⟩
    have first : mb.readNtohs = (a ++ b, mb.advance 2) := by rw [Mbuf.readNtohs, left]
    have second : mb.pos + 2 ≤ ((mb.advance 2).readNtohs).2.pos := by
      rw [Mbuf.readNtohs]
      split
      · exact Nat.le_add_right _ _
      · exact Nat.le_refl _
    rw [first] at decoded
    dsimp only at decoded
    split at decoded
    · cases decoded
    · cases decoded
      simp only [Mbuf.advance] at second ⊢
      omega

end

/-! A successful decoder stays in front of the end. -/

section
variable {hdr hdr' : RtpHeader} {mb mb' : Mbuf}

theorem readNtohs_ordered (ordered : mb.pos ≤ mb.endPos) : mb.readNtohs.2.pos ≤ mb.readNtohs.2.endPos := by
  rw [Mbuf.readNtohs]
  split
  next left =>
    have enough := getLeft_ge [_, _] left
    simp only [Mbuf.advance, Mbuf.getLeft, List.length_cons, List.length_nil] at enough ⊢
    omega
  · exact ordered

theorem readNtohl_ordered (ordered : mb.pos ≤ mb.endPos) : mb.readNtohl.2.pos ≤ mb.readNtohl.2.endPos := by
  rw [Mbuf.readNtohl]
  split
  next left =>
    have enough := getLeft_ge [_, _, _, _] left
    simp only [Mbuf.advance, Mbuf.getLeft, List.length_cons, List.length_nil] at enough ⊢
    omega
  · exact ordered

theorem csrcDecode_ordered (n i : Nat) (csrc : List (BitVec 32)) (ordered : mb.pos ≤ mb.endPos) :
    (csrcDecode n i csrc mb).2.pos ≤ (csrcDecode n i csrc mb).2.endPos := by
  induction n generalizing i csrc mb with
  | zero => exact ordered
  | succ n ih => exact ih _ _ (readNtohl_ordered ordered)

theorem csrcsDecode_ordered (ordered : mb.pos ≤ mb.endPos) (decoded : csrcsDecode hdr mb = .ok (hdr', mb')) :
    mb'.pos ≤ mb'.endPos := by
  rw [csrcsDecode] at decoded
  split at decoded
  · cases decoded
  · cases decoded
    exact csrcDecode_ordered _ _ _ ordered

theorem extDecode_ordered (ordered : mb.pos ≤ mb.endPos) (decoded : extDecode hdr mb = .ok (hdr', mb')) :
    mb'.pos ≤ mb'.endPos := by
  rw [extDecode] at decoded
  split at decoded
  · cases decoded
  · have read := readNtohs_ordered (readNtohs_ordered ordered)
    dsimp only at decoded
    split at decoded
    · cases decoded
    next enough =>
      cases decoded
      simp only [Mbuf.getLeft, Mbuf.advance] at enough ⊢
      omega

theorem rtpHdrDecode_ordered (decoded : rtpHdrDecode hdr mb = .ok (hdr', mb')) : mb'.pos ≤ mb'.endPos := by
  rw [rtpHdrDecode] at decoded
  split at decoded
  · cases decoded
  next enough =>
    rw [RTP_HEADER_SIZE] at enough
    have start : (mb.advance 2).pos ≤ (mb.advance 2).endPos := by
      simp only [Mbuf.getLeft, Mbuf.advance] at enough ⊢
      omega
    have short : ¬ 2 > mb.getLeft := by omega
    have fixed := readNtohl_ordered (readNtohl_ordered (readNtohs_ordered start))
    rw [Mbuf.readMem, if_neg short] at decoded
    dsimp only [bind, Except.bind] at decoded
    split at decoded
    · cases decoded
    next result sources =>
      have behind := csrcsDecode_ordered fixed sources
      split at decoded
      · exact extDecode_ordered behind decoded
      · cases decoded
        exact behind

end

/-! The two sides together. -/

section
variable {hdr hdr₀ : RtpHeader} {mb : Mbuf}

def carried (hdr : RtpHeader) : RtpHeader :=
  { hdr with csrc := hdr.csrc.take hdr.cc.toNat, x := if hdr.ext then hdr.x else ⟨0, 0⟩ }

/-- The buffer as the receiver gets it, with the position at the header. -/
def packetBuf (mb : Mbuf) (hdr : RtpHeader) (payload : List Byte) : Mbuf :=
  ((rtpHdrEncode mb hdr).writeMem payload).setPos mb.pos

def RoundTrips (mb : Mbuf) (hdr : RtpHeader) (payload : List Byte) (hdr₀ : RtpHeader) : Prop :=
  ∃ hdr' mb', rtpHdrDecode hdr₀ (packetBuf mb hdr payload) = .ok (hdr', mb') ∧ carried hdr' = carried hdr ∧
    mb'.pos = (rtpHdrEncode mb hdr).pos

theorem written_left {front data : List Byte} (written : mb.Written (front ++ data)) :
    ∃ extra, (mb.setPos front.length).left = data ++ extra := by
  refine ⟨(mb.buf.drop mb.pos).take (mb.endPos - mb.pos), ?_⟩
  have length := written.length
  have ended := written.ended
  rw [List.length_append] at length
  have split_ : mb.endPos - front.length = data.length + (mb.endPos - mb.pos) := by omega
  have first : (mb.buf.drop front.length).take data.length = data := by
    have content := congrArg (List.drop front.length) written.content
    rwa [List.drop_take, List.drop_left, length, Nat.add_sub_cancel_left] at content
  simp only [Mbuf.left, Mbuf.getLeft, Mbuf.setPos]
  rw [split_, List.take_add, first, List.drop_drop, length]

theorem packetBuf_left (ordered : mb.pos ≤ mb.endPos) (inside : mb.endPos ≤ mb.buf.length) (hdr : RtpHeader)
    (payload : List Byte) :
    ∃ extra, (packetBuf mb hdr payload).left = rtpHdrBytes hdr ++ (payload ++ extra) := by
  have start := Mbuf.written_take ordered inside
  have written := (rtpHdrEncode_written start hdr).write payload
  have position : (mb.buf.take mb.pos).length = mb.pos := start.length.symm
  rw [List.append_assoc] at written
  obtain ⟨extra, left⟩ := written_left written
  rw [position, List.append_assoc] at left
  exact ⟨extra, left⟩

theorem rtpHdrEncode_pos (ordered : mb.pos ≤ mb.endPos) (inside : mb.endPos ≤ mb.buf.length) (hdr : RtpHeader) :
    (rtpHdrEncode mb hdr).pos = mb.pos + (rtpHdrBytes hdr).length := by
  have start := Mbuf.written_take ordered inside
  rw [(rtpHdrEncode_written start hdr).length, List.length_append, ← start.length]

theorem packetBuf_inside (ordered : mb.pos ≤ mb.endPos) (inside : mb.endPos ≤ mb.buf.length) (hdr : RtpHeader)
    (payload : List Byte) : (packetBuf mb hdr payload).endPos ≤ (packetBuf mb hdr payload).buf.length :=
  ((rtpHdrEncode_written (Mbuf.written_take ordered inside) hdr).write payload).inside

theorem carried_received (range : WireRange hdr) (plain : hdr.ext = false) (hdr₀ : RtpHeader) :
    carried (received hdr hdr₀) = carried hdr := by
  have sources := range.sources
  have front : (hdr.csrc.take hdr.cc.toNat ++ hdr₀.csrc.drop hdr.cc.toNat).take hdr.cc.toNat = hdr.csrc.take hdr.cc.toNat :=
    List.take_left' sources
  simp only [carried, received, plain, front]
  rfl

theorem roundTrips_iff (range : WireRange hdr) (room : hdr₀.csrc.length = 16) (ordered : mb.pos ≤ mb.endPos)
    (inside : mb.endPos ≤ mb.buf.length) (payload : List Byte) : RoundTrips mb hdr payload hdr₀ ↔ hdr.ext = false := by
  obtain ⟨extra, left⟩ := packetBuf_left ordered inside hdr payload
  have decoded := rtpHdrDecode_left range room left
  have position := rtpHdrEncode_pos ordered inside hdr
  constructor
  · rintro ⟨hdr', mb', result, -, reached⟩
    by_contra set
    rw [Bool.not_eq_false] at set
    rw [set, if_pos rfl, result] at decoded
    have whole : ((packetBuf mb hdr payload).advance (rtpHdrBytes hdr).length).endPos ≤
        ((packetBuf mb hdr payload).advance (rtpHdrBytes hdr).length).buf.length := packetBuf_inside ordered inside hdr payload
    have passes := extDecode_passes whole decoded.symm
    rw [reached, position] at passes
    exact Nat.lt_irrefl _ passes
  · intro plain
    rw [plain] at decoded
    exact ⟨_, _, decoded, carried_received range plain hdr₀, position.symm⟩

theorem rtpHdr_decodes_encoded (range : WireRange hdr) (room : hdr₀.csrc.length = 16) (ordered : mb.pos ≤ mb.endPos)
    (inside : mb.endPos ≤ mb.buf.length) (payload : List Byte) :
    (RoundTrips mb hdr payload hdr₀ ↔ hdr.ext = false) ∧
      ∀ received hdr' mb', rtpHdrDecode hdr₀ received = .ok (hdr', mb') → mb'.pos ≤ mb'.endPos :=
  ⟨roundTrips_iff range room ordered inside payload, fun _ _ _ => rtpHdrDecode_ordered⟩

end

def voiced : RtpHeader := { RtpHeader.zero with ver := 2, pad := true, cc := 2, m := true, pt := 96, seq := 7, ssrc := 5 }

theorem wireRange_voiced : WireRange voiced := ⟨rfl, by decide, by decide, rfl⟩

theorem rtpHdr_decodes_encoded_voiced :
    (RoundTrips (.alloc 16) voiced [1, 2] .zero ↔ voiced.ext = false) ∧
      ∀ received hdr' mb', rtpHdrDecode .zero received = .ok (hdr', mb') → mb'.pos ≤ mb'.endPos :=
  rtpHdr_decodes_encoded wireRange_voiced rfl (Nat.le_refl _) (Nat.zero_le _) [1, 2]

def extended : RtpHeader := { RtpHeader.zero with ver := 2, ext := true }

/-- The payload is taken for the extension, which is far longer than what is left. -/
theorem extension_not_written : WireRange extended ∧ ¬ RoundTrips (.alloc 16) extended [1, 2, 3, 4] .zero := by
  refine ⟨⟨rfl, by decide, by decide, rfl⟩, ?_⟩
  rintro ⟨hdr', mb', decoded, -⟩
  have refused : rtpHdrDecode .zero (packetBuf (.alloc 16) extended [1, 2, 3, 4]) = .error .EBADMSG := by decide +kernel
  rw [refused] at decoded
  cases decoded

end Baresip.Rtcp
