import Baresip.Avcodec.State

set_option linter.dupNamespace false

namespace Baresip.Avcodec

open Re Video

def h264NalSps : BitVec 5 := 7
def h264NalPps : BitVec 5 := 8
def h264NalFuA : BitVec 5 := 28

structure H264Hdr where
  f : BitVec 1
  nri : BitVec 2
  type : BitVec 5
  deriving DecidableEq, Repr

structure Fu where
  s : BitVec 1
  e : BitVec 1
  r : BitVec 1
  type : BitVec 5
  deriving DecidableEq, Repr

def H264Hdr.byte (hdr : H264Hdr) : Byte :=
  hdr.f.setWidth 8 <<< 7 ||| hdr.nri.setWidth 8 <<< 5 ||| hdr.type.setWidth 8 <<< 0

def H264Hdr.ofByte (v : Byte) : H264Hdr :=
  ⟨(v >>> 7).extractLsb' 0 1, (v >>> 5).extractLsb' 0 2, (v >>> 0).extractLsb' 0 5⟩

def Fu.ofByte (v : Byte) : Fu :=
  ⟨(v >>> 7).extractLsb' 0 1, (v >>> 6).extractLsb' 0 1, (v >>> 5).extractLsb' 0 1,
    (v >>> 0).extractLsb' 0 5⟩

def h264HdrEncode (hdr : H264Hdr) (mb : Mbuf) : Mbuf := mb.writeU8 hdr.byte

def byteHdrDecode {α : Type} (ofByte : Byte → α) (mb : Mbuf) : Except Errno (α × Mbuf) :=
  if mb.getLeft < 1 then .error .ENOENT
  else
    let (v, mb) := mb.readU8
    .ok (ofByte v, mb)

def h264HdrDecode (mb : Mbuf) : Except Errno (H264Hdr × Mbuf) := byteHdrDecode H264Hdr.ofByte mb
def fuHdrDecode (mb : Mbuf) : Except Errno (Fu × Mbuf) := byteHdrDecode Fu.ofByte mb

def nalSeq : List Byte := [0, 0, 1]

variable {ω : Type}

def VidcodecSt.beginNal (st : VidcodecSt ω) (hdr : H264Hdr) : VidcodecSt ω :=
  { st with decMb := h264HdrEncode hdr (st.decMb.writeMem nalSeq) }

def h264Decode (st : VidcodecSt ω) (src : Mbuf) : Option Errno × VidcodecSt ω × Mbuf :=
  match h264HdrDecode src with
  | .error err => (some err, st, src)
  | .ok (hdr, src) =>
    if hdr.f ≠ 0 then (some .EBADMSG, st, src)
    else if 1 ≤ hdr.type ∧ hdr.type ≤ 23 then
      let st := st.noteKeyframe (hdr.type = h264NalPps || hdr.type = h264NalSps)
      (none, st.beginNal hdr, src)
    else if h264NalFuA = hdr.type then
      match fuHdrDecode src with
      | .error err => (some err, st, src)
      | .ok (fu, src) =>
        let hdr := { hdr with type := fu.type }
        (none, if fu.s ≠ 0 then st.beginNal hdr else st, src)
    else (some .EBADMSG, st, src)

/-- What `h264_decode` writes to the reassembly buffer and how much of the payload it consumes, or
    nothing where it returns an error. -/
def h264Prefix : List Byte → Option (List Byte × List Byte)
  | [] => none
  | v :: rest =>
    let hdr := H264Hdr.ofByte v
    if hdr.f ≠ 0 then none
    else if 1 ≤ hdr.type ∧ hdr.type ≤ 23 then some (nalSeq ++ [hdr.byte], rest)
    else if h264NalFuA = hdr.type then
      match rest with
      | [] => none
      | w :: data =>
        let fu := Fu.ofByte w
        some (if fu.s ≠ 0 then nalSeq ++ [{ hdr with type := fu.type }.byte] else [], data)
    else none

def h264Body (payload : List Byte) : Option (List Byte) :=
  (h264Prefix payload).map fun (written, rest) => written ++ rest

theorem hdrByte_ofByte (v : Byte) : (H264Hdr.ofByte v).byte = v := by
  revert v
  decide

theorem byteHdrDecode_eq {α : Type} (ofByte : Byte → α) (src : Mbuf)
    (inside : src.endPos ≤ src.buf.length) :
    byteHdrDecode ofByte src =
      match src.left with
      | [] => .error .ENOENT
      | v :: _ => .ok (ofByte v, src.advance 1) := by
  have length := Mbuf.left_length inside
  unfold byteHdrDecode Mbuf.readU8
  cases read : src.left with
  | nil =>
    rw [read] at length
    rw [if_pos (by rw [← length]; simp)]
  | cons v rest =>
    rw [read] at length
    rw [if_neg (by rw [← length]; simp)]

theorem h264HdrDecode_eq (src : Mbuf) (inside : src.endPos ≤ src.buf.length) :
    h264HdrDecode src =
      match src.left with
      | [] => .error .ENOENT
      | v :: _ => .ok (.ofByte v, src.advance 1) := byteHdrDecode_eq _ src inside

theorem fuHdrDecode_eq (src : Mbuf) (inside : src.endPos ≤ src.buf.length) :
    fuHdrDecode src =
      match src.left with
      | [] => .error .ENOENT
      | v :: _ => .ok (.ofByte v, src.advance 1) := byteHdrDecode_eq _ src inside

theorem beginNal_holds {st : VidcodecSt ω} {held : List Byte} (holds : st.decMb.Holds 0 held)
    (hdr : H264Hdr) : (st.beginNal hdr).decMb.Holds 0 (held ++ (nalSeq ++ [hdr.byte])) := by
  have written := (holds.write nalSeq).write [hdr.byte]
  rw [List.append_assoc] at written
  exact written

theorem noteKeyframe_gotKeyframe {st : VidcodecSt ω} (key : st.gotKeyframe = true) (seen : Bool) :
    (st.noteKeyframe seen).gotKeyframe = true := by
  unfold VidcodecSt.noteKeyframe
  split
  · rfl
  · exact key

theorem h264Decode_gotKeyframe {st : VidcodecSt ω} (key : st.gotKeyframe = true) (src : Mbuf) :
    (h264Decode st src).2.1.gotKeyframe = true := by
  unfold h264Decode
  cases h264HdrDecode src with
  | error err => exact key
  | ok decoded =>
    obtain ⟨hdr, rest⟩ := decoded
    simp only
    split_ifs
    · exact key
    · exact noteKeyframe_gotKeyframe key _
    · cases fuHdrDecode rest with
      | error err => exact key
      | ok fu =>
        simp only
        split_ifs <;> exact key
    · exact key

theorem h264Decode_refused (st : VidcodecSt ω) (src : Unread) (refused : h264Prefix src.bytes = none) :
    (h264Decode st src.mb).1.isSome = true ∧ (h264Decode st src.mb).2.1 = st := by
  obtain ⟨src, _, inside⟩ := src
  simp only [Unread.bytes] at refused ⊢
  unfold h264Decode
  rw [h264HdrDecode_eq src inside]
  cases read : src.left with
  | nil => exact ⟨rfl, rfl⟩
  | cons v rest =>
    rw [read] at refused
    unfold h264Prefix at refused
    simp only at refused ⊢
    split_ifs at refused ⊢ with forbidden single fragment
    · exact ⟨rfl, rfl⟩
    · rw [fuHdrDecode_eq (src.advance 1) inside, Mbuf.advance_left, read, List.drop_one,
        List.tail_cons]
      cases rest with
      | nil => exact ⟨rfl, rfl⟩
      | cons w data => contradiction
    · exact ⟨rfl, rfl⟩

theorem h264Decode_accepted (st : VidcodecSt ω) (src : Unread) {written rest held : List Byte}
    (accepted : h264Prefix src.bytes = some (written, rest)) (holds : st.decMb.Holds 0 held) :
    (h264Decode st src.mb).1 = none ∧ (h264Decode st src.mb).2.1.decMb.Holds 0 (held ++ written) ∧
      (h264Decode st src.mb).2.2.left = rest := by
  obtain ⟨src, _, inside⟩ := src
  simp only [Unread.bytes] at accepted ⊢
  unfold h264Decode
  rw [h264HdrDecode_eq src inside]
  cases read : src.left with
  | nil =>
    rw [read] at accepted
    contradiction
  | cons v tail =>
    have consumed : (src.advance 1).left = tail := by
      rw [Mbuf.advance_left, read, List.drop_one, List.tail_cons]
    rw [read] at accepted
    unfold h264Prefix at accepted
    simp only at accepted ⊢
    split_ifs at accepted ⊢ with forbidden single fragment
    · cases accepted
      refine ⟨rfl, beginNal_holds ?_ _, consumed⟩
      rw [noteKeyframe_decMb]
      exact holds
    · rw [fuHdrDecode_eq (src.advance 1) inside, consumed]
      cases tail with
      | nil => contradiction
      | cons w data =>
        have twice : ((src.advance 1).advance 1).left = data := by
          rw [Mbuf.advance_left, consumed, List.drop_one, List.tail_cons]
        cases accepted
        refine ⟨rfl, ?_, twice⟩
        by_cases starts : (Fu.ofByte w).s ≠ 0
        · simp only [starts, ne_eq, not_false_eq_true, ite_true]
          exact beginNal_holds holds _
        · simp only [starts, ite_false, List.append_nil]
          exact holds

theorem h264Body_cons_none_iff (v : Byte) (rest : List Byte) :
    h264Body (v :: rest) = none ↔ (H264Hdr.ofByte v).f ≠ 0 ∨
      ¬ (1 ≤ (H264Hdr.ofByte v).type ∧ (H264Hdr.ofByte v).type ≤ 23) ∧
        (h264NalFuA = (H264Hdr.ofByte v).type → rest = []) := by
  unfold h264Body h264Prefix
  rw [Option.map_eq_none_iff]
  simp only
  split_ifs with forbidden single fragment
  · exact iff_of_true rfl (.inl forbidden)
  · refine iff_of_false (by simp) ?_
    rintro (set | ⟨other, -⟩)
    · exact forbidden set
    · exact other single
  · cases rest with
    | nil => exact iff_of_true rfl (.inr ⟨single, fun _ => rfl⟩)
    | cons w data =>
      refine iff_of_false (by simp) ?_
      rintro (set | ⟨-, empty⟩)
      · exact forbidden set
      · exact absurd (empty fragment) (List.cons_ne_nil w data)
  · exact iff_of_true rfl (.inr ⟨single, fun same => absurd same fragment⟩)

/-- The header byte of a NAL unit that is sent as it is: forbidden bit 0 and a type from 1 to 23. -/
def SingleNal (hdr : Byte) : Prop :=
  (H264Hdr.ofByte hdr).f = 0 ∧ 1 ≤ (H264Hdr.ofByte hdr).type ∧ (H264Hdr.ofByte hdr).type ≤ 23

instance (hdr : Byte) : Decidable (SingleNal hdr) := inferInstanceAs (Decidable (_ ∧ _ ∧ _))

def fuIndicator (hdr : Byte) : Byte := (hdr &&& 0x60) ||| h264NalFuA.setWidth 8

def fuHeader (hdr : Byte) (start end_ : Bool) : Byte :=
  (if start then 0x80 else 0) ||| (if end_ then 0x40 else 0) ||| (hdr &&& 0x1f)

theorem h264Body_single {hdr : Byte} (single : SingleNal hdr) (data : List Byte) :
    h264Body (hdr :: data) = some (nalSeq ++ hdr :: data) := by
  obtain ⟨allowed, type⟩ := single
  simp only [h264Body, h264Prefix, hdrByte_ofByte, allowed, type, ne_eq, not_true_eq_false, ite_false,
    and_self, ite_true, Option.map_some, List.append_assoc, List.singleton_append]

theorem fuHeaders_decode (hdr : Byte) (start end_ : Bool) (single : SingleNal hdr) :
    (H264Hdr.ofByte (fuIndicator hdr)).f = 0 ∧ (H264Hdr.ofByte (fuIndicator hdr)).type = h264NalFuA ∧
      ((Fu.ofByte (fuHeader hdr start end_)).s ≠ 0 ↔ start = true) ∧
      H264Hdr.byte ⟨0, (H264Hdr.ofByte (fuIndicator hdr)).nri,
        (Fu.ofByte (fuHeader hdr start end_)).type⟩ = hdr := by
  revert hdr start end_
  decide +kernel

theorem h264Body_fragment {hdr : Byte} (single : SingleNal hdr) (start end_ : Bool) (data : List Byte) :
    h264Body (fuIndicator hdr :: fuHeader hdr start end_ :: data) =
      some ((if start then nalSeq ++ [hdr] else []) ++ data) := by
  obtain ⟨allowed, type, starts, same⟩ := fuHeaders_decode hdr start end_ single
  have other : ¬ (1 ≤ h264NalFuA ∧ h264NalFuA ≤ 23) := by decide
  simp only [h264Body, h264Prefix, allowed, type, other, starts, same, ne_eq, not_true_eq_false,
    ite_false, ite_true, Option.map_some]

end Baresip.Avcodec
