import Baresip.Avcodec.State

set_option linter.dupNamespace false

namespace Baresip.Avcodec

open Re Video Library

def h263HdrSizeModeA : Nat := 4

inductive H263Mode
  | modeA | modeB | modeC
  deriving DecidableEq, Repr

structure H263Hdr where
  f : BitVec 1
  p : BitVec 1
  sbit : BitVec 3
  ebit : BitVec 3
  src : BitVec 3
  i : BitVec 1
  u : BitVec 1
  s : BitVec 1
  a : BitVec 1
  r : BitVec 4
  dbq : BitVec 2
  trb : BitVec 3
  tr : BitVec 8
  deriving DecidableEq, Repr

structure H263Strm where
  psc : Byte × Byte
  tempRef : Byte
  splitScr : BitVec 1
  docCamera : BitVec 1
  picFrzRel : BitVec 1
  srcFmt : BitVec 3
  picType : BitVec 1
  umv : BitVec 1
  sac : BitVec 1
  apm : BitVec 1
  pb : BitVec 1
  pquant : BitVec 5
  cpm : BitVec 1
  pei : BitVec 1
  deriving DecidableEq, Repr

def iFrame : BitVec 1 := 0

def H263Hdr.word (hdr : H263Hdr) : BitVec 32 :=
  hdr.f.setWidth 32 <<< 31 ||| hdr.p.setWidth 32 <<< 30 ||| hdr.sbit.setWidth 32 <<< 27 |||
    hdr.ebit.setWidth 32 <<< 24 ||| hdr.src.setWidth 32 <<< 21 ||| hdr.i.setWidth 32 <<< 20 |||
    hdr.u.setWidth 32 <<< 19 ||| hdr.s.setWidth 32 <<< 18 ||| hdr.a.setWidth 32 <<< 17 |||
    hdr.r.setWidth 32 <<< 13 ||| hdr.dbq.setWidth 32 <<< 11 ||| hdr.trb.setWidth 32 <<< 8 |||
    hdr.tr.setWidth 32 <<< 0

def h263HdrEncode (hdr : H263Hdr) (mb : Mbuf) : Mbuf := mb.writeMem (Mbuf.htonl hdr.word)

/-- `hdr` is the caller's uninitialised header: a mode B or C payload leaves the fields after `src`
    as they were. -/
def h263HdrDecode (hdr : H263Hdr) (mb : Mbuf) : Option Errno × H263Hdr × Mbuf :=
  if mb.getLeft < h263HdrSizeModeA then (some .ENOENT, hdr, mb)
  else
    let (v, mb) := mb.readNtohl
    let common := { hdr with
      f := v.extractLsb' 31 1, p := v.extractLsb' 30 1, sbit := v.extractLsb' 27 3
      ebit := v.extractLsb' 24 3, src := v.extractLsb' 21 3 }
    let mode : H263Mode := if common.f = 0 then .modeA else if common.p = 0 then .modeB else .modeC
    match mode with
    | .modeA =>
      (none, { common with
        i := v.extractLsb' 20 1, u := v.extractLsb' 19 1, s := v.extractLsb' 18 1
        a := v.extractLsb' 17 1, r := v.extractLsb' 13 4, dbq := v.extractLsb' 11 2
        trb := v.extractLsb' 8 3, tr := v.extractLsb' 0 8 }, mb)
    | .modeB => (none, common, mb.readNtohl.2)
    | .modeC => (none, common, mb.readNtohl.2.readNtohl.2)

/-- The bit-stream header of a frame. The seventh byte is read whenever six are left, so `p` indexes
    the buffer's memory and not only what is left. -/
def h263StrmDecode (mb : Mbuf) : Except Errno H263Strm :=
  if mb.getLeft < 6 then .error .EINVAL
  else
    let p := fun i => mb.buf.getD (mb.pos + i) 0
    .ok {
      psc := (p 0, p 1)
      tempRef := (p 2 <<< 6 &&& 0xc0) ||| (p 3 >>> 2 &&& 0x3f)
      splitScr := (p 4).extractLsb' 7 1
      docCamera := (p 4).extractLsb' 6 1
      picFrzRel := (p 4).extractLsb' 5 1
      srcFmt := (p 4).extractLsb' 2 3
      picType := (p 4).extractLsb' 1 1
      umv := (p 4).extractLsb' 0 1
      sac := (p 5).extractLsb' 7 1
      apm := (p 5).extractLsb' 6 1
      pb := (p 5).extractLsb' 5 1
      pquant := (p 5).extractLsb' 0 5
      cpm := (p 6).extractLsb' 7 1
      pei := (p 6).extractLsb' 6 1 }

def h263HdrCopyStrm (s : H263Strm) : H263Hdr where
  f := 0
  p := 0
  sbit := 0
  ebit := 0
  src := s.srcFmt
  i := s.picType
  u := s.umv
  s := s.sac
  a := s.apm
  r := 0
  dbq := 0
  trb := 0
  tr := s.tempRef

variable {ω : Type}

def VidcodecSt.encodeHdr (st : VidcodecSt ω) (hdr : H263Hdr) : VidcodecSt ω :=
  { st with mbFrag := h263HdrEncode hdr (st.mbFrag.restart rtpPresz) }

def h263Packetize (st : VidcodecSt ω) (mb : Mbuf) : Packetized (VidcodecSt ω) :=
  match h263StrmDecode mb with
  | .error err => ⟨some err, st, []⟩
  | .ok strm =>
    let st := st.encodeHdr (h263HdrCopyStrm strm)
    packetizeLoop st.mbFrag.pos st mb

theorem encodeHdr_pos (st : VidcodecSt ω) (hdr : H263Hdr) :
    (st.encodeHdr hdr).mbFrag.pos = rtpPresz + h263HdrSizeModeA := rfl

theorem encodeHdr_delivers {st : VidcodecSt ω} (delivers : st.Delivers) (hdr : H263Hdr) :
    (st.encodeHdr hdr).Delivers := delivers

theorem h263StrmDecode_short {mb : Mbuf} (short : mb.getLeft < 6) :
    h263StrmDecode mb = .error .EINVAL := by
  unfold h263StrmDecode
  rw [if_pos short]

theorem h263StrmDecode_long {mb : Mbuf} (long : 6 ≤ mb.getLeft) :
    ∃ strm, h263StrmDecode mb = .ok strm := by
  unfold h263StrmDecode
  rw [if_neg (Nat.not_lt.mpr long)]
  exact ⟨_, rfl⟩

theorem h263Packetize_short (st : VidcodecSt ω) (mb : Mbuf) (short : mb.getLeft < 6) :
    h263Packetize st mb = ⟨some .EINVAL, st, []⟩ := by
  unfold h263Packetize
  rw [h263StrmDecode_short short]

theorem h263Packetize_long (st : VidcodecSt ω) (mb : Mbuf) (long : 6 ≤ mb.getLeft) :
    ∃ hdr, h263Packetize st mb = packetizeLoop (rtpPresz + h263HdrSizeModeA) (st.encodeHdr hdr) mb := by
  obtain ⟨strm, decoded⟩ := h263StrmDecode_long long
  refine ⟨h263HdrCopyStrm strm, ?_⟩
  unfold h263Packetize
  rw [decoded]
  simp only [encodeHdr_pos]

def skipWord (data : List Byte) : List Byte := if data.length < 4 then data else data.drop 4

/-- The bytes of a payload behind its header, or nothing where `h263_hdr_decode` returns an error. -/
def h263Body : List Byte → Option (List Byte)
  | a :: b :: c :: d :: rest =>
    let v : BitVec 32 := a ++ b ++ c ++ d
    if v.extractLsb' 31 1 = 0 then some rest
    else if v.extractLsb' 30 1 = 0 then some (skipWord rest)
    else some (skipWord (skipWord rest))
  | _ => none

theorem h263Body_none_iff (payload : List Byte) : h263Body payload = none ↔ payload.length < 4 := by
  rcases payload with _ | ⟨a, _ | ⟨b, _ | ⟨c, _ | ⟨d, rest⟩⟩⟩⟩
  case cons.cons.cons.cons =>
    simp only [h263Body, List.length_cons]
    split_ifs <;> simp
  all_goals simp [h263Body]

theorem skipWord_cons (a b c d : Byte) (rest : List Byte) :
    skipWord (a :: b :: c :: d :: rest) = rest := by
  unfold skipWord
  rw [if_neg (by simp only [List.length_cons]; omega)]
  rfl

theorem readNtohl_left (mb : Mbuf) : mb.readNtohl.2.left = skipWord mb.left := by
  unfold Mbuf.readNtohl
  rcases read : mb.left with _ | ⟨a, _ | ⟨b, _ | ⟨c, _ | ⟨d, rest⟩⟩⟩⟩
  case cons.cons.cons.cons =>
    rw [skipWord_cons, Mbuf.advance_left, read]
    rfl
  all_goals simp [read, skipWord]

theorem h263HdrDecode_refused (hdr : H263Hdr) (src : Unread) (refused : h263Body src.bytes = none) :
    h263HdrDecode hdr src.mb = (some .ENOENT, hdr, src.mb) := by
  rw [h263Body_none_iff, Unread.bytes, Mbuf.left_length src.inside] at refused
  have short : src.mb.getLeft < h263HdrSizeModeA := refused
  unfold h263HdrDecode
  rw [if_pos short]

theorem h263HdrDecode_accepted (hdr : H263Hdr) (src : Unread) {body : List Byte}
    (accepted : h263Body src.bytes = some body) :
    (h263HdrDecode hdr src.mb).1 = none ∧ (h263HdrDecode hdr src.mb).2.2.left = body := by
  have long : ¬ src.mb.getLeft < h263HdrSizeModeA := by
    intro short
    rw [← Mbuf.left_length src.inside] at short
    rw [(h263Body_none_iff src.bytes).mpr short] at accepted
    contradiction
  have first : src.mb.readNtohl.2.left = skipWord src.mb.left := readNtohl_left src.mb
  unfold h263HdrDecode
  rw [if_neg long]
  rw [Unread.bytes] at accepted
  rcases read : src.mb.left with _ | ⟨a, _ | ⟨b, _ | ⟨c, _ | ⟨d, rest⟩⟩⟩⟩
  case cons.cons.cons.cons =>
    have word : src.mb.readNtohl.1 = a ++ b ++ c ++ d := by
      unfold Mbuf.readNtohl
      rw [read]
    rw [read] at accepted first
    rw [skipWord_cons] at first
    simp only [h263Body] at accepted
    simp only [word]
    split_ifs at accepted ⊢ with modeA modeB
    all_goals
      cases accepted
      refine ⟨rfl, ?_⟩
      simp only [readNtohl_left, first]
  all_goals
    rw [read] at accepted
    contradiction

end Baresip.Avcodec
