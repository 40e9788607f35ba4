import Baresip.Avcodec.H263
import Baresip.Avcodec.H264

set_option linter.dupNamespace false

namespace Baresip.Avcodec

open Re Video

variable {ω : Type}

def generalPacketize (st : VidcodecSt ω) (mb : Mbuf) : Packetized (VidcodecSt ω) :=
  packetizeLoop rtpPresz st mb

def initDecoder (st : VidcodecSt ω) : VidcodecSt ω := { st with decMb := Mbuf.alloc 1024 }

structure AvDecode where
  ret : Int
  gotPicture : Bool
  deriving DecidableEq, Repr

/-- The result of a decode call, with the bytes given to the library's decoder and whether a picture
    came out. -/
structure Decoded (σ : Type) where
  err : Option Errno
  st : σ
  src : Option Mbuf
  handed : Option (List Byte)
  picture : Bool

def ffdecode (st : VidcodecSt ω) (eof : Bool) (src : Mbuf) (av : AvDecode) : Decoded (VidcodecSt ω) :=
  let st := { st with decMb := st.decMb.writeMem src.left }
  if !eof then ⟨none, st, src, none, false⟩
  else
    let st := { st with decMb := st.decMb.setPos 0 }
    let out := { st with decMb := st.decMb.rewind }
    if !st.gotKeyframe then ⟨some .EPROTO, out, src, none, false⟩
    else if av.ret < 0 then ⟨some .EBADMSG, out, src, st.decMb.left, false⟩
    else ⟨none, out, src.skipToEnd, st.decMb.left, av.gotPicture⟩

/-- `hdr` is the uninitialised header on the stack. -/
def decH263 (st : VidcodecSt ω) (eof : Bool) (src : Option Mbuf) (hdr : H263Hdr) (av : AvDecode) :
    Decoded (VidcodecSt ω) :=
  match src with
  | none => ⟨none, st, none, none, false⟩
  | some src =>
    match h263HdrDecode hdr src with
    | (some err, _, src) => ⟨some err, st, src, none, false⟩
    | (none, hdr, src) => ffdecode (st.noteKeyframe (hdr.i = iFrame)) eof src av

def decH264 (st : VidcodecSt ω) (eof : Bool) (src : Option Mbuf) (av : AvDecode) :
    Decoded (VidcodecSt ω) :=
  match src with
  | none => ⟨none, st, none, none, false⟩
  | some src =>
    match h264Decode st src with
    | (some err, st, src) => ⟨some err, st, src, none, false⟩
    | (none, st, src) => ffdecode st eof src av

def decMpeg4 (st : VidcodecSt ω) (eof : Bool) (src : Option Mbuf) (av : AvDecode) :
    Decoded (VidcodecSt ω) :=
  match src with
  | none => ⟨none, st, none, none, false⟩
  | some src => ffdecode { st with gotKeyframe := true } eof src av

theorem initDecoder_holds (st : VidcodecSt ω) : (initDecoder st).decMb.Holds 0 [] :=
  (Mbuf.alloc 1024).holds_restart 0

theorem ffdecode_holds {st : VidcodecSt ω} {held : List Byte} (holds : st.decMb.Holds 0 held)
    (eof : Bool) (src : Mbuf) (av : AvDecode) :
    (ffdecode st eof src av).st.decMb.Holds 0 (if eof then [] else held ++ src.left) := by
  have written := holds.write src.left
  unfold ffdecode
  cases eof with
  | false => exact written
  | true =>
    have rewound : (((st.decMb.writeMem src.left).setPos 0).rewind).Holds 0 [] :=
      Mbuf.holds_restart _ 0
    simp only [Bool.not_true, Bool.false_eq_true, ite_false, ite_true]
    split_ifs <;> exact rewound

theorem ffdecode_handed_eof {st : VidcodecSt ω} {eof : Bool} {src : Mbuf} {av : AvDecode}
    {frame : List Byte} (handed : (ffdecode st eof src av).handed = some frame) : eof = true := by
  cases eof with
  | false => contradiction
  | true => rfl

theorem ffdecode_handed {st : VidcodecSt ω} {held frame : List Byte} (holds : st.decMb.Holds 0 held)
    {eof : Bool} {src : Mbuf} {av : AvDecode} (handed : (ffdecode st eof src av).handed = some frame) :
    frame = held ++ src.left := by
  have all := (holds.write src.left).left
  have ends := ffdecode_handed_eof handed
  subst ends
  unfold ffdecode at handed
  simp only [Bool.not_true, Bool.false_eq_true, ite_false] at handed
  split_ifs at handed <;> exact (Option.some.inj handed).symm.trans all

theorem ffdecode_hands (st : VidcodecSt ω) (src : Mbuf) (av : AvDecode) (key : st.gotKeyframe = true) :
    ∃ frame, (ffdecode st true src av).handed = some frame := by
  unfold ffdecode
  simp only [key, Bool.not_true, Bool.false_eq_true, ite_false]
  split_ifs <;> exact ⟨_, rfl⟩

theorem ffdecode_gotKeyframe (st : VidcodecSt ω) (eof : Bool) (src : Mbuf) (av : AvDecode) :
    (ffdecode st eof src av).st.gotKeyframe = st.gotKeyframe := by
  unfold ffdecode
  simp only
  split_ifs <;> rfl

theorem decH263_refused (st : VidcodecSt ω) (eof : Bool) (src : Unread) (hdr : H263Hdr) (av : AvDecode)
    (refused : h263Body src.bytes = none) :
    (decH263 st eof src.mb hdr av).st = st ∧ (decH263 st eof src.mb hdr av).handed = none := by
  simp only [decH263, h263HdrDecode_refused hdr src refused, and_self]

theorem decH263_accepted (st : VidcodecSt ω) (eof : Bool) (src : Unread) (hdr : H263Hdr) (av : AvDecode)
    {body : List Byte} (accepted : h263Body src.bytes = some body) :
    ∃ next rest, decH263 st eof src.mb hdr av = ffdecode next eof rest av ∧ next.decMb = st.decMb ∧
      rest.left = body := by
  obtain ⟨ok, left⟩ := h263HdrDecode_accepted hdr src accepted
  rcases decoded : h263HdrDecode hdr src.mb with ⟨err, hdr', rest⟩
  rw [decoded] at ok left
  simp only at ok left
  subst ok
  refine ⟨st.noteKeyframe (hdr'.i = iFrame), rest, ?_, noteKeyframe_decMb st _, left⟩
  simp only [decH263, decoded]

theorem decH263_handed_eof {st : VidcodecSt ω} {eof : Bool} {src : Mbuf} {hdr : H263Hdr} {av : AvDecode}
    {frame : List Byte} (handed : (decH263 st eof src hdr av).handed = some frame) : eof = true := by
  rcases decoded : h263HdrDecode hdr src with ⟨_ | err, hdr', rest⟩
  · simp only [decH263, decoded] at handed
    exact ffdecode_handed_eof handed
  · simp only [decH263, decoded] at handed
    contradiction

theorem decH264_refused (st : VidcodecSt ω) (eof : Bool) (src : Unread) (av : AvDecode)
    (refused : h264Prefix src.bytes = none) :
    (decH264 st eof src.mb av).st = st ∧ (decH264 st eof src.mb av).handed = none := by
  obtain ⟨fails, same⟩ := h264Decode_refused st src refused
  rcases decoded : h264Decode st src.mb with ⟨_ | err, next, rest⟩
  · rw [decoded] at fails
    contradiction
  · rw [decoded] at same
    simp only [decH264, decoded]
    exact ⟨same, trivial⟩

theorem decH264_accepted (st : VidcodecSt ω) (eof : Bool) (src : Unread) (av : AvDecode)
    {written body held : List Byte} (accepted : h264Prefix src.bytes = some (written, body))
    (holds : st.decMb.Holds 0 held) :
    ∃ next rest, decH264 st eof src.mb av = ffdecode next eof rest av ∧
      next.decMb.Holds 0 (held ++ written) ∧ rest.left = body := by
  obtain ⟨ok, appended, left⟩ := h264Decode_accepted st src accepted holds
  rcases decoded : h264Decode st src.mb with ⟨err, next, rest⟩
  rw [decoded] at ok appended left
  simp only at ok appended left
  subst ok
  exact ⟨next, rest, by simp only [decH264, decoded], appended, left⟩

theorem decH264_handed_eof {st : VidcodecSt ω} {eof : Bool} {src : Mbuf} {av : AvDecode}
    {frame : List Byte} (handed : (decH264 st eof src av).handed = some frame) : eof = true := by
  rcases decoded : h264Decode st src with ⟨_ | err, next, rest⟩
  · simp only [decH264, decoded] at handed
    exact ffdecode_handed_eof handed
  · simp only [decH264, decoded] at handed
    contradiction

theorem decH264_gotKeyframe {st : VidcodecSt ω} (key : st.gotKeyframe = true) (eof : Bool) (src : Mbuf)
    (av : AvDecode) : (decH264 st eof src av).st.gotKeyframe = true := by
  have kept := h264Decode_gotKeyframe key src
  rcases decoded : h264Decode st src with ⟨_ | err, next, rest⟩
  · rw [decoded] at kept
    simp only [decH264, decoded, ffdecode_gotKeyframe]
    exact kept
  · rw [decoded] at kept
    simp only [decH264, decoded]
    exact kept

theorem decH264_hands {st : VidcodecSt ω} (key : st.gotKeyframe = true) (src : Unread) (av : AvDecode)
    {body held : List Byte} (accepted : h264Body src.bytes = some body) (holds : st.decMb.Holds 0 held) :
    ∃ frame, (decH264 st true src.mb av).handed = some frame := by
  obtain ⟨⟨written, rest⟩, accepted, -⟩ := Option.map_eq_some_iff.mp accepted
  obtain ⟨next, src', call, -, -⟩ := decH264_accepted st true src av accepted holds
  have kept := decH264_gotKeyframe key true src.mb av
  rw [call, ffdecode_gotKeyframe] at kept
  rw [call]
  exact ffdecode_hands next src' av kept

end Baresip.Avcodec
