import Baresip.Celt.Celt
import Baresip.Library.Histories
import Baresip.Re.Prm
import Mathlib.Algebra.Ring.Nat

set_option linter.dupNamespace false

namespace Baresip.Celt

open Re

def defaultFrameSize : BitVec 32 := 640

def defaultBitrate : BitVec 32 := 64000

structure Aucodec where
  srate : BitVec 32
  ch : BitVec 8
  deriving DecidableEq, Repr

/-- The codecs that the module registers. -/
def celtv : List Aucodec := [⟨48000, 1⟩, ⟨32000, 1⟩]

/-- The fields that the parameters of the peer set. -/
structure Params where
  bitrate : BitVec 32
  frameSize : BitVec 32
  lowOverhead : Bool
  bpfv : List (BitVec 16)
  deriving DecidableEq, Repr

def overheadExpr : List Byte := ascii "[0-9]+/[0-9,]+"

def bpfExpr : List Byte := ascii "[0-9]+[,]*"

def bytesPerFrame : Nat → List Byte → List (BitVec 16)
  | 0, _ => []
  | slots + 1, bpfv =>
    if bpfv.length = 0 then []
    else match reRegex bpfv bpfExpr with
      | .ok [bpf, co] => bpf.u32.setWidth 16 :: bytesPerFrame slots (bpfv.drop (bpf.val.length + co.val.length))
      | _ => []

def decodeParam (st : Params) (name val : Pl) : Params :=
  if name.strcasecmp (ascii "bitrate") then { st with bitrate := val.u32 * 1000 }
  else if name.strcasecmp (ascii "frame-size") then { st with frameSize := val.u32 }
  else if name.strcasecmp (ascii "low-overhead") then
    match reRegex val.val overheadExpr with
    | .ok [fs, bpfv] =>
      { st with lowOverhead := true, frameSize := fs.u32, bpfv := bytesPerFrame maxFrames bpfv.val }
    | _ => { st with lowOverhead := true }
  else st

def decodeParams (st : Params) (fmtp : List Byte) : Params :=
  (fmtParamApply fmtp).foldl (fun st param => decodeParam st param.1 param.2) st

/-- The functions of the CELT library that make a mode, an encoder and a decoder, or none. -/
structure CeltLib (E D : Type) where
  modeCreate : BitVec 32 → BitVec 32 → Bool
  encoderCreate : BitVec 32 → BitVec 8 → Option E
  decoderCreate : BitVec 32 → BitVec 8 → Option D

structure AucodecPrm where
  srate : BitVec 32
  ptime : BitVec 32
  deriving DecidableEq, Repr

def initialFrameSize (ac : Aucodec) (encp : Option AucodecPrm) : BitVec 32 :=
  match encp with
  | some encp => if encp.ptime ≠ 0 then ac.srate * ac.ch.setWidth 32 * encp.ptime / 1000 else defaultFrameSize
  | none => defaultFrameSize

def initialParams (ac : Aucodec) (encp : Option AucodecPrm) : Params :=
  ⟨defaultBitrate, initialFrameSize ac encp, false, []⟩

def strIsset (s : Option (List Byte)) : Bool := s.getD [] != []

def alloc {E D : Type} (celt : CeltLib E D) (ac : Aucodec) (encp : Option AucodecPrm) (fmtp : Option (List Byte)) :
    Except Errno (Params × AucodecSt E D) :=
  let prm := if strIsset fmtp then decodeParams (initialParams ac encp) (fmtp.getD []) else initialParams ac encp
  if celt.modeCreate ac.srate prm.frameSize then
    let fsize := 2 * prm.frameSize * ac.ch.setWidth 32
    let bytesPerPacket := (prm.bitrate * prm.frameSize / ac.srate + 4) / 8
    match celt.encoderCreate ac.srate ac.ch, celt.decoderCreate ac.srate ac.ch with
    | some enc, some dec =>
      .ok (prm, ⟨enc, dec, fsize.toNat, bytesPerPacket.toNat, prm.lowOverhead, prm.bpfv.map BitVec.toNat⟩)
    | _, _ => .error .EPROTO
  else .error .EPROTO

/-- The size of the buffer of a frame in `encode`. -/
def frameBuf : Nat := 1024

/-- What a parameter says of the bit rate. -/
def bitrateOf (param : Pl × Pl) : Option (BitVec 32) :=
  if param.1.strcasecmp (ascii "bitrate") then some (param.2.u32 * 1000) else none

/-- What a parameter says of the frame size. -/
def frameSizeOf (param : Pl × Pl) : Option (BitVec 32) :=
  if param.1.strcasecmp (ascii "frame-size") then some param.2.u32
  else if param.1.strcasecmp (ascii "low-overhead") then
    match reRegex param.2.val overheadExpr with
    | .ok [fs, _] => some fs.u32
    | _ => none
  else none

/-- The last word of the peer on the bit rate. -/
def askedBitrate (fmtp : Option (List Byte)) : BitVec 32 :=
  ((fmtParamApply (fmtp.getD [])).reverse.findSome? bitrateOf).getD defaultBitrate

def askedFrameSize (ac : Aucodec) (encp : Option AucodecPrm) (fmtp : Option (List Byte)) : BitVec 32 :=
  ((fmtParamApply (fmtp.getD [])).reverse.findSome? frameSizeOf).getD (initialFrameSize ac encp)

theorem decodeParam_bitrate (st : Params) (param : Pl × Pl) :
    (decodeParam st param.1 param.2).bitrate = (bitrateOf param).getD st.bitrate := by
  unfold decodeParam bitrateOf
  by_cases rate : param.1.strcasecmp (ascii "bitrate") = true
  · rw [if_pos rate, if_pos rate]
    rfl
  · rw [if_neg rate, if_neg rate]
    split_ifs
    · rfl
    · split <;> rfl
    · rfl

theorem strcasecmp_unique {pl : Pl} {a b : List Byte} (same : pl.strcasecmp a = true)
    (differ : a.map tolower ≠ b.map tolower) : ¬ pl.strcasecmp b = true := by
  intro other
  rw [Pl.strcasecmp, beq_iff_eq] at same other
  exact differ (same.symm.trans other)

theorem decodeParam_frameSize (st : Params) (param : Pl × Pl) :
    (decodeParam st param.1 param.2).frameSize = (frameSizeOf param).getD st.frameSize := by
  unfold decodeParam frameSizeOf
  by_cases rate : param.1.strcasecmp (ascii "bitrate") = true
  · rw [if_pos rate, if_neg (strcasecmp_unique rate (by decide)), if_neg (strcasecmp_unique rate (by decide))]
    rfl
  · rw [if_neg rate]
    by_cases size : param.1.strcasecmp (ascii "frame-size") = true
    · rw [if_pos size, if_pos size]
      rfl
    · rw [if_neg size, if_neg size]
      by_cases low : param.1.strcasecmp (ascii "low-overhead") = true
      · rw [if_pos low, if_pos low]
        split <;> rfl
      · rw [if_neg low, if_neg low]
        rfl

/-- The parameters that are in force are the last ones that the peer gave. -/
theorem decodeParams_last (ac : Aucodec) (encp : Option AucodecPrm) (fmtp : Option (List Byte)) :
    (decodeParams (initialParams ac encp) (fmtp.getD [])).bitrate = askedBitrate fmtp ∧
      (decodeParams (initialParams ac encp) (fmtp.getD [])).frameSize = askedFrameSize ac encp fmtp :=
  ⟨Library.foldl_last decodeParam_bitrate _ _, Library.foldl_last decodeParam_frameSize _ _⟩

section
variable {E D : Type} {celt : CeltLib E D} {ac : Aucodec} {encp : Option AucodecPrm} {fmtp : Option (List Byte)}
  {prm : Params} {st : AucodecSt E D}

theorem alloc_ok (made : alloc celt ac encp fmtp = .ok (prm, st)) :
    prm = decodeParams (initialParams ac encp) (fmtp.getD []) ∧ celt.modeCreate ac.srate prm.frameSize = true ∧
      st.fsize = (2 * prm.frameSize * ac.ch.setWidth 32).toNat ∧
      st.bytesPerPacket = ((prm.bitrate * prm.frameSize / ac.srate + 4) / 8).toNat := by
  have read : (if strIsset fmtp then decodeParams (initialParams ac encp) (fmtp.getD []) else initialParams ac encp) =
      decodeParams (initialParams ac encp) (fmtp.getD []) := by
    by_cases set : strIsset fmtp = true
    · rw [if_pos set]
    · have blank : fmtp.getD [] = [] := by simpa [strIsset] using set
      rw [if_neg set, blank]
      rfl
  rw [alloc, read] at made
  generalize decodeParams (initialParams ac encp) (fmtp.getD []) = read at made ⊢
  dsimp only at made
  split_ifs at made with mode
  cases enc : celt.encoderCreate ac.srate ac.ch with
  | none =>
    rw [enc] at made
    cases made
  | some enc_ =>
    cases dec : celt.decoderCreate ac.srate ac.ch with
    | none =>
      rw [enc, dec] at made
      cases made
    | some dec_ =>
      rw [enc, dec] at made
      obtain ⟨rfl, rfl⟩ := Prod.mk.inj (Except.ok.inj made)
      exact ⟨rfl, mode, rfl, rfl⟩

/-- A library whose encoder keeps to the number of bytes it may use. -/
def Codec.Keeps (codec : Codec E D) : Prop :=
  ∀ enc pcm max data, (codec.encode enc pcm max).1 = some data → data.length ≤ max

/-- The values that `alloc` derives are ones that `encode` can work with. -/
structure Bounded (ac : Aucodec) (prm : Params) (st : AucodecSt E D) : Prop where
  buffer : st.bytesPerPacket ≤ frameBuf
  fsize : st.fsize ≠ 0
  srate : ac.srate ≠ 0
  product : prm.bitrate.toNat * prm.frameSize.toNat < 2 ^ 32
  inside : ∀ codec : Codec E D, codec.Keeps → ∀ n src framev st' src',
    encodeFrames codec n st src = .ok (framev, st', src') → ∀ data ∈ framev, data.length ≤ frameBuf

theorem encodeFrame_keeps {codec : Codec E D} (keeps : codec.Keeps) {src src' : Mbuf} {data : List Byte}
    {st' : AucodecSt E D} (encoded : encodeFrame codec st src = .ok (data, st', src')) :
    data.length ≤ st.bytesPerPacket ∧ st'.bytesPerPacket = st.bytesPerPacket := by
  unfold encodeFrame at encoded
  have kept := keeps st.enc ((src.buf.drop src.pos).take st.fsize) st.bytesPerPacket
  generalize codec.encode st.enc ((src.buf.drop src.pos).take st.fsize) st.bytesPerPacket = made at encoded kept
  obtain ⟨made, enc⟩ := made
  cases made with
  | none => cases encoded
  | some made =>
    cases encoded
    exact ⟨kept data rfl, rfl⟩

theorem encodeFrames_keeps {codec : Codec E D} (keeps : codec.Keeps) {n : Nat} {src src' : Mbuf}
    {framev : List (List Byte)} {st' : AucodecSt E D}
    (encoded : encodeFrames codec n st src = .ok (framev, st', src')) :
    ∀ data ∈ framev, data.length ≤ st.bytesPerPacket := by
  induction n generalizing st src framev with
  | zero =>
    cases encoded
    exact nofun
  | succ n ih =>
    rw [encodeFrames] at encoded
    cases first : encodeFrame codec st src with
    | error e =>
      rw [first] at encoded
      cases encoded
    | ok one =>
      obtain ⟨data, st₁, src₁⟩ := one
      obtain ⟨fits, same⟩ := encodeFrame_keeps keeps first
      rw [first] at encoded
      simp only [bind, Except.bind] at encoded
      cases rest : encodeFrames codec n st₁ src₁ with
      | error e =>
        rw [rest] at encoded
        cases encoded
      | ok others =>
        obtain ⟨framev', st₂, src₂⟩ := others
        rw [rest] at encoded
        cases encoded
        intro frame among
        rcases List.mem_cons.mp among with rfl | later
        · exact fits
        · have small := ih rest frame later
          rwa [same] at small

theorem bytes_iff {bitrate frameSize srate : BitVec 32} (registered : srate = 48000 ∨ srate = 32000) :
    (((bitrate * frameSize / srate + 4) / 8).toNat ≤ frameBuf ∧ bitrate.toNat * frameSize.toNat < 2 ^ 32) ↔
      bitrate.toNat * frameSize.toNat < 8196 * srate.toNat := by
  have four : (4 : BitVec 32).toNat = 4 := rfl
  have eight : (8 : BitVec 32).toNat = 8 := rfl
  rw [frameBuf, BitVec.toNat_udiv, BitVec.toNat_add, BitVec.toNat_udiv, BitVec.toNat_mul, four, eight]
  generalize bitrate.toNat * frameSize.toNat = product
  rcases registered with rfl | rfl
  · rw [show (48000 : BitVec 32).toNat = 48000 from rfl]
    omega
  · rw [show (32000 : BitVec 32).toNat = 32000 from rfl]
    omega

theorem fsize_some {frameSize : BitVec 32} (some_ : 1 ≤ frameSize.toInt) :
    (2 * frameSize * (1 : BitVec 8).setWidth 32).toNat ≠ 0 := by
  have mono : (1 : BitVec 8).setWidth 32 = 1#32 := rfl
  rw [BitVec.toInt_eq_toNat_cond] at some_
  rw [mono, BitVec.mul_one]
  bv_omega

/-- The lengths fit exactly when the bit rate that was asked for last, times the frame size that was asked for
    last, stays below 8196 times the sampling rate. -/
theorem encode_bounded_iff (registered : ac ∈ celtv)
    (accepts : ∀ frameSize, celt.modeCreate ac.srate frameSize = true ↔ 1 ≤ frameSize.toInt)
    (made : alloc celt ac encp fmtp = .ok (prm, st)) :
    Bounded ac prm st ↔
      (askedBitrate fmtp).toNat * (askedFrameSize ac encp fmtp).toNat < 8196 * ac.srate.toNat := by
  obtain ⟨rfl, mode, fsize, bytes⟩ := alloc_ok made
  obtain ⟨rate, size⟩ := decodeParams_last ac encp fmtp
  rw [accepts] at mode
  rw [size] at mode
  have known : (ac.srate = 48000 ∨ ac.srate = 32000) ∧ ac.ch = 1 := by
    rcases List.mem_cons.mp registered with rfl | second
    · exact ⟨Or.inl rfl, rfl⟩
    · obtain rfl := List.mem_singleton.mp second
      exact ⟨Or.inr rfl, rfl⟩
  rw [← bytes_iff known.1]
  rw [rate, size] at bytes
  constructor
  · intro bounded
    have product := bounded.product
    rw [rate, size] at product
    have buffer := bounded.buffer
    rw [bytes] at buffer
    exact ⟨buffer, product⟩
  · rintro ⟨small, product⟩
    rw [← bytes] at small
    refine ⟨small, ?_, ?_, by rwa [rate, size], ?_⟩
    · rw [fsize, size, known.2]
      exact fsize_some mode
    · rcases known.1 with at48 | at32
      · rw [at48]
        decide
      · rw [at32]
        decide
    · intro codec keeps n src framev st' src' encoded data among
      exact Nat.le_trans (encodeFrames_keeps keeps encoded data among) small

end

/-- A library that takes every frame size from 1 up. -/
def celtLib : CeltLib Unit Unit :=
  ⟨fun _ frameSize => decide (1 ≤ frameSize.toInt), fun _ _ => some (), fun _ _ => some ()⟩

theorem celtLib_alloc {fmtp : List Byte} (set : fmtp ≠ []) {prm : Params}
    (read : decodeParams (initialParams ⟨48000, 1⟩ none) fmtp = prm) (size : 1 ≤ prm.frameSize.toInt) :
    alloc celtLib ⟨48000, 1⟩ none (some fmtp) = .ok (prm, ⟨(), (), (2 * prm.frameSize * 1).toNat,
      ((prm.bitrate * prm.frameSize / 48000 + 4) / 8).toNat, prm.lowOverhead, prm.bpfv.map BitVec.toNat⟩) := by
  have isset : strIsset (some fmtp) = true := by simpa [strIsset] using set
  have mode : celtLib.modeCreate 48000 prm.frameSize = true := decide_eq_true size
  simp only [alloc, isset, if_true, Option.getD_some, read, mode]
  rfl

theorem encode_bounded_default :
    Bounded ⟨48000, 1⟩ ⟨64000, 640, false, []⟩ ((⟨(), (), 1280, 107, false, []⟩ : AucodecSt Unit Unit)) := by
  have read : decodeParams (initialParams ⟨48000, 1⟩ none) (ascii "bitrate=64; frame-size=640") =
      ⟨64000, 640, false, []⟩ := by
    rw [ascii_ofList]
    decide +kernel
  have accepts (frameSize : BitVec 32) : celtLib.modeCreate 48000 frameSize = true ↔ 1 ≤ frameSize.toInt :=
    decide_eq_true_iff
  apply (encode_bounded_iff List.mem_cons_self accepts (celtLib_alloc (by decide) read (by decide))).mpr
  decide +kernel

/-- An encoder that uses all the bytes it may use. -/
def fullCodec : Codec Unit Unit := ⟨fun _ _ max => (some (List.replicate max 0), ()), fun _ data => (data, ())⟩

theorem encode_beyond :
    ∃ prm st, alloc celtLib ⟨48000, 1⟩ none (some (ascii "bitrate=4000")) = .ok (prm, st) ∧
      st.bytesPerPacket = 6667 ∧ ¬ Bounded ⟨48000, 1⟩ prm st ∧ fullCodec.Keeps ∧
      ∃ data st' src', encodeFrames fullCodec 1 st ⟨List.replicate 1280 0, 0, 1280⟩ = .ok ([data], st', src') ∧
        data.length = 6667 := by
  have read : decodeParams (initialParams ⟨48000, 1⟩ none) (ascii "bitrate=4000") = ⟨4000000, 640, false, []⟩ := by
    rw [ascii_ofList]
    decide +kernel
  refine ⟨_, _, celtLib_alloc (by decide) read (by decide), rfl, ?_, ?_, List.replicate 6667 0, _, _, rfl,
    List.length_replicate⟩
  · intro bounded
    exact absurd bounded.buffer (by decide)
  · intro enc pcm max data made
    obtain rfl := Option.some.inj made
    exact Nat.le_of_eq List.length_replicate

end Baresip.Celt
