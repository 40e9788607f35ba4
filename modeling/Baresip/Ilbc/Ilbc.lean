import Baresip.Library.Runs
import Baresip.Re.Regex

set_option linter.dupNamespace false

namespace Baresip.Ilbc

open Re Library

/-- The iLBC library: `initDecode` gives the number of samples of a block, and `iLBC_decode` the samples. A payload is
    only given with a packet that has been received. -/
structure Lib (D : Type) where
  init : D → BitVec 32 → Nat × D
  decode : D → Option (List Byte) → (Nat → BitVec 16) × D

def noOfBytes20ms : Nat := 38
def noOfBytes30ms : Nat := 50
def blockl20ms : Nat := 160
def blockl30ms : Nat := 240

def defaultMode : BitVec 32 := 20

structure AucodecSt (D : Type) where
  dec : D
  modeDec : BitVec 32
  decNsamp : Nat
  decBytes : Nat

/-- What a call of `decode` gives; `passed` is the payload that the library was called with. -/
structure Decoded (D : Type) where
  st : AucodecSt D
  dst : Mbuf
  src : List Byte
  passed : Option (List Byte)
  err : Option Errno

section
variable {D : Type} (lib : Lib D)

def setDecoderMode (st : AucodecSt D) (mode : BitVec 32) : AucodecSt D :=
  if st.modeDec = mode then st
  else if mode = 20 ∨ mode = 30 then
    let (nsamp, dec) := lib.init st.dec mode
    { st with modeDec := mode, decNsamp := nsamp, dec := dec }
  else { st with modeDec := mode }

def fmtpDecode (st : AucodecSt D) (fmtp : List Byte) : AucodecSt D :=
  match reRegex fmtp (ascii "mode=[0-9]+") with
  | .ok [mode] => setDecoderMode lib st mode.u32
  | _ => st

/-- `zero` is the decoder state of the library before it is set up. -/
def alloc (zero : D) (fmtp : List Byte) : AucodecSt D :=
  let st := setDecoderMode lib ⟨zero, 0, 0, 0⟩ defaultMode
  if fmtp = [] then st else fmtpDecode lib st fmtp

def writeSample (dst : Mbuf) (v : BitVec 16) : Mbuf := dst.writeMem [v.extractLsb' 0 8, v.extractLsb' 8 8]

def doDec (st : AucodecSt D) (dst : Mbuf) (src : List Byte) : Decoded D :=
  let n := 2 * st.decNsamp
  let dst := if dst.buf.length - dst.pos < n then dst.resize (dst.pos + n) else dst
  let payload := if src = [] then none else some src
  let (buf, dec) := lib.decode st.dec payload
  { st := { st with dec := dec }
    dst := ((List.range st.decNsamp).map buf).foldl writeSample dst
    src := src.drop st.decBytes
    passed := payload
    err := none }

/-- `src` is what is left of the packet, nothing for a packet that is lost. -/
def decode (st : AucodecSt D) (dst : Mbuf) (src : List Byte) : Decoded D :=
  if src ≠ [] ∧ st.decBytes ≠ src.length then
    let st := { st with decBytes := src.length }
    if src.length = noOfBytes20ms then doDec lib (setDecoderMode lib st 20) dst src
    else if src.length = noOfBytes30ms then doDec lib (setDecoderMode lib st 30) dst src
    else ⟨st, dst, src, none, some .EINVAL⟩
  else doDec lib st dst src

end

/-- The length of a frame in a mode. -/
def frameLength (mode : BitVec 32) : Option Nat :=
  if mode = 20 then some noOfBytes20ms else if mode = 30 then some noOfBytes30ms else none

/-- A packet that can be a frame, or none. -/
def Fits (src : List Byte) : Prop := src.length = 0 ∨ src.length = noOfBytes20ms ∨ src.length = noOfBytes30ms

instance (src : List Byte) : Decidable (Fits src) := inferInstanceAs (Decidable (_ ∨ _ ∨ _))

section
variable {D : Type} (lib : Lib D)

/-- Only a frame of the current mode is decoded, and a packet that is no frame is rejected and changes nothing. -/
structure Meets (st : AucodecSt D) (packet : Mbuf × List Byte) : Prop where
  frames : ∀ payload ∈ (decode lib st packet.1 packet.2).passed,
    payload = packet.2 ∧ Fits payload ∧ frameLength (decode lib st packet.1 packet.2).st.modeDec = some payload.length
  rejected : ¬Fits packet.2 →
    (decode lib st packet.1 packet.2).err = some .EINVAL ∧ (decode lib st packet.1 packet.2).passed = none ∧
      (decode lib st packet.1 packet.2).st.modeDec = st.modeDec ∧
      (decode lib st packet.1 packet.2).st.decBytes = st.decBytes

def step (st : AucodecSt D) (packet : Mbuf × List Byte) : AucodecSt D := (decode lib st packet.1 packet.2).st

/-- A frame length that has been stored is the one of the mode. -/
def Agrees (st : AucodecSt D) : Prop :=
  (st.decBytes = noOfBytes20ms → st.modeDec = 20) ∧ (st.decBytes = noOfBytes30ms → st.modeDec = 30)

end

section
variable {D : Type} {lib : Lib D} {st : AucodecSt D} {mode : BitVec 32}

theorem setDecoderMode_decBytes : (setDecoderMode lib st mode).decBytes = st.decBytes := by
  unfold setDecoderMode
  split_ifs <;> rfl

theorem setDecoderMode_modeDec : (setDecoderMode lib st mode).modeDec = mode := by
  unfold setDecoderMode
  split_ifs with same
  · exact same
  · rfl
  · rfl

theorem alloc_decBytes (zero : D) (fmtp : List Byte) : (alloc lib zero fmtp).decBytes = 0 := by
  have fresh : (setDecoderMode lib ⟨zero, 0, 0, 0⟩ defaultMode).decBytes = 0 := setDecoderMode_decBytes
  unfold alloc fmtpDecode
  dsimp only
  split
  · exact fresh
  · split
    · exact setDecoderMode_decBytes.trans fresh
    · exact fresh

theorem alloc_agrees (zero : D) (fmtp : List Byte) : Agrees (alloc lib zero fmtp) := by
  unfold Agrees
  rw [alloc_decBytes]
  constructor <;> (intro frame; cases frame)

variable {dst : Mbuf} {src : List Byte}

theorem not_fits (bad : ¬Fits src) : src ≠ [] ∧ src.length ≠ noOfBytes20ms ∧ src.length ≠ noOfBytes30ms := by
  unfold Fits at bad
  refine ⟨?_, fun same => bad (Or.inr (Or.inl same)), fun same => bad (Or.inr (Or.inr same))⟩
  rintro rfl
  exact bad (Or.inl rfl)

/-- A new length is stored before it is looked at. -/
theorem decode_new_bad (bad : ¬Fits src) (new : st.decBytes ≠ src.length) :
    decode lib st dst src = ⟨{ st with decBytes := src.length }, dst, src, none, some .EINVAL⟩ := by
  rcases not_fits bad with ⟨some_, not20, not30⟩
  unfold decode
  rw [if_pos ⟨some_, new⟩]
  dsimp only
  rw [if_neg not20, if_neg not30]

theorem decode_same (same : src = [] ∨ st.decBytes = src.length) : decode lib st dst src = doDec lib st dst src := by
  unfold decode
  rw [if_neg]
  rintro ⟨some_, new⟩
  rcases same with none_ | same
  · exact some_ none_
  · exact new same

theorem decode_20 (new : st.decBytes ≠ src.length) (frame : src.length = noOfBytes20ms) :
    decode lib st dst src = doDec lib (setDecoderMode lib { st with decBytes := src.length } 20) dst src := by
  have some_ : src ≠ [] := by
    rintro rfl
    cases frame
  unfold decode
  rw [if_pos ⟨some_, new⟩]
  dsimp only
  rw [if_pos frame]

theorem decode_30 (new : st.decBytes ≠ src.length) (frame : src.length = noOfBytes30ms) :
    decode lib st dst src = doDec lib (setDecoderMode lib { st with decBytes := src.length } 30) dst src := by
  have some_ : src ≠ [] := by
    rintro rfl
    cases frame
  have not20 : src.length ≠ noOfBytes20ms := by
    rw [frame]
    decide
  unfold decode
  rw [if_pos ⟨some_, new⟩]
  dsimp only
  rw [if_neg not20, if_pos frame]

theorem doDec_passed (some_ : src ≠ []) : (doDec lib st dst src).passed = some src := if_neg some_

theorem agrees_of_frame (bytes : st.decBytes = noOfBytes20ms ∧ st.modeDec = 20 ∨ st.decBytes = noOfBytes30ms ∧ st.modeDec = 30) :
    Agrees st := by
  rcases bytes with ⟨bytes, mode⟩ | ⟨bytes, mode⟩
  · refine ⟨fun _ => mode, ?_⟩
    rw [bytes]
    intro other
    cases other
  · refine ⟨?_, fun _ => mode⟩
    rw [bytes]
    intro other
    cases other

theorem agrees_of_bad (bad : ¬Fits src) (bytes : st.decBytes = src.length) : Agrees st := by
  rcases not_fits bad with ⟨_, not20, not30⟩
  rw [← bytes] at not20 not30
  exact ⟨fun frame => absurd frame not20, fun frame => absurd frame not30⟩

/-- What a frame leaves: its length and its mode. -/
theorem decode_frame (agrees : Agrees st) {bytes : Nat} {mode : BitVec 32}
    (frame : bytes = noOfBytes20ms ∧ mode = 20 ∨ bytes = noOfBytes30ms ∧ mode = 30) (length : src.length = bytes) :
    (decode lib st dst src).st.decBytes = bytes ∧ (decode lib st dst src).st.modeDec = mode := by
  by_cases same : st.decBytes = src.length
  · rw [decode_same (Or.inr same)]
    refine ⟨same.trans length, ?_⟩
    show st.modeDec = mode
    rcases frame with ⟨rfl, rfl⟩ | ⟨rfl, rfl⟩
    · exact agrees.1 (same.trans length)
    · exact agrees.2 (same.trans length)
  · rcases frame with ⟨rfl, rfl⟩ | ⟨rfl, rfl⟩
    · rw [decode_20 same length]
      exact ⟨setDecoderMode_decBytes.trans length, setDecoderMode_modeDec⟩
    · rw [decode_30 same length]
      exact ⟨setDecoderMode_decBytes.trans length, setDecoderMode_modeDec⟩

theorem Agrees.step (agrees : Agrees st) (packet : Mbuf × List Byte) : Agrees (step lib st packet) := by
  by_cases fits : Fits packet.2
  · rcases fits with none_ | frame | frame
    · rw [Ilbc.step, decode_same (Or.inl (List.length_eq_zero_iff.mp none_))]
      exact agrees
    · exact agrees_of_frame (Or.inl (decode_frame agrees (Or.inl ⟨rfl, rfl⟩) frame))
    · exact agrees_of_frame (Or.inr (decode_frame agrees (Or.inr ⟨rfl, rfl⟩) frame))
  · apply agrees_of_bad fits
    rw [Ilbc.step]
    by_cases same : st.decBytes = packet.2.length
    · rw [decode_same (Or.inr same)]
      exact same
    · rw [decode_new_bad fits same]

/-- A call is as it should be exactly when its packet can be a frame. -/
theorem meets_iff (agrees : Agrees st) (packet : Mbuf × List Byte) : Meets lib st packet ↔ Fits packet.2 := by
  constructor
  · intro meets
    by_cases fits : Fits packet.2
    · exact fits
    · rcases meets.rejected fits with ⟨_, none_, _, kept⟩
      by_cases same : st.decBytes = packet.2.length
      · rw [decode_same (Or.inr same), doDec_passed (not_fits fits).1] at none_
        cases none_
      · rw [decode_new_bad fits same] at kept
        exact absurd kept.symm same
  · intro fits
    refine ⟨?_, fun bad => absurd fits bad⟩
    intro payload passed
    have own : payload = packet.2 := by
      unfold decode doDec at passed
      split_ifs at passed
      all_goals first | cases passed; rfl | cases passed
    subst own
    refine ⟨rfl, fits, ?_⟩
    rcases fits with none_ | frame | frame
    · rw [decode_same (Or.inl (List.length_eq_zero_iff.mp none_)), doDec, if_pos (List.length_eq_zero_iff.mp none_)] at passed
      cases passed
    · rw [(decode_frame agrees (Or.inl ⟨rfl, rfl⟩) frame).2, frame]
      rfl
    · rw [(decode_frame agrees (Or.inr ⟨rfl, rfl⟩) frame).2, frame]
      rfl

end

/-- A run of packets is decoded as it should be exactly when each of them can be a frame, or none. -/
theorem decoded_iff {D : Type} (lib : Lib D) (zero : D) (fmtp : List Byte) (packets : List (Mbuf × List Byte)) :
    Along (step lib) (Meets lib) (alloc lib zero fmtp) packets ↔ ∀ packet ∈ packets, Fits packet.2 :=
  along_iff_forall_of_invariant (fun _ packet agrees => agrees.step packet) (fun _ packet agrees => meets_iff agrees packet)
    (alloc_agrees zero fmtp)

/-- The second of two packets of three bytes is given to the library. -/
theorem bad_packet_decoded :
    ¬∀ (lib : Lib Unit) (packets : List (Mbuf × List Byte)), Along (step lib) (Meets lib) (alloc lib () []) packets := by
  intro always
  have meets := always ⟨fun _ mode => (if mode = 20 then 160 else 240, ()), fun _ _ => (fun _ => 0, ())⟩
    [(Mbuf.alloc 512, [1, 2, 3]), (Mbuf.alloc 512, [1, 2, 3])]
  have second := meets.2.1.frames [1, 2, 3] rfl
  exact absurd second.2.1 (by decide)

end Baresip.Ilbc
