import Baresip.Video.Vidcodec
import Baresip.Library.Cuts

set_option linter.dupNamespace false

namespace Baresip.Avcodec

open Re Video Library

def maxRtpSize : Nat := 1024
def rtpPresz : Nat := 4 + rtpHeaderSize

/-- The parts of `struct vidcodec_st` that packetizing and reassembly work on. -/
structure VidcodecSt (ω : Type) where
  mbFrag : Mbuf
  decMb : Mbuf
  gotKeyframe : Bool
  enqh : Option (VidcodecEnqH ω)
  sendh : VidcodecSendH ω
  arg : ω

variable {ω : Type}

def VidcodecSt.send (st : VidcodecSt ω) (marker : Bool) : Option Errno × VidcodecSt ω × Packet :=
  let frag := st.mbFrag.setPos rtpPresz
  let result := st.sendh marker frag st.arg
  (result.1, { st with mbFrag := result.2.1, arg := result.2.2 }, ⟨marker, frag.left⟩)

def VidcodecSt.noteKeyframe (st : VidcodecSt ω) (key : Bool) : VidcodecSt ω :=
  if !st.gotKeyframe && key then { st with gotKeyframe := true } else st

@[simp] theorem noteKeyframe_decMb (st : VidcodecSt ω) (key : Bool) :
    (st.noteKeyframe key).decMb = st.decMb := by
  unfold VidcodecSt.noteKeyframe
  split <;> rfl

/-- The handler of the state never fails, whatever it does to the buffer. -/
def VidcodecSt.Delivers (st : VidcodecSt ω) : Prop :=
  ∀ marker mb arg, (st.sendh marker mb arg).1 = none

def accepting : VidcodecSt Unit :=
  ⟨Mbuf.alloc 1024, Mbuf.alloc 1024, false, none, fun _ mb _ => (none, mb, ()), ()⟩

theorem accepting_delivers : accepting.Delivers := fun _ _ _ => rfl

def fragmentSize (last : Bool) (left : Nat) : Nat := if last then left else maxRtpSize

theorem fragmentSize_eq (left : Nat) :
    fragmentSize (decide (left < maxRtpSize)) left = min left maxRtpSize := by
  by_cases last : left < maxRtpSize
  · simp [fragmentSize, last, Nat.le_of_lt last]
  · simp [fragmentSize, last, Nat.not_lt.mp last]

def VidcodecSt.sendFragment (st : VidcodecSt ω) (pos : Nat) (last : Bool) (data : List Byte) :
    Option Errno × VidcodecSt ω × Packet :=
  { st with mbFrag := (st.mbFrag.restart pos).writeMem data }.send last

/-- The fragmentation loop of `general_packetize` and `h263_packetize`, which write each fragment at
    `pos`, behind the payload header. -/
def packetizeLoop (pos : Nat) (st : VidcodecSt ω) (mb : Mbuf) : Packetized (VidcodecSt ω) :=
  if _h : mb.getLeft = 0 then ⟨none, st, []⟩
  else
    let last := decide (mb.getLeft < maxRtpSize)
    let sz := fragmentSize last mb.getLeft
    match st.sendFragment pos last (mb.left.take sz) with
    | (some err, next, packet) => ⟨some err, next, [packet]⟩
    | (none, next, packet) =>
      let rest := packetizeLoop pos next (mb.advance sz)
      { rest with sent := packet :: rest.sent }
termination_by mb.getLeft
decreasing_by
  have progress : fragmentSize _ mb.getLeft = _ := fragmentSize_eq mb.getLeft
  simp only [Mbuf.getLeft, Mbuf.advance, maxRtpSize] at _h progress ⊢
  omega

theorem sendFragment_delivers {st : VidcodecSt ω} (delivers : st.Delivers) (pos : Nat) (last : Bool)
    (data : List Byte) :
    (st.sendFragment pos last data).1 = none ∧ (st.sendFragment pos last data).2.1.Delivers :=
  ⟨delivers _ _ _, delivers⟩

theorem sendFragment_packet (st : VidcodecSt ω) {pos : Nat} (behind : rtpPresz ≤ pos) (last : Bool)
    {data : List Byte} (some_ : data ≠ []) :
    ∃ header, header.length = pos - rtpPresz ∧
      (st.sendFragment pos last data).2.2 = ⟨last, header ++ data⟩ := by
  have held := (st.mbFrag.holds_restart pos).write data
  obtain ⟨header, length, left⟩ := held.left_behind behind some_
  refine ⟨header, length, ?_⟩
  simp only [VidcodecSt.sendFragment, VidcodecSt.send, left, List.nil_append]

theorem packetizeLoop_sent (pos : Nat) (behind : rtpPresz ≤ pos) (st : VidcodecSt ω) (mb : Mbuf)
    (delivers : st.Delivers) (inside : mb.endPos ≤ mb.buf.length) :
    (packetizeLoop pos st mb).err = none ∧
    (packetizeLoop pos st mb).sent.map (fun p => (p.marker, p.payload.drop (pos - rtpPresz))) =
      cuts maxRtpSize mb.left ∧
    ∀ p ∈ (packetizeLoop pos st mb).sent, pos - rtpPresz ≤ p.payload.length := by
  induction st, mb using packetizeLoop.induct pos with
  | case1 st mb done =>
    have empty : mb.left = [] := List.eq_nil_of_length_eq_zero ((Mbuf.left_length inside).trans done)
    rw [packetizeLoop]
    simp [done, empty]
  | case2 st mb more last sz err next packet sent =>
    have failed := (sendFragment_delivers delivers pos last (mb.left.take sz)).1
    rw [sent] at failed
    contradiction
  | case3 st mb more last sz next packet sent ih =>
    have length := Mbuf.left_length inside
    have size : sz = min mb.left.length maxRtpSize := by
      rw [length]
      exact fragmentSize_eq mb.getLeft
    have some_ : mb.left ≠ [] := by
      rw [← List.length_pos_iff, length]
      omega
    have piece : mb.left.take sz ≠ [] := by
      rw [← List.length_pos_iff, List.length_take, size, length]
      simp only [maxRtpSize]
      omega
    obtain ⟨header, headerLength, payload⟩ := sendFragment_packet st behind last piece
    have nextDelivers := (sendFragment_delivers delivers pos last (mb.left.take sz)).2
    rw [sent] at payload nextDelivers
    obtain ⟨noError, pieces, sizes⟩ := ih nextDelivers inside
    have unfolded : packetizeLoop pos st mb =
        { packetizeLoop pos next (mb.advance sz) with
          sent := packet :: (packetizeLoop pos next (mb.advance sz)).sent } := by
      rw [packetizeLoop, dif_neg more]
      simp only
      rw [sent]
    rw [unfolded, cuts_cons some_ (by simp [maxRtpSize])]
    have later : mb.left.drop sz = mb.left.drop maxRtpSize := by rw [size, drop_min]
    rw [Mbuf.advance_left, later] at pieces
    simp only at payload
    subst payload
    refine ⟨noError, ?_, ?_⟩
    · simp only [List.map_cons, ← headerLength, List.drop_left]
      rw [headerLength, pieces, size, take_min, length]
    · intro p member
      rcases List.mem_cons.mp member with rfl | later
      · simp [headerLength]
      · exact sizes p later

end Baresip.Avcodec
