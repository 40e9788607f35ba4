import Baresip.Avcodec.Avcodec
import Baresip.Vpx.Vpx

set_option linter.dupNamespace false

namespace Baresip.Video

open Re Library

/-- The packets carry the frame: behind payload headers of `header` bytes they hold it in order, in
    fragments of at most `limit` bytes, and no packet before the last one is marked. -/
structure Carries (frame : List Byte) (header limit : Nat) (sent : List Packet) : Prop where
  whole : (sent.map fun p => p.payload.drop header).flatten = frame
  headed : ∀ p ∈ sent, header ≤ p.payload.length
  limited : ∀ p ∈ sent, p.payload.length ≤ header + limit
  unmarked : ∀ p ∈ sent.dropLast, p.marker = false
  marked : frame.length % limit ≠ 0 → ∃ p, sent.getLast? = some p ∧ p.marker = true

theorem flags_dropLast {flags : List Bool} {count : Nat} {tail : List Bool}
    (shape : flags = List.replicate count false ++ tail) (short : tail.length ≤ 1) :
    ∀ flag ∈ flags.dropLast, flag = false := by
  subst shape
  intro flag member
  rcases List.eq_nil_or_concat tail with rfl | ⟨front, last, rfl⟩
  · rw [List.append_nil] at member
    exact List.eq_of_mem_replicate (List.dropLast_subset _ member)
  · have empty : front = [] := by
      apply List.eq_nil_of_length_eq_zero
      simp only [List.concat_eq_append, List.length_append, List.length_singleton] at short
      omega
    subst empty
    simp only [List.concat_eq_append, List.nil_append, List.dropLast_concat] at member
    exact List.eq_of_mem_replicate member

theorem carries_of_cuts {frame : List Byte} {header limit : Nat} {sent : List Packet}
    (positive : 0 < limit)
    (pieces : sent.map (fun p => (p.marker, p.payload.drop header)) = cuts limit frame)
    (headed : ∀ p ∈ sent, header ≤ p.payload.length) : Carries frame header limit sent := by
  have contents : sent.map (fun p => p.payload.drop header) = (cuts limit frame).map Prod.snd := by
    rw [← pieces, List.map_map]
    rfl
  have markers : sent.map Packet.marker = (cuts limit frame).map Prod.fst := by
    rw [← pieces, List.map_map]
    rfl
  rw [cuts_flags positive] at markers
  refine ⟨?_, headed, ?_, ?_, ?_⟩
  · rw [contents]
    exact cuts_flatten positive frame
  · intro p member
    have piece : (p.marker, p.payload.drop header) ∈ cuts limit frame := by
      rw [← pieces]
      exact List.mem_map_of_mem member
    have size := cuts_piece_le piece
    rw [List.length_drop] at size
    omega
  · intro p member
    have flags := flags_dropLast markers (by split <;> simp)
    apply flags
    rw [← List.map_dropLast]
    exact List.mem_map_of_mem member
  · intro remainder
    rw [if_neg remainder] at markers
    have last := congrArg List.getLast? markers
    rw [List.getLast?_map, List.getLast?_concat] at last
    rcases found : sent.getLast? with _ | p
    · simp [found] at last
    · rw [found] at last
      exact ⟨p, rfl, Option.some.inj last⟩

section
open Avcodec

variable {ω : Type} (st : Avcodec.VidcodecSt ω)

theorem loop_carries (pos : Nat) (behind : rtpPresz ≤ pos) (delivers : st.Delivers)
    (frame slack : List Byte) :
    (packetizeLoop pos st (encoded frame slack)).err = none ∧
    Carries frame (pos - rtpPresz) maxRtpSize (packetizeLoop pos st (encoded frame slack)).sent := by
  have inside : (encoded frame slack).endPos ≤ (encoded frame slack).buf.length := by
    simp [encoded]
  obtain ⟨noError, pieces, headed⟩ := packetizeLoop_sent pos behind st _ delivers inside
  rw [encoded_left] at pieces
  exact ⟨noError, carries_of_cuts (by simp [maxRtpSize]) pieces headed⟩

theorem vpx_carries (vst : Vpx.VidcodecSt ω) (frame : List Byte) (keyframe : Bool) :
    (Vpx.vpxPacketize vst frame keyframe).err = none ∧
    Carries frame (Vpx.descSize vst.picid) Vpx.maxRtpSize
      (Vpx.vpxPacketize vst frame keyframe).sent := by
  obtain ⟨noError, pieces, headed⟩ := Vpx.packetizeLoop_sent
    (decide (frame.length > Vpx.maxRtpSize)) keyframe vst (Mbuf.alloc 512) true frame
  exact ⟨noError, carries_of_cuts (by simp [Vpx.maxRtpSize]) pieces headed⟩

/-- Every frame is carried whole, in fragments of at most 1024 bytes behind each payload's header, and
    H.263 refuses a frame that is too short for its bit-stream header. -/
theorem packetizers_carry_frame (delivers : st.Delivers) (vst : Vpx.VidcodecSt ω)
    (frame slack : List Byte) (keyframe : Bool) :
    ((generalPacketize st (encoded frame slack)).err = none ∧
      Carries frame 0 maxRtpSize (generalPacketize st (encoded frame slack)).sent) ∧
    (6 ≤ frame.length → (h263Packetize st (encoded frame slack)).err = none ∧
      Carries frame h263HdrSizeModeA maxRtpSize (h263Packetize st (encoded frame slack)).sent) ∧
    (frame.length < 6 → (h263Packetize st (encoded frame slack)).err = some .EINVAL ∧
      (h263Packetize st (encoded frame slack)).sent = []) ∧
    ((Vpx.vpxPacketize vst frame keyframe).err = none ∧
      Carries frame (Vpx.descSize vst.picid) Vpx.maxRtpSize
        (Vpx.vpxPacketize vst frame keyframe).sent) := by
  refine ⟨?_, ?_, ?_, vpx_carries vst frame keyframe⟩
  · have general := loop_carries st rtpPresz (Nat.le_refl _) delivers frame slack
    rw [Nat.sub_self] at general
    exact general
  · intro long
    obtain ⟨hdr, loop⟩ := h263Packetize_long st (encoded frame slack) long
    have behind : rtpPresz ≤ rtpPresz + h263HdrSizeModeA := Nat.le_add_right _ _
    have h263 := loop_carries (st.encodeHdr hdr) _ behind (encodeHdr_delivers delivers hdr) frame slack
    rw [loop]
    rw [Nat.add_sub_cancel_left] at h263
    exact h263
  · intro short
    rw [h263Packetize_short st (encoded frame slack) short]
    exact ⟨rfl, rfl⟩

end

section
open Avcodec

theorem packetizers_carry_seven_bytes :
    Carries [1, 2, 3, 4, 5, 6, 7] 0 1024
      (generalPacketize accepting (encoded [1, 2, 3, 4, 5, 6, 7] [])).sent :=
  (packetizers_carry_frame accepting accepting_delivers Vpx.accepting [1, 2, 3, 4, 5, 6, 7] []
    true).1.2

def fullFragment : List Byte := List.replicate 1024 0

theorem fullFragment_length : fullFragment.length = Avcodec.maxRtpSize := List.length_replicate

theorem fullFragment_cuts : cuts Avcodec.maxRtpSize fullFragment = [(false, fullFragment)] := by
  rw [← fullFragment_length]
  apply cuts_full
  rw [← List.length_pos_iff, fullFragment_length]
  simp [Avcodec.maxRtpSize]

theorem fullFragment_sent (pos : Nat) (behind : Avcodec.rtpPresz ≤ pos) (st : Avcodec.VidcodecSt Unit)
    (delivers : st.Delivers) :
    ∃ p, (Avcodec.packetizeLoop pos st (encoded fullFragment [])).sent = [p] ∧ p.marker = false ∧
      p.payload.length = pos - Avcodec.rtpPresz + 1024 := by
  have inside : (encoded fullFragment []).endPos ≤ (encoded fullFragment []).buf.length := by
    simp [encoded]
  obtain ⟨-, pieces, headed⟩ := packetizeLoop_sent pos behind st _ delivers inside
  rw [encoded_left, fullFragment_cuts, List.map_eq_singleton_iff] at pieces
  obtain ⟨p, sent, piece⟩ := pieces
  have long := headed p (by simp [sent])
  have size := congrArg (fun pair => pair.2.length) piece
  simp only [List.length_drop, fullFragment_length, Avcodec.maxRtpSize] at size
  exact ⟨p, sent, congrArg Prod.fst piece, by omega⟩

/-- A frame of exactly 1024 bytes is sent without a marker, one of five bytes not at all by H.263, and
    a full H.263 fragment makes a payload that is larger than 1024 bytes. -/
theorem packetizers_unmarked_refused_oversized :
    (generalPacketize accepting (encoded fullFragment [])).sent.map Packet.marker = [false] ∧
    (h263Packetize accepting (encoded [0, 0, 0, 0, 0] [])).sent = [] ∧
    ∃ p ∈ (h263Packetize accepting (encoded fullFragment [])).sent,
      Avcodec.maxRtpSize < p.payload.length := by
  refine ⟨?_, ?_, ?_⟩
  · obtain ⟨p, sent, unmarked, -⟩ :=
      fullFragment_sent Avcodec.rtpPresz (Nat.le_refl _) accepting accepting_delivers
    rw [generalPacketize, sent, List.map_singleton, unmarked]
  · rw [h263Packetize_short accepting _ (by simp)]
  · have long : 6 ≤ (encoded fullFragment []).getLeft := by
      rw [encoded_getLeft, fullFragment_length]
      simp [Avcodec.maxRtpSize]
    obtain ⟨hdr, loop⟩ := h263Packetize_long accepting _ long
    obtain ⟨p, sent, -, size⟩ := fullFragment_sent (Avcodec.rtpPresz + h263HdrSizeModeA)
      (Nat.le_add_right _ _) (accepting.encodeHdr hdr)
      (encodeHdr_delivers accepting_delivers hdr)
    refine ⟨p, by simp [loop, sent], ?_⟩
    rw [size, Nat.add_sub_cancel_left]
    simp [Avcodec.maxRtpSize, h263HdrSizeModeA]

end

end Baresip.Video
