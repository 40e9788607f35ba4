import Baresip.Avcodec.H264
import Baresip.Avcodec.Startcode

set_option linter.dupNamespace false

namespace Baresip.Avcodec

open Re Video

variable {ω : Type}

/-- `err |= next`: the bits of the value are not modelled, only whether there is an error. -/
def orErr (err next : Option Errno) : Option Errno := err <|> next

def VidcodecSt.rtpSendData (st : VidcodecSt ω) (hdr buf : List Byte) (eof : Bool) :
    Option Errno × VidcodecSt ω × Packet :=
  { st with mbFrag := ((st.mbFrag.restart rtpPresz).writeMem hdr).writeMem buf }.send eof

/-- The fragment loop of `h264_nal_send` and the send behind it. Every caller leaves room for at least
    one byte in a fragment. -/
def fuSend (st : VidcodecSt ω) (indicator fuHdr : Byte) (buf : List Byte) (sz : Nat)
    (last marker : Bool) : Packetized (VidcodecSt ω) :=
  if _h : sz < buf.length ∧ 0 < sz then
    let result := st.rtpSendData [indicator, fuHdr] (buf.take sz) false
    let rest := fuSend result.2.1 indicator (fuHdr &&& ~~~(0x80 : Byte)) (buf.drop sz) sz last marker
    ⟨orErr result.1 rest.err, rest.st, result.2.2 :: rest.sent⟩
  else
    let fuHdr := if last then fuHdr ||| 1 <<< 6 else fuHdr
    let result := st.rtpSendData [indicator, fuHdr] buf (marker && last)
    ⟨result.1, result.2.1, [result.2.2]⟩
termination_by buf.length
decreasing_by
  rw [List.length_drop]
  omega

def h264NalSend (st : VidcodecSt ω) (first last marker : Bool) (hdr : Byte) (buf : List Byte)
    (maxsz : Nat) : Packetized (VidcodecSt ω) :=
  if first && last && decide (buf.length ≤ maxsz) then
    let result := st.rtpSendData [hdr] buf marker
    ⟨result.1, result.2.1, [result.2.2]⟩
  else
    let type : Byte := hdr &&& 0x1f
    let nri : Byte := hdr &&& 0x60
    let fuHdr : Byte := if first then 1 <<< 7 ||| type else type
    fuSend st (nri ||| h264NalFuA.setWidth 8) fuHdr buf (maxsz - 2) last marker

/-- `while (!*(r++));`, which stops at the end of the memory at the latest. -/
def skipZeros (buf : List Byte) (r : Nat) : Nat :=
  if _h : r < buf.length ∧ buf.getD r 1 = 0 then skipZeros buf (r + 1) else r + 1
termination_by buf.length - r

theorem skipZeros_gt (buf : List Byte) (r : Nat) : r < skipZeros buf r := by
  induction r using skipZeros.induct buf with
  | case1 r zero ih =>
    rw [skipZeros, dif_pos zero]
    omega
  | case2 r stop =>
    rw [skipZeros, dif_neg stop]
    omega

theorem findStartcode_advances (base : Nat) (buf : List Byte) {endp r : Nat} (inside : r < endp) :
    r < h264FindStartcode base buf (skipZeros buf r) endp := by
  have after := skipZeros_gt buf r
  rcases h264FindStartcode_first base buf (skipZeros buf r) endp with ⟨same, -⟩ | ⟨later, -⟩
  · rw [same]
    exact inside
  · exact Nat.lt_of_lt_of_le after later

def VidcodecSt.sendNal (st : VidcodecSt ω) (marker : Bool) (hdr : Byte) (data : List Byte) :
    Packetized (VidcodecSt ω) :=
  match st.enqh with
  | some enqh =>
    let result := enqh marker hdr data st.arg
    ⟨result.1, { st with arg := result.2 }, []⟩
  | none => h264NalSend st true true marker hdr data maxRtpSize

/-- The NAL unit loop of `h264_packetize`; `r` is the position of its start code. -/
def nalLoop (base : Nat) (buf : List Byte) (endp : Nat) (st : VidcodecSt ω) (r : Nat) :
    Packetized (VidcodecSt ω) :=
  if _h : r < endp then
    let nal := skipZeros buf r
    let r1 := h264FindStartcode base buf nal endp
    let result := st.sendNal (decide (r1 ≥ endp)) (buf.getD nal 0)
      ((buf.drop (nal + 1)).take (r1 - nal - 1))
    let rest := nalLoop base buf endp result.st r1
    ⟨orErr result.err rest.err, rest.st, result.sent ++ rest.sent⟩
  else ⟨none, st, []⟩
termination_by endp - r
decreasing_by
  have advances := findStartcode_advances base buf _h
  omega

/-- The search starts at the beginning of the buffer, wherever its position is. -/
def h264Packetize (base : Nat) (st : VidcodecSt ω) (mb : Mbuf) : Packetized (VidcodecSt ω) :=
  nalLoop base mb.buf mb.endPos st (h264FindStartcode base mb.buf 0 mb.endPos)

theorem rtpSendData_packet (st : VidcodecSt ω) (hdr buf : List Byte) (eof : Bool) :
    (st.rtpSendData hdr buf eof).2.2 = ⟨eof, hdr ++ buf⟩ := by
  have held := (((st.mbFrag.holds_restart rtpPresz).write hdr).write buf).left
  rw [List.nil_append] at held
  simp only [VidcodecSt.rtpSendData, VidcodecSt.send, held]

/-- What was sent adds up to `content` at a receiver, and only the last packet can have the marker. -/
structure Sends (out : Packetized (VidcodecSt ω)) (marker : Bool) (content : List Byte) : Prop where
  direct : out.st.enqh = none
  markers : ∃ count, out.sent.map Packet.marker = List.replicate count false ++ [marker]
  bodies : ∃ bodies : List (List Byte), out.sent.map (fun p => h264Body p.payload) = bodies.map some ∧
    bodies.flatten = content

theorem rtpSendData_sends {st : VidcodecSt ω} (direct : st.enqh = none) (hdr buf : List Byte) (eof : Bool)
    {body : List Byte} (decoded : h264Body (hdr ++ buf) = some body) :
    Sends ⟨(st.rtpSendData hdr buf eof).1, (st.rtpSendData hdr buf eof).2.1,
      [(st.rtpSendData hdr buf eof).2.2]⟩ eof body := by
  refine ⟨direct, ⟨0, ?_⟩, ⟨[body], ?_, ?_⟩⟩
  · simp [rtpSendData_packet]
  · simp [rtpSendData_packet, decoded]
  · simp

theorem Sends.append {first second : Packetized (VidcodecSt ω)} {marker : Bool}
    {content content' : List Byte} (sends : Sends first false content)
    (sends' : Sends second marker content') :
    Sends ⟨orErr first.err second.err, second.st, first.sent ++ second.sent⟩ marker
      (content ++ content') := by
  obtain ⟨count, markers⟩ := sends.markers
  obtain ⟨count', markers'⟩ := sends'.markers
  obtain ⟨bodies, decoded, flat⟩ := sends.bodies
  obtain ⟨bodies', decoded', flat'⟩ := sends'.bodies
  refine ⟨sends'.direct, ⟨count + 1 + count', ?_⟩, ⟨bodies ++ bodies', ?_, ?_⟩⟩
  · rw [List.map_append, markers, markers', ← List.append_assoc, ← List.replicate_succ',
      List.replicate_append_replicate]
  · rw [List.map_append, List.map_append, decoded, decoded']
  · rw [List.flatten_append, flat, flat']

theorem Sends.stop {out : Packetized (VidcodecSt ω)} {marker : Bool} {content : List Byte}
    (sends : Sends out marker content) :
    Sends ⟨orErr out.err none, out.st, out.sent ++ []⟩ marker content := by
  refine ⟨sends.direct, ?_, ?_⟩
  · rw [List.append_nil]
    exact sends.markers
  · rw [List.append_nil]
    exact sends.bodies

theorem fuHeader_continue (hdr : Byte) (start : Bool) :
    fuHeader hdr start false &&& ~~~(0x80 : Byte) = fuHeader hdr false false := by
  revert hdr start
  decide +kernel

theorem fuHeader_end (hdr : Byte) (start : Bool) :
    fuHeader hdr start false ||| 1 <<< 6 = fuHeader hdr start true := by
  revert hdr start
  decide +kernel

theorem fuSend_sends {hdr : Byte} (single : SingleNal hdr) {st : VidcodecSt ω} (direct : st.enqh = none)
    (start : Bool) (buf : List Byte) (sz : Nat) (marker : Bool) :
    Sends (fuSend st (fuIndicator hdr) (fuHeader hdr start false) buf sz true marker) marker
      ((if start then nalSeq ++ [hdr] else []) ++ buf) := by
  induction len : buf.length using Nat.strongRecOn generalizing st start buf with
  | ind size ih =>
    rw [fuSend]
    by_cases more : sz < buf.length ∧ 0 < sz
    · rw [dif_pos more]
      have shorter : (buf.drop sz).length < size := by
        rw [List.length_drop]
        omega
      have decoded := h264Body_fragment single start false (buf.take sz)
      have first := rtpSendData_sends direct [fuIndicator hdr, fuHeader hdr start false] _ false decoded
      have rest := ih _ shorter first.direct false (buf.drop sz) rfl
      have both := first.append rest
      rw [fuHeader_continue]
      simp only [Bool.false_eq_true, ite_false, List.nil_append, List.append_assoc,
        List.take_append_drop] at both
      exact both
    · rw [dif_neg more]
      have decoded := h264Body_fragment single start true buf
      have sends := rtpSendData_sends direct [fuIndicator hdr, fuHeader hdr start true] buf marker decoded
      simp only [ite_true, fuHeader_end, Bool.and_true]
      exact sends

theorem sendNal_sends {hdr : Byte} (single : SingleNal hdr) {st : VidcodecSt ω} (direct : st.enqh = none)
    (marker : Bool) (data : List Byte) :
    Sends (st.sendNal marker hdr data) marker (nalSeq ++ hdr :: data) := by
  unfold VidcodecSt.sendNal
  rw [direct]
  unfold h264NalSend
  simp only [Bool.true_and]
  by_cases short : data.length ≤ maxRtpSize
  · simp only [short, decide_true, ite_true]
    exact rtpSendData_sends direct [hdr] data marker (h264Body_single single data)
  · simp only [short, decide_false, Bool.false_eq_true, ite_false, ite_true]
    have sends := fuSend_sends single direct true data (maxRtpSize - 2) marker
    have header : fuHeader hdr true false = 1 <<< 7 ||| (hdr &&& 0x1f) := by
      simp [fuHeader]
    rw [header] at sends
    simp only [ite_true, List.append_assoc, List.singleton_append] at sends
    exact sends

end Baresip.Avcodec
