import Baresip.Avcodec.AnnexB
import Baresip.Avcodec.Avcodec
import Baresip.Library.Reassembly
import Baresip.Vpx.Vpx

set_option linter.dupNamespace false

namespace Baresip.Video

open Re Library

/-- A received payload with its RTP marker, and what the decode call finds outside it: the header left
    uninitialised on the stack and the library decoder's answer. -/
structure Received (η ρ : Type) where
  marker : Bool
  src : Unread
  hdr : η
  answer : ρ

variable {ω : Type}

def h263Collector : Collector (Avcodec.VidcodecSt ω) (Received Avcodec.H263Hdr Avcodec.AvDecode) Byte where
  marker p := p.marker
  contribution p := Avcodec.h263Body p.src.bytes
  decode st p :=
    let out := Avcodec.decH263 st p.marker p.src.mb p.hdr p.answer
    (out.st, out.handed)
  Holds st data := st.decMb.Holds 0 data
  unique := Mbuf.Holds.unique
  refused {st p} refused := by
    obtain ⟨same, none_⟩ := Avcodec.decH263_refused st p.marker p.src p.hdr p.answer refused
    exact Prod.ext same none_
  waits {st p} plain := by
    cases given : (Avcodec.decH263 st p.marker p.src.mb p.hdr p.answer).handed with
    | none => exact given
    | some frame => exact absurd (Avcodec.decH263_handed_eof given) (Bool.not_eq_true _ ▸ plain)
  collected {st p held body} holds accepted := by
    obtain ⟨next, rest, call, same, left⟩ :=
      Avcodec.decH263_accepted st p.marker p.src p.hdr p.answer accepted
    rw [← same] at holds
    rw [call, ← left]
    exact Avcodec.ffdecode_holds holds p.marker rest p.answer
  handed {st p held body frame} holds accepted handed := by
    obtain ⟨next, rest, call, same, left⟩ :=
      Avcodec.decH263_accepted st p.marker p.src p.hdr p.answer accepted
    rw [← same] at holds
    rw [call] at handed
    rw [← left]
    exact Avcodec.ffdecode_handed holds handed

def h264Collector : Collector (Avcodec.VidcodecSt ω) (Received Unit Avcodec.AvDecode) Byte where
  marker p := p.marker
  contribution p := Avcodec.h264Body p.src.bytes
  decode st p :=
    let out := Avcodec.decH264 st p.marker p.src.mb p.answer
    (out.st, out.handed)
  Holds st data := st.decMb.Holds 0 data
  unique := Mbuf.Holds.unique
  refused {st p} refused := by
    rw [Avcodec.h264Body, Option.map_eq_none_iff] at refused
    obtain ⟨same, none_⟩ := Avcodec.decH264_refused st p.marker p.src p.answer refused
    exact Prod.ext same none_
  waits {st p} plain := by
    cases given : (Avcodec.decH264 st p.marker p.src.mb p.answer).handed with
    | none => exact given
    | some frame => exact absurd (Avcodec.decH264_handed_eof given) (Bool.not_eq_true _ ▸ plain)
  collected {st p held body} holds accepted := by
    rw [Avcodec.h264Body, Option.map_eq_some_iff] at accepted
    obtain ⟨⟨written, payload⟩, accepted, rfl⟩ := accepted
    obtain ⟨next, rest, call, appended, left⟩ :=
      Avcodec.decH264_accepted st p.marker p.src p.answer accepted holds
    rw [call, ← List.append_assoc, ← left]
    exact Avcodec.ffdecode_holds appended p.marker rest p.answer
  handed {st p held body frame} holds accepted handed := by
    rw [Avcodec.h264Body, Option.map_eq_some_iff] at accepted
    obtain ⟨⟨written, payload⟩, accepted, rfl⟩ := accepted
    obtain ⟨next, rest, call, appended, left⟩ :=
      Avcodec.decH264_accepted st p.marker p.src p.answer accepted holds
    rw [call] at handed
    rw [← List.append_assoc, ← left]
    exact Avcodec.ffdecode_handed appended handed

def vp8Collector : Collector (Vpx.VidcodecSt ω) (Received Vpx.Vp8Desc Vpx.VpxDecode) Byte where
  marker p := p.marker
  contribution p := Vpx.vp8Body p.src.bytes
  decode st p :=
    let out := Vpx.dec st p.marker p.src.mb p.hdr p.answer
    (out.st, out.handed)
  Holds st data := st.mb.Holds 0 data
  unique := Mbuf.Holds.unique
  refused {st p} refused := by
    obtain ⟨same, none_⟩ := Vpx.dec_refused st p.marker p.src p.hdr p.answer refused
    exact Prod.ext same none_
  waits {st p} plain := by
    cases given : (Vpx.dec st p.marker p.src.mb p.hdr p.answer).handed with
    | none => exact given
    | some frame => exact absurd (Vpx.dec_handed_eof given) (Bool.not_eq_true _ ▸ plain)
  collected {_ p _ _} holds accepted :=
    (Vpx.dec_accepted holds p.marker p.src p.hdr p.answer accepted).1
  handed {_ p _ _ frame} holds accepted handed :=
    (Vpx.dec_accepted holds p.marker p.src p.hdr p.answer accepted).2 frame handed

def starting {σ α : Type} (st : σ) : Collector.Receiving σ α Byte := ⟨st, [], []⟩

theorem h263_separate (st : Avcodec.VidcodecSt ω) :
    h263Collector.Separate (starting (Avcodec.initDecoder st)) :=
  ⟨Avcodec.initDecoder_holds st, fun _ member => by contradiction⟩

theorem h264_separate (st : Avcodec.VidcodecSt ω) :
    h264Collector.Separate (starting (Avcodec.initDecoder st)) :=
  ⟨Avcodec.initDecoder_holds st, fun _ member => by contradiction⟩

theorem vp8_separate (st : Vpx.VidcodecSt ω) :
    vp8Collector.Separate (starting (Vpx.initDecoder st)) :=
  ⟨Vpx.initDecoder_holds st, fun _ member => by contradiction⟩

/-- Frames are built from their own packets only, in every run of each decoder, exactly when no marker
    packet is refused while the reassembly buffer holds data. -/
theorem decoders_separate_iff (st : Avcodec.VidcodecSt ω) (vst : Vpx.VidcodecSt ω)
    (h263 : List (Received Avcodec.H263Hdr Avcodec.AvDecode))
    (h264 : List (Received Unit Avcodec.AvDecode)) (vp8 : List (Received Vpx.Vp8Desc Vpx.VpxDecode)) :
    (Throughout h263Collector.receive h263Collector.Separate (starting (Avcodec.initDecoder st)) h263 ↔
      Along h263Collector.receive h263Collector.RefusesEmpty (starting (Avcodec.initDecoder st)) h263) ∧
    (Throughout h264Collector.receive h264Collector.Separate (starting (Avcodec.initDecoder st)) h264 ↔
      Along h264Collector.receive h264Collector.RefusesEmpty (starting (Avcodec.initDecoder st)) h264) ∧
    (Throughout vp8Collector.receive vp8Collector.Separate (starting (Vpx.initDecoder vst)) vp8 ↔
      Along vp8Collector.receive vp8Collector.RefusesEmpty (starting (Vpx.initDecoder vst)) vp8) :=
  ⟨Collector.separate_throughout_iff (h263_separate st),
    Collector.separate_throughout_iff (h264_separate st),
    Collector.separate_throughout_iff (vp8_separate vst)⟩

def received {η ρ : Type} (hdr : η) (answer : ρ) (marker : Bool) (payload : List Byte) : Received η ρ :=
  ⟨marker, .ofBytes payload, hdr, answer⟩

def h263Received : Bool → List Byte → Received Avcodec.H263Hdr Avcodec.AvDecode :=
  received ⟨0, 0, 0, 0, 0, 0, 0, 0, 0, 0, 0, 0, 0⟩ ⟨0, true⟩

def h264Received : Bool → List Byte → Received Unit Avcodec.AvDecode := received () ⟨0, true⟩

def vp8Received : Bool → List Byte → Received Vpx.Vp8Desc Vpx.VpxDecode :=
  received ⟨0, 0, 0, 0, 0⟩ ⟨false, true⟩

theorem decoders_keep_refused_frame :
    ¬ Throughout h263Collector.receive h263Collector.Separate
      (starting (Avcodec.initDecoder Avcodec.accepting))
      [h263Received false [0, 0, 0, 0, 7], h263Received true [1]] ∧
    ¬ Throughout h264Collector.receive h264Collector.Separate
      (starting (Avcodec.initDecoder Avcodec.accepting))
      [h264Received false [0x41, 7], h264Received true [0x80]] ∧
    ¬ Throughout vp8Collector.receive vp8Collector.Separate
      (starting (Vpx.initDecoder Vpx.accepting))
      [vp8Received false [0, 7], vp8Received true [0x10]] := by
  refine ⟨?_, ?_, ?_⟩
  · apply Collector.not_separate_of_refused (h263_separate _) [7] (by simp) rfl _ rfl
    all_goals
      simp only [h263Collector, h263Received, received, Unread.ofBytes_bytes]
      decide
  · apply Collector.not_separate_of_refused (h264_separate _) [0, 0, 1, 0x41, 7] (by simp) rfl _ rfl
    all_goals
      simp only [h264Collector, h264Received, received, Unread.ofBytes_bytes]
      decide
  · apply Collector.not_separate_of_refused (vp8_separate _) [7] (by simp) rfl _ rfl
    all_goals
      simp only [vp8Collector, vp8Received, received, Unread.ofBytes_bytes]
      decide

section
open Avcodec
variable {ω' : Type}

def arrives (av : AvDecode) (marker : Bool) (p : Packet) : Received Unit AvDecode :=
  received () av marker p.payload

theorem arrives_contribution (av : AvDecode) (marker : Bool) (p : Packet) :
    (@h264Collector ω).contribution (arrives av marker p) = h264Body p.payload := by
  simp only [h264Collector, arrives, received, Unread.ofBytes_bytes]

theorem receive_gotKeyframe {s : Collector.Receiving (VidcodecSt ω) (Received Unit AvDecode) Byte}
    (inputs : List (Received Unit AvDecode)) (key : s.st.gotKeyframe = true) :
    (inputs.foldl h264Collector.receive s).st.gotKeyframe = true := by
  induction inputs generalizing s with
  | nil => exact key
  | cons p inputs ih => exact ih (decH264_gotKeyframe key p.marker p.src.mb p.answer)

/-- The packets, fed in order to a receiver, rebuild the bytes: its reassembly buffer collects exactly
    them, and a decoder that has seen a key frame is handed exactly them, once. -/
structure Rebuilds (ω : Type) (sent : List Packet) (bytes : List Byte) : Prop where
  marked : ∃ front last, sent = front ++ [last] ∧ last.marker = true ∧ ∀ p ∈ front, p.marker = false
  collected : ∀ (dst : VidcodecSt ω) (av : AvDecode),
    ((sent.map (arrives av false)).foldl h264Collector.receive
      (starting (initDecoder dst))).st.decMb.Holds 0 bytes
  handed : ∀ (dst : VidcodecSt ω) (av : AvDecode), dst.gotKeyframe = true →
    ((sent.map fun p => arrives av p.marker p).foldl h264Collector.receive
      (starting (initDecoder dst))).frames.map Prod.fst = [bytes]

theorem markers_split {sent : List Packet} {count : Nat}
    (markers : sent.map Packet.marker = List.replicate count false ++ [true]) :
    ∃ front last, sent = front ++ [last] ∧ last.marker = true ∧ ∀ p ∈ front, p.marker = false := by
  obtain ⟨front, tail, rfl, first, second⟩ := List.map_eq_append_iff.mp markers
  obtain ⟨last, rfl, marked⟩ := List.map_eq_singleton_iff.mp second
  refine ⟨front, last, rfl, marked, ?_⟩
  intro p member
  have marker : p.marker ∈ front.map Packet.marker := List.mem_map_of_mem member
  rw [first] at marker
  exact List.eq_of_mem_replicate marker

theorem arrives_contributions (av : AvDecode) {sent : List Packet} {bodies : List (List Byte)}
    (decoded : sent.map (fun p => h264Body p.payload) = bodies.map some) (marker : Packet → Bool) :
    (sent.map fun p => arrives av (marker p) p).map (@h264Collector ω).contribution = bodies.map some := by
  rw [← decoded, List.map_map]
  apply List.map_congr_left
  intro p _
  exact arrives_contribution av (marker p) p

theorem collects_sent (dst : VidcodecSt ω) (av : AvDecode) {sent : List Packet} {bodies : List (List Byte)}
    (decoded : sent.map (fun p => h264Body p.payload) = bodies.map some) (marker : Packet → Bool)
    (unmarked : ∀ p ∈ sent, marker p = false) :
    let s := (sent.map fun p => arrives av (marker p) p).foldl h264Collector.receive
      (starting (initDecoder dst))
    h264Collector.Separate s ∧ (@h264Collector ω).bytes s.since = bodies.flatten ∧ s.frames = [] := by
  have plain : ∀ r ∈ sent.map (fun p => arrives av (marker p) p), (@h264Collector ω).marker r = false := by
    intro r member
    obtain ⟨p, inside, rfl⟩ := List.mem_map.mp member
    exact unmarked p inside
  exact Collector.collects_run (h264_separate dst) plain (arrives_contributions av decoded marker)

theorem receive_last {s : Collector.Receiving (VidcodecSt ω) (Received Unit AvDecode) Byte}
    (separate : h264Collector.Separate s) (key : s.st.gotKeyframe = true) (none_ : s.frames = [])
    (av : AvDecode) (last : Packet) {body : List Byte} (decoded : h264Body last.payload = some body) :
    (h264Collector.receive s (arrives av true last)).frames.map Prod.fst =
      [(@h264Collector ω).bytes s.since ++ body] := by
  have accepted := (@arrives_contribution ω av true last).trans decoded
  obtain ⟨frame, given⟩ := decH264_hands key (arrives av true last).src av accepted separate.held
  have handed : ((@h264Collector ω).decode s.st (arrives av true last)).2 = some frame := given
  have whole := h264Collector.handed separate.held accepted handed
  simp only [Collector.receive, handed, none_, List.nil_append, List.map_singleton, whole]

theorem rebuilds_of_sends {out : Packetized (VidcodecSt ω)} {content : List Byte}
    (sends : Sends out true content) : Rebuilds ω' out.sent content := by
  obtain ⟨count, markers⟩ := sends.markers
  obtain ⟨bodies, decoded, flat⟩ := sends.bodies
  have marked := markers_split markers
  refine ⟨marked, ?_, ?_⟩
  · intro dst av
    obtain ⟨separate, bytes, -⟩ := collects_sent dst av decoded (fun _ => false) (fun _ _ => rfl)
    have held := separate.held
    rw [bytes, flat] at held
    exact held
  · intro dst av key
    obtain ⟨front, last, sent, isLast, early⟩ := marked
    rw [sent, List.map_append] at decoded
    obtain ⟨before, rest, rfl, decodedFront, decodedLast⟩ := List.map_eq_append_iff.mp decoded.symm
    obtain ⟨body, rfl, lastBody⟩ := List.map_eq_singleton_iff.mp decodedLast
    obtain ⟨separate, bytes, none_⟩ := collects_sent dst av decodedFront.symm Packet.marker early
    have kept := receive_gotKeyframe (front.map fun p => arrives av p.marker p)
      (show (starting (initDecoder dst)).st.gotKeyframe = true from key)
    rw [sent, List.map_append, List.foldl_append, List.map_singleton, List.foldl_cons, List.foldl_nil,
      isLast, receive_last separate kept none_ av last lastBody.symm, bytes, ← flat, List.flatten_append,
      List.flatten_singleton]

/-- Every byte stream of NAL units comes out at the receiver as it is from its first start code on. -/
theorem h264_round_trip (base : Nat) (slack : List Byte) (long : Bool) (unit : NalUnit)
    (units : List (Bool × NalUnit)) (st : VidcodecSt ω) (direct : st.enqh = none) :
    ∃ bytes, byteStream ((long, unit) :: units) = leadingZero long ++ bytes ∧ nalSeq <+: bytes ∧
      Rebuilds ω' (h264Packetize base st (encoded (byteStream ((long, unit) :: units)) slack)).sent bytes := by
  have sends := h264Packetize_sends base slack long unit units direct
  refine ⟨annexB (regroup ((long, unit) :: units)), byteStream_regroup long unit units, ?_,
    rebuilds_of_sends sends⟩
  cases units with
  | nil => exact ⟨unit.bytes, by simp [regroup, annexB]⟩
  | cons next units =>
    obtain ⟨long', next⟩ := next
    rw [regroup, annexB_cons, List.append_assoc]
    exact List.prefix_append _ _

def parameterSet : NalUnit := ⟨0x67, [0x42, 0], by decide, by decide⟩
def slice : NalUnit := ⟨0x65, [7], by decide, by decide⟩

theorem h264_round_trip_two_units :
    ∃ bytes, byteStream [(true, parameterSet), (true, slice)] = leadingZero true ++ bytes ∧
      nalSeq <+: bytes ∧
      Rebuilds Unit
        (h264Packetize 3 accepting (encoded (byteStream [(true, parameterSet), (true, slice)]) [])).sent
        bytes :=
  h264_round_trip 3 [] true parameterSet [(true, slice)] accepting rfl

end

end Baresip.Video
