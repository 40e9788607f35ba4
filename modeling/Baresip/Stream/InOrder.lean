import Baresip.Re.Jbuf
import Baresip.Re.Sdp
import Mathlib.Data.List.Chain

set_option linter.dupNamespace false

namespace Baresip.Stream

open Re

abbrev Payload := List Byte

/-- The receiving side of a stream. `handed` logs the calls of the receive handler, whose buffer is a null
    pointer where nothing is delivered, and `losts` the results of `lostcalc`. -/
structure RxStream where
  jbuf : Option (Jbuf Payload)
  ssrcRx : BitVec 32
  pseq : BitVec 32
  nRx : BitVec 32
  bRx : Nat
  handed : List (RtpHeader × Option Payload)
  losts : List Int
  deriving DecidableEq, Repr

def lostcalc (pseq : BitVec 32) (seq : BitVec 16) : Int × BitVec 32 :=
  let delta := (seq.setWidth 32 - pseq).setWidth 16
  if pseq = .allOnes 32 then (0, seq.setWidth 32)
  else if delta = 0 then (-1, pseq)
  else if delta < 3000 then (delta.toNat - 1, seq.setWidth 32)
  else if delta < 0xff9c then (0, seq.setWidth 32)
  else (-2, pseq)

def RxStream.hand (s : RxStream) (hdr : RtpHeader) (mb : Option Payload) : RxStream :=
  { s with handed := s.handed ++ [(hdr, mb)] }

def deliver (s : RxStream) (hdr hdr2 : RtpHeader) (mb2 : Option Payload) : RxStream :=
  let (lostc, pseq) := lostcalc s.pseq hdr2.seq
  let s := { s with pseq := pseq, losts := s.losts ++ [lostc] }
  let s := if lostc > 0 then s.hand hdr none else s
  s.hand hdr2 mb2

/-- Nothing where the jitter buffer reads a null pointer. `ldir` is the direction of the line. -/
def rtpRecv (s : RxStream) (ldir : SdpDir) (hdr : RtpHeader) (mb : Payload) : Option RxStream :=
  if mb.length = 0 then some s
  else if !ldir.recv then some s
  else
    let s := { s with nRx := s.nRx + 1, bRx := s.bRx + mb.length }
    let flush := hdr.ssrc != s.ssrcRx && s.ssrcRx != 0
    let s := { s with ssrcRx := hdr.ssrc }
    match s.jbuf with
    | none => some (deliver s hdr hdr (some mb))
    | some jb =>
      match jbufPut (if flush then jbufFlush jb else jb) hdr mb with
      | none => none
      | some (_, jb) =>
        match jbufGet jb with
        | none => some (deliver { s with jbuf := some jb } hdr .zero none)
        | some ((hdr2, mb2), jb) => some (deliver { s with jbuf := some jb } hdr hdr2 mb2)

structure Packet where
  hdr : RtpHeader
  mb : Payload
  ldir : SdpDir
  deriving DecidableEq, Repr

def rtpRecvAll (s : RxStream) : List Packet → Option RxStream
  | [] => some s
  | p :: packets =>
    match rtpRecv s p.ldir p.hdr p.mb with
    | none => none
    | some s => rtpRecvAll s packets

def streamAlloc (min max : Nat) : Except Errno RxStream :=
  if min = 0 ∨ max = 0 then .ok ⟨none, 0, .allOnes 32, 0, 0, [], []⟩
  else
    match jbufAlloc min max with
    | .error e => .error e
    | .ok jb => .ok ⟨some jb, 0, .allOnes 32, 0, 0, [], []⟩

def RxStream.delivered (s : RxStream) : List (RtpHeader × Payload) :=
  s.handed.filterMap fun (hdr, mb) => mb.map fun mb => (hdr, mb)

def Packet.content (p : Packet) : RtpHeader × Payload := (p.hdr, p.mb)

def Packet.passes (p : Packet) : Bool := p.mb.length != 0 && p.ldir.recv

def Next (p q : Packet) : Prop := q.hdr.seq = p.hdr.seq + 1

structure InOrder (packets : List Packet) : Prop where
  next : packets.IsChain Next
  oneSsrc : ∃ ssrc, ∀ p ∈ packets, p.hdr.ssrc = ssrc

/-- What reaches the receive handler is a part of the packets, each once and in their order, and no loss
    is reported. -/
structure InSequence (s : RxStream) (packets : List Packet) : Prop where
  once : s.delivered.Sublist (packets.map Packet.content)
  lossless : ∀ lostc ∈ s.losts, lostc ≤ 0

/-- The start sequence numbers at which the first packet out of the buffer passes for one after a gap:
    until then `lostcalc` saw the zero header of a buffer that is filling. -/
def MistakenStart (seq : BitVec 16) : Prop := 2 ≤ seq.toNat ∧ seq.toNat < 3000

/-- No packet between two that pass is ignored; and when packets leave the buffer, it is not so long that
    they are taken for late, and the first one does not pass for one after a gap. -/
structure Steady (min max : Nat) (packets : List Packet) : Prop where
  next : (packets.filter Packet.passes).IsChain Next
  plays : min < max → min < (packets.filter Packet.passes).length →
    min ≤ 32766 ∧ ∀ p ∈ (packets.filter Packet.passes).head?, ¬ MistakenStart p.hdr.seq

theorem seqLess_next (seq : BitVec 16) : seqLess seq (seq + 1) = true := by
  have back : seq - (seq + 1) = -1 := by
    rw [← BitVec.sub_sub, BitVec.sub_self, BitVec.zero_sub]
  rw [seqLess, back]
  decide

theorem seqLess_filled (seq : BitVec 16) {n : Nat} (short : n ≤ 32766) :
    seqLess (seq + 1 + .ofNat 16 n) seq = false := by
  have ahead : seq + 1 + BitVec.ofNat 16 n - seq = BitVec.ofNat 16 (n + 1) := by
    apply BitVec.eq_of_toNat_eq
    simp
    omega
  have positive : (BitVec.ofNat 16 (n + 1)).msb = false := by
    rw [BitVec.msb_eq_decide]
    simp
    omega
  rw [seqLess, ahead, BitVec.slt_eq_decide, BitVec.toInt_eq_toNat_of_msb positive]
  simp
  omega

/-- `pseq` follows the packets, but for the last ones before the wrap, which pass for late ones. -/
def Tracks (pseq : BitVec 32) (seq : BitVec 16) : Prop :=
  pseq = seq.setWidth 32 ∨ pseq = 0 ∧ 0xff9c ≤ seq.toNat

theorem lostcalc_waiting {pseq : BitVec 32} (start : pseq = .allOnes 32 ∨ pseq = 0) :
    (lostcalc pseq 0).1 ≤ 0 ∧ (lostcalc pseq 0).2 = 0 := by
  rcases start with rfl | rfl <;> decide

theorem lostcalc_of_delta {pseq : BitVec 32} {seq delta : BitVec 16} (known : pseq ≠ .allOnes 32)
    (diff : (seq.setWidth 32 - pseq).setWidth 16 = delta) :
    lostcalc pseq seq =
      if delta = 0 then ((-1 : Int), pseq)
      else if delta < 3000 then (delta.toNat - 1, seq.setWidth 32)
      else if delta < 0xff9c then (0, seq.setWidth 32)
      else (-2, pseq) := by
  unfold lostcalc
  rw [if_neg known, diff]

theorem lostcalc_zero (seq : BitVec 16) :
    lostcalc 0 seq =
      if seq = 0 then ((-1 : Int), 0)
      else if seq < 3000 then (seq.toNat - 1, seq.setWidth 32)
      else if seq < 0xff9c then (0, seq.setWidth 32)
      else (-2, 0) := by
  apply lostcalc_of_delta (by decide)
  apply BitVec.eq_of_toNat_eq
  simp

theorem lostcalc_first {seq : BitVec 16} (start : ¬ MistakenStart seq) :
    (lostcalc 0 seq).1 ≤ 0 ∧ Tracks (lostcalc 0 seq).2 seq := by
  rw [lostcalc_zero]
  by_cases zero : seq = 0
  · rw [if_pos zero, zero]
    exact ⟨by decide, .inl rfl⟩
  · rw [if_neg zero]
    by_cases small : seq < 3000
    · rw [if_pos small]
      have low : seq.toNat < 2 := by
        rw [BitVec.lt_def] at small
        unfold MistakenStart at start
        simp at small
        omega
      exact ⟨by simp only; omega, .inl rfl⟩
    · rw [if_neg small]
      split
      · exact ⟨Int.le_refl 0, .inl rfl⟩
      · rename_i late
        rw [BitVec.not_lt, BitVec.le_def] at late
        exact ⟨by decide, .inr ⟨rfl, late⟩⟩

theorem lostcalc_next {pseq : BitVec 32} {seq : BitVec 16} (tracks : Tracks pseq seq) :
    (lostcalc pseq (seq + 1)).1 ≤ 0 ∧ Tracks (lostcalc pseq (seq + 1)).2 (seq + 1) := by
  rcases tracks with rfl | ⟨rfl, late⟩
  · have known : seq.setWidth 32 ≠ .allOnes 32 := by
      intro all
      have value := congrArg BitVec.toNat all
      simp at value
      omega
    have diff : ((seq + 1).setWidth 32 - seq.setWidth 32).setWidth 16 = (1 : BitVec 16) := by
      apply BitVec.eq_of_toNat_eq
      simp
      omega
    rw [lostcalc_of_delta known diff, if_neg (by decide), if_pos (by decide)]
    exact ⟨Int.le_refl 0, .inl rfl⟩
  · -- past the wrap the packets are no longer late
    apply lostcalc_first
    unfold MistakenStart
    have wrapped : (seq + 1).toNat = (seq.toNat + 1) % 65536 := by
      simp
    omega

theorem rtpRecv_ignores {p : Packet} (ignored : p.passes = false) (s : RxStream) :
    rtpRecv s p.ldir p.hdr p.mb = some s := by
  unfold rtpRecv
  by_cases empty : p.mb.length = 0
  · rw [if_pos empty]
  · have away : p.ldir.recv = false := by
      simpa [Packet.passes, empty] using ignored
    rw [if_neg empty, away]
    rfl

theorem rtpRecvAll_passes (s : RxStream) (packets : List Packet) :
    rtpRecvAll s packets = rtpRecvAll s (packets.filter Packet.passes) := by
  induction packets generalizing s with
  | nil => rfl
  | cons p packets ih =>
    cases passes : p.passes with
    | false =>
      rw [List.filter_cons_of_neg (by simp [passes]), ← ih, rtpRecvAll, rtpRecv_ignores passes]
    | true =>
      rw [List.filter_cons_of_pos passes, rtpRecvAll, rtpRecvAll]
      cases rtpRecv s p.ldir p.hdr p.mb with
      | none => rfl
      | some s' => exact ih s'

structure Received (s : RxStream) (p : Packet) (jb : Jbuf Payload) (seq : BitVec 16)
    (out : List (RtpHeader × Payload)) (s' : RxStream) : Prop where
  jbuf : s'.jbuf = some jb
  ssrcRx : s'.ssrcRx = p.hdr.ssrc
  pseq : s'.pseq = (lostcalc s.pseq seq).2
  losts : s'.losts = s.losts ++ [(lostcalc s.pseq seq).1]
  delivered : s'.delivered = s.delivered ++ out

theorem deliver_delivered (s : RxStream) (hdr hdr2 : RtpHeader) (mb2 : Option Payload) :
    (deliver s hdr hdr2 mb2).delivered = s.delivered ++ (mb2.map fun mb => (hdr2, mb)).toList := by
  unfold deliver RxStream.delivered
  simp only
  split
  · cases mb2 <;> simp [RxStream.hand]
  · cases mb2 <;> simp [RxStream.hand]

theorem deliver_received (s : RxStream) (p : Packet) (nRx : BitVec 32) (bRx : Nat) (jb : Jbuf Payload)
    (hdr2 : RtpHeader) (mb2 : Option Payload) :
    Received s p jb hdr2.seq (mb2.map fun mb => (hdr2, mb)).toList
      (deliver { s with nRx := nRx, bRx := bRx, ssrcRx := p.hdr.ssrc, jbuf := some jb } p.hdr hdr2 mb2) := by
  constructor
  · unfold deliver
    simp only
    split <;> rfl
  · unfold deliver
    simp only
    split <;> rfl
  · unfold deliver
    simp only
    split <;> rfl
  · unfold deliver
    simp only
    split <;> rfl
  · exact deliver_delivered ..

structure Ready (s : RxStream) (p : Packet) : Prop where
  passes : p.passes = true
  ssrc : s.ssrcRx = 0 ∨ s.ssrcRx = p.hdr.ssrc

theorem rtpRecv_ready {s : RxStream} {p : Packet} (ready : Ready s p) {jb : Jbuf Payload}
    (buffer : s.jbuf = some jb) :
    rtpRecv s p.ldir p.hdr p.mb =
      match jbufPut jb p.hdr p.mb with
      | none => none
      | some (_, jb) =>
        match jbufGet jb with
        | none =>
          some (deliver { s with
            nRx := s.nRx + 1, bRx := s.bRx + p.mb.length, ssrcRx := p.hdr.ssrc, jbuf := some jb }
            p.hdr .zero none)
        | some ((hdr2, mb2), jb) =>
          some (deliver { s with
            nRx := s.nRx + 1, bRx := s.bRx + p.mb.length, ssrcRx := p.hdr.ssrc, jbuf := some jb }
            p.hdr hdr2 mb2) := by
  have passes := ready.passes
  simp only [Packet.passes, Bool.and_eq_true, bne_iff_ne] at passes
  have keeps : (p.hdr.ssrc != s.ssrcRx && s.ssrcRx != 0) = false := by
    rcases ready.ssrc with fresh | same
    · simp [fresh]
    · simp [same]
  unfold rtpRecv
  rw [if_neg passes.1, passes.2, if_neg (by decide)]
  cases put : jbufPut jb p.hdr p.mb with
  | none => simp only [buffer, keeps, Bool.false_eq_true, if_false, put]
  | some put' =>
    cases get : jbufGet put'.2 with
    | none => simp only [buffer, keeps, Bool.false_eq_true, if_false, put, get]
    | some out => simp only [buffer, keeps, Bool.false_eq_true, if_false, put, get]

theorem received_waiting {s : RxStream} {p : Packet} (ready : Ready s p) {jb jb' : Jbuf Payload}
    {result : Option Errno} (buffer : s.jbuf = some jb) (put : jbufPut jb p.hdr p.mb = some (result, jb'))
    (get : jbufGet jb' = none) :
    ∃ s', rtpRecv s p.ldir p.hdr p.mb = some s' ∧ Received s p jb' 0 [] s' := by
  rw [rtpRecv_ready ready buffer, put]
  simp only [get]
  exact ⟨_, rfl, deliver_received s p _ _ jb' .zero none⟩

theorem received_playing {s : RxStream} {p : Packet} (ready : Ready s p) {jb jb' jb'' : Jbuf Payload}
    {result : Option Errno} {hdr2 : RtpHeader} {mb2 : Payload} (buffer : s.jbuf = some jb)
    (put : jbufPut jb p.hdr p.mb = some (result, jb'))
    (get : jbufGet jb' = some ((hdr2, some mb2), jb'')) :
    ∃ s', rtpRecv s p.ldir p.hdr p.mb = some s' ∧ Received s p jb'' hdr2.seq [(hdr2, mb2)] s' := by
  rw [rtpRecv_ready ready buffer, put]
  simp only [get]
  exact ⟨_, rfl, deliver_received s p _ _ jb'' hdr2 (some mb2)⟩

structure Waiting (s : RxStream) (jb : Jbuf Payload) (ssrc : BitVec 32) : Prop where
  buffer : s.jbuf = some jb
  counted : jb.Counted
  room : 0 < jb.max
  source : s.ssrcRx = 0 ∨ s.ssrcRx = ssrc
  pseq : s.pseq = .allOnes 32 ∨ s.pseq = 0
  lossless : ∀ lostc ∈ s.losts, lostc ≤ 0
  delivered : s.delivered = []

theorem lossless_append {losts : List Int} (lossless : ∀ lostc ∈ losts, lostc ≤ 0) {lostc : Int}
    (none_ : lostc ≤ 0) : ∀ l ∈ losts ++ [lostc], l ≤ 0 := by
  intro l member
  rw [List.mem_append, List.mem_singleton] at member
  rcases member with old | rfl
  · exact lossless l old
  · exact none_

theorem waiting_step {s : RxStream} {jb : Jbuf Payload} {p : Packet}
    (waiting : Waiting s jb p.hdr.ssrc) (passes : p.passes = true)
    (filling : jb.min = jb.max ∨ jb.n + 1 ≤ jb.min) :
    ∃ s' jb', rtpRecv s p.ldir p.hdr p.mb = some s' ∧ Waiting s' jb' p.hdr.ssrc ∧ PutFrom jb jb' := by
  have ready : Ready s p := ⟨passes, waiting.source⟩
  obtain ⟨⟨result, jb'⟩, put, putFrom⟩ := jbufPut_counted waiting.counted waiting.room p.hdr p.mb
  have total := putFrom.counted.total
  have n_eq := putFrom.counted.n_eq
  have min_eq := putFrom.min_eq
  have max_eq := putFrom.max_eq
  have n_le := putFrom.n_le
  have few : jb'.n ≤ jb'.min := by
    simp only at *
    omega
  obtain ⟨s', received, effect⟩ := received_waiting ready waiting.buffer put (jbufGet_filling few)
  obtain ⟨lostc, pseq⟩ := lostcalc_waiting waiting.pseq
  refine ⟨s', jb', received, ?_, putFrom⟩
  constructor
  · exact effect.jbuf
  · exact putFrom.counted
  · rw [max_eq]
    exact waiting.room
  · exact .inr effect.ssrcRx
  · exact .inr (effect.pseq.trans pseq)
  · rw [effect.losts]
    exact lossless_append waiting.lossless lostc
  · rw [effect.delivered, waiting.delivered]
    rfl

theorem waiting_run {s : RxStream} {jb : Jbuf Payload} {ssrc : BitVec 32} (waiting : Waiting s jb ssrc)
    (packets : List Packet) (passes : ∀ p ∈ packets, p.passes = true)
    (source : ∀ p ∈ packets, p.hdr.ssrc = ssrc)
    (filling : jb.min = jb.max ∨ jb.n + packets.length ≤ jb.min) :
    ∃ s' jb', rtpRecvAll s packets = some s' ∧ Waiting s' jb' ssrc := by
  induction packets generalizing s jb with
  | nil => exact ⟨s, jb, rfl, waiting⟩
  | cons p packets ih =>
    rw [List.forall_mem_cons] at passes source
    rw [List.length_cons] at filling
    rw [← source.1] at waiting
    obtain ⟨s', jb', received, waiting', putFrom⟩ := waiting_step waiting passes.1 (by omega)
    have min_eq := putFrom.min_eq
    have max_eq := putFrom.max_eq
    have n_le := putFrom.n_le
    rw [source.1] at waiting'
    obtain ⟨s'', jb'', rest, waiting''⟩ := ih waiting' passes.2 source.2 (by omega)
    exact ⟨s'', jb'', by rw [rtpRecvAll, received]; exact rest, waiting''⟩

def frameContent (f : Frame Payload) : RtpHeader × Option Payload := (f.hdr, f.mem)

def Packet.framed (p : Packet) : RtpHeader × Option Payload := (p.hdr, some p.mb)

/-- A stream that delivers: of the packets that came, `out` were delivered and `buf` are in the buffer. -/
structure Playing (s : RxStream) (jb : Jbuf Payload) (out buf : List Packet) : Prop where
  buffer : s.jbuf = some jb
  counted : jb.Counted
  frames : jb.framel.map frameContent = buf.map Packet.framed
  filled : buf.length = jb.min ∨ out = [] ∧ buf.length < jb.min
  started : jb.running = true → out ++ buf ≠ []
  seqPut : ∀ p, (out ++ buf).getLast? = some p → jb.seqPut = p.hdr.seq
  source : ∀ p ∈ out ++ buf, s.ssrcRx = p.hdr.ssrc
  fresh : out ++ buf = [] → s.ssrcRx = 0 ∧ s.pseq = .allOnes 32
  filling : out = [] → buf ≠ [] → s.pseq = 0
  tracks : ∀ p, out.getLast? = some p → Tracks s.pseq p.hdr.seq
  lossless : ∀ lostc ∈ s.losts, lostc ≤ 0
  delivered : s.delivered = out.map Packet.content

theorem Playing.n_eq {s : RxStream} {jb : Jbuf Payload} {out buf : List Packet}
    (playing : Playing s jb out buf) : jb.n = buf.length := by
  have frames := congrArg List.length playing.frames
  rw [List.length_map, List.length_map] at frames
  rw [playing.counted.n_eq, frames]

theorem Playing.ready {s : RxStream} {jb : Jbuf Payload} {out buf : List Packet} {p : Packet}
    (playing : Playing s jb out buf) (passes : p.passes = true)
    (oneSsrc : ∀ q ∈ out ++ buf, q.hdr.ssrc = p.hdr.ssrc) : Ready s p := by
  refine ⟨passes, ?_⟩
  cases came : out ++ buf with
  | nil => exact .inl (playing.fresh came).1
  | cons q rest =>
    have member : q ∈ out ++ buf := by simp [came]
    exact .inr ((playing.source q member).trans (oneSsrc q member))

structure PutLast (jb jb' : Jbuf Payload) (buf : List Packet) (p : Packet) : Prop where
  put : jbufPut jb p.hdr p.mb = some (none, jb')
  counted : jb'.Counted
  frames : jb'.framel.map frameContent = (buf ++ [p]).map Packet.framed
  n_eq : jb'.n = buf.length + 1
  seqPut : jb'.seqPut = p.hdr.seq
  min_eq : jb'.min = jb.min
  max_eq : jb'.max = jb.max

theorem Playing.put {s : RxStream} {jb : Jbuf Payload} {out buf : List Packet} {p : Packet}
    (playing : Playing s jb out buf) (short : jb.min ≤ 32766) (room : jb.min < jb.max)
    (next : ∀ q, (out ++ buf).getLast? = some q → Next q p) : ∃ jb', PutLast jb jb' buf p := by
  have n_eq := playing.n_eq
  have counted_n := playing.counted.n_eq
  have total := playing.counted.total
  have few : jb.n ≤ jb.min := by
    have filled := playing.filled
    omega
  have onTime : jb.late p.hdr.seq = false := by
    unfold Jbuf.late
    cases running : jb.running with
    | false => rfl
    | true =>
      have last := List.getLast?_eq_some_getLast (playing.started running)
      rw [next _ last, playing.seqPut _ last, seqLess_filled _ (by omega)]
      rfl
  have later : ∀ tail, jb.framel.getLast? = some tail → seqLess tail.hdr.seq p.hdr.seq = true := by
    intro tail last
    have lasts := congrArg List.getLast? playing.frames
    rw [List.getLast?_map, List.getLast?_map, last] at lasts
    cases final : buf.getLast? with
    | none => simp [final] at lasts
    | some q =>
      rw [final] at lasts
      have same : tail.hdr = q.hdr := congrArg Prod.fst (Option.some.inj lasts)
      have follows := next q (by rw [List.getLast?_append, final]; rfl)
      rw [same, follows]
      exact seqLess_next _
  cases pool : jb.pooll with
  | nil =>
    rw [pool, List.length_nil] at total
    omega
  | cons free pooll =>
    rw [pool, List.length_cons] at total
    refine ⟨_, jbufPut_last p.mb onTime pool later, ⟨?_, ?_⟩, ?_, ?_, rfl, rfl, rfl⟩
    · simp only [List.length_append, List.length_singleton]
      omega
    · simp only [List.length_append, List.length_singleton]
      omega
    · simp only [List.map_append, playing.frames]
      rfl
    · simp only
      omega

theorem playing_fill {s : RxStream} {jb : Jbuf Payload} {buf : List Packet} {p : Packet}
    (playing : Playing s jb [] buf) (fills : buf.length < jb.min) (passes : p.passes = true)
    (oneSsrc : ∀ q ∈ buf, q.hdr.ssrc = p.hdr.ssrc) {jb' : Jbuf Payload} (put : PutLast jb jb' buf p) :
    ∃ s', rtpRecv s p.ldir p.hdr p.mb = some s' ∧ Playing s' jb' [] (buf ++ [p]) := by
  have n_eq := put.n_eq
  have min_eq := put.min_eq
  have ready := playing.ready passes oneSsrc
  have get : jbufGet jb' = none := jbufGet_filling (by omega)
  obtain ⟨s', received, effect⟩ := received_waiting ready playing.buffer put.put get
  have waits : s.pseq = .allOnes 32 ∨ s.pseq = 0 := by
    cases buf with
    | nil => exact .inl (playing.fresh rfl).2
    | cons q buf => exact .inr (playing.filling rfl (List.cons_ne_nil q buf))
  obtain ⟨lostc, pseq⟩ := lostcalc_waiting waits
  refine ⟨s', received, ?_⟩
  constructor
  · exact effect.jbuf
  · exact put.counted
  · exact put.frames
  · rw [List.length_append, List.length_singleton, min_eq]
    have step : buf.length + 1 = jb.min ∨ buf.length + 1 < jb.min := by omega
    exact step.imp id fun less => ⟨rfl, less⟩
  · simp
  · intro q last
    simp only [List.nil_append, List.getLast?_append, List.getLast?_singleton, Option.some_or,
      Option.some.injEq] at last
    rw [← last]
    exact put.seqPut
  · intro q member
    rw [effect.ssrcRx]
    simp only [List.nil_append, List.mem_append, List.mem_singleton] at member
    rcases member with old | rfl
    · exact (oneSsrc q old).symm
    · rfl
  · simp
  · intro _ _
    exact effect.pseq.trans pseq
  · intro q last
    contradiction
  · rw [effect.losts]
    exact lossless_append playing.lossless lostc
  · rw [effect.delivered, playing.delivered]
    rfl

theorem playing_shift {s : RxStream} {jb : Jbuf Payload} {out buf : List Packet} {p q : Packet}
    {rest : List Packet} (playing : Playing s jb out buf) (full : buf.length = jb.min)
    (passes : p.passes = true) (oneSsrc : ∀ q ∈ out ++ buf, q.hdr.ssrc = p.hdr.ssrc)
    {jb' : Jbuf Payload} (put : PutLast jb jb' buf p) (queue : buf ++ [p] = q :: rest)
    (lostc : (lostcalc s.pseq q.hdr.seq).1 ≤ 0) (tracks : Tracks (lostcalc s.pseq q.hdr.seq).2 q.hdr.seq) :
    ∃ s' jb'', rtpRecv s p.ldir p.hdr p.mb = some s' ∧ Playing s' jb'' (out ++ [q]) rest ∧
      jb''.min = jb.min ∧ jb''.max = jb.max := by
  have n_eq := put.n_eq
  have min_eq := put.min_eq
  have total := put.counted.total
  have counted_n := put.counted.n_eq
  have ready := playing.ready passes oneSsrc
  have frames := put.frames
  rw [queue] at frames
  obtain ⟨f, framel, buffered, head, tail⟩ := List.map_eq_cons_iff.mp frames
  have get := jbufGet_full buffered (by omega)
  have hdr : f.hdr = q.hdr := congrArg Prod.fst head
  have mem : f.mem = some q.mb := congrArg Prod.snd head
  rw [hdr, mem] at get
  obtain ⟨s', received, effect⟩ := received_playing ready playing.buffer put.put get
  have came : out ++ [q] ++ rest = out ++ buf ++ [p] := by
    rw [List.append_assoc, List.append_assoc, queue]
    rfl
  have length := congrArg List.length queue
  rw [List.length_append, List.length_singleton, List.length_cons] at length
  rw [buffered, List.length_cons] at total counted_n
  refine ⟨s', { jb' with framel := framel }.release f, received, ?_, min_eq, put.max_eq⟩
  constructor
  · exact effect.jbuf
  · constructor
    · simp only [Jbuf.release]
      omega
    · simp only [Jbuf.release, List.length_append, List.length_singleton]
      omega
  · exact tail
  · left
    simp only [Jbuf.release]
    omega
  · simp
  · intro q' last
    rw [came, List.getLast?_append] at last
    simp only [List.getLast?_singleton, Option.some_or, Option.some.injEq] at last
    rw [← last]
    exact put.seqPut
  · intro q' member
    rw [effect.ssrcRx]
    rw [came, List.mem_append, List.mem_singleton] at member
    rcases member with old | rfl
    · exact (oneSsrc q' old).symm
    · rfl
  · simp
  · simp
  · intro q' last
    simp only [List.getLast?_append, List.getLast?_singleton, Option.some_or, Option.some.injEq] at last
    rw [← last, effect.pseq]
    exact tracks
  · rw [effect.losts]
    exact lossless_append playing.lossless lostc
  · rw [effect.delivered, playing.delivered, List.map_append]
    rfl

structure Continues (came : List Packet) (p : Packet) : Prop where
  passes : p.passes = true
  oneSsrc : ∀ q ∈ came, q.hdr.ssrc = p.hdr.ssrc
  next : (came ++ [p]).IsChain Next
  start : ∀ q, (came ++ [p]).head? = some q → ¬ MistakenStart q.hdr.seq

theorem playing_step {s : RxStream} {jb : Jbuf Payload} {out buf : List Packet} {p : Packet}
    (playing : Playing s jb out buf) (some_ : 0 < jb.min) (short : jb.min ≤ 32766) (room : jb.min < jb.max)
    (continues : Continues (out ++ buf) p) :
    ∃ s' jb' out' buf', rtpRecv s p.ldir p.hdr p.mb = some s' ∧ Playing s' jb' out' buf' ∧
      out' ++ buf' = out ++ buf ++ [p] ∧ jb'.min = jb.min ∧ jb'.max = jb.max := by
  have chained := (List.isChain_append.mp continues.next).2.2
  obtain ⟨jb', put⟩ := playing.put short room fun q last => chained q last p rfl
  rcases playing.filled with full | ⟨rfl, fills⟩
  · obtain ⟨q, rest, queue⟩ := List.exists_cons_of_ne_nil (List.append_ne_nil_of_right_ne_nil buf
      (List.cons_ne_nil p []))
    have lost : (lostcalc s.pseq q.hdr.seq).1 ≤ 0 ∧ Tracks (lostcalc s.pseq q.hdr.seq).2 q.hdr.seq := by
      cases last : out.getLast? with
      | none =>
        rw [List.getLast?_eq_none_iff] at last
        have buffering : buf ≠ [] := by
          rintro rfl
          rw [List.length_nil] at full
          omega
        rw [playing.filling last buffering]
        apply lostcalc_first
        apply continues.start q
        rw [last, List.nil_append, queue]
        rfl
      | some r =>
        have next := continues.next
        rw [List.append_assoc, queue, List.isChain_append] at next
        rw [next.2.2 r last q rfl]
        exact lostcalc_next (playing.tracks r last)
    obtain ⟨s', jb'', received, playing', min_eq, max_eq⟩ :=
      playing_shift playing full continues.passes continues.oneSsrc put queue lost.1 lost.2
    refine ⟨s', jb'', out ++ [q], rest, received, playing', ?_, min_eq, max_eq⟩
    rw [List.append_assoc, List.append_assoc, queue]
    rfl
  · obtain ⟨s', received, playing'⟩ := playing_fill playing fills continues.passes continues.oneSsrc put
    exact ⟨s', jb', [], buf ++ [p], received, playing', rfl, put.min_eq, put.max_eq⟩

theorem playing_run {s : RxStream} {jb : Jbuf Payload} {out buf : List Packet}
    (playing : Playing s jb out buf) (some_ : 0 < jb.min) (short : jb.min ≤ 32766) (room : jb.min < jb.max)
    (packets : List Packet)
    (continues : ∀ before p after, packets = before ++ p :: after → Continues (out ++ buf ++ before) p) :
    ∃ s' jb' out' buf', rtpRecvAll s packets = some s' ∧ Playing s' jb' out' buf' ∧
      out' ++ buf' = out ++ buf ++ packets := by
  induction packets generalizing s jb out buf with
  | nil => exact ⟨s, jb, out, buf, rfl, playing, by simp⟩
  | cons p packets ih =>
    have first := continues [] p packets rfl
    rw [List.append_nil] at first
    obtain ⟨s', jb', out', buf', received, playing', came, min_eq, max_eq⟩ :=
      playing_step playing some_ short room first
    have rest : ∀ before q after, packets = before ++ q :: after → Continues (out' ++ buf' ++ before) q := by
      intro before q after split_
      have later := continues (p :: before) q after (by rw [split_]; rfl)
      rw [came, List.append_assoc, List.singleton_append]
      exact later
    obtain ⟨s'', jb'', out'', buf'', received', playing'', came'⟩ :=
      ih playing' (min_eq ▸ some_) (min_eq ▸ short) (min_eq ▸ max_eq ▸ room) rest
    refine ⟨s'', jb'', out'', buf'', ?_, playing'', ?_⟩
    · rw [rtpRecvAll, received]
      exact received'
    · rw [came', came, List.append_assoc, List.singleton_append]

theorem continues_of_chain {packets : List Packet} (passes : ∀ p ∈ packets, p.passes = true)
    {ssrc : BitVec 32} (oneSsrc : ∀ p ∈ packets, p.hdr.ssrc = ssrc) (next : packets.IsChain Next)
    (start : ∀ p ∈ packets.head?, ¬ MistakenStart p.hdr.seq) {before after : List Packet} {p : Packet}
    (split_ : packets = before ++ p :: after) : Continues before p := by
  have whole : packets = (before ++ [p]) ++ after := by
    rw [split_, List.append_assoc]
    rfl
  constructor
  · exact passes p (by simp [split_])
  · intro q member
    rw [oneSsrc q (by simp [split_, member]), oneSsrc p (by simp [split_])]
  · rw [whole] at next
    exact next.left_of_append
  · intro q first
    apply start q
    rw [whole, List.head?_append, first]
    rfl

def opened (min max : Nat) : RxStream := ⟨some (.new min max), 0, .allOnes 32, 0, 0, [], []⟩

theorem streamAlloc_opened {min max : Nat} (some_ : 0 < min) (le : min ≤ max) :
    streamAlloc min max = .ok (opened min max) := by
  unfold streamAlloc jbufAlloc
  rw [if_neg (by omega), if_neg (by omega)]
  rfl

theorem sublist_passing (packets : List Packet) :
    ((packets.filter Packet.passes).map Packet.content).Sublist (packets.map Packet.content) :=
  List.filter_sublist.map _

theorem opened_waits {min max : Nat} (some_ : 0 < min) (le : min ≤ max) {ssrc : BitVec 32}
    {packets : List Packet} (passes : ∀ p ∈ packets, p.passes = true)
    (oneSsrc : ∀ p ∈ packets, p.hdr.ssrc = ssrc) (few : min = max ∨ packets.length ≤ min) :
    ∃ s, rtpRecvAll (opened min max) packets = some s ∧ s.delivered = [] ∧ ∀ lostc ∈ s.losts, lostc ≤ 0 := by
  have waiting : Waiting (opened min max) (.new min max) ssrc :=
    ⟨rfl, Jbuf.new_counted min max, Nat.lt_of_lt_of_le some_ le, .inl rfl, .inl rfl, nofun, rfl⟩
  have filling : min = max ∨ 0 + packets.length ≤ min := by simpa using few
  obtain ⟨s, jb, run, after⟩ := waiting_run waiting packets passes oneSsrc filling
  exact ⟨s, run, after.delivered, after.lossless⟩

theorem opened_plays {min max : Nat} (some_ : 0 < min) (short : min ≤ 32766) (room : min < max)
    {ssrc : BitVec 32} {packets : List Packet} (passes : ∀ p ∈ packets, p.passes = true)
    (oneSsrc : ∀ p ∈ packets, p.hdr.ssrc = ssrc) (next : packets.IsChain Next)
    (start : ∀ p ∈ packets.head?, ¬ MistakenStart p.hdr.seq) :
    ∃ s out, rtpRecvAll (opened min max) packets = some s ∧ out <+: packets ∧
      s.delivered = out.map Packet.content ∧ ∀ lostc ∈ s.losts, lostc ≤ 0 := by
  have playing : Playing (opened min max) (.new min max) [] [] := by
    constructor
    · rfl
    · exact Jbuf.new_counted min max
    · rfl
    · exact .inr ⟨rfl, some_⟩
    · nofun
    · nofun
    · nofun
    · exact fun _ => ⟨rfl, rfl⟩
    · exact fun _ some_ => absurd rfl some_
    · nofun
    · nofun
    · rfl
  obtain ⟨s, jb, out, buf, run, after, came⟩ := playing_run playing some_ short room packets
    fun before p after split_ => continues_of_chain passes oneSsrc next start split_
  exact ⟨s, out, run, ⟨buf, came⟩, after.delivered, after.lossless⟩

/-- Every run of packets in order is delivered in sequence, without a loss, when it is steady. -/
theorem rtpRecv_in_sequence (min max : Nat) (some_ : 0 < min) (le : min ≤ max) (packets : List Packet)
    (inOrder : InOrder packets) (steady : Steady min max packets) :
    ∃ start s, streamAlloc min max = .ok start ∧ rtpRecvAll start packets = some s ∧
      InSequence s packets := by
  obtain ⟨ssrc, source⟩ := inOrder.oneSsrc
  have passes : ∀ p ∈ packets.filter Packet.passes, p.passes = true := fun p member =>
    (List.mem_filter.mp member).2
  have oneSsrc : ∀ p ∈ packets.filter Packet.passes, p.hdr.ssrc = ssrc := fun p member =>
    source p (List.mem_filter.mp member).1
  have part := sublist_passing packets
  by_cases plays : min < max ∧ min < (packets.filter Packet.passes).length
  · obtain ⟨short, start⟩ := steady.plays plays.1 plays.2
    obtain ⟨s, out, run, initial, delivered, lossless⟩ :=
      opened_plays some_ short plays.1 passes oneSsrc steady.next start
    rw [← rtpRecvAll_passes] at run
    refine ⟨_, s, streamAlloc_opened some_ le, run, ?_, lossless⟩
    rw [delivered]
    exact (initial.sublist.map _).trans part
  · obtain ⟨s, run, delivered, lossless⟩ := opened_waits some_ le passes oneSsrc (by omega)
    rw [← rtpRecvAll_passes] at run
    refine ⟨_, s, streamAlloc_opened some_ le, run, ?_, lossless⟩
    rw [delivered]
    exact List.nil_sublist _

def numbered (seq : BitVec 16) : Packet := ⟨{ RtpHeader.zero with seq := seq, ssrc := 9 }, [1], .sendrecv⟩

instance : DecidableRel Next := fun p q => inferInstanceAs (Decidable (q.hdr.seq = p.hdr.seq + 1))

instance (seq : BitVec 16) : Decidable (MistakenStart seq) :=
  inferInstanceAs (Decidable (2 ≤ seq.toNat ∧ seq.toNat < 3000))

theorem rtpRecv_in_sequence_wrapping :
    InOrder [numbered 65534, numbered 65535, numbered 0, numbered 1] ∧
      ∃ start s, streamAlloc 2 4 = .ok start ∧
        rtpRecvAll start [numbered 65534, numbered 65535, numbered 0, numbered 1] = some s ∧
        InSequence s [numbered 65534, numbered 65535, numbered 0, numbered 1] := by
  have inOrder : InOrder [numbered 65534, numbered 65535, numbered 0, numbered 1] := by
    refine ⟨by decide, 9, ?_⟩
    simp [numbered]
  have steady : Steady 2 4 [numbered 65534, numbered 65535, numbered 0, numbered 1] := by
    refine ⟨by decide, fun _ _ => ⟨by decide, by decide⟩⟩
  exact ⟨inOrder, rtpRecv_in_sequence 2 4 (by decide) (by decide) _ inOrder steady⟩

theorem rtpRecv_loss_at_start :
    InOrder [numbered 5, numbered 6] ∧
      ¬ ∃ start s, streamAlloc 1 2 = .ok start ∧ rtpRecvAll start [numbered 5, numbered 6] = some s ∧
        InSequence s [numbered 5, numbered 6] := by
  refine ⟨⟨by decide, 9, by simp [numbered]⟩, ?_⟩
  rintro ⟨start, s, alloc, run, inSequence⟩
  obtain rfl := Except.ok.inj alloc
  obtain rfl := Option.some.inj run
  exact absurd (inSequence.lossless 4 (by decide)) (by decide)

end Baresip.Stream
