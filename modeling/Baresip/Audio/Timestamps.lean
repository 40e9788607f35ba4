import Baresip.Library.Clock
import Baresip.Library.Runs
import Baresip.Ua.Csl
import Mathlib.Algebra.Order.Field.Rat
import Mathlib.Algebra.Order.Ring.Rat
import Mathlib.Tactic.LinearCombination

set_option linter.dupNamespace false

namespace Baresip.Transmit

open Re Csl Library

def calcNsamp (srate : BitVec 32) (channels : BitVec 8) (ptime : BitVec 16) : BitVec 32 :=
  srate * channels.setWidth 32 * ptime.setWidth 32 / 1000

def isG722 (ac : Aucodec) : Bool := ac.name.map tolower == (ascii "G722").map tolower

def getSrate (ac : Aucodec) : BitVec 32 := if isG722 ac then 16000 else ac.srate

def aucodecEqual (a b : Aucodec) : Bool := getSrate a == getSrate b && a.ch == b.ch

def aucodecCmp (l r : Aucodec) : Bool :=
  l.name.map tolower == r.name.map tolower && l.srate == r.srate && l.ch == r.ch

structure Range where
  min : BitVec 32
  max : BitVec 32
  deriving DecidableEq, Repr

structure AusrcPrm where
  srate : BitVec 32
  ch : BitVec 8
  frameSize : BitVec 32
  deriving DecidableEq, Repr

/-- Of the audio buffer only the time of the next read is kept: what it holds decides which samples are
    read, and not how many. -/
structure Aubuf where
  ts : Nat
  deriving DecidableEq, Repr

def aubufGet (ab : Option Aubuf) (ptime : BitVec 32) (now : Nat) : Except Errno Aubuf :=
  match ab with
  | none => .error .EINVAL
  | some ab =>
    if ptime = 0 then .error .EINVAL
    else
      let ts := if ab.ts = 0 then now else ab.ts
      if now < ts then .error .ETIMEDOUT else .ok ⟨ts + ptime.toNat⟩

structure Autx where
  ausrc : Bool
  enc : Option Aucodec
  ab : Option Aubuf
  ptime : BitVec 32
  ts : BitVec 32
  psize : BitVec 32
  marker : Bool
  isG722 : Bool
  deriving DecidableEq, Repr

/-- `prm` are the parameters that the size of the packets was computed from. -/
structure Audio where
  tx : Autx
  dec : Option Aucodec
  fc : Bool
  prm : AusrcPrm
  deriving DecidableEq, Repr

def audioAlloc (ptime : BitVec 32) : Audio :=
  ⟨⟨false, none, none, ptime, 160, 0, true, false⟩, none, false, ⟨0, 0, 0⟩⟩

/-- What `audio_start` finds: whether the stream starts, whether filters are registered and their chain is
    allocated, whether there is an audio source and it opens. -/
structure Start where
  stream : Bool
  filters : Bool
  chain : Bool
  source : Bool
  opened : Bool
  deriving DecidableEq, Repr

section
variable (srateSrc : Range)

/-- The encoder's half of `aufilt_setup`. -/
def aufiltSetup (enc : Option Aucodec) : BitVec 32 :=
  match enc with
  | none => 0
  | some ac =>
    if srateSrc.min ≠ 0 then (if srateSrc.min > getSrate ac then srateSrc.min else getSrate ac)
    else if srateSrc.max ≠ 0 then (if srateSrc.max < getSrate ac then srateSrc.max else getSrate ac)
    else getSrate ac

def startSource (a : Audio) (srateEnc : BitVec 32) (env : Start) : Audio :=
  match a.tx.enc with
  | none => a
  | some ac =>
    if a.tx.ausrc || !env.source then a
    else
      let srate := if srateEnc ≠ 0 then srateEnc else getSrate ac
      let prm : AusrcPrm := ⟨srate, ac.ch, calcNsamp srate ac.ch (a.tx.ptime.setWidth 16)⟩
      let psize := 2 * prm.frameSize
      if a.tx.ab = none ∧ psize = 0 then { a with prm := prm, tx := { a.tx with psize := psize } }
      else
        { a with
          prm := prm
          tx := { a.tx with psize := psize, ab := some (a.tx.ab.getD ⟨0⟩), ausrc := env.opened } }

def audioStart (a : Audio) (env : Start) : Audio :=
  if !env.stream then a
  else if !a.fc && env.filters then
    if env.chain then startSource { a with fc := true } (aufiltSetup srateSrc a.tx.enc) env else a
  else startSource a 0 env

def audioStop (a : Audio) : Audio := { a with fc := false, tx := { a.tx with ausrc := false, ab := none } }

/-- `alloch` gives the packet time that the codec has settled for. -/
def audioEncoderSet (a : Audio) (ac : Aucodec) (alloch : Except Errno (BitVec 32)) (env : Start) : Audio :=
  let reset := a.tx.enc.any fun old => !aucodecEqual old ac
  let tx := { a.tx with ausrc := a.tx.ausrc && !reset, isG722 := isG722 ac, enc := none }
  match a.dec.filter (aucodecCmp ac) with
  | some dec =>
    let a := { a with tx := { tx with enc := some dec } }
    if reset then audioStart srateSrc a env else a
  | none =>
    match alloch with
    | .error _ => { a with tx := tx }
    | .ok ptime =>
      let a := { a with tx := { tx with enc := some ac, ptime := ptime } }
      if reset then audioStart srateSrc a env else a

def audioDecoderSet (a : Audio) (ac : Aucodec) (alloch : Except Errno Unit) (env : Start) : Audio :=
  let changed := a.dec.any fun old => !aucodecEqual old ac
  let dec := match a.tx.enc.filter (aucodecCmp ac), alloch with
    | some enc, _ => some enc
    | none, .ok _ => some ac
    | none, .error _ => none
  if dec.isSome && changed then audioStart srateSrc { a with dec := dec, fc := false } env
  else { a with dec := dec }

end

def audioPtimeTxSet (a : Audio) (ptimeTx : BitVec 32) : Audio := { a with tx := { a.tx with ptime := ptimeTx } }

/-- What one frame meets: the time, its length behind the filters, how many bytes the encoder makes of it, and
    whether `stream_send` fails or a packet leaves. -/
structure Frame where
  now : Nat
  filtered : Nat
  ench : Except Errno Nat
  send : Except Errno Bool

/-- The transmitter after a frame of `nsamp` samples, and whether a packet has left with the old timestamp. -/
def encodeRtpSend (tx : Autx) (f : Frame) (nsamp : BitVec 16) : Autx × Bool :=
  match tx.enc with
  | none => (tx, false)
  | some _ =>
    match f.ench, f.send with
    | .error _, _ => ({ tx with marker := false }, false)
    | .ok 0, _ => ({ tx with ts := tx.ts + nsamp.setWidth 32, marker := false }, false)
    | .ok (_ + 1), .error _ => ({ tx with marker := false }, false)
    | .ok (_ + 1), .ok sent => ({ tx with ts := tx.ts + nsamp.setWidth 32, marker := false }, sent)

def processAudioEncode (a : Audio) (f : Frame) (size : Nat) : Audio × Bool :=
  let mbEnd := if a.fc then f.filtered else size
  let (tx, sent) := encodeRtpSend a.tx f (BitVec.ofNat 16 (if a.tx.isG722 then mbEnd / 4 else mbEnd / 2))
  ({ a with tx := tx }, sent)

/-- `mbuf_alloc` gives its default size for 0. -/
def frameSize (tx : Autx) : Nat := if tx.psize = 0 then 512 else tx.psize.toNat

/-- Nothing happens before the next frame is due. -/
def pollAubufTx (a : Audio) (f : Frame) : Option (Audio × Bool) :=
  match aubufGet a.tx.ab a.tx.ptime f.now with
  | .error _ => none
  | .ok ab => some (processAudioEncode { a with tx := { a.tx with ab := some ab } } f (frameSize a.tx))

/-- The rate of the codec's RTP clock, which is not that of its samples for G722. -/
def rtpClock (ac : Aucodec) : BitVec 32 := if isG722 ac then 8000 else ac.srate

/-- How many ticks of the codec's clock the samples last for each channel. -/
def ticks (enc : Option Aucodec) (prm : AusrcPrm) (size : Nat) : ℚ :=
  match enc with
  | none => 0
  | some ac => size / 2 / prm.ch.toNat * (rtpClock ac).toNat / prm.srate.toNat

/-- A transmitter with the ticks it has taken from the audio buffer, and the readings at which its packets
    have left. -/
structure Session where
  audio : Audio
  taken : ℚ
  log : List (Reading ℚ)
  deriving DecidableEq

def Session.now (s : Session) : Reading ℚ := ⟨s.audio.tx.ts.toNat, s.taken⟩

def poll (s : Session) (f : Frame) : Session :=
  match pollAubufTx s.audio f with
  | none => s
  | some (audio, sent) =>
    ⟨audio, s.taken + ticks s.audio.tx.enc s.audio.prm (frameSize s.audio.tx),
      if sent then s.log ++ [s.now] else s.log⟩

inductive Action
  | encoderSet (ac : Aucodec) (alloch : Except Errno (BitVec 32)) (env : Start)
  | decoderSet (ac : Aucodec) (alloch : Except Errno Unit) (env : Start)
  | start (env : Start)
  | stop
  | ptimeTxSet (ptimeTx : BitVec 32)
  | poll (f : Frame)

def step (srateSrc : Range) (s : Session) : Action → Session
  | .encoderSet ac alloch env => { s with audio := audioEncoderSet srateSrc s.audio ac alloch env }
  | .decoderSet ac alloch env => { s with audio := audioDecoderSet srateSrc s.audio ac alloch env }
  | .start env => { s with audio := audioStart srateSrc s.audio env }
  | .stop => { s with audio := audioStop s.audio }
  | .ptimeTxSet ptimeTx => { s with audio := audioPtimeTxSet s.audio ptimeTx }
  | .poll f => poll s f

def initial (ptime : BitVec 32) : Session := ⟨audioAlloc ptime, 0, []⟩

/-- The timestamps of any two packets are as far apart as the audio that was taken between them. -/
def Timed (s : Session) : Prop := s.log.Pairwise (Reading.Agrees (2 ^ 32))

def Frame.fails (f : Frame) : Bool :=
  match f.ench, f.send with
  | .error _, _ => true
  | .ok 0, _ => false
  | .ok (_ + 1), .error _ => true
  | .ok (_ + 1), .ok _ => false

def Frame.leaves (f : Frame) : Bool :=
  match f.ench, f.send with
  | .ok (_ + 1), .ok sent => sent
  | _, _ => false

/-- The bytes of one tick at the codec's sampling rate. -/
def tickSize (ac : Aucodec) : Nat := if isG722 ac then 4 else 2

/-- A frame of one channel that the filters leave as long as it is, in whole ticks of which there are no more
    than 16 bits hold, and for which nothing fails. -/
structure Counted (ac : Aucodec) (a : Audio) (f : Frame) : Prop where
  mono : a.prm.ch = 1
  rate : a.prm.srate ≠ 0
  filtered : (if a.fc then f.filtered else frameSize a.tx) * a.prm.srate.toNat = frameSize a.tx * (getSrate ac).toNat
  whole : tickSize ac ∣ if a.fc then f.filtered else frameSize a.tx
  short : (if a.fc then f.filtered else frameSize a.tx) / tickSize ac < 2 ^ 16
  sends : f.fails = false

instance (ac : Aucodec) (a : Audio) (f : Frame) : Decidable (Counted ac a f) :=
  decidable_of_iff
    (a.prm.ch = 1 ∧ a.prm.srate ≠ 0 ∧
      (if a.fc then f.filtered else frameSize a.tx) * a.prm.srate.toNat = frameSize a.tx * (getSrate ac).toNat ∧
      (tickSize ac ∣ if a.fc then f.filtered else frameSize a.tx) ∧
      (if a.fc then f.filtered else frameSize a.tx) / tickSize ac < 2 ^ 16 ∧ f.fails = false)
    ⟨fun ⟨mono, rate, filtered, whole, short, sends⟩ => ⟨mono, rate, filtered, whole, short, sends⟩,
      fun counted => ⟨counted.mono, counted.rate, counted.filtered, counted.whole, counted.short, counted.sends⟩⟩

/-- From the first packet on every frame that is due is counted. -/
def CountedFrom (s : Session) : Action → Prop
  | .poll f => pollAubufTx s.audio f ≠ none →
    ∀ ac ∈ s.audio.tx.enc, s.log ≠ [] ∨ f.leaves = true → Counted ac s.audio f
  | _ => True

instance (s : Session) : (a : Action) → Decidable (CountedFrom s a)
  | .poll f => inferInstanceAs (Decidable (pollAubufTx s.audio f ≠ none →
    ∀ ac ∈ s.audio.tx.enc, s.log ≠ [] ∨ f.leaves = true → Counted ac s.audio f))
  | .encoderSet _ _ _ | .decoderSet _ _ _ | .start _ | .stop | .ptimeTxSet _ => .isTrue trivial

/-- All that the timestamps of the next frames depend on. -/
def timing (a : Audio) : BitVec 32 × Option Aucodec × Bool := (a.tx.ts, a.tx.enc, a.tx.isG722)

structure Kept (s : Session) : Prop where
  log : Timed s
  now : ∀ r ∈ s.log, r.Agrees (2 ^ 32) s.now
  codec : ∀ ac ∈ s.audio.tx.enc, s.audio.tx.isG722 = isG722 ac

section
variable {srateSrc : Range} {a : Audio} {s : Session}

theorem startSource_timing (srateEnc : BitVec 32) (env : Start) : timing (startSource a srateEnc env) = timing a := by
  unfold startSource
  split
  · rfl
  · dsimp only
    split_ifs
    all_goals rfl

theorem audioStart_timing (env : Start) : timing (audioStart srateSrc a env) = timing a := by
  unfold audioStart
  split_ifs
  · rfl
  · exact startSource_timing _ _
  · rfl
  · exact startSource_timing _ _

theorem isG722_of_cmp {ac dec : Aucodec} (same : aucodecCmp ac dec = true) : isG722 ac = isG722 dec := by
  unfold aucodecCmp at same
  rw [Bool.and_eq_true, Bool.and_eq_true, beq_iff_eq] at same
  unfold isG722
  rw [same.1.1]

/-- The encoder that is set has the clock that `is_g722` says. -/
theorem audioEncoderSet_timing (ac : Aucodec) (alloch : Except Errno (BitVec 32)) (env : Start) :
    ∃ enc, timing (audioEncoderSet srateSrc a ac alloch env) = (a.tx.ts, enc, isG722 ac) ∧
      ∀ ac' ∈ enc, isG722 ac = isG722 ac' := by
  unfold audioEncoderSet
  dsimp only
  split
  · rename_i dec found
    refine ⟨some dec, ?_, ?_⟩
    · split_ifs
      · exact audioStart_timing env
      · rfl
    · intro ac' member
      obtain rfl := Option.some.inj member
      exact isG722_of_cmp (Option.filter_eq_some_iff.mp found).2
  · split
    · exact ⟨none, rfl, nofun⟩
    · refine ⟨some ac, ?_, ?_⟩
      · split_ifs
        · exact audioStart_timing env
        · rfl
      · intro ac' member
        obtain rfl := Option.some.inj member
        rfl

theorem audioDecoderSet_timing (ac : Aucodec) (alloch : Except Errno Unit) (env : Start) :
    timing (audioDecoderSet srateSrc a ac alloch env) = timing a := by
  unfold audioDecoderSet
  dsimp only
  split_ifs
  · exact audioStart_timing env
  · rfl

theorem Kept.of_timing (kept : Kept s) {b : Audio} (ts : b.tx.ts = s.audio.tx.ts)
    (codec : ∀ ac ∈ b.tx.enc, b.tx.isG722 = isG722 ac) : Kept { s with audio := b } := by
  refine ⟨kept.log, ?_, codec⟩
  unfold Session.now
  rw [ts]
  exact kept.now

theorem Kept.of_same (kept : Kept s) {b : Audio} (same : timing b = timing s.audio) :
    Kept { s with audio := b } := by
  obtain ⟨ts, rest⟩ := Prod.mk.inj same
  obtain ⟨enc, g722⟩ := Prod.mk.inj rest
  apply kept.of_timing ts
  rw [enc, g722]
  exact kept.codec

end

theorem toNat_add_modEq (x y : BitVec 32) :
    AddCommGroup.ModEq (2 ^ 32 : ℚ) (x + y).toNat (x.toNat + y.toNat) := by
  have split : 2 ^ 32 * ((x.toNat + y.toNat) / 2 ^ 32) + (x + y).toNat = x.toNat + y.toNat := by
    rw [BitVec.toNat_add]
    exact Nat.div_add_mod _ _
  have cast : (2 ^ 32 : ℚ) * ((x.toNat + y.toNat) / 2 ^ 32 : Nat) + (x + y).toNat = x.toNat + y.toNat := by
    exact_mod_cast split
  rw [AddCommGroup.modEq_iff_nsmul]
  refine ⟨(x.toNat + y.toNat) / 2 ^ 32, 0, ?_⟩
  rw [nsmul_eq_mul, zero_nsmul, zero_add, mul_comm]
  exact cast

theorem Counted.ticks_eq {ac : Aucodec} {a : Audio} {f : Frame} (counted : Counted ac a f) :
    (((if a.fc then f.filtered else frameSize a.tx) / tickSize ac : Nat) : ℚ) =
      ticks (some ac) a.prm (frameSize a.tx) := by
  have rate : (a.prm.srate.toNat : ℚ) ≠ 0 := by
    exact_mod_cast fun zero => counted.rate (BitVec.eq_of_toNat_eq zero)
  have filtered := counted.filtered
  have whole := counted.whole
  generalize (if a.fc then f.filtered else frameSize a.tx) = mbEnd at filtered whole ⊢
  obtain ⟨n, rfl⟩ := whole
  have same : ((tickSize ac * n : Nat) : ℚ) * a.prm.srate.toNat = frameSize a.tx * (getSrate ac).toNat := by
    exact_mod_cast filtered
  have one : (a.prm.ch.toNat : ℚ) = 1 := by
    rw [counted.mono]
    rfl
  have clock : (rtpClock ac).toNat * tickSize ac = 2 * (getSrate ac).toNat := by
    unfold rtpClock tickSize getSrate
    split_ifs
    · rfl
    · exact mul_comm _ _
  have clock_ : ((rtpClock ac).toNat : ℚ) * tickSize ac = 2 * (getSrate ac).toNat := by exact_mod_cast clock
  have positive : 0 < tickSize ac := by
    unfold tickSize
    split_ifs <;> decide
  have positive_ : (tickSize ac : ℚ) ≠ 0 := by exact_mod_cast positive.ne'
  rw [Nat.mul_div_cancel_left n positive, ticks, one, div_one, eq_div_iff rate]
  push_cast at same
  apply mul_left_cancel₀ positive_
  linear_combination same - frameSize a.tx / 2 * clock_

theorem encodeRtpSend_codec (tx : Autx) (f : Frame) (nsamp : BitVec 16) :
    (encodeRtpSend tx f nsamp).1.enc = tx.enc ∧ (encodeRtpSend tx f nsamp).1.isG722 = tx.isG722 := by
  unfold encodeRtpSend
  split
  · exact ⟨rfl, rfl⟩
  · split
    all_goals exact ⟨rfl, rfl⟩

theorem leaves_of_sent {tx : Autx} {f : Frame} {nsamp : BitVec 16}
    (sent : (encodeRtpSend tx f nsamp).2 = true) : f.leaves = true := by
  unfold encodeRtpSend at sent
  unfold Frame.leaves
  split at sent
  · contradiction
  · split at sent
    · contradiction
    · contradiction
    · contradiction
    · rename_i ench send
      rw [ench, send]
      exact sent

/-- A frame for which nothing fails moves the timestamp on by its samples. -/
theorem encodeRtpSend_ts {tx : Autx} {ac : Aucodec} (enc : tx.enc = some ac) {f : Frame} (sends : f.fails = false)
    (nsamp : BitVec 16) : (encodeRtpSend tx f nsamp).1.ts = tx.ts + nsamp.setWidth 32 := by
  unfold encodeRtpSend
  unfold Frame.fails at sends
  rw [enc]
  dsimp only
  split
  · rename_i ench
    rw [ench] at sends
    contradiction
  · rfl
  · rename_i ench send
    rw [ench, send] at sends
    contradiction
  · rfl

theorem processAudioEncode_ts {a : Audio} {ac : Aucodec} (enc : a.tx.enc = some ac)
    (codec : a.tx.isG722 = isG722 ac) {f : Frame} (sends : f.fails = false) (size : Nat)
    (short : (if a.fc then f.filtered else size) / tickSize ac < 2 ^ 16) :
    (processAudioEncode a f size).1.tx.ts =
      a.tx.ts + BitVec.ofNat 32 ((if a.fc then f.filtered else size) / tickSize ac) := by
  have samples : (if a.tx.isG722 then (if a.fc then f.filtered else size) / 4
      else (if a.fc then f.filtered else size) / 2) = (if a.fc then f.filtered else size) / tickSize ac := by
    rw [codec]
    unfold tickSize
    split_ifs <;> rfl
  unfold processAudioEncode
  dsimp only
  rw [samples, encodeRtpSend_ts enc sends]
  congr 1
  apply BitVec.eq_of_toNat_eq
  rw [BitVec.toNat_setWidth, BitVec.toNat_ofNat, BitVec.toNat_ofNat, Nat.mod_eq_of_lt short]

/-- A frame that is counted moves the timestamp on by its ticks. -/
theorem Counted.agrees {s : Session} {ac : Aucodec} {f : Frame} (enc : s.audio.tx.enc = some ac)
    (codec : s.audio.tx.isG722 = isG722 ac) (counted : Counted ac s.audio f) (ab : Option Aubuf) :
    s.now.Agrees (2 ^ 32)
      ⟨(processAudioEncode { s.audio with tx := { s.audio.tx with ab := ab } } f (frameSize s.audio.tx)).1.tx.ts.toNat,
        s.taken + ticks s.audio.tx.enc s.audio.prm (frameSize s.audio.tx)⟩ := by
  rw [@processAudioEncode_ts { s.audio with tx := { s.audio.tx with ab := ab } } ac enc codec f counted.sends _
    counted.short, enc, ← counted.ticks_eq]
  apply Reading.agrees_count
  have counts := toNat_add_modEq s.audio.tx.ts
    (BitVec.ofNat 32 ((if s.audio.fc then f.filtered else frameSize s.audio.tx) / tickSize ac))
  rwa [BitVec.toNat_ofNat, Nat.mod_eq_of_lt (counted.short.trans (by decide))] at counts

theorem pollAubufTx_some {a : Audio} {f : Frame} {out : Audio × Bool} (polled : pollAubufTx a f = some out) :
    ∃ ab, out = processAudioEncode { a with tx := { a.tx with ab := ab } } f (frameSize a.tx) := by
  unfold pollAubufTx at polled
  split at polled
  · contradiction
  · exact ⟨_, (Option.some.inj polled).symm⟩

theorem processAudioEncode_none {a : Audio} (enc : a.tx.enc = none) (f : Frame) (size : Nat) :
    processAudioEncode a f size = (a, false) := by
  unfold processAudioEncode encodeRtpSend
  rw [enc]

theorem Kept.read {s : Session} (kept : Kept s) {audio : Audio} {taken : ℚ} (sent : Bool)
    (later : s.now.Agrees (2 ^ 32) ⟨audio.tx.ts.toNat, taken⟩)
    (codec : ∀ ac ∈ audio.tx.enc, audio.tx.isG722 = isG722 ac) :
    Kept ⟨audio, taken, if sent then s.log ++ [s.now] else s.log⟩ := by
  cases sent with
  | false => exact ⟨kept.log, fun r member => (kept.now r member).trans later, codec⟩
  | true =>
    refine ⟨Reading.pairwise_read kept.log kept.now, ?_, codec⟩
    intro r member
    rcases List.mem_append.mp member with old | new
    · exact (kept.now r old).trans later
    · rw [List.mem_singleton.mp new]
      exact later

theorem poll_kept {s : Session} (kept : Kept s) {f : Frame} (counted : CountedFrom s (.poll f)) :
    Kept (poll s f) := by
  unfold poll
  rcases polled : pollAubufTx s.audio f with _ | ⟨audio, sent⟩
  · exact kept
  · obtain ⟨ab, out⟩ := pollAubufTx_some polled
    dsimp only
    rcases enc : s.audio.tx.enc with _ | ac
    · obtain ⟨rfl, rfl⟩ := Prod.mk.inj (out.trans
        (@processAudioEncode_none { s.audio with tx := { s.audio.tx with ab := ab } } enc f _))
      exact kept.read false (by rw [ticks, add_zero]; exact Reading.agrees_refl _ _) (by rw [enc]; nofun)
    · have codec : audio.tx.enc = s.audio.tx.enc ∧ audio.tx.isG722 = s.audio.tx.isG722 := by
        rw [show audio = _ from congrArg Prod.fst out]
        exact encodeRtpSend_codec _ _ _
      have codec' : ∀ ac ∈ audio.tx.enc, audio.tx.isG722 = isG722 ac := by
        rw [codec.1, codec.2]
        exact kept.codec
      by_cases from_ : s.log ≠ [] ∨ f.leaves = true
      · have counts := counted (by rw [polled]; nofun) ac enc from_
        have agrees := counts.agrees enc (kept.codec ac enc) ab
        rw [← out, enc] at agrees
        exact kept.read sent agrees codec'
      · rw [not_or, not_not] at from_
        have silent : sent = false := by
          rw [Bool.eq_false_iff]
          intro leaves
          apply from_.2
          rw [show sent = _ from congrArg Prod.snd out] at leaves
          exact leaves_of_sent leaves
        rw [silent, from_.1]
        exact ⟨List.Pairwise.nil, nofun, codec'⟩

theorem step_kept (srateSrc : Range) (s : Session) (a : Action) (kept : Kept s) (counted : CountedFrom s a) :
    Kept (step srateSrc s a) := by
  cases a with
  | encoderSet ac alloch env =>
    obtain ⟨enc, same, codec⟩ := @audioEncoderSet_timing srateSrc s.audio ac alloch env
    obtain ⟨ts, rest⟩ := Prod.mk.inj same
    obtain ⟨enc_, g722⟩ := Prod.mk.inj rest
    apply kept.of_timing ts
    rw [enc_, g722]
    exact codec
  | decoderSet ac alloch env => exact kept.of_same (audioDecoderSet_timing ac alloch env)
  | start env => exact kept.of_same (audioStart_timing env)
  | stop => exact kept.of_same rfl
  | ptimeTxSet ptimeTx => exact kept.of_same rfl
  | poll f => exact poll_kept kept counted

def threeFrames (ac : Aucodec) (second : Frame) : List Action :=
  [.encoderSet ac (.ok 20) ⟨true, false, true, true, true⟩, .start ⟨true, false, true, true, true⟩,
    .poll ⟨1, 0, .ok 160, .ok true⟩, .poll second, .poll ⟨100, 0, .ok 160, .ok true⟩]

theorem not_agrees_of_ne (stamps counts : Nat) (ne : stamps ≠ counts) (small : stamps < 2 ^ 32 ∧ counts < 2 ^ 32)
    {r q : Reading ℚ} (stamp : q.stamp - r.stamp = stamps) (measure_ : q.measure - r.measure = counts) :
    ¬ Reading.Agrees (2 ^ 32) r q := by
  unfold Reading.Agrees
  rw [stamp, measure_, AddCommGroup.modEq_iff_zsmul']
  rintro ⟨m, same⟩
  rw [zsmul_eq_mul] at same
  have whole : (counts : ℤ) - stamps = m * 2 ^ 32 := by exact_mod_cast same
  omega

theorem not_timed {srateSrc : Range} {s : Session} {acts : List Action} {log : List (Reading ℚ)}
    (logged : (acts.foldl (step srateSrc) s).log = log) (apart : ¬ log.Pairwise (Reading.Agrees (2 ^ 32))) :
    ¬ Throughout (step srateSrc) Timed s acts := by
  intro timed
  apply apart
  rw [← logged]
  exact timed.last

end Baresip.Transmit
