import Baresip.Re.Mbuf
import Mathlib.Algebra.BigOperators.Group.List.Basic
import Mathlib.Algebra.Ring.Nat
import Mathlib.Data.List.Induction

set_option linter.dupNamespace false

namespace Baresip.Celt

open Re

def maxFrames : Nat := 16

/-- The CELT library. Encoding takes the samples of a frame and the number of bytes it may use, and gives no
    frame where `celt_encode` returns a negative length; decoding gives the samples of a frame. -/
structure Codec (E D : Type) where
  encode : E → List Byte → Nat → Option (List Byte) × E
  decode : D → List Byte → List Byte × D

structure AucodecSt (E D : Type) where
  enc : E
  dec : D
  fsize : Nat
  bytesPerPacket : Nat
  lowOverhead : Bool
  bpfv : List Nat

section
variable {E D : Type} (codec : Codec E D)

def encodeFrame (st : AucodecSt E D) (src : Mbuf) :
    Except Errno (List Byte × AucodecSt E D × Mbuf) :=
  match codec.encode st.enc ((src.buf.drop src.pos).take st.fsize) st.bytesPerPacket with
  | (none, _) => .error .EINVAL
  | (some data, enc) => .ok (data, { st with enc := enc }, src.advance st.fsize)

def encodeFrames : Nat → AucodecSt E D → Mbuf → Except Errno (List (List Byte) × AucodecSt E D × Mbuf)
  | 0, st, src => .ok ([], st, src)
  | n + 1, st, src => do
    let (data, st, src) ← encodeFrame codec st src
    let (framev, st, src) ← encodeFrames n st src
    return (data :: framev, st, src)

def lengthHeader (len : Nat) : List Byte :=
  if _h : len ≥ 0xff then 0xff :: lengthHeader (len - 0xff) else [BitVec.ofNat 8 len]
termination_by len
decreasing_by omega

def encode (st : AucodecSt E D) (dst src : Mbuf) : Except Errno (AucodecSt E D × Mbuf × Mbuf) :=
  let n := min (src.endPos / st.fsize) maxFrames
  if n = 0 then .error .EINVAL
  else do
    let (framev, st, src) ← encodeFrames codec n st src
    let dst := if st.lowOverhead then dst
      else framev.foldl (fun dst data => (lengthHeader data.length).foldl Mbuf.writeU8 dst) dst
    return (st, framev.foldl Mbuf.writeMem dst, src)

/-- What a call of `decode` works on: the bytes of the packet that are left, and the frames that
    `celt_decode` was given so far. -/
structure Decoding (E D : Type) where
  st : AucodecSt E D
  dst : Mbuf
  src : List Byte
  passed : List (List Byte)
  err : Option Errno

def room (fsize : Nat) (dst : Mbuf) : Mbuf :=
  if dst.buf.length - dst.pos < fsize then dst.resize (dst.buf.length + fsize) else dst

/-- The samples go to the position of the buffer, which stays where it is. -/
def putFrame (fsize : Nat) (dst : Mbuf) (pcm : List Byte) : Mbuf :=
  { buf := dst.buf.take dst.pos ++ pcm ++ dst.buf.drop (dst.pos + pcm.length)
    pos := dst.pos
    endPos := dst.endPos + fsize }

def decodeFrame (s : Decoding E D) (srcLen : Nat) : Decoding E D :=
  if s.src.length < srcLen then { s with err := some .EPROTO }
  else
    let (pcm, dec) := codec.decode s.st.dec (s.src.take srcLen)
    { st := { s.st with dec := dec }
      dst := putFrame s.st.fsize (room s.st.fsize s.dst) pcm
      src := s.src.drop srcLen
      passed := s.passed ++ [s.src.take srcLen]
      err := none }

def decodeFrames : Decoding E D → List Nat → Decoding E D
  | s, [] => s
  | s, len :: lengthv => if s.err.isSome then s else decodeFrames (decodeFrame codec s len) lengthv

def uint16 : Nat := 65536

/-- The do-while loop over the bytes of one length; reading past the end gives 0 and ends it. -/
def readLength : Nat → List Byte → Nat × List Byte
  | len, [] => (len, [])
  | len, byte :: src =>
    if byte = 0xff then readLength ((len + byte.toNat) % uint16) src
    else ((len + byte.toNat) % uint16, src)

def readLengths : Nat → Nat → List Byte → Except Errno (List Nat × List Byte)
  | 0, _, src => .ok ([], src)
  | slots + 1, total, src =>
    if src.length < 1 then .error .EPROTO
    else
      let (len, src) := readLength 0 src
      let total := (total + len) % uint16
      if total ≥ src.length then .ok ([len], src)
      else (readLengths slots total src).map fun (lengthv, src) => (len :: lengthv, src)

def decode (st : AucodecSt E D) (dst : Mbuf) (src : List Byte) : Decoding E D :=
  if st.lowOverhead then decodeFrames codec ⟨st, dst, src, [], none⟩ st.bpfv
  else match readLengths maxFrames 0 src with
    | .error err => ⟨st, dst, [], [], some err⟩
    | .ok (lengthv, src) => decodeFrames codec ⟨st, dst, src, [], none⟩ lengthv

end

theorem readLength_header {len acc : Nat} (fits : acc + len < uint16) (rest : List Byte) :
    readLength acc (lengthHeader len ++ rest) = (acc + len, rest) := by
  fun_induction lengthHeader len generalizing acc with
  | case1 len long ih =>
    have escape : (0xff : Byte).toNat = 0xff := by decide
    have step : (acc + (0xff : Byte).toNat) % uint16 = acc + 0xff := by
      rw [escape, Nat.mod_eq_of_lt (by omega)]
    have next : acc + 0xff + (len - 0xff) = acc + len := by omega
    simp only [List.cons_append, readLength, ite_true, step]
    rw [ih (by omega), next]
  | case2 len short =>
    have value : (BitVec.ofNat 8 len).toNat = len := by
      rw [BitVec.toNat_ofNat]
      omega
    have last : BitVec.ofNat 8 len ≠ 0xff := by
      intro full
      have := congrArg BitVec.toNat full
      rw [value] at this
      exact short (Nat.le_of_eq this.symm)
    rw [List.singleton_append, readLength, if_neg last, value, Nat.mod_eq_of_lt fits]

theorem lengthHeader_nonempty (len : Nat) : 1 ≤ (lengthHeader len).length := by
  unfold lengthHeader
  split_ifs
  · rw [List.length_cons]
    omega
  · exact Nat.le_refl 1

/-- The running total stays below what is left as long as a header is still to come. -/
theorem readLengths_headers {lengthv : List Nat} (some_ : lengthv ≠ []) {slots total : Nat}
    (enough : lengthv.length ≤ slots) {rest : List Byte} (all : rest.length = total + lengthv.sum)
    (fits : rest.length < uint16) :
    readLengths slots total ((lengthv.flatMap lengthHeader) ++ rest) = .ok (lengthv, rest) := by
  induction lengthv generalizing slots total with
  | nil => exact absurd rfl some_
  | cons len lengthv ih =>
    rw [List.sum_cons] at all
    obtain ⟨slots, rfl⟩ : ∃ more, slots = more + 1 := ⟨slots - 1, by rw [List.length_cons] at enough; omega⟩
    have header := lengthHeader_nonempty len
    have read : readLength 0 (lengthHeader len ++ (lengthv.flatMap lengthHeader ++ rest)) =
        (len, lengthv.flatMap lengthHeader ++ rest) := by
      rw [readLength_header (by omega), Nat.zero_add]
    have running : (total + len) % uint16 = total + len := Nat.mod_eq_of_lt (by omega)
    rw [List.flatMap_cons, List.append_assoc, readLengths, if_neg (by rw [List.length_append]; omega), read]
    simp only [running]
    by_cases more : lengthv = []
    · subst more
      rw [if_pos (by simp only [List.flatMap_nil, List.nil_append, all, List.sum_nil]; omega)]
      rfl
    · obtain ⟨next, others, rfl⟩ := List.exists_cons_of_ne_nil more
      have another := lengthHeader_nonempty next
      rw [if_neg (by simp only [List.flatMap_cons, List.length_append]; omega),
        ih more (by rw [List.length_cons] at enough; omega) (by omega)]
      rfl

section
variable {E D : Type} {codec : Codec E D}

/-- The library as a codec of frames: it makes 1 to 1024 bytes of each, and the samples of a frame of them. -/
structure Codec.PerFrame (codec : Codec E D) (max fsize : Nat) : Prop where
  encodes : ∀ enc pcm, ∃ data, (codec.encode enc pcm max).1 = some data ∧ 1 ≤ data.length ∧ data.length ≤ 1024
  decodes : ∀ dec data, (codec.decode dec data).1.length = fsize

def pcmFrames (fsize : Nat) : Nat → List Byte → List (List Byte)
  | 0, _ => []
  | n + 1, pcm => pcm.take fsize :: pcmFrames fsize n (pcm.drop fsize)

/-- The frames that the encoder makes of the samples, one state after the other. -/
def encoded (codec : Codec E D) (max : Nat) : E → List (List Byte) → List (List Byte)
  | _, [] => []
  | enc, pcm :: pcms => (codec.encode enc pcm max).1.getD [] :: encoded codec max (codec.encode enc pcm max).2 pcms

def decoded (codec : Codec E D) : D → List (List Byte) → List (List Byte)
  | _, [] => []
  | dec, data :: frames => (codec.decode dec data).1 :: decoded codec (codec.decode dec data).2 frames

def decoder (codec : Codec E D) (dec : D) (frames : List (List Byte)) : D :=
  frames.foldl (fun dec data => (codec.decode dec data).2) dec

def packet (frames : List (List Byte)) : List Byte :=
  (frames.map List.length).flatMap lengthHeader ++ frames.flatten

theorem pcmFrames_length (fsize n : Nat) (pcm : List Byte) : (pcmFrames fsize n pcm).length = n := by
  induction n generalizing pcm with
  | zero => rfl
  | succ n ih => rw [pcmFrames, List.length_cons, ih]

theorem encoded_length {max : Nat} {enc : E} {pcms : List (List Byte)} :
    (encoded codec max enc pcms).length = pcms.length := by
  induction pcms generalizing enc with
  | nil => rfl
  | cons pcm pcms ih => rw [encoded, List.length_cons, ih, List.length_cons]

theorem Codec.PerFrame.bounded {max fsize : Nat} (law : codec.PerFrame max fsize) {enc : E}
    {pcms : List (List Byte)} {data : List Byte} (inside : data ∈ encoded codec max enc pcms) :
    data.length ≤ 1024 := by
  induction pcms generalizing enc with
  | nil => exact absurd inside List.not_mem_nil
  | cons pcm pcms ih =>
    rcases List.mem_cons.mp inside with rfl | later
    · obtain ⟨data, made, -, small⟩ := law.encodes enc pcm
      rw [made]
      exact small
    · exact ih later

theorem decoded_length {dec : D} {frames : List (List Byte)} :
    (decoded codec dec frames).length = frames.length := by
  induction frames generalizing dec with
  | nil => rfl
  | cons data frames ih => rw [decoded, List.length_cons, ih, List.length_cons]

theorem Codec.PerFrame.whole {max fsize : Nat} (law : codec.PerFrame max fsize) {dec : D}
    {frames : List (List Byte)} {pcm : List Byte} (inside : pcm ∈ decoded codec dec frames) :
    pcm.length = fsize := by
  induction frames generalizing dec with
  | nil => exact absurd inside List.not_mem_nil
  | cons data frames ih =>
    rcases List.mem_cons.mp inside with rfl | later
    · exact law.decodes dec data
    · exact ih later

theorem encodeFrames_encoded (n : Nat) (st : AucodecSt E D)
    (law : codec.PerFrame st.bytesPerPacket st.fsize) (src : Mbuf) : ∃ st' src', encodeFrames codec n st src =
      .ok (encoded codec st.bytesPerPacket st.enc (pcmFrames st.fsize n (src.buf.drop src.pos)), st', src') ∧
      st'.lowOverhead = st.lowOverhead := by
  induction n generalizing st src with
  | zero => exact ⟨st, src, rfl, rfl⟩
  | succ n ih =>
    obtain ⟨data, made, -, -⟩ := law.encodes st.enc ((src.buf.drop src.pos).take st.fsize)
    have first : encodeFrame codec st src = .ok (data,
        { st with enc := (codec.encode st.enc ((src.buf.drop src.pos).take st.fsize) st.bytesPerPacket).2 },
        src.advance st.fsize) := by
      simp only [encodeFrame]
      generalize codec.encode st.enc ((src.buf.drop src.pos).take st.fsize) st.bytesPerPacket = made_ at made
      obtain ⟨data_, enc⟩ := made_
      subst made
      rfl
    obtain ⟨st', src', rest, low⟩ := ih { st with enc :=
      (codec.encode st.enc ((src.buf.drop src.pos).take st.fsize) st.bytesPerPacket).2 } law (src.advance st.fsize)
    refine ⟨st', src', ?_, low⟩
    have next : (src.advance st.fsize).buf.drop (src.advance st.fsize).pos =
        (src.buf.drop src.pos).drop st.fsize := by
      rw [List.drop_drop]
      rfl
    rw [next] at rest
    rw [encodeFrames, first]
    simp only [bind, Except.bind, rest, pcmFrames, encoded, made, Option.getD_some]
    rfl

theorem holds_bytes {mb : Mbuf} {start : Nat} {held : List Byte} (holds : mb.Holds start held)
    (bytes : List Byte) : (bytes.foldl Mbuf.writeU8 mb).Holds start (held ++ bytes) := by
  induction bytes generalizing mb held with
  | nil => rwa [List.append_nil]
  | cons byte bytes ih =>
    have rest := ih (holds.write [byte])
    rwa [List.append_assoc] at rest

theorem holds_headers {mb : Mbuf} {start : Nat} {held : List Byte} (holds : mb.Holds start held)
    (frames : List (List Byte)) :
    (frames.foldl (fun dst data => (lengthHeader data.length).foldl Mbuf.writeU8 dst) mb).Holds start
      (held ++ (frames.map List.length).flatMap lengthHeader) := by
  induction frames generalizing mb held with
  | nil => rwa [List.map_nil, List.flatMap_nil, List.append_nil]
  | cons data frames ih =>
    have rest := ih (holds_bytes holds (lengthHeader data.length))
    rwa [List.append_assoc] at rest

theorem holds_frames {mb : Mbuf} {start : Nat} {held : List Byte} (holds : mb.Holds start held)
    (frames : List (List Byte)) : (frames.foldl Mbuf.writeMem mb).Holds start (held ++ frames.flatten) := by
  induction frames generalizing mb held with
  | nil => rwa [List.flatten_nil, List.append_nil]
  | cons data frames ih =>
    have rest := ih (holds.write data)
    rwa [List.append_assoc] at rest

theorem encode_packet {st : AucodecSt E D} (law : codec.PerFrame st.bytesPerPacket st.fsize)
    (headers : st.lowOverhead = false) {n : Nat} (some_ : 1 ≤ n) (few : n ≤ maxFrames) (size : 0 < st.fsize)
    (src : Mbuf) (start : src.pos = 0) (whole : src.endPos = n * st.fsize) (dst : Mbuf)
    (blank : dst.pos = dst.endPos) : ∃ st' dst' src', encode codec st dst src = .ok (st', dst', src') ∧
      (dst'.setPos dst.pos).left =
        packet (encoded codec st.bytesPerPacket st.enc (pcmFrames st.fsize n src.buf)) := by
  obtain ⟨st', src', made, low⟩ := encodeFrames_encoded n st law src
  rw [start, List.drop_zero] at made
  have count : min (src.endPos / st.fsize) maxFrames = n := by
    rw [whole, Nat.mul_div_cancel n size]
    exact Nat.min_eq_left few
  have holds : dst.Holds dst.pos [] := ⟨blank, blank.symm, rfl⟩
  have written := holds_frames (holds_headers holds
    (encoded codec st.bytesPerPacket st.enc (pcmFrames st.fsize n src.buf)))
    (encoded codec st.bytesPerPacket st.enc (pcmFrames st.fsize n src.buf))
  refine ⟨st', _, src', ?_, written.left⟩
  simp only [encode, count]
  rw [if_neg (by omega), made]
  simp only [bind, Except.bind, low, headers]
  rfl

theorem room_pos (fsize : Nat) (dst : Mbuf) : (room fsize dst).pos = dst.pos ∧
    (room fsize dst).endPos = dst.endPos := by
  unfold room
  split_ifs <;> exact ⟨rfl, rfl⟩

theorem room_fits {fsize : Nat} {dst : Mbuf} (inside : dst.pos ≤ dst.buf.length) :
    dst.pos + fsize ≤ (room fsize dst).buf.length := by
  unfold room
  split_ifs with tight
  · simp only [Mbuf.resize, List.length_take, List.length_append, List.length_replicate]
    omega
  · omega

theorem room_enough {fsize : Nat} {dst : Mbuf} (fits : dst.pos + fsize ≤ dst.buf.length) :
    room fsize dst = dst := if_neg (by omega)

theorem putFrame_length {fsize : Nat} {dst : Mbuf} {pcm : List Byte} (width : pcm.length = fsize)
    (fits : dst.pos + fsize ≤ dst.buf.length) : (putFrame fsize dst pcm).buf.length = dst.buf.length := by
  simp only [putFrame, List.length_append, List.length_take, List.length_drop]
  omega

theorem putFrame_putFrame {fsize : Nat} {dst : Mbuf} {pcm later : List Byte} (width : pcm.length = fsize)
    (width' : later.length = fsize) (fits : dst.pos + fsize ≤ dst.buf.length) (gap : Nat) :
    putFrame fsize { putFrame fsize dst pcm with endPos := dst.endPos + gap } later =
      { putFrame fsize dst later with endPos := dst.endPos + gap + fsize } := by
  have front : (dst.buf.take dst.pos ++ pcm).length = dst.pos + fsize := by
    rw [List.length_append, List.length_take]
    omega
  have head : (dst.buf.take dst.pos ++ pcm ++ dst.buf.drop (dst.pos + pcm.length)).take dst.pos =
      dst.buf.take dst.pos := by
    have exact_ : (dst.buf.take dst.pos).length = dst.pos := by
      rw [List.length_take]
      omega
    rw [List.append_assoc]
    exact List.take_left' exact_
  have tail : (dst.buf.take dst.pos ++ pcm ++ dst.buf.drop (dst.pos + pcm.length)).drop (dst.pos + fsize) =
      dst.buf.drop (dst.pos + fsize) := by
    rw [width]
    exact List.drop_left' front
  simp only [putFrame, width', head, tail]

/-- Frames put one after the other all go to the same place, so the last one is what is left there. -/
theorem putFrames_last {fsize : Nat} {dst : Mbuf} (inside : dst.pos ≤ dst.buf.length)
    (pcms : List (List Byte)) (last : List Byte) (width : ∀ pcm ∈ pcms ++ [last], pcm.length = fsize) :
    (pcms ++ [last]).foldl (fun dst pcm => putFrame fsize (room fsize dst) pcm) dst =
      { putFrame fsize (room fsize dst) last with endPos := dst.endPos + (pcms.length + 1) * fsize } := by
  obtain ⟨samePos, sameEnd⟩ := room_pos fsize dst
  have fits : (room fsize dst).pos + fsize ≤ (room fsize dst).buf.length := by
    rw [samePos]
    exact room_fits inside
  induction pcms using List.reverseRecOn generalizing last with
  | nil =>
    simp only [List.nil_append, List.foldl_cons, List.foldl_nil, putFrame, sameEnd, List.length_nil,
      Nat.zero_add, Nat.one_mul]
  | append_singleton pcms pcm ih =>
    have width' : pcm.length = fsize := width pcm (by simp)
    have before := ih pcm fun other among => width other (List.mem_append_left _ among)
    have full : (putFrame fsize (room fsize dst) pcm).buf.length = (room fsize dst).buf.length :=
      putFrame_length width' fits
    have already : room fsize { putFrame fsize (room fsize dst) pcm with
        endPos := dst.endPos + (pcms.length + 1) * fsize } =
        { putFrame fsize (room fsize dst) pcm with endPos := dst.endPos + (pcms.length + 1) * fsize } :=
      room_enough (by rw [full]; exact fits)
    rw [List.foldl_append, before, List.foldl_cons, List.foldl_nil, already, ← sameEnd,
      putFrame_putFrame width' (width last (by simp)) fits, List.length_append, List.length_singleton,
      Nat.add_assoc, ← Nat.succ_mul]

theorem decodeFrames_frames (frames : List (List Byte)) {s : Decoding E D} (fine : s.err = none)
    (here : s.src = frames.flatten) : decodeFrames codec s (frames.map List.length) =
      { st := { s.st with dec := decoder codec s.st.dec frames }
        dst := (decoded codec s.st.dec frames).foldl (fun dst pcm => putFrame s.st.fsize (room s.st.fsize dst) pcm) s.dst
        src := []
        passed := s.passed ++ frames
        err := none } := by
  induction frames generalizing s with
  | nil =>
    obtain ⟨st, dst, src, passed, err⟩ := s
    subst fine here
    simp only [List.map_nil, decodeFrames, decoded, decoder, List.foldl_nil, List.append_nil, List.flatten_nil]
  | cons data frames ih =>
    have first : decodeFrame codec s data.length =
        { st := { s.st with dec := (codec.decode s.st.dec data).2 }
          dst := putFrame s.st.fsize (room s.st.fsize s.dst) (codec.decode s.st.dec data).1
          src := frames.flatten
          passed := s.passed ++ [data]
          err := none } := by
      have there : ¬ s.src.length < data.length := by
        rw [here, List.flatten_cons, List.length_append]
        omega
      have cut : s.src.take data.length = data ∧ s.src.drop data.length = frames.flatten := by
        rw [here, List.flatten_cons]
        exact ⟨List.take_left, List.drop_left⟩
      rw [decodeFrame, if_neg there, cut.1, cut.2]
    rw [List.map_cons, decodeFrames, if_neg (by rw [fine]; decide), first, ih rfl rfl]
    simp only [decoded, decoder, List.foldl_cons, List.append_assoc, List.singleton_append]

theorem sum_lengths_bound {frames : List (List Byte)} {bound : Nat} (small : ∀ data ∈ frames, data.length ≤ bound) :
    (frames.map List.length).sum ≤ frames.length * bound := by
  induction frames with
  | nil => exact Nat.zero_le _
  | cons data frames ih =>
    have first := small data List.mem_cons_self
    have rest := ih fun other among => small other (List.mem_cons_of_mem _ among)
    rw [List.map_cons, List.sum_cons, List.length_cons, Nat.succ_mul]
    omega

theorem decode_packet {st : AucodecSt E D} (headers : st.lowOverhead = false) {frames : List (List Byte)}
    (some_ : frames ≠ []) (few : frames.length ≤ maxFrames) (small : ∀ data ∈ frames, data.length ≤ 1024)
    (dst : Mbuf) : decode codec st dst (packet frames) =
      { st := { st with dec := decoder codec st.dec frames }
        dst := (decoded codec st.dec frames).foldl (fun dst pcm => putFrame st.fsize (room st.fsize dst) pcm) dst
        src := []
        passed := frames
        err := none } := by
  have total : frames.flatten.length = 0 + (frames.map List.length).sum := by
    rw [List.length_flatten, Nat.zero_add]
  have fits : frames.flatten.length < uint16 := by
    have bound := sum_lengths_bound small
    have most : frames.length * 1024 ≤ maxFrames * 1024 := Nat.mul_le_mul_right 1024 few
    simp only [maxFrames] at most
    simp only [uint16]
    omega
  have read : readLengths maxFrames 0 ((frames.map List.length).flatMap lengthHeader ++ frames.flatten) =
      .ok (frames.map List.length, frames.flatten) :=
    readLengths_headers (fun none_ => some_ (List.map_eq_nil_iff.mp none_))
      (by rw [List.length_map]; exact few) total fits
  have low : ¬ st.lowOverhead = true := by
    rw [headers]
    decide
  rw [decode, if_neg low, packet, read]
  exact decodeFrames_frames frames rfl rfl

/-- What a decoded packet should leave: the frames went to the decoder as they are, and what the buffer holds
    is their samples, one frame behind the other. -/
structure Delivered (codec : Codec E D) (st : AucodecSt E D) (dst : Mbuf) (frames : List (List Byte))
    (out : Decoding E D) : Prop where
  fine : out.err = none
  passed : out.passed = frames
  samples : (out.dst.setPos dst.pos).left = (decoded codec st.dec frames).flatten

/-- The buffer happens to hold every frame but the first at its place already, and the last frame sounds like
    the first. -/
def Stale (fsize : Nat) (dst : Mbuf) (pcms : List (List Byte)) : Prop :=
  pcms.head? = pcms.getLast? ∧
    ((room fsize dst).buf.drop (dst.pos + fsize)).take ((pcms.length - 1) * fsize) = pcms.tail.flatten

theorem putFrame_samples {fsize : Nat} {dst : Mbuf} {last : List Byte} (inside : dst.pos ≤ dst.buf.length)
    (width : last.length = fsize) (blank : dst.pos = dst.endPos) (count : Nat) :
    (({ putFrame fsize dst last with endPos := dst.endPos + (count + 1) * fsize } : Mbuf).setPos dst.pos).left =
      last ++ (dst.buf.drop (dst.pos + fsize)).take (count * fsize) := by
  have front : (dst.buf.take dst.pos).length = dst.pos := by
    rw [List.length_take]
    omega
  have span : dst.endPos + (count + 1) * fsize - dst.pos = last.length + count * fsize := by
    rw [Nat.succ_mul]
    omega
  simp only [Mbuf.left, Mbuf.setPos, Mbuf.getLeft, putFrame, span, List.append_assoc]
  rw [List.drop_left' front, List.take_length_add_append, width]

theorem samples_iff {fsize : Nat} {dst : Mbuf} (inside : dst.pos ≤ dst.buf.length) (blank : dst.pos = dst.endPos)
    {pcms : List (List Byte)} (some_ : pcms ≠ []) (width : ∀ pcm ∈ pcms, pcm.length = fsize) :
    ((pcms.foldl (fun dst pcm => putFrame fsize (room fsize dst) pcm) dst).setPos dst.pos).left = pcms.flatten ↔
      Stale fsize dst pcms := by
  obtain ⟨samePos, sameEnd⟩ := room_pos fsize dst
  obtain ⟨init, last, whole⟩ : ∃ init last, pcms = init ++ [last] :=
    ⟨pcms.dropLast, pcms.getLast some_, (List.dropLast_append_getLast some_).symm⟩
  obtain ⟨first, rest, split⟩ := List.exists_cons_of_ne_nil some_
  have count : init.length = rest.length := by
    have := congrArg List.length (whole.symm.trans split)
    rw [List.length_append, List.length_singleton, List.length_cons] at this
    omega
  have lastWidth : last.length = fsize := width last (by rw [whole]; simp)
  have firstWidth : first.length = fsize := width first (by rw [split]; simp)
  have put := putFrames_last inside init last (by rw [← whole]; exact width)
  have fits : dst.pos + fsize ≤ (room fsize dst).buf.length := room_fits inside
  have roomInside : (room fsize dst).pos ≤ (room fsize dst).buf.length := by
    rw [samePos]
    omega
  have held := putFrame_samples roomInside lastWidth (by rw [samePos, sameEnd]; exact blank) rest.length
  rw [samePos, sameEnd, ← count] at held
  have ends : pcms.getLast? = some last := by rw [whole, List.getLast?_append]; rfl
  rw [Stale, ends, split, ← split, whole, put, held, ← whole, split, List.flatten_cons]
  have widths : last.length = first.length := lastWidth.trans firstWidth.symm
  constructor
  · intro same
    obtain ⟨lasts, others⟩ := List.append_inj same widths
    refine ⟨by rw [lasts]; rfl, ?_⟩
    rw [List.length_cons, Nat.add_sub_cancel, ← count]
    exact others
  · rintro ⟨same, others⟩
    rw [List.length_cons, Nat.add_sub_cancel, ← count] at others
    rw [List.head?_cons, Option.some.injEq] at same
    rw [same, others]
    rfl

theorem stale_one {fsize : Nat} {dst : Mbuf} {pcms : List (List Byte)} (one : pcms.length = 1) :
    Stale fsize dst pcms := by
  obtain ⟨pcm, rfl⟩ := List.length_eq_one_iff.mp one
  exact ⟨rfl, by simp⟩

/-- A packet of the encoder always reaches the decoder frame by frame. Its samples are all there exactly when
    it is a single frame, or when the buffer held the samples of the others before. -/
theorem decode_encode_delivers_iff (st : AucodecSt E D) (law : codec.PerFrame st.bytesPerPacket st.fsize)
    (headers : st.lowOverhead = false) (size : 0 < st.fsize) {n : Nat} (some_ : 1 ≤ n) (few : n ≤ maxFrames)
    (src : Mbuf) (start : src.pos = 0) (whole : src.endPos = n * st.fsize) (mb : Mbuf) (ready : mb.pos = mb.endPos)
    (dst : Mbuf) (blank : dst.pos = dst.endPos) (inside : dst.pos ≤ dst.buf.length) :
    ∃ st' mb' src', encode codec st mb src = .ok (st', mb', src') ∧
      (decode codec st dst (mb'.setPos mb.pos).left).passed =
        encoded codec st.bytesPerPacket st.enc (pcmFrames st.fsize n src.buf) ∧
      (Delivered codec st dst (encoded codec st.bytesPerPacket st.enc (pcmFrames st.fsize n src.buf))
          (decode codec st dst (mb'.setPos mb.pos).left) ↔
        n = 1 ∨ Stale st.fsize dst (decoded codec st.dec
          (encoded codec st.bytesPerPacket st.enc (pcmFrames st.fsize n src.buf)))) := by
  obtain ⟨st', mb', src', made, written⟩ := encode_packet law headers some_ few size src start whole mb ready
  refine ⟨st', mb', src', made, ?_⟩
  generalize framesEq : encoded codec st.bytesPerPacket st.enc (pcmFrames st.fsize n src.buf) = frames at written ⊢
  have count : frames.length = n := by rw [← framesEq, encoded_length, pcmFrames_length]
  have nonempty : frames ≠ [] := List.ne_nil_of_length_pos (by omega)
  have small : ∀ data ∈ frames, data.length ≤ 1024 := by
    rw [← framesEq]
    exact fun data among => law.bounded among
  rw [written, decode_packet headers nonempty (by omega) small]
  refine ⟨rfl, ?_⟩
  have pcmSome : decoded codec st.dec frames ≠ [] :=
    List.ne_nil_of_length_pos (by rw [decoded_length]; omega)
  have exact_ := samples_iff inside blank pcmSome fun pcm among => law.whole among
  constructor
  · intro delivered
    exact Or.inr (exact_.mp delivered.samples)
  · rintro (one | stale)
    · exact ⟨rfl, rfl, exact_.mpr (stale_one (by rw [decoded_length, count, one]))⟩
    · exact ⟨rfl, rfl, exact_.mpr stale⟩

end

/-- A codec that keeps the two bytes of a frame. -/
def plainCodec : Codec Unit Unit :=
  ⟨fun _ pcm _ => (some ((pcm ++ [0, 0]).take 2), ()), fun _ data => ((data ++ [0, 0]).take 2, ())⟩

theorem plainCodec_perFrame : plainCodec.PerFrame 80 2 where
  encodes _ pcm := ⟨(pcm ++ [0, 0]).take 2, rfl, by simp, by simp⟩
  decodes _ data := by simp [plainCodec]

def plainSt : AucodecSt Unit Unit := ⟨(), (), 2, 80, false, []⟩

theorem decode_encode_delivers_one :
    ∃ st' mb' src', encode plainCodec plainSt (Mbuf.alloc 64) ⟨[1, 2], 0, 2⟩ = .ok (st', mb', src') ∧
      (decode plainCodec plainSt (Mbuf.alloc 64) (mb'.setPos 0).left).passed = [[1, 2]] ∧
      Delivered plainCodec plainSt (Mbuf.alloc 64) [[1, 2]]
        (decode plainCodec plainSt (Mbuf.alloc 64) (mb'.setPos 0).left) := by
  obtain ⟨st', mb', src', made, passed, delivers⟩ := decode_encode_delivers_iff plainSt
    plainCodec_perFrame rfl (by decide) (Nat.le_refl 1) (by decide) ⟨[1, 2], 0, 2⟩ rfl rfl
    (Mbuf.alloc 64) rfl (Mbuf.alloc 64) rfl (Nat.zero_le _)
  exact ⟨st', mb', src', made, passed, delivers.mpr (Or.inl rfl)⟩

/-- The samples of the first of two frames are gone once the second is decoded. -/
theorem decode_encode_loses_two :
    ∃ st' mb' src', encode plainCodec plainSt (Mbuf.alloc 64) ⟨[1, 2, 3, 4], 0, 4⟩ = .ok (st', mb', src') ∧
      ((decode plainCodec plainSt (Mbuf.alloc 64) (mb'.setPos 0).left).dst.setPos 0).left = [3, 4, 0, 0] ∧
      ¬ Delivered plainCodec plainSt (Mbuf.alloc 64) [[1, 2], [3, 4]]
        (decode plainCodec plainSt (Mbuf.alloc 64) (mb'.setPos 0).left) := by
  have frames : encoded plainCodec 80 () (pcmFrames 2 2 [1, 2, 3, 4]) = [[1, 2], [3, 4]] := by decide
  obtain ⟨st', mb', src', made, written⟩ := encode_packet (n := 2) plainCodec_perFrame
    (show plainSt.lowOverhead = false from rfl) (by decide) (by decide) (by decide)
    ⟨[1, 2, 3, 4], 0, 4⟩ rfl rfl (Mbuf.alloc 64) rfl
  have bytes : (mb'.setPos 0).left = [2, 2, 1, 2, 3, 4] := by
    refine written.trans ?_
    show packet (encoded plainCodec 80 () (pcmFrames 2 2 [1, 2, 3, 4])) = _
    rw [frames]
    simp [packet, lengthHeader]
  refine ⟨st', mb', src', made, ?_⟩
  rw [bytes]
  exact ⟨by decide, fun delivered => absurd delivered.samples (by decide)⟩

end Baresip.Celt
