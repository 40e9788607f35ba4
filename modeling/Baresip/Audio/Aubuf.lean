import Baresip.Library.Cuts
import Baresip.Library.Runs
import Baresip.Re.Mbuf

set_option linter.dupNamespace false

namespace Baresip

open Re Library

/-- `mbuf_read_mem`, which reads nothing when more is asked for than is left. -/
def Re.Unread.read (src : Unread) (n : Nat) : List Byte × Unread :=
  if fits : n ≤ src.mb.getLeft then
    ((src.mb.buf.drop src.mb.pos).take n,
      { mb := src.mb.advance n
        ordered := src.advance_ordered fits
        inside := src.inside })
  else ([], src)

structure Aubuf where
  afl : List Unread
  wishSz : Nat
  curSz : Nat
  maxSz : Nat
  filling : Bool
  ts : Nat

namespace Aubuf

def alloc (minSz maxSz : Nat) : Except Errno Aubuf :=
  if minSz = 0 then .error .EINVAL else .ok ⟨[], minSz, 0, maxSz, true, 0⟩

def append (ab : Aubuf) (mb : Unread) : Aubuf :=
  let ab := { ab with afl := ab.afl ++ [mb], curSz := ab.curSz + mb.mb.getLeft }
  if ab.maxSz ≠ 0 ∧ ab.curSz > ab.maxSz then
    match ab.afl with
    | [] => ab
    | af :: rest => { ab with afl := rest, curSz := ab.curSz - af.mb.getLeft }
  else ab

/-- The buffer that `aubuf_write` copies its samples to. -/
def copied (p : List Byte) : Unread where
  mb := ((Mbuf.alloc p.length).writeMem p).setPos 0
  ordered := Nat.zero_le _
  inside := by simp [Mbuf.setPos, Mbuf.writeMem, Mbuf.alloc]

def write (ab : Aubuf) (p : List Byte) : Aubuf := ab.append (copied p)

/-- The loop over the frames: the bytes that are copied, the size that is left, and the frames. -/
def readFrames : List Unread → Nat → Nat → List Byte × Nat × List Unread
  | [], cur, _ => ([], cur, [])
  | af :: rest, cur, sz =>
    let n := min af.mb.getLeft sz
    let (data, af) := af.read n
    let kept := if af.mb.getLeft = 0 then [] else [af]
    if n = sz then (data, cur - n, kept ++ rest)
    else
      let (more, cur, rest) := readFrames rest (cur - n) (sz - n)
      (data ++ more, cur, kept ++ rest)

/-- `p` is the caller's buffer, in which `none` is a byte that nobody has set. -/
def read (ab : Aubuf) (p : List (Option Byte)) : List (Option Byte) × Aubuf :=
  if p.length = 0 then (p, ab)
  else if ab.curSz < (if ab.filling then ab.wishSz else p.length) then
    (List.replicate p.length (some 0), { ab with filling := true })
  else
    let (data, cur, frames) := readFrames ab.afl ab.curSz p.length
    (data.map some ++ p.drop data.length, { ab with filling := false, curSz := cur, afl := frames })

def get (ab : Aubuf) (ptime : BitVec 32) (now : Nat) (p : List (Option Byte)) :
    Option Errno × List (Option Byte) × Aubuf :=
  if ptime = 0 then (some .EINVAL, p, ab)
  else
    let ab := { ab with ts := if ab.ts = 0 then now else ab.ts }
    if now < ab.ts then (some .ETIMEDOUT, p, ab)
    else (none, { ab with ts := ab.ts + ptime.toNat }.read p)

def flush (ab : Aubuf) : Aubuf := { ab with afl := [], filling := true, curSz := 0, ts := 0 }

/-- What is queued, in the order in which it is read. -/
def pieces (ab : Aubuf) : List (List Byte) := ab.afl.map Unread.bytes

def queued (ab : Aubuf) : List Byte := ab.pieces.flatten

end Aubuf

section
variable {src : Unread} {n : Nat} {p : List Byte}

theorem Re.Unread.bytes_length (src : Unread) : src.bytes.length = src.mb.getLeft := Mbuf.left_length src.inside

theorem Re.Unread.read_of_le (fits : n ≤ src.mb.getLeft) :
    (src.read n).1 = src.bytes.take n ∧ (src.read n).2.bytes = src.bytes.drop n := by
  unfold Unread.read
  rw [dif_pos fits]
  refine ⟨?_, Mbuf.advance_left src.mb n⟩
  show (src.mb.buf.drop src.mb.pos).take n = ((src.mb.buf.drop src.mb.pos).take src.mb.getLeft).take n
  rw [List.take_take, Nat.min_eq_left fits]

theorem Aubuf.copied_bytes (p : List Byte) : (Aubuf.copied p).bytes = p := by
  have fresh : (Mbuf.alloc p.length).Holds 0 [] := ⟨rfl, rfl, rfl⟩
  exact (fresh.write p).left

end

namespace Aubuf

variable {ab : Aubuf} {sz : Nat} {p : List (Option Byte)} {bytes : List Byte}

/-- The recorded size is the number of bytes in the queue. -/
def Counted (ab : Aubuf) : Prop := ab.curSz = ab.queued.length

/-- A write that would leave more in the queue than it may hold. -/
def Overrun (ab : Aubuf) (p : List Byte) : Prop := ab.maxSz ≠ 0 ∧ ab.curSz + p.length > ab.maxSz

def oldest (ab : Aubuf) (p : List Byte) : List Byte := (ab.pieces ++ [p]).headD []

theorem append_within (mb : Unread) (within : ¬ ab.Overrun mb.bytes) :
    ab.append mb = { ab with afl := ab.afl ++ [mb], curSz := ab.curSz + mb.mb.getLeft } := by
  unfold Overrun at within
  rw [mb.bytes_length] at within
  exact if_neg within

theorem append_overrun (mb : Unread) (beyond : ab.Overrun mb.bytes) :
    ∃ af rest, ab.afl ++ [mb] = af :: rest ∧
      ab.append mb = { ab with afl := rest, curSz := ab.curSz + mb.mb.getLeft - af.mb.getLeft } := by
  unfold Overrun at beyond
  rw [mb.bytes_length] at beyond
  rcases found : ab.afl ++ [mb] with _ | ⟨af, rest⟩
  · simp at found
  · refine ⟨af, rest, rfl, ?_⟩
    have taken : ab.append mb = match ab.afl ++ [mb] with
        | [] => { ab with afl := ab.afl ++ [mb], curSz := ab.curSz + mb.mb.getLeft }
        | af :: rest => { ab with afl := rest, curSz := ab.curSz + mb.mb.getLeft - af.mb.getLeft } := if_pos beyond
    rw [taken, found]

/-- One turn of the loop. -/
theorem readFrames_cons (af : Unread) (rest : List Unread) (cur : Nat) :
    readFrames (af :: rest) cur sz =
      if sz < af.bytes.length then
        (af.bytes.take sz, cur - sz, (af.read sz).2 :: rest)
      else if af.bytes.length = sz then (af.bytes, cur - sz, rest)
      else
        (af.bytes ++ (readFrames rest (cur - af.bytes.length) (sz - af.bytes.length)).1,
          (readFrames rest (cur - af.bytes.length) (sz - af.bytes.length)).2) := by
  rw [readFrames]
  rcases Nat.lt_trichotomy sz af.bytes.length with inside | same | beyond
  · have n : min af.mb.getLeft sz = sz := by rw [← af.bytes_length]; omega
    have fits : sz ≤ af.mb.getLeft := by rw [← af.bytes_length]; omega
    have some_ : ¬ (af.read sz).2.mb.getLeft = 0 := by
      rw [← Unread.bytes_length, (Unread.read_of_le fits).2, List.length_drop]
      omega
    simp only [n, (Unread.read_of_le fits).1, if_neg some_, if_pos inside, if_true]
    rfl
  · have left : af.mb.getLeft = sz := by rw [← af.bytes_length, same]
    have fits : sz ≤ af.mb.getLeft := Nat.le_of_eq left.symm
    have none_ : (af.read sz).2.mb.getLeft = 0 := by
      rw [← Unread.bytes_length, (Unread.read_of_le fits).2, List.length_drop]
      omega
    have whole : af.bytes.take sz = af.bytes := List.take_of_length_le (Nat.le_of_eq same.symm)
    have n : min af.mb.getLeft sz = sz := by omega
    simp only [n, (Unread.read_of_le fits).1, if_pos none_, if_true, whole, ← same, Nat.lt_irrefl, if_false]
    rfl
  · have left : af.mb.getLeft = af.bytes.length := af.bytes_length.symm
    have n : min af.mb.getLeft sz = af.bytes.length := by omega
    have fits : af.bytes.length ≤ af.mb.getLeft := Nat.le_of_eq left.symm
    have none_ : (af.read af.bytes.length).2.mb.getLeft = 0 := by
      rw [← Unread.bytes_length, (Unread.read_of_le fits).2, List.length_drop]
      omega
    have whole : af.bytes.take af.bytes.length = af.bytes := List.take_of_length_le (Nat.le_refl _)
    have more : ¬ af.bytes.length = sz := Nat.ne_of_lt beyond
    have past : ¬ sz < af.bytes.length := Nat.lt_asymm beyond
    simp only [n, (Unread.read_of_le fits).1, if_pos none_, whole, if_neg more, if_neg past]
    rfl

/-- The loop over the frames takes the bytes off the queue that they are, whichever frames they lie in. -/
theorem readFrames_eq (afl : List Unread) (cur sz : Nat) :
    (readFrames afl cur sz).1 = (drain sz (afl.map Unread.bytes)).1 ∧
      (readFrames afl cur sz).2.1 = cur - (drain sz (afl.map Unread.bytes)).1.length ∧
      (readFrames afl cur sz).2.2.map Unread.bytes = (drain sz (afl.map Unread.bytes)).2 := by
  induction afl generalizing cur sz with
  | nil => exact ⟨rfl, rfl, rfl⟩
  | cons af rest ih =>
    rw [readFrames_cons, List.map_cons]
    rcases Nat.lt_trichotomy sz af.bytes.length with inside | rfl | beyond
    · have fits : sz ≤ af.mb.getLeft := by rw [← af.bytes_length]; omega
      rw [if_pos inside, drain_part inside]
      refine ⟨rfl, ?_, ?_⟩
      · rw [List.length_take, Nat.min_eq_left (Nat.le_of_lt inside)]
      · rw [List.map_cons, (Unread.read_of_le fits).2]
    · rw [if_neg (Nat.lt_irrefl _), if_pos rfl, drain_piece]
      exact ⟨rfl, rfl, rfl⟩
    · rcases ih (cur - af.bytes.length) (sz - af.bytes.length) with ⟨data, size, frames⟩
      rw [if_neg (Nat.lt_asymm beyond), if_neg (Nat.ne_of_lt beyond), drain_beyond beyond]
      refine ⟨by rw [data], ?_, frames⟩
      rw [size, List.length_append, Nat.sub_sub]

theorem read_silent (some_ : p.length ≠ 0) (low : ab.curSz < if ab.filling then ab.wishSz else p.length) :
    ab.read p = (List.replicate p.length (some 0), { ab with filling := true }) := by
  rw [read, if_neg some_, if_pos low]

theorem read_frames (some_ : p.length ≠ 0) (full : ¬ ab.curSz < if ab.filling then ab.wishSz else p.length) :
    ab.read p =
      ((readFrames ab.afl ab.curSz p.length).1.map some ++ p.drop (readFrames ab.afl ab.curSz p.length).1.length,
        { ab with
          filling := false
          curSz := (readFrames ab.afl ab.curSz p.length).2.1
          afl := (readFrames ab.afl ab.curSz p.length).2.2 }) := by
  rw [read, if_neg some_, if_neg full]

/-- A read that is not silent copies what is queued, up to the size asked for, and leaves the rest of the
    caller's buffer as it was. -/
theorem read_taken (some_ : p.length ≠ 0) (full : ¬ ab.curSz < if ab.filling then ab.wishSz else p.length) :
    (ab.read p).1 = (ab.queued.take p.length).map some ++ p.drop ab.queued.length ∧
      (ab.read p).2.curSz = ab.curSz - (ab.queued.take p.length).length ∧
      (ab.read p).2.queued = ab.queued.drop p.length := by
  rcases readFrames_eq ab.afl ab.curSz p.length with ⟨data, size, frames⟩
  have drained := drain_flatten p.length (ab.afl.map Unread.bytes)
  rw [drained.1] at data size
  have copied : (readFrames ab.afl ab.curSz p.length).1 = ab.queued.take p.length := data
  rw [read_frames some_ full]
  refine ⟨?_, size, ?_⟩
  · show (readFrames ab.afl ab.curSz p.length).1.map some ++
      p.drop (readFrames ab.afl ab.curSz p.length).1.length = _
    have rest : p.drop (min p.length ab.queued.length) = p.drop ab.queued.length := by
      rcases Nat.le_total p.length ab.queued.length with covered | short
      · rw [Nat.min_eq_left covered, List.drop_of_length_le (Nat.le_refl _), List.drop_of_length_le covered]
      · rw [Nat.min_eq_right short]
    rw [copied, List.length_take, rest]
  · show ((readFrames ab.afl ab.curSz p.length).2.2.map Unread.bytes).flatten = _
    rw [frames]
    exact drained.2

theorem read_maxSz (ab : Aubuf) (p : List (Option Byte)) : (ab.read p).2.maxSz = ab.maxSz := by
  by_cases none_ : p.length = 0
  · rw [read, if_pos none_]
  · by_cases low : ab.curSz < if ab.filling then ab.wishSz else p.length
    · rw [read_silent none_ low]
    · rw [read_frames none_ low]

theorem write_within (within : ¬ ab.Overrun bytes) :
    (ab.write bytes).curSz = ab.curSz + bytes.length ∧ (ab.write bytes).maxSz = ab.maxSz ∧
      (ab.write bytes).queued = ab.queued ++ bytes := by
  have same := copied_bytes bytes
  have size : (copied bytes).mb.getLeft = bytes.length := by rw [← Unread.bytes_length, same]
  rw [write, append_within (copied bytes) (same.symm ▸ within)]
  refine ⟨by rw [size], rfl, ?_⟩
  simp [queued, pieces, same]

theorem write_overrun (beyond : ab.Overrun bytes) :
    (ab.write bytes).curSz = ab.curSz + bytes.length - (ab.oldest bytes).length ∧ (ab.write bytes).maxSz = ab.maxSz ∧
      ab.queued ++ bytes = ab.oldest bytes ++ (ab.write bytes).queued := by
  have same := copied_bytes bytes
  have size : (copied bytes).mb.getLeft = bytes.length := by rw [← Unread.bytes_length, same]
  rcases append_overrun (copied bytes) (same.symm ▸ beyond) with ⟨af, rest, frames, after⟩
  have cut : ab.pieces ++ [bytes] = af.bytes :: rest.map Unread.bytes := by
    rw [← List.map_cons, ← frames, List.map_append]
    simp only [pieces, List.map_cons, List.map_nil, same]
  have oldest_ : ab.oldest bytes = af.bytes := by rw [oldest, cut, List.headD_cons]
  have joined := congrArg List.flatten cut
  rw [List.flatten_append, List.flatten_cons] at joined
  rw [write, after, oldest_]
  refine ⟨by rw [size, af.bytes_length], rfl, ?_⟩
  rw [show ab.queued = ab.pieces.flatten from rfl, show bytes = [bytes].flatten by simp]
  exact joined

end Aubuf

end Baresip
