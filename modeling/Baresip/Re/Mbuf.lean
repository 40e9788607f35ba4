import Mathlib.Tactic.Common

set_option linter.dupNamespace false

namespace Baresip.Re

abbrev Byte := BitVec 8

/-- The members of a list are decided one by one, where the instance for bit vectors goes through all bytes. -/
instance (priority := 1100) decidableForallMem (l : List Byte) (p : Byte → Prop) [DecidablePred p] :
    Decidable (∀ c ∈ l, p c) := List.decidableBAll p l

inductive Errno
  | EINVAL | ENOENT | ENOMEM | EBADMSG | EPROTO | EOVERFLOW | ETIMEDOUT | EALREADY | ENOSYS | ENOTSUP
  deriving DecidableEq, Repr

/-- A memory buffer: `buf` is the whole allocation, so its length is the source's `size`. -/
structure Mbuf where
  buf : List Byte
  pos : Nat
  endPos : Nat
  deriving DecidableEq, Repr

def defaultSize : Nat := 512

namespace Mbuf

def alloc (size : Nat) : Mbuf := ⟨List.replicate (if size = 0 then defaultSize else size) 0, 0, 0⟩

def getLeft (mb : Mbuf) : Nat := mb.endPos - mb.pos

def left (mb : Mbuf) : List Byte := (mb.buf.drop mb.pos).take mb.getLeft

def setPos (mb : Mbuf) (pos : Nat) : Mbuf := { mb with pos := pos }

def restart (mb : Mbuf) (pos : Nat) : Mbuf := { mb with pos := pos, endPos := pos }

def rewind (mb : Mbuf) : Mbuf := mb.restart 0

def advance (mb : Mbuf) (n : Nat) : Mbuf := { mb with pos := mb.pos + n }

def skipToEnd (mb : Mbuf) : Mbuf := { mb with pos := mb.endPos }

def resize (mb : Mbuf) (size : Nat) : Mbuf :=
  { mb with buf := (mb.buf ++ List.replicate (size - mb.buf.length) 0).take size }

def grow (mb : Mbuf) (rsize : Nat) : Mbuf :=
  if rsize > mb.buf.length then
    mb.resize (max rsize (if mb.buf.length = 0 then defaultSize else mb.buf.length * 2))
  else mb

def writeMem (mb : Mbuf) (data : List Byte) : Mbuf :=
  let grown := mb.grow (mb.pos + data.length)
  { buf := grown.buf.take mb.pos ++ data ++ grown.buf.drop (mb.pos + data.length)
    pos := mb.pos + data.length
    endPos := max mb.endPos (mb.pos + data.length) }

def writeU8 (mb : Mbuf) (v : Byte) : Mbuf := mb.writeMem [v]

/-- `mbuf_read_u8`, which yields 0 and leaves the position where it is when nothing is left. -/
def readU8 (mb : Mbuf) : Byte × Mbuf :=
  match mb.left with
  | [] => (0, mb)
  | v :: _ => (v, mb.advance 1)

def htonl (v : BitVec 32) : List Byte :=
  [v.extractLsb' 24 8, v.extractLsb' 16 8, v.extractLsb' 8 8, v.extractLsb' 0 8]

/-- `ntohl(mbuf_read_u32(mb))`, which is 0 when fewer than four bytes are left. -/
def readNtohl (mb : Mbuf) : BitVec 32 × Mbuf :=
  match mb.left with
  | a :: b :: c :: d :: _ => (a ++ b ++ c ++ d, mb.advance 4)
  | _ => (0, mb)

def readMem (mb : Mbuf) (size : Nat) : Except Errno (List Byte × Mbuf) :=
  if size > mb.getLeft then .error .EOVERFLOW
  else .ok ((mb.buf.drop mb.pos).take size, mb.advance size)

/-- The string ends at its first zero byte, which may come before the `len` bytes that are copied. -/
def strdup (mb : Mbuf) (len : Nat) : Except Errno (List Byte × Mbuf) :=
  (mb.readMem len).map fun (data, mb) => (data.takeWhile (· != 0), mb)

/-- Writing has put `data` at `start`, and the next write appends to it. -/
structure Holds (mb : Mbuf) (start : Nat) (data : List Byte) : Prop where
  atEnd : mb.pos = mb.endPos
  ends : mb.endPos = start + data.length
  content : (mb.buf.drop start).take data.length = data

theorem grow_extends (mb : Mbuf) (rsize : Nat) :
    ∃ tail, (mb.grow rsize).buf = mb.buf ++ tail ∧ rsize ≤ (mb.grow rsize).buf.length := by
  by_cases short : rsize > mb.buf.length
  · obtain ⟨size, large, eq⟩ : ∃ size, rsize ≤ size ∧ mb.grow rsize = mb.resize size :=
      ⟨_, Nat.le_max_left _ _, if_pos short⟩
    have full : (mb.resize size).buf = mb.buf ++ List.replicate (size - mb.buf.length) 0 := by
      simp only [resize]
      exact List.take_of_length_le (by simp only [List.length_append, List.length_replicate]; omega)
    refine ⟨List.replicate (size - mb.buf.length) 0, by rw [eq, full], ?_⟩
    rw [eq, full, List.length_append, List.length_replicate]
    omega
  · exact ⟨[], by simp [grow, short], by simp only [grow, short, ite_false]; omega⟩

theorem take_grown {old tail data : List Byte} {start : Nat}
    (content : (old.drop start).take data.length = data) :
    ((old ++ tail).drop start).take data.length = data := by
  rw [List.drop_append]
  by_cases inside : data.length ≤ (old.drop start).length
  · rw [List.take_append_of_le_length inside, content]
  · have short := congrArg List.length content
    rw [List.length_take] at short
    omega

theorem holds_restart (mb : Mbuf) (start : Nat) : (mb.restart start).Holds start [] :=
  ⟨rfl, rfl, by simp⟩

theorem Holds.write {mb : Mbuf} {start : Nat} {data : List Byte} (held : mb.Holds start data)
    (more : List Byte) : (mb.writeMem more).Holds start (data ++ more) := by
  have atPos : mb.pos = start + data.length := held.atEnd.trans held.ends
  obtain ⟨tail, grown, large⟩ := mb.grow_extends (mb.pos + more.length)
  have before : (((mb.grow (mb.pos + more.length)).buf.take mb.pos).drop start) = data := by
    have width : mb.pos - start = data.length := by omega
    rw [List.drop_take, grown, width]
    exact take_grown held.content
  refine ⟨?_, ?_, ?_⟩
  · simp only [writeMem, held.atEnd]
    omega
  · simp only [writeMem, ← held.atEnd, atPos, List.length_append]
    omega
  · have inside : start ≤ ((mb.grow (mb.pos + more.length)).buf.take mb.pos).length := by
      rw [List.length_take]
      omega
    simp only [writeMem]
    rw [List.append_assoc, List.drop_append_of_le_length inside, before, ← List.append_assoc]
    exact List.take_left

theorem Holds.left {mb : Mbuf} {start : Nat} {data : List Byte} (held : mb.Holds start data) :
    (mb.setPos start).left = data := by
  simp only [Mbuf.left, setPos, getLeft, held.ends, Nat.add_sub_cancel_left]
  exact held.content

theorem Holds.strdup {mb : Mbuf} {data : List Byte} (held : mb.Holds 0 data) (plain : 0 ∉ data) :
    (mb.setPos 0).strdup mb.endPos = .ok (data, mb) := by
  have ends : mb.endPos = data.length := by simpa using held.ends
  have content : mb.buf.take mb.endPos = data := by simpa [ends] using held.content
  have back : (mb.setPos 0).advance mb.endPos = mb := by
    rw [← held.atEnd]
    simp only [setPos, advance, Nat.zero_add]
  have whole : data.takeWhile (· != 0) = data := by
    rw [← List.append_nil data, List.takeWhile_append_of_pos]
    · simp
    · intro c inside
      exact bne_iff_ne.mpr fun zero => plain (zero ▸ inside)
  have fits : ¬ mb.endPos > (mb.setPos 0).getLeft := by simp only [getLeft, setPos]; omega
  simp only [Mbuf.strdup, readMem, fits, ite_false, Except.map, back]
  simp only [setPos, List.drop_zero, content, whole]

theorem Holds.unique {mb : Mbuf} {start : Nat} {data data' : List Byte} (held : mb.Holds start data)
    (held' : mb.Holds start data') : data = data' := by
  rw [← held.left, held'.left]

theorem Holds.fits {mb : Mbuf} {start : Nat} {data : List Byte} (held : mb.Holds start data)
    (some_ : data ≠ []) : mb.endPos ≤ mb.buf.length := by
  have length := congrArg List.length held.content
  have positive := List.length_pos_iff.mpr some_
  have ends := held.ends
  rw [List.length_take, List.length_drop] at length
  omega

theorem Holds.left_behind {mb : Mbuf} {start before : Nat} {data : List Byte} (held : mb.Holds start data)
    (earlier : before ≤ start) (some_ : data ≠ []) :
    ∃ head, head.length = start - before ∧ (mb.setPos before).left = head ++ data := by
  have fits := held.fits some_
  have ends := held.ends
  refine ⟨(mb.buf.drop before).take (start - before), ?_, ?_⟩
  · rw [List.length_take, List.length_drop]
    omega
  · have width : mb.endPos - before = (start - before) + data.length := by omega
    have offset : before + (start - before) = start := by omega
    simp only [Mbuf.left, setPos, getLeft]
    rw [width, List.take_add, List.drop_drop, offset, held.content]

theorem left_length {mb : Mbuf} (inside : mb.endPos ≤ mb.buf.length) : mb.left.length = mb.getLeft := by
  simp only [Mbuf.left, getLeft, List.length_take, List.length_drop]
  omega

theorem advance_left (mb : Mbuf) (n : Nat) : (mb.advance n).left = mb.left.drop n := by
  simp only [Mbuf.left, getLeft, advance, List.drop_take, List.drop_drop]
  congr 1
  omega

end Mbuf

/-- The unread part of a received buffer: its positions are in order and inside the allocation. -/
structure Unread where
  mb : Mbuf
  ordered : mb.pos ≤ mb.endPos
  inside : mb.endPos ≤ mb.buf.length

theorem Unread.advance_ordered (src : Unread) {n : Nat} (fits : n ≤ src.mb.getLeft) :
    (src.mb.advance n).pos ≤ (src.mb.advance n).endPos := by
  have ordered := src.ordered
  simp only [Mbuf.getLeft] at fits
  simp only [Mbuf.advance]
  omega

def Unread.bytes (src : Unread) : List Byte := src.mb.left

def Unread.ofBytes (data : List Byte) : Unread :=
  ⟨⟨data, 0, data.length⟩, Nat.zero_le _, Nat.le_refl _⟩

@[simp] theorem Unread.ofBytes_bytes (data : List Byte) : (Unread.ofBytes data).bytes = data := by
  simp [ofBytes, bytes, Mbuf.left, Mbuf.getLeft]

end Baresip.Re
