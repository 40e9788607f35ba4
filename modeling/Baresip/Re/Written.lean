import Baresip.Re.Mbuf

set_option linter.dupNamespace false

namespace Baresip.Re.Mbuf

section
variable {mb : Mbuf} {bytes : List Byte}

/-- The bytes up to the position, where the next write goes. -/
structure Written (mb : Mbuf) (bytes : List Byte) : Prop where
  length : mb.pos = bytes.length
  content : mb.buf.take mb.pos = bytes
  ended : mb.pos ≤ mb.endPos
  inside : mb.endPos ≤ mb.buf.length

theorem written_take (ended : mb.pos ≤ mb.endPos) (inside : mb.endPos ≤ mb.buf.length) :
    mb.Written (mb.buf.take mb.pos) := by
  refine ⟨?_, rfl, ended, inside⟩
  rw [List.length_take]
  omega

theorem writeMem_length (mb : Mbuf) (data : List Byte) :
    mb.pos + data.length ≤ (mb.writeMem data).buf.length ∧ mb.buf.length ≤ (mb.writeMem data).buf.length := by
  obtain ⟨tail, grown, large⟩ := mb.grow_extends (mb.pos + data.length)
  have longer : mb.buf.length ≤ (mb.grow (mb.pos + data.length)).buf.length := by
    rw [grown, List.length_append]
    omega
  simp only [writeMem, List.length_append, List.length_take, List.length_drop]
  omega

theorem writeMem_take (start : mb.pos ≤ mb.buf.length) (data : List Byte) :
    (mb.writeMem data).buf.take (mb.pos + data.length) = mb.buf.take mb.pos ++ data := by
  obtain ⟨tail, grown, large⟩ := mb.grow_extends (mb.pos + data.length)
  have front : (mb.grow (mb.pos + data.length)).buf.take mb.pos = mb.buf.take mb.pos := by
    rw [grown, List.take_append_of_le_length start]
  have width : (mb.buf.take mb.pos ++ data).length = mb.pos + data.length := by
    rw [List.length_append, List.length_take, Nat.min_eq_left start]
  simp only [writeMem]
  rw [front, List.take_append_of_le_length (Nat.le_of_eq width.symm), List.take_of_length_le (Nat.le_of_eq width)]

theorem Written.write (written : mb.Written bytes) (data : List Byte) : (mb.writeMem data).Written (bytes ++ data) := by
  have start : mb.pos ≤ mb.buf.length := Nat.le_trans written.ended written.inside
  obtain ⟨large, longer⟩ := mb.writeMem_length data
  refine ⟨?_, ?_, Nat.le_max_right _ _, ?_⟩
  · rw [List.length_append, ← written.length]
    rfl
  · rw [show (mb.writeMem data).pos = mb.pos + data.length from rfl, writeMem_take start, written.content]
  · exact Nat.max_le.mpr ⟨Nat.le_trans written.inside longer, large⟩

/-- `mb->buf[pos] = v`. -/
def putAt (mb : Mbuf) (pos : Nat) (v : Byte) : Mbuf := { mb with buf := mb.buf.set pos v }

theorem Written.putAt {front behind : List Byte} {old : Byte} (written : mb.Written (front ++ old :: behind)) (v : Byte) :
    (mb.putAt front.length v).Written (front ++ v :: behind) := by
  refine ⟨?_, ?_, written.ended, ?_⟩
  · have length := written.length
    rw [List.length_append, List.length_cons] at length ⊢
    exact length
  · have content := written.content
    simp only [Mbuf.putAt]
    rw [List.take_set, content, List.set_append_right _ _ (Nat.le_refl _), Nat.sub_self]
    rfl
  · have inside := written.inside
    simp only [Mbuf.putAt, List.length_set]
    exact inside

/-- Bytes that have been written are written over, and the position goes back behind what follows them. -/
theorem Written.rewrite {front old behind data : List Byte} (written : mb.Written (front ++ old ++ behind))
    (same : data.length = old.length) :
    (((mb.setPos front.length).writeMem data).advance behind.length).Written (front ++ data ++ behind) := by
  have length := written.length
  have ended := written.ended
  have inside := written.inside
  rw [List.length_append, List.length_append] at length
  have fits : front.length + data.length ≤ mb.buf.length := by omega
  have kept : (mb.setPos front.length).grow (front.length + data.length) = mb.setPos front.length :=
    if_neg (Nat.not_lt.mpr fits)
  refine ⟨?_, ?_, ?_, ?_⟩
  · rw [List.length_append, List.length_append]
    rfl
  · have content := written.content
    have cut : mb.buf = (front ++ old ++ behind) ++ mb.buf.drop mb.pos := by
      conv_lhs => rw [← List.take_append_drop mb.pos mb.buf]
      rw [content]
    have rest : mb.buf.drop (front.length + data.length) = behind ++ mb.buf.drop mb.pos := by
      conv_lhs => rw [cut]
      rw [List.append_assoc, same, ← List.length_append, List.drop_left]
    have before : mb.buf.take front.length = front := by
      rw [cut, List.append_assoc, List.append_assoc, List.take_left]
    have width : front.length + data.length + behind.length = (front ++ data ++ behind).length := by
      rw [List.length_append, List.length_append]
    simp only [writeMem, advance, setPos] at kept ⊢
    rw [kept]
    dsimp only
    rw [before, rest, ← List.append_assoc, width, List.take_left]
  · simp only [writeMem, advance, setPos]
    omega
  · have longer := ((mb.setPos front.length).writeMem_length data).2
    simp only [writeMem, advance, setPos] at kept longer ⊢
    rw [kept] at longer ⊢
    dsimp only at longer ⊢
    omega

theorem Written.unique {bytes' : List Byte} (written : mb.Written bytes) (written' : mb.Written bytes') :
    bytes = bytes' := written.content.symm.trans written'.content

theorem putAt_putAt {p q : Nat} (apart : p ≠ q) (v w : Byte) :
    (mb.putAt p v).putAt q w = (mb.putAt q w).putAt p v := by
  simp only [Mbuf.putAt]
  rw [List.set_comm _ _ apart]

theorem grow_putAt {p : Nat} (inside : p < mb.buf.length) (v : Byte) (size : Nat) :
    (mb.putAt p v).grow size = (mb.grow size).putAt p v := by
  simp only [grow, Mbuf.putAt, List.length_set]
  split
  · simp only [resize, List.length_set]
    rw [← List.set_append_left _ _ inside, List.take_set]
  · rfl

/-- A byte in front of the position can as well be put there before a write as after it. -/
theorem putAt_writeMem {p : Nat} (here : p < mb.pos) (start : mb.pos ≤ mb.buf.length) (v : Byte) (data : List Byte) :
    (mb.putAt p v).writeMem data = (mb.writeMem data).putAt p v := by
  obtain ⟨-, large⟩ := mb.writeMem_length data
  obtain ⟨tail, grown, -⟩ := mb.grow_extends (mb.pos + data.length)
  have front : p < ((mb.grow (mb.pos + data.length)).buf.take mb.pos).length := by
    rw [List.length_take, grown, List.length_append]
    omega
  have again := grow_putAt (Nat.lt_of_lt_of_le here start) v (mb.pos + data.length)
  simp only [writeMem, show (mb.putAt p v).pos = mb.pos from rfl, show (mb.putAt p v).endPos = mb.endPos from rfl]
  rw [again]
  simp only [Mbuf.putAt]
  rw [List.take_set, List.drop_set_of_lt (show p < mb.pos + data.length by omega), List.append_assoc, List.append_assoc,
    List.set_append_left _ _ front]

/-- The two bytes of a write can as well be put there behind it. -/
theorem putAt_pair (start : mb.pos ≤ mb.buf.length) (v w v' w' : Byte) :
    ((mb.writeMem [v, w]).putAt mb.pos v').putAt (mb.pos + 1) w' = mb.writeMem [v', w'] := by
  obtain ⟨tail, grown, -⟩ := mb.grow_extends (mb.pos + 2)
  have front : ((mb.grow (mb.pos + 2)).buf.take mb.pos).length = mb.pos := by
    rw [grown, List.length_take, List.length_append]
    omega
  have set (bytes behind : List Byte) (length : bytes.length = mb.pos) :
      ((bytes ++ [v, w] ++ behind).set mb.pos v').set (mb.pos + 1) w' = bytes ++ [v', w'] ++ behind := by
    rw [← length, List.append_assoc, List.append_assoc, List.set_append_right _ _ (Nat.le_refl _),
      List.set_append_right _ _ (Nat.le_add_right _ _), Nat.sub_self, Nat.add_sub_cancel_left]
    rfl
  simp only [writeMem, Mbuf.putAt, List.length_cons, List.length_nil]
  rw [set _ _ front]

end

section
variable {mb : Mbuf} {start gap : Nat} {front behind data : List Byte}

/-- A gap that has been left in front of what is written is filled from its start. -/
structure Patched (mb : Mbuf) (start : Nat) (front : List Byte) (gap : Nat) (behind : List Byte) : Prop where
  position : mb.pos = start + front.length
  ends : mb.endPos = start + front.length + gap + behind.length
  first : (mb.buf.drop start).take front.length = front
  last : (mb.buf.drop (start + front.length + gap)).take behind.length = behind

theorem Holds.patched (held : mb.Holds (start + gap) behind) : (mb.setPos start).Patched start [] gap behind :=
  ⟨rfl, held.ends, rfl, held.content⟩

theorem Patched.write (patched : mb.Patched start front gap behind) (fits : data.length ≤ gap) :
    (mb.writeMem data).Patched start (front ++ data) (gap - data.length) behind := by
  have position := patched.position
  have ends := patched.ends
  rcases mb.grow_extends (mb.pos + data.length) with ⟨tail, grown, large⟩
  have before : (((mb.grow (mb.pos + data.length)).buf.take mb.pos).drop start) = front := by
    have width : mb.pos - start = front.length := by omega
    rw [List.drop_take, grown, width]
    exact take_grown patched.first
  have length : ((mb.grow (mb.pos + data.length)).buf.take mb.pos).length = mb.pos := by
    rw [List.length_take]
    omega
  constructor
  · show mb.pos + data.length = _
    rw [List.length_append]
    omega
  · show max mb.endPos (mb.pos + data.length) = _
    rw [List.length_append]
    omega
  · simp only [writeMem]
    rw [List.append_assoc, List.drop_append_of_le_length (by omega), before, ← List.append_assoc]
    exact List.take_left
  · have offset : start + (front ++ data).length + (gap - data.length) = start + front.length + gap := by
      rw [List.length_append]
      omega
    have behind_ : (start + front.length + gap) = ((mb.grow (mb.pos + data.length)).buf.take mb.pos ++ data).length +
        (gap - data.length) := by
      rw [List.length_append, length]
      omega
    have rest : mb.pos + data.length + (gap - data.length) = start + front.length + gap := by omega
    simp only [writeMem]
    rw [offset, behind_, List.drop_length_add_append, List.drop_drop, rest, grown]
    exact take_grown patched.last

/-- The gap is full. -/
theorem Patched.holds (patched : mb.Patched start front 0 behind) : mb.skipToEnd.Holds start (front ++ behind) := by
  have ends := patched.ends
  refine ⟨rfl, ?_, ?_⟩
  · show mb.endPos = _
    rw [List.length_append]
    omega
  · show (mb.buf.drop start).take (front ++ behind).length = front ++ behind
    have last := patched.last
    rw [Nat.add_zero, ← List.drop_drop] at last
    rw [List.length_append, List.take_add, patched.first, last]

end

end Baresip.Re.Mbuf
