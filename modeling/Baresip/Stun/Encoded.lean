import Baresip.Stun.Tiles

set_option linter.dupNamespace false

namespace Baresip.Stun

open Re Library

section
variable {front gap rest data tail : List Byte} {p e : Nat} {writes : List (List Byte)}

/-- What is written over a gap of its own length leaves the rest where it is. -/
theorem writeMem_over (place : p = front.length) (same : gap.length = data.length) (inside : p + data.length ≤ e) :
    (⟨front ++ (gap ++ rest), p, e⟩ : Mbuf).writeMem data = ⟨front ++ (data ++ rest), p + data.length, e⟩ := by
  subst place
  have room : ¬ front.length + data.length > (front ++ (gap ++ rest)).length := by
    rw [List.length_append, List.length_append]
    omega
  have behind : (front ++ (gap ++ rest)).drop (front.length + data.length) = rest := by
    rw [← same, ← List.drop_drop, List.drop_left, List.drop_left]
  have before : (front ++ (gap ++ rest)).take front.length = front := List.take_left
  unfold Mbuf.writeMem Mbuf.grow
  dsimp only
  rw [if_neg room]
  dsimp only
  rw [behind, before, Nat.max_eq_left inside, List.append_assoc]

theorem writeAll_over (place : p = front.length) (same : gap.length = writes.flatten.length)
    (inside : p + writes.flatten.length ≤ e) :
    writeAll ⟨front ++ (gap ++ rest), p, e⟩ writes =
      ⟨front ++ (writes.flatten ++ rest), p + writes.flatten.length, e⟩ := by
  induction writes generalizing front gap p with
  | nil =>
    have empty : gap = [] := List.length_eq_zero_iff.mp same
    rw [empty]
    rfl
  | cons data writes ih =>
    rw [List.flatten_cons, List.length_append] at same inside
    have first : (gap.take data.length).length = data.length := by
      rw [List.length_take]
      omega
    have others : (gap.drop data.length).length = writes.flatten.length := by
      rw [List.length_drop]
      omega
    have split : front ++ (gap ++ rest) = front ++ (gap.take data.length ++ (gap.drop data.length ++ rest)) := by
      rw [← List.append_assoc (gap.take data.length), List.take_append_drop]
    have next : p + data.length = (front ++ data).length := by rw [List.length_append, place]
    show writeAll ((⟨front ++ (gap ++ rest), p, e⟩ : Mbuf).writeMem data) writes = _
    rw [split, writeMem_over place first (by omega), ← List.append_assoc front, ih next others (by omega),
      List.flatten_cons, List.length_append, List.append_assoc, List.append_assoc, Nat.add_assoc]

/-- What is written at the end is appended. -/
theorem writeAll_end (writes : List (List Byte)) {front : List Byte} {p : Nat} (place : p = front.length)
    (tail : List Byte) : ∃ tail', writeAll ⟨front ++ tail, p, p⟩ writes =
      ⟨front ++ (writes.flatten ++ tail'), p + writes.flatten.length, p + writes.flatten.length⟩ := by
  induction writes generalizing front p tail with
  | nil => exact ⟨tail, rfl⟩
  | cons data writes ih =>
    rcases Mbuf.grow_extends ⟨front ++ tail, p, p⟩ (p + data.length) with ⟨more, grown, _⟩
    have whole : ((⟨front ++ tail, p, p⟩ : Mbuf).grow (p + data.length)).buf = front ++ (tail ++ more) :=
      grown.trans (List.append_assoc _ _ _)
    have before : (front ++ (tail ++ more)).take p = front := by
      rw [place]
      exact List.take_left
    have behind : (front ++ (tail ++ more)).drop (p + data.length) = (tail ++ more).drop data.length := by
      rw [place, ← List.drop_drop, List.drop_left]
    have wrote : (⟨front ++ tail, p, p⟩ : Mbuf).writeMem data =
        ⟨front ++ data ++ (tail ++ more).drop data.length, p + data.length, p + data.length⟩ := by
      unfold Mbuf.writeMem
      dsimp only
      rw [whole, before, behind, Nat.max_eq_right (Nat.le_add_right _ _)]
    have next : p + data.length = (front ++ data).length := by rw [List.length_append, place]
    rcases ih next ((tail ++ more).drop data.length) with ⟨tail', written⟩
    refine ⟨tail', ?_⟩
    show writeAll ((⟨front ++ tail, p, p⟩ : Mbuf).writeMem data) writes = _
    rw [wrote, written, List.flatten_cons, List.length_append, List.append_assoc, List.append_assoc, Nat.add_assoc]

/-- An attribute as it is sent, without its padding. -/
def attrBytes (type : BitVec 16) (value : List Byte) : List Byte :=
  putBe 2 type.toNat ++ (putBe 2 value.length ++ value)

@[simp] theorem attrBytes_length (type : BitVec 16) (value : List Byte) :
    (attrBytes type value).length = 4 + value.length := by
  simp only [attrBytes, List.length_append, putBe_length]
  omega

/-- An attribute that needs no padding and is written over a gap of its own length. -/
theorem attrEncode_over {tid : BitVec 96} {type : BitVec 16} {v : AttrValue} {pad : Byte}
    (value : valueBytes tid (formatOf type) v = some writes) (aligned : writes.flatten.length % 4 = 0)
    (place : p = front.length) (same : gap.length = 4 + writes.flatten.length) (inside : p + gap.length ≤ e) :
    attrEncode tid ⟨front ++ (gap ++ rest), p, e⟩ type v pad =
      (false, ⟨front ++ (attrBytes type writes.flatten ++ rest), p + (4 + writes.flatten.length), e⟩) := by
  have four : (gap.take 4).length = 4 := by
    rw [List.length_take]
    omega
  have others : (gap.drop 4).length = writes.flatten.length := by
    rw [List.length_drop]
    omega
  have split : front ++ (gap ++ rest) = (front ++ gap.take 4) ++ (gap.drop 4 ++ rest) := by
    rw [List.append_assoc, ← List.append_assoc (gap.take 4), List.take_append_drop]
  have next : p + 4 = (front ++ gap.take 4).length := by rw [List.length_append, four, place]
  have wrote : writeAll (⟨front ++ (gap ++ rest), p + 4, e⟩ : Mbuf) writes =
      ⟨front ++ (gap.take 4 ++ (writes.flatten ++ rest)), p + 4 + writes.flatten.length, e⟩ := by
    rw [split, writeAll_over next others (by omega), List.append_assoc]
  have length : p + 4 + writes.flatten.length - (p + 4) = writes.flatten.length := Nat.add_sub_cancel_left _ _
  have header : writeAll (⟨front ++ (gap.take 4 ++ (writes.flatten ++ rest)), p, e⟩ : Mbuf)
      [putBe 2 type.toNat, putBe 2 writes.flatten.length] =
        ⟨front ++ (attrBytes type writes.flatten ++ rest), p + 4, e⟩ := by
    have short : (gap.take 4).length = [putBe 2 type.toNat, putBe 2 writes.flatten.length].flatten.length := by
      simp [four]
    rw [writeAll_over place short (by simp; omega)]
    simp [attrBytes]
  have whole : padding writes.flatten.length = 0 := by
    unfold padding
    omega
  unfold attrEncode
  simp only [Mbuf.advance, Mbuf.setPos, value, Option.getD_some, wrote, Nat.add_sub_cancel, length, header, whole,
    List.replicate_zero, Option.isNone_some]
  simp only [writeAll, List.foldl_nil, Nat.add_assoc]

/-- What is read where a number of bytes has been put. -/
theorem readBe_append {n : Nat} {bytes rest : List Byte} (length : bytes.length = n) :
    readBe n (bytes ++ rest) = (getBe bytes, rest) := by
  have enough : n ≤ (bytes ++ rest).length := by
    rw [List.length_append]
    omega
  rw [readBe_le enough, ← length, List.take_left, List.drop_left]

/-- An attribute that is followed by its padding is decoded as its value is. -/
theorem attrDecode_bytes {tid : BitVec 96} {type : BitVec 16} {value pads : List Byte} {v : AttrValue}
    (small : value.length < 65536) (padded : pads.length = padding value.length)
    (decoded : valueDecode tid (formatOf type) value.length (value ++ (pads ++ rest)) = .ok (v, pads ++ rest)) :
    attrDecode tid (attrBytes type value ++ (pads ++ rest)) = .ok (⟨type, v⟩, rest) := by
  have bytes : attrBytes type value ++ (pads ++ rest) =
      putBe 2 type.toNat ++ (putBe 2 value.length ++ (value ++ (pads ++ rest))) := by
    simp only [attrBytes, List.append_assoc]
  have enough : ¬ (attrBytes type value ++ (pads ++ rest)).length < 4 := by
    rw [List.length_append, attrBytes_length]
    omega
  have len : getBe (putBe 2 value.length) = value.length := by
    rw [getBe_putBe]
    exact Nat.mod_eq_of_lt small
  have known : BitVec.ofNat 16 (getBe (putBe 2 type.toNat)) = type := by
    rw [getBe_toNat rfl, BitVec.ofNat_toNat, BitVec.setWidth_eq]
  have inside : ¬ (value ++ (pads ++ rest)).length < value.length := by
    rw [List.length_append]
    omega
  have behind : (value ++ (pads ++ rest)).length - (pads ++ rest).length = value.length := by
    have sum : (value ++ (pads ++ rest)).length = value.length + (pads ++ rest).length := List.length_append
    omega
  unfold attrDecode
  rw [if_neg enough, bytes, readBe_append (putBe_length _ _)]
  dsimp only
  rw [readBe_append (putBe_length _ _)]
  dsimp only
  rw [len, known, if_neg inside, decoded]
  dsimp only
  rw [behind, ← padded, List.drop_left]

end

end Baresip.Stun
