import Baresip.Stun.Encoded
import Mathlib.Data.List.TakeWhile
import Mathlib.Tactic.IntervalCases

set_option linter.dupNamespace false

namespace Baresip.Stun

open Re Library

/-! What the writes of an encoder leave in the buffer. -/

/-- From a position on there are these bytes. -/
def Seg (buf : List Byte) (q : Nat) (x : List Byte) : Prop := x <+: buf.drop q

section
variable {buf more x y data : List Byte} {p q : Nat} {mb a b c : Mbuf}

theorem Seg.nil (buf : List Byte) (q : Nat) : Seg buf q [] := List.nil_prefix

theorem Seg.append (first : Seg buf q x) (second : Seg buf (q + x.length) y) : Seg buf q (x ++ y) := by
  obtain ⟨behind, whole⟩ := first
  unfold Seg at second
  rw [← List.drop_drop, ← whole, List.drop_left] at second
  obtain ⟨rest, split⟩ := second
  exact ⟨rest, by rw [← whole, ← split, List.append_assoc]⟩

theorem Seg.grown (seg : Seg buf q x) : Seg (buf ++ more) q x := by
  refine seg.trans ?_
  rw [List.drop_append]
  exact List.prefix_append _ _

theorem Seg.take (seg : Seg buf q x) : (buf.drop q).take x.length = x := List.prefix_iff_eq_take.mp seg |>.symm

/-- The writes have put `data` where the buffer stood, and nothing else is changed. -/
structure Written (a b : Mbuf) (data : List Byte) : Prop where
  pos : b.pos = a.pos + data.length
  seg : Seg b.buf a.pos data
  before : ∀ q x, Seg a.buf q x → q + x.length ≤ a.pos → Seg b.buf q x
  behind : ∀ q x, Seg a.buf q x → a.pos + data.length ≤ q → Seg b.buf q x
  lower : a.endPos ≤ b.endPos
  upper : b.endPos ≤ max a.endPos (a.pos + data.length)
  reached : data ≠ [] → a.pos + data.length ≤ b.endPos

theorem Written.nil (a : Mbuf) : Written a a [] where
  pos := rfl
  seg := .nil _ _
  before _ _ seg _ := seg
  behind _ _ seg _ := seg
  lower := Nat.le_refl _
  upper := Nat.le_max_left _ _
  reached none_ := absurd rfl none_

theorem Written.trans (first : Written a b x) (second : Written b c y) : Written a c (x ++ y) where
  pos := by rw [second.pos, first.pos, List.length_append, Nat.add_assoc]
  seg := by
    have behind := second.seg
    rw [first.pos] at behind
    exact (second.before _ _ first.seg (Nat.le_of_eq first.pos.symm)).append behind
  before q z seg ends := by
    have moved := first.pos
    exact second.before q z (first.before q z seg ends) (by omega)
  behind q z seg ends := by
    have moved := first.pos
    rw [List.length_append] at ends
    exact second.behind q z (first.behind q z seg (by omega)) (by omega)
  lower := Nat.le_trans first.lower second.lower
  upper := by
    have moved := first.pos
    have left := first.upper
    have right := second.upper
    rw [List.length_append]
    omega
  reached some_ := by
    have moved := first.pos
    rw [List.length_append]
    by_cases empty : y = []
    · have reached := first.reached (by rintro rfl; exact some_ (by rw [empty]; rfl))
      have later := second.lower
      rw [empty, List.length_nil]
      omega
    · have reached := second.reached empty
      omega

theorem written_mem (mb : Mbuf) (data : List Byte) : Written mb (mb.writeMem data) data := by
  obtain ⟨more, grown, enough⟩ := Mbuf.grow_extends mb (mb.pos + data.length)
  have room : ((mb.buf ++ more).take mb.pos).length = mb.pos := by
    rw [grown] at enough
    rw [List.length_take]
    omega
  have bytes : (mb.writeMem data).buf =
      (mb.buf ++ more).take mb.pos ++ (data ++ (mb.buf ++ more).drop (mb.pos + data.length)) := by
    rw [← grown, ← List.append_assoc]
    rfl
  refine ⟨rfl, ?_, ?_, ?_, Nat.le_max_left _ _, Nat.le_refl _, fun _ => Nat.le_max_right _ _⟩
  · unfold Seg
    rw [bytes, List.drop_left' room]
    exact List.prefix_append _ _
  · intro q x seg ends
    have kept : x <+: ((mb.buf ++ more).drop q).take (mb.pos - q) := by
      refine List.prefix_take_iff.mpr ⟨seg.grown, by omega⟩
    have moved : ((mb.buf ++ more).take mb.pos).drop q = ((mb.buf ++ more).drop q).take (mb.pos - q) := List.drop_take
    unfold Seg
    rw [bytes, List.drop_append, moved]
    exact kept.trans (List.prefix_append _ _)
  · intro q x seg ends
    have inside : (mb.buf ++ more).take mb.pos ++ (data ++ (mb.buf ++ more).drop (mb.pos + data.length)) =
        ((mb.buf ++ more).take mb.pos ++ data) ++ (mb.buf ++ more).drop (mb.pos + data.length) :=
      (List.append_assoc _ _ _).symm
    have length : ((mb.buf ++ more).take mb.pos ++ data).length = mb.pos + data.length := by rw [List.length_append, room]
    have grown := @Seg.grown mb.buf more x q seg
    unfold Seg at grown ⊢
    obtain ⟨n, rfl⟩ := Nat.exists_eq_add_of_le ends
    rw [bytes, inside, ← List.drop_drop, List.drop_left' length, List.drop_drop]
    exact grown

theorem written_all (mb : Mbuf) (writes : List (List Byte)) : Written mb (writeAll mb writes) writes.flatten := by
  induction writes generalizing mb with
  | nil => exact .nil mb
  | cons data writes ih => exact (written_mem mb data).trans (ih (mb.writeMem data))

/-- The padding behind an attribute. -/
def attrPadded (type : BitVec 16) (value : List Byte) (pad : Byte) : List Byte :=
  attrBytes type value ++ List.replicate (padding value.length) pad

theorem attrPadded_length (type : BitVec 16) (value : List Byte) (pad : Byte) :
    (attrPadded type value pad).length = 4 + rounded value.length := by
  rw [attrPadded, List.length_append, attrBytes_length, List.length_replicate, Nat.add_assoc, rounded]

theorem written_attr {tid : BitVec 96} {type : BitVec 16} {v : AttrValue} {writes : List (List Byte)}
    (value : valueBytes tid (formatOf type) v = some writes) (mb : Mbuf) (pad : Byte) :
    (attrEncode tid mb type v pad).1 = false ∧
      Written mb (attrEncode tid mb type v pad).2 (attrPadded type writes.flatten pad) := by
  let mb1 := writeAll (mb.advance 4) writes
  let len := mb1.pos - (mb.pos + 4)
  let mb2 := writeAll (mb1.setPos mb.pos) [putBe 2 type.toNat, putBe 2 len]
  let pads := List.replicate (padding ((mb2.advance len).pos - (mb.pos + 4))) [pad]
  have whole : attrEncode tid mb type v pad = (false, writeAll (mb2.advance len) pads) := by
    unfold attrEncode
    simp only [value, Option.getD_some, Option.isNone_some, Nat.add_sub_cancel]
    rfl
  have first : Written (mb.advance 4) mb1 writes.flatten := written_all _ _
  have second : Written (mb1.setPos mb.pos) mb2 [putBe 2 type.toNat, putBe 2 len].flatten := written_all _ _
  have third : Written (mb2.advance len) (writeAll (mb2.advance len) pads) pads.flatten := written_all _ _
  have start1 : (mb.advance 4).pos = mb.pos + 4 := rfl
  have start2 : (mb1.setPos mb.pos).pos = mb.pos := rfl
  have header : [putBe 2 type.toNat, putBe 2 len].flatten.length = 4 := by simp
  have length : len = writes.flatten.length := by
    have moved := first.pos
    show mb1.pos - (mb.pos + 4) = _
    omega
  have start3 : (mb2.advance len).pos = mb.pos + 4 + writes.flatten.length := by
    have moved := second.pos
    show mb2.pos + len = _
    omega
  have padded : pads.flatten = List.replicate (padding writes.flatten.length) pad := by
    show (List.replicate (padding ((mb2.advance len).pos - (mb.pos + 4))) [pad]).flatten = _
    rw [start3, Nat.add_sub_cancel_left]
    simp
  have bytes : attrPadded type writes.flatten pad =
      [putBe 2 type.toNat, putBe 2 len].flatten ++ (writes.flatten ++ pads.flatten) := by
    rw [padded, attrPadded, attrBytes, length]
    simp
  rw [whole]
  refine ⟨rfl, ?_⟩
  rw [bytes]
  show Written mb (writeAll (mb2.advance len) pads) _
  have lower1 : mb.endPos ≤ mb1.endPos := first.lower
  have upper1 : mb1.endPos ≤ max mb.endPos (mb.pos + 4 + writes.flatten.length) := first.upper
  have reached1 : writes.flatten ≠ [] → mb.pos + 4 + writes.flatten.length ≤ mb1.endPos := first.reached
  have lower2 : mb1.endPos ≤ mb2.endPos := second.lower
  have upper2 := second.upper
  have reached2 := second.reached (by rw [ne_eq, ← List.length_eq_zero_iff, header]; decide)
  have lower3 : mb2.endPos ≤ (writeAll (mb2.advance len) pads).endPos := third.lower
  have upper3 := third.upper
  have reached3 := third.reached
  have same1 : (mb1.setPos mb.pos).endPos = mb1.endPos := rfl
  have same2 : (mb2.advance len).endPos = mb2.endPos := rfl
  constructor
  · have moved := third.pos
    rw [List.length_append, List.length_append, header]
    omega
  · have atValue : Seg mb1.buf (mb.pos + 4) writes.flatten := first.seg
    have atHeader : Seg mb2.buf mb.pos [putBe 2 type.toNat, putBe 2 len].flatten := second.seg
    have kept := second.behind _ _ atValue (by omega)
    have atPads := third.seg
    rw [start3] at atPads
    refine (third.before _ _ atHeader (by omega)).append ?_
    rw [header]
    exact (third.before _ _ kept (by omega)).append atPads
  · intro q x seg ends
    have one := first.before q x seg (by omega)
    have two := second.before q x one (by omega)
    exact third.before q x two (by omega)
  · intro q x seg ends
    rw [List.length_append, List.length_append, header] at ends
    have one := first.behind q x seg (by omega)
    have two := second.behind q x one (by omega)
    exact third.behind q x two (by omega)
  · omega
  · rw [List.length_append, List.length_append, header]
    omega
  · intro some_
    rw [List.length_append, List.length_append, header]
    by_cases empty : pads.flatten = []
    · rw [empty, List.length_nil]
      by_cases none_ : writes.flatten = []
      · rw [none_, List.length_nil]
        omega
      · have reached := reached1 none_
        omega
    · have reached := reached3 empty
      omega

/-- The attributes that are sent, with their values as bytes. -/
def sentBytes (tid : BitVec 96) (pad : Byte) : List Attr → List Byte
  | [] => []
  | attr :: rest =>
    attrPadded attr.type ((valueBytes tid (formatOf attr.type) attr.v).getD []).flatten pad ++ sentBytes tid pad rest

/-- Those without a value are left out. -/
def given (attrs : List (BitVec 16 × Option AttrValue)) : List Attr :=
  attrs.filterMap fun (type, v) => v.map (Attr.mk type)

theorem sentBytes_append (tid : BitVec 96) (pad : Byte) (attrs others : List Attr) :
    sentBytes tid pad (attrs ++ others) = sentBytes tid pad attrs ++ sentBytes tid pad others := by
  induction attrs with
  | nil => rfl
  | cons attr attrs ih => rw [List.cons_append, sentBytes, sentBytes, ih, List.append_assoc]

/-- A value of the format of its type. -/
def Attr.Encodes (tid : BitVec 96) (attr : Attr) : Prop := (valueBytes tid (formatOf attr.type) attr.v).isSome

theorem written_sent {tid : BitVec 96} (pad : Byte) {attr : Attr} (encodes : attr.Encodes tid) (mb : Mbuf) :
    (attrEncode tid mb attr.type attr.v pad).1 = false ∧
      Written mb (attrEncode tid mb attr.type attr.v pad).2 (sentBytes tid pad [attr]) := by
  obtain ⟨writes, value⟩ := Option.isSome_iff_exists.mp encodes
  rw [sentBytes, sentBytes, value, Option.getD_some, List.append_nil]
  exact written_attr value mb pad

theorem written_attrs {tid : BitVec 96} (pad : Byte) {attrs : List (BitVec 16 × Option AttrValue)}
    (encode : ∀ attr ∈ given attrs, attr.Encodes tid) (mb : Mbuf) :
    (attrsEncode tid pad attrs (false, mb)).1 = false ∧
      Written mb (attrsEncode tid pad attrs (false, mb)).2 (sentBytes tid pad (given attrs)) := by
  induction attrs generalizing mb with
  | nil => exact ⟨rfl, .nil mb⟩
  | cons attr attrs ih =>
    obtain ⟨type, v⟩ := attr
    cases v with
    | none => exact ih encode mb
    | some v =>
      have split : given ((type, some v) :: attrs) = [Attr.mk type v] ++ given attrs := rfl
      rw [split, List.forall_mem_append, List.forall_mem_singleton] at encode
      obtain ⟨noError, first⟩ := written_sent pad encode.1 mb
      obtain ⟨noErrors, others⟩ := ih encode.2 (attrEncode tid mb type v pad).2
      have goes : attrsEncode tid pad ((type, some v) :: attrs) (false, mb) =
          attrsEncode tid pad attrs (false, (attrEncode tid mb type v pad).2) := by
        show attrsEncode tid pad attrs (false || (attrEncode tid mb type v pad).1, (attrEncode tid mb type v pad).2) = _
        rw [show (attrEncode tid mb type v pad).1 = false from noError]
        rfl
      rw [goes, split, sentBytes_append]
      exact ⟨noErrors, first.trans others⟩

/-- From a position on the buffer holds these bytes and ends. -/
structure Sent (mb : Mbuf) (start : Nat) (bytes : List Byte) : Prop where
  seg : Seg mb.buf start bytes
  ends : mb.endPos = start + bytes.length

theorem Sent.left {start : Nat} {bytes : List Byte} (sent : Sent mb start bytes) : (mb.setPos start).left = bytes := by
  show (mb.buf.drop start).take (mb.endPos - start) = bytes
  rw [sent.ends, Nat.add_sub_cancel_left]
  exact sent.seg.take

theorem Sent.append {start : Nat} {bytes : List Byte} (sent : Sent a start bytes) (stands : a.pos = start + bytes.length)
    (written : Written a b x) : Sent b start (bytes ++ x) ∧ b.pos = start + (bytes ++ x).length := by
  have lower := written.lower
  have upper := written.upper
  have reached := written.reached
  have ends := sent.ends
  have moved := written.pos
  have behind := written.seg
  rw [stands] at behind
  rw [List.length_append]
  refine ⟨⟨(written.before _ _ sent.seg (Nat.le_of_eq stands.symm)).append behind, ?_⟩, by omega⟩
  rw [List.length_append]
  by_cases empty : x = []
  · rw [empty, List.length_nil] at upper ⊢
    omega
  · have reached := reached empty
    omega

theorem setPos_setPos (mb : Mbuf) (p q : Nat) : (mb.setPos p).setPos q = mb.setPos q := rfl

/-- What the header stands before. -/
structure Body (mb : Mbuf) (start : Nat) (body : List Byte) : Prop where
  seg : Seg mb.buf (start + STUN_HEADER_SIZE) body
  ends : max mb.endPos (start + STUN_HEADER_SIZE) = start + STUN_HEADER_SIZE + body.length

theorem Sent.body {start : Nat} {header body : List Byte} (sent : Sent mb start (header ++ body))
    (length : header.length = STUN_HEADER_SIZE) : Body mb start body := by
  have ends := sent.ends
  rw [List.length_append, length] at ends
  refine ⟨?_, by omega⟩
  have whole := sent.seg
  unfold Seg at whole ⊢
  obtain ⟨rest, split⟩ := whole
  rw [← List.drop_drop, ← split, List.append_assoc, ← length, List.drop_left]
  exact List.prefix_append _ _

theorem hdrWrites_length (hdr : StunHdr) : (hdrWrites hdr).flatten.length = STUN_HEADER_SIZE := by
  simp [hdrWrites, STUN_HEADER_SIZE]

theorem Body.header {start : Nat} {body : List Byte} (whole : Body mb start body) (hdr : StunHdr) :
    Sent (hdrEncode (mb.setPos start) hdr) start ((hdrWrites hdr).flatten ++ body) ∧
      (hdrEncode (mb.setPos start) hdr).pos = start + STUN_HEADER_SIZE := by
  have written : Written (mb.setPos start) (hdrEncode (mb.setPos start) hdr) (hdrWrites hdr).flatten := written_all _ _
  have length := hdrWrites_length hdr
  have stands : (mb.setPos start).pos = start := rfl
  have same : (mb.setPos start).endPos = mb.endPos := rfl
  have behind : Seg (hdrEncode (mb.setPos start) hdr).buf (start + STUN_HEADER_SIZE) body :=
    written.behind _ _ whole.seg (by rw [stands, length])
  have front : Seg (hdrEncode (mb.setPos start) hdr).buf start (hdrWrites hdr).flatten := written.seg
  have ends := whole.ends
  have lower := written.lower
  have upper := written.upper
  have reached := written.reached (by rw [ne_eq, ← List.length_eq_zero_iff, length]; decide)
  have moved := written.pos
  rw [length, stands] at upper reached moved
  refine ⟨⟨front.append (by rwa [length]), ?_⟩, moved⟩
  rw [List.length_append, length]
  omega

end

section
variable (hmacSha1 : List Byte → List Byte → List Byte) (crc32 : List Byte → BitVec 32)
variable (type : BitVec 16) (tid : BitVec 96) (pad : Byte)

def lenHdr (len : Nat) : StunHdr := ⟨type, .ofNat 16 len, STUN_MAGIC_COOKIE, tid⟩

/-- The header with a length, and attributes behind it. -/
def sentWith (len : Nat) (attrs : List Attr) : List Byte :=
  (hdrWrites (lenHdr type tid len)).flatten ++ sentBytes tid pad attrs

def bodyLen (attrs : List Attr) : Nat := (sentBytes tid pad attrs).length

/-- The error code comes first. -/
def sentAttrs (ec : Option (BitVec 16 × List Byte)) (attrs : List (BitVec 16 × Option AttrValue)) :
    List (BitVec 16 × Option AttrValue) :=
  (ec.map fun (code, reason) => (StunAttrib.ERR_CODE.code, some (.errCode code reason))).toList ++ attrs

/-- The integrity is that of the attributes in front of it, under a header which counts it already. -/
def integrity (key : Option (List Byte)) (attrs : List Attr) : List Attr :=
  key.toList.map fun key => ⟨StunAttrib.MSG_INTEGRITY.code,
    .msgIntegrity (hmacSha1 key (sentWith type tid pad (bodyLen tid pad attrs + MI_SIZE) attrs))⟩

/-- And so is the fingerprint. -/
def printOf (fp : Bool) (attrs : List Attr) : List Attr :=
  if fp then [⟨StunAttrib.FINGERPRINT.code,
    .uint32 (fingerprint crc32 (sentWith type tid pad (bodyLen tid pad attrs + FP_SIZE) attrs))⟩] else []

/-- `msgVencode` from behind the attributes up to the fingerprint. -/
def signed (start : Nat) (key : Option (List Byte)) (r : Bool × Mbuf) : Bool × Mbuf :=
  let miSize := if key.isSome then MI_SIZE else 0
  let hdr := lenHdr type tid (r.2.pos - start - STUN_HEADER_SIZE + miSize)
  let mb := hdrEncode (r.2.setPos start) hdr
  let mb := mb.setPos (mb.pos + hdr.len.toNat - miSize)
  match key with
  | some key =>
    let mi := hmacSha1 key (mb.setPos start).left
    let mb := mb.setPos (start + (STUN_HEADER_SIZE + hdr.len.toNat - MI_SIZE))
    let sent := attrEncode tid mb StunAttrib.MSG_INTEGRITY.code (.msgIntegrity mi) pad
    (r.1 || sent.1, sent.2)
  | none => (r.1, mb)

/-- The rest of it. -/
def printed (start : Nat) (fp : Bool) (r : Bool × Mbuf) : Bool × Mbuf :=
  if fp then
    let hdr := lenHdr type tid (r.2.pos - start - STUN_HEADER_SIZE + FP_SIZE)
    let mb := hdrEncode (r.2.setPos start) hdr
    let fprnt := fingerprint crc32 (mb.setPos start).left
    let mb := mb.setPos (start + (STUN_HEADER_SIZE + hdr.len.toNat - FP_SIZE))
    let sent := attrEncode tid mb StunAttrib.FINGERPRINT.code (.uint32 fprnt) pad
    (r.1 || sent.1, sent.2)
  else r

theorem msgVencode_eq (mb : Mbuf) (method : BitVec 16) (class_ : BitVec 8) (ec : Option (BitVec 16 × List Byte))
    (key : Option (List Byte)) (fp : Bool) (attrs : List (BitVec 16 × Option AttrValue)) :
    msgVencode hmacSha1 crc32 mb method class_ tid ec key fp pad attrs =
      printed crc32 (stunType method class_) tid pad mb.pos fp
        (signed hmacSha1 (stunType method class_) tid pad mb.pos key
          (attrsEncode tid pad (sentAttrs ec attrs) (false, mb.advance STUN_HEADER_SIZE))) := by
  unfold msgVencode
  cases ec with
  | none =>
    have body : attrsEncode tid pad (sentAttrs none attrs) (false, mb.advance STUN_HEADER_SIZE) =
        attrsEncode tid pad attrs (false, mb.advance STUN_HEADER_SIZE) := rfl
    rw [body]
    dsimp only
    generalize attrsEncode tid pad attrs (false, mb.advance STUN_HEADER_SIZE) = r
    unfold printed signed lenHdr
    cases key <;> cases fp <;> simp
  | some ec =>
    obtain ⟨code, reason⟩ := ec
    dsimp only
    generalize sent : attrEncode tid (mb.advance STUN_HEADER_SIZE) StunAttrib.ERR_CODE.code (.errCode code reason) pad = first
    have body : attrsEncode tid pad (sentAttrs (some (code, reason)) attrs) (false, mb.advance STUN_HEADER_SIZE) =
        attrsEncode tid pad attrs (first.1, first.2) := by
      show attrsEncode tid pad attrs
        (false || (attrEncode tid (mb.advance STUN_HEADER_SIZE) StunAttrib.ERR_CODE.code (.errCode code reason) pad).1,
          (attrEncode tid (mb.advance STUN_HEADER_SIZE) StunAttrib.ERR_CODE.code (.errCode code reason) pad).2) = _
      rw [sent, Bool.false_or]
    rw [body]
    generalize attrsEncode tid pad attrs (first.1, first.2) = r
    unfold printed signed lenHdr
    cases key <;> cases fp <;> simp

variable {hmacSha1 crc32 type tid pad} {start : Nat} {attrs : List Attr} {r : Bool × Mbuf}

theorem lenHdr_len {len : Nat} (small : len < 65536) : (lenHdr type tid len).len.toNat = len := by
  show (BitVec.ofNat 16 len).toNat = len
  rw [BitVec.toNat_ofNat]
  exact Nat.mod_eq_of_lt small

theorem bodyLen_append (attrs others : List Attr) :
    bodyLen tid pad (attrs ++ others) = bodyLen tid pad attrs + bodyLen tid pad others := by
  rw [bodyLen, sentBytes_append, List.length_append]
  rfl

theorem sentWith_length (len : Nat) (attrs : List Attr) :
    (sentWith type tid pad len attrs).length = STUN_HEADER_SIZE + bodyLen tid pad attrs := by
  rw [sentWith, List.length_append, hdrWrites_length]
  rfl

theorem sentWith_append (len : Nat) (attrs others : List Attr) :
    sentWith type tid pad len (attrs ++ others) = sentWith type tid pad len attrs ++ sentBytes tid pad others := by
  rw [sentWith, sentBytes_append, ← List.append_assoc]
  rfl

/-- The attributes stand behind the place of the header, without an error. -/
structure Stage (tid : BitVec 96) (pad : Byte) (start : Nat) (attrs : List Attr) (r : Bool × Mbuf) : Prop where
  noError : r.1 = false
  body : Body r.2 start (sentBytes tid pad attrs)
  stands : r.2.pos = start + STUN_HEADER_SIZE + bodyLen tid pad attrs

/-- One attribute behind a header that has been written before it. -/
theorem Stage.attr (stage : Stage tid pad start attrs r) (len : Nat) {attr : Attr} (encodes : attr.Encodes tid) :
    let mb := (hdrEncode (r.2.setPos start) (lenHdr type tid len)).setPos (start + STUN_HEADER_SIZE + bodyLen tid pad attrs)
    (attrEncode tid mb attr.type attr.v pad).1 = false ∧
      Sent (attrEncode tid mb attr.type attr.v pad).2 start (sentWith type tid pad len (attrs ++ [attr])) ∧
      (attrEncode tid mb attr.type attr.v pad).2.pos = start + STUN_HEADER_SIZE + bodyLen tid pad (attrs ++ [attr]) := by
  intro mb
  obtain ⟨sent, -⟩ := stage.body.header (lenHdr type tid len)
  have here : Sent mb start (sentWith type tid pad len attrs) := ⟨sent.seg, sent.ends⟩
  have stands : mb.pos = start + (sentWith type tid pad len attrs).length := by
    rw [sentWith_length, ← Nat.add_assoc]
    rfl
  obtain ⟨noError, written⟩ := written_sent pad encodes mb
  obtain ⟨after, moved⟩ := here.append stands written
  rw [← sentWith_append] at after moved
  rw [sentWith_length, ← Nat.add_assoc] at moved
  exact ⟨noError, after, moved⟩

theorem Sent.stage {len : Nat} {mb : Mbuf} (sent : Sent mb start (sentWith type tid pad len attrs))
    (stands : mb.pos = start + STUN_HEADER_SIZE + bodyLen tid pad attrs) : Stage tid pad start attrs (false, mb) :=
  ⟨rfl, sent.body (hdrWrites_length _), stands⟩

theorem integrity_encodes (tid : BitVec 96) (mi : List Byte) :
    (Attr.mk StunAttrib.MSG_INTEGRITY.code (.msgIntegrity mi)).Encodes tid := rfl

theorem fingerprint_encodes (tid : BitVec 96) (n : BitVec 32) :
    (Attr.mk StunAttrib.FINGERPRINT.code (.uint32 n)).Encodes tid := rfl

theorem bodyLen_integrity {mi : List Byte} (digest : mi.length = 20) :
    bodyLen tid pad [⟨StunAttrib.MSG_INTEGRITY.code, .msgIntegrity mi⟩] = MI_SIZE := by
  have value : valueBytes tid (formatOf StunAttrib.MSG_INTEGRITY.code) (.msgIntegrity mi) = some [mi.take 20] := rfl
  have whole : mi.take 20 = mi := List.take_of_length_le (Nat.le_of_eq digest)
  rw [bodyLen, sentBytes, sentBytes, List.append_nil, attrPadded_length, value, Option.getD_some, List.flatten_singleton,
    whole, digest]
  rfl

theorem bodyLen_fingerprint (n : BitVec 32) : bodyLen tid pad [⟨StunAttrib.FINGERPRINT.code, .uint32 n⟩] = FP_SIZE := by
  have value : valueBytes tid (formatOf StunAttrib.FINGERPRINT.code) (.uint32 n) = some [putBe 4 n.toNat] := rfl
  rw [bodyLen, sentBytes, sentBytes, List.append_nil, attrPadded_length, value, Option.getD_some, List.flatten_singleton,
    putBe_length]
  rfl

/-- An encoder's result: no error, and a header that counts the attributes behind it. -/
structure Complete (type : BitVec 16) (tid : BitVec 96) (pad : Byte) (start : Nat) (attrs : List Attr) (r : Bool × Mbuf) :
    Prop where
  noError : r.1 = false
  sent : Sent r.2 start (sentWith type tid pad (bodyLen tid pad attrs) attrs)
  stands : r.2.pos = start + STUN_HEADER_SIZE + bodyLen tid pad attrs

theorem Complete.stage (complete : Complete type tid pad start attrs r) : Stage tid pad start attrs r :=
  ⟨complete.noError, complete.sent.body (hdrWrites_length _), complete.stands⟩

theorem Stage.signed (stage : Stage tid pad start attrs r) (digest : ∀ key d, (hmacSha1 key d).length = 20)
    {key : Option (List Byte)} (small : bodyLen tid pad (attrs ++ integrity hmacSha1 type tid pad key attrs) < 65536) :
    Complete type tid pad start (attrs ++ integrity hmacSha1 type tid pad key attrs)
      (signed hmacSha1 type tid pad start key r) := by
  have stands : r.2.pos - start - STUN_HEADER_SIZE = bodyLen tid pad attrs := by
    have moved := stage.stands
    omega
  unfold Stun.signed
  cases key with
  | none =>
    have none_ : integrity hmacSha1 type tid pad none attrs = [] := rfl
    rw [none_, List.append_nil] at small ⊢
    simp only [Option.isSome_none, Bool.false_eq_true, if_false, stands, Nat.add_zero, Nat.sub_zero]
    obtain ⟨sent, moved⟩ := stage.body.header (lenHdr type tid (bodyLen tid pad attrs))
    rw [moved, lenHdr_len small]
    exact ⟨stage.noError, ⟨sent.seg, sent.ends⟩, rfl⟩
  | some key =>
    have left : ((hdrEncode (r.2.setPos start) (lenHdr type tid (bodyLen tid pad attrs + MI_SIZE))).setPos start).left =
        sentWith type tid pad (bodyLen tid pad attrs + MI_SIZE) attrs := (stage.body.header _).1.left
    have place : start + (STUN_HEADER_SIZE + (bodyLen tid pad attrs + MI_SIZE) - MI_SIZE) =
        start + STUN_HEADER_SIZE + bodyLen tid pad attrs := by omega
    have length : bodyLen tid pad (attrs ++ integrity hmacSha1 type tid pad (some key) attrs) =
        bodyLen tid pad attrs + MI_SIZE := by
      rw [bodyLen_append]
      exact congrArg _ (bodyLen_integrity (digest _ _))
    rw [length] at small
    obtain ⟨noError, sent, moved⟩ := @Stage.attr type tid pad start attrs r stage (bodyLen tid pad attrs + MI_SIZE) _
      (integrity_encodes tid (hmacSha1 key (sentWith type tid pad (bodyLen tid pad attrs + MI_SIZE) attrs)))
    dsimp only at noError sent moved
    simp only [Option.isSome_some, if_true, stands, lenHdr_len small, place, setPos_setPos, left, noError, Bool.or_false]
    refine ⟨stage.noError, ?_, moved⟩
    rw [length]
    exact sent

theorem Complete.printed (complete : Complete type tid pad start attrs r) {fp : Bool}
    (small : bodyLen tid pad (attrs ++ printOf crc32 type tid pad fp attrs) < 65536) :
    Complete type tid pad start (attrs ++ printOf crc32 type tid pad fp attrs) (printed crc32 type tid pad start fp r) := by
  have stands : r.2.pos - start - STUN_HEADER_SIZE = bodyLen tid pad attrs := by
    have moved := complete.stands
    omega
  unfold Stun.printed
  cases fp with
  | false =>
    have none_ : printOf crc32 type tid pad false attrs = [] := rfl
    rw [none_, List.append_nil]
    exact complete
  | true =>
    have left : ((hdrEncode (r.2.setPos start) (lenHdr type tid (bodyLen tid pad attrs + FP_SIZE))).setPos start).left =
        sentWith type tid pad (bodyLen tid pad attrs + FP_SIZE) attrs := (complete.stage.body.header _).1.left
    have place : start + (STUN_HEADER_SIZE + (bodyLen tid pad attrs + FP_SIZE) - FP_SIZE) =
        start + STUN_HEADER_SIZE + bodyLen tid pad attrs := by omega
    have length : bodyLen tid pad (attrs ++ printOf crc32 type tid pad true attrs) = bodyLen tid pad attrs + FP_SIZE := by
      rw [bodyLen_append]
      exact congrArg _ (bodyLen_fingerprint _)
    rw [length] at small
    obtain ⟨noError, sent, moved⟩ := @Stage.attr type tid pad start attrs r complete.stage (bodyLen tid pad attrs + FP_SIZE) _
      (fingerprint_encodes tid (fingerprint crc32 (sentWith type tid pad (bodyLen tid pad attrs + FP_SIZE) attrs)))
    dsimp only at noError sent moved
    simp only [if_true, stands, lenHdr_len small, place, left, noError, Bool.or_false]
    refine ⟨complete.noError, ?_, moved⟩
    rw [length]
    exact sent

/-- The attributes of a message that is sent, with those that the encoder adds. -/
def sentAttrl (hmacSha1 : List Byte → List Byte → List Byte) (crc32 : List Byte → BitVec 32) (type : BitVec 16)
    (tid : BitVec 96) (pad : Byte) (key : Option (List Byte)) (fp : Bool) (attrs : List Attr) : List Attr :=
  attrs ++ integrity hmacSha1 type tid pad key attrs ++
    printOf crc32 type tid pad fp (attrs ++ integrity hmacSha1 type tid pad key attrs)

theorem msgVencode_complete {mb : Mbuf} (ends : mb.endPos = mb.pos) (method : BitVec 16) (class_ : BitVec 8)
    {ec : Option (BitVec 16 × List Byte)} {attrs : List (BitVec 16 × Option AttrValue)}
    (encode : ∀ attr ∈ given (sentAttrs ec attrs), attr.Encodes tid)
    (digest : ∀ key d, (hmacSha1 key d).length = 20) {key : Option (List Byte)} {fp : Bool}
    (small : bodyLen tid pad
      (sentAttrl hmacSha1 crc32 (stunType method class_) tid pad key fp (given (sentAttrs ec attrs))) < 65536) :
    Complete (stunType method class_) tid pad mb.pos
      (sentAttrl hmacSha1 crc32 (stunType method class_) tid pad key fp (given (sentAttrs ec attrs)))
      (msgVencode hmacSha1 crc32 mb method class_ tid ec key fp pad attrs) := by
  obtain ⟨noError, written⟩ := written_attrs pad encode (mb.advance STUN_HEADER_SIZE)
  have stage : Stage tid pad mb.pos (given (sentAttrs ec attrs))
      (attrsEncode tid pad (sentAttrs ec attrs) (false, mb.advance STUN_HEADER_SIZE)) := by
    have start : (mb.advance STUN_HEADER_SIZE).pos = mb.pos + STUN_HEADER_SIZE := rfl
    have same : (mb.advance STUN_HEADER_SIZE).endPos = mb.endPos := rfl
    have lower := written.lower
    have upper := written.upper
    have reached := written.reached
    refine ⟨noError, ⟨written.seg, ?_⟩, written.pos⟩
    by_cases empty : sentBytes tid pad (given (sentAttrs ec attrs)) = []
    · rw [empty, List.length_nil] at upper ⊢
      omega
    · have there := reached empty
      omega
  have within := small
  rw [sentAttrl, bodyLen_append] at within
  rw [msgVencode_eq]
  exact (stage.signed digest (by omega)).printed small

end

/-! What the decoder makes of it. -/

/-- The values that the fields have room for. -/
def AttrValue.InRange : AttrValue → Prop
  | str text => 0 ∉ text
  | msgIntegrity mi => mi.length = 20
  | errCode code reason => code.toNat < 800 ∧ 0 ∉ reason
  | unknownAttr typev => typev.length ≤ unknownMax
  | _ => True

section
variable {tid : BitVec 96} {rest bytes : List Byte}

theorem xorPort_xorPort (port : BitVec 16) (t : Option (BitVec 96)) : xorPort (xorPort port t) t = port := by
  cases t with
  | none => rfl
  | some tid =>
    show port ^^^ _ ^^^ _ = port
    rw [BitVec.xor_assoc, BitVec.xor_self, BitVec.xor_zero]

theorem xorIn_xorIn (in4 : BitVec 32) (t : Option (BitVec 96)) : xorIn (xorIn in4 t) t = in4 := by
  cases t with
  | none => rfl
  | some tid =>
    show in4 ^^^ _ ^^^ _ = in4
    rw [BitVec.xor_assoc, BitVec.xor_self, BitVec.xor_zero]

theorem xorIn6_xorIn6 (in6 : BitVec 128) (t : Option (BitVec 96)) : xorIn6 (xorIn6 in6 t) t = in6 := by
  cases t with
  | none => rfl
  | some tid =>
    show in6 ^^^ _ ^^^ _ = in6
    rw [BitVec.xor_assoc, BitVec.xor_self, BitVec.xor_zero]

theorem ofNat_getBe {w n : Nat} (bytes : w = 8 * n) (v : BitVec w) : BitVec.ofNat w (getBe (putBe n v.toNat)) = v := by
  rw [getBe_toNat bytes, BitVec.ofNat_toNat, BitVec.setWidth_eq]

theorem readBe_put {w n : Nat} (v : BitVec w) : readBe n (putBe n v.toNat ++ rest) = (getBe (putBe n v.toNat), rest) :=
  readBe_append (putBe_length _ _)

theorem addrDecode_bytes {sa : Sa} {t : Option (BitVec 96)} {writes : List (List Byte)}
    (written : addrBytes sa t = some writes) : addrDecode t (writes.flatten ++ rest) = .ok (sa, rest) := by
  cases sa with
  | unspec => contradiction
  | inet in4 port =>
    obtain rfl := Option.some.inj written
    have split : ([[0], [1], putBe 2 (xorPort port t).toNat, putBe 4 (xorIn in4 t).toNat].flatten ++ rest : List Byte) =
        [0] ++ ([1] ++ (putBe 2 (xorPort port t).toNat ++ (putBe 4 (xorIn in4 t).toNat ++ rest))) := by simp
    have enough : ¬ ([0] ++ ([1] ++ (putBe 2 (xorPort port t).toNat ++
        (putBe 4 (xorIn in4 t).toNat ++ rest)))).length < 4 := by
      simp
    have enough' : ¬ (putBe 4 (xorIn in4 t).toNat ++ rest).length < 4 := by simp
    have one : getBe [1] = 1 := rfl
    show addrDecode t ([[0], [1], putBe 2 (xorPort port t).toNat, putBe 4 (xorIn in4 t).toNat].flatten ++ rest) = _
    rw [split]
    unfold addrDecode
    rw [if_neg enough, @readBe_append 1 [0] _ rfl]
    dsimp only
    rw [@readBe_append 1 [1] _ rfl, one]
    dsimp only
    rw [readBe_put]
    dsimp only
    rw [if_neg enough', readBe_put, @ofNat_getBe 16 2 rfl, @ofNat_getBe 32 4 rfl, xorPort_xorPort, xorIn_xorIn]
    rfl
  | inet6 in6 port =>
    obtain rfl := Option.some.inj written
    have split : ([[0], [2], putBe 2 (xorPort port t).toNat, putBe 16 (xorIn6 in6 t).toNat].flatten ++ rest : List Byte) =
        [0] ++ ([2] ++ (putBe 2 (xorPort port t).toNat ++ (putBe 16 (xorIn6 in6 t).toNat ++ rest))) := by simp
    have enough : ¬ ([0] ++ ([2] ++ (putBe 2 (xorPort port t).toNat ++
        (putBe 16 (xorIn6 in6 t).toNat ++ rest)))).length < 4 := by
      simp
    have enough' : ¬ (putBe 16 (xorIn6 in6 t).toNat ++ rest).length < 16 := by simp
    have two : getBe [2] = 2 := rfl
    have taken : (putBe 16 (xorIn6 in6 t).toNat ++ rest).take 16 = putBe 16 (xorIn6 in6 t).toNat :=
      List.take_left' (putBe_length _ _)
    have behind : (putBe 16 (xorIn6 in6 t).toNat ++ rest).drop 16 = rest := List.drop_left' (putBe_length _ _)
    show addrDecode t ([[0], [2], putBe 2 (xorPort port t).toNat, putBe 16 (xorIn6 in6 t).toNat].flatten ++ rest) = _
    rw [split]
    unfold addrDecode
    rw [if_neg enough, @readBe_append 1 [0] _ rfl]
    dsimp only
    rw [@readBe_append 1 [2] _ rfl, two]
    dsimp only
    rw [readBe_put]
    dsimp only
    rw [if_neg enough', taken, behind, @ofNat_getBe 16 2 rfl, @ofNat_getBe 128 16 rfl, xorPort_xorPort, xorIn6_xorIn6]
    rfl

theorem types_length (typev : List (BitVec 16)) :
    (typev.map fun type => putBe 2 type.toNat).flatten.length = 2 * typev.length := by
  induction typev with
  | nil => rfl
  | cons type typev ih =>
    rw [List.map_cons, List.flatten_cons, List.length_append, putBe_length, ih, List.length_cons]
    omega

theorem readTypes_bytes (typev : List (BitVec 16)) :
    readTypes typev.length ((typev.map fun type => putBe 2 type.toNat).flatten ++ rest) = (typev, rest) := by
  induction typev with
  | nil => rfl
  | cons type typev ih =>
    rw [List.map_cons, List.flatten_cons, List.append_assoc, List.length_cons, readTypes, readBe_put]
    dsimp only
    rw [ih, @ofNat_getBe 16 2 rfl]

theorem numDecode_bytes {valid : Bool} (checks : valid = true) {n : Nat} (length : bytes.length = n)
    (value : Nat → AttrValue) : numDecode valid n value (bytes ++ rest) = .ok (value (getBe bytes), rest) := by
  rw [numDecode, if_pos checks, readBe_append length]

theorem takeWhile_whole {str : List Byte} (plain : 0 ∉ str) : str.takeWhile (· != 0) = str := by
  rw [List.takeWhile_eq_self_iff]
  intro c inside
  exact bne_iff_ne.mpr fun zero => plain (zero ▸ inside)

theorem strDecode_bytes {str : List Byte} (plain : 0 ∉ str) : strDecode str.length (str ++ rest) = .ok (str, rest) := by
  have enough : ¬ (str ++ rest).length < str.length := by
    rw [List.length_append]
    omega
  rw [strDecode, if_neg enough, List.take_left, List.drop_left, takeWhile_whole plain]

theorem errCodeDecode_bytes {code : BitVec 16} {reason : List Byte} (small : code.toNat < 800) (plain : 0 ∉ reason) :
    errCodeDecode (reason.length + 4) ([0, 0] ++ ([BitVec.ofNat 8 (code.toNat / 100)] ++
      ([BitVec.ofNat 8 (code.toNat % 100)] ++ (reason ++ rest)))) = .ok (.errCode code reason, rest) := by
  have hundreds : getBe [BitVec.ofNat 8 (code.toNat / 100)] = code.toNat / 100 := by
    simp [getBe]
    omega
  have others : getBe [BitVec.ofNat 8 (code.toNat % 100)] = code.toNat % 100 := by
    simp [getBe]
    omega
  have sum : code.toNat / 100 % 8 * 100 + code.toNat % 100 = code.toNat := by omega
  have dropped : ([0, 0] ++ ([BitVec.ofNat 8 (code.toNat / 100)] ++ ([BitVec.ofNat 8 (code.toNat % 100)] ++
      (reason ++ rest)))).drop 2 = [BitVec.ofNat 8 (code.toNat / 100)] ++ ([BitVec.ofNat 8 (code.toNat % 100)] ++
        (reason ++ rest)) := rfl
  unfold errCodeDecode
  rw [if_neg (by omega), dropped, @readBe_append 1 [BitVec.ofNat 8 (code.toNat / 100)] _ rfl]
  dsimp only
  rw [@readBe_append 1 [BitVec.ofNat 8 (code.toNat % 100)] _ rfl]
  dsimp only
  rw [Nat.add_sub_cancel, strDecode_bytes plain, hundreds, others, sum, BitVec.ofNat_toNat, BitVec.setWidth_eq]

/-- A value is read back from what is written for it, and what is not read of it is no more than padding. -/
structure ReadsBack (tid : BitVec 96) (format : Option Format) (v : AttrValue) (value : List Byte) : Prop where
  reads : ∀ rest, ∃ m ≤ value.length, rounded m = rounded value.length ∧
    valueDecode tid format value.length (value ++ rest) = .ok (v, (value ++ rest).drop m)

theorem ReadsBack.whole {format : Option Format} {v : AttrValue} {value : List Byte}
    (decoded : ∀ rest, valueDecode tid format value.length (value ++ rest) = .ok (v, rest)) :
    ReadsBack tid format v value where
  reads rest := by
    refine ⟨value.length, Nat.le_refl _, rfl, ?_⟩
    rw [List.drop_left]
    exact decoded rest

theorem valueBytes_readsBack {format : Option Format} {v : AttrValue} {writes : List (List Byte)}
    (value : valueBytes tid format v = some writes) (fits : v.InRange) : ReadsBack tid format v writes.flatten := by
  cases format with
  | none => cases v <;> cases value
  | some format =>
    cases format with
    | addr xor =>
      cases v with
      | sa sa =>
        refine .whole fun rest => ?_
        unfold valueDecode
        dsimp only
        rw [@addrDecode_bytes _ sa _ _ value]
      | _ => cases value
    | changeReq =>
      cases v with
      | changeReq ip port =>
        obtain rfl := Option.some.inj value
        refine .whole fun rest => ?_
        rw [List.flatten_singleton, putBe_length]
        have read := @numDecode_bytes rest (putBe 4 (ip.toNat <<< 2 ||| port.toNat <<< 1)) (4 = 4) rfl 4 (putBe_length _ _)
          fun n => .changeReq (n.testBit 2) (n.testBit 1)
        rw [getBe_putBe] at read
        refine read.trans ?_
        cases ip <;> cases port <;> rfl
      | _ => cases value
    | str =>
      cases v with
      | str str =>
        obtain rfl := Option.some.inj value
        refine .whole fun rest => ?_
        rw [List.flatten_singleton, takeWhile_whole fits]
        unfold valueDecode
        dsimp only
        rw [strDecode_bytes fits]
      | _ => cases value
    | msgIntegrity =>
      cases v with
      | msgIntegrity mi =>
        obtain rfl := Option.some.inj value
        have digest : mi.length = 20 := fits
        have whole : mi.take 20 = mi := List.take_of_length_le (Nat.le_of_eq digest)
        refine .whole fun rest => ?_
        have enough : ¬ (mi ++ rest).length < 20 := by
          rw [List.length_append]
          omega
        rw [List.flatten_singleton, whole]
        unfold valueDecode
        dsimp only
        rw [if_neg (not_not.mpr digest), if_neg enough, List.take_left' digest, List.drop_left' digest]
      | _ => cases value
    | errCode =>
      cases v with
      | errCode code reason =>
        obtain rfl := Option.some.inj value
        obtain ⟨small, plain⟩ := fits
        have split : [[0, 0], [BitVec.ofNat 8 (code.toNat / 100)], [BitVec.ofNat 8 (code.toNat % 100)],
            reason.takeWhile (· != 0)].flatten = [0, 0] ++ ([BitVec.ofNat 8 (code.toNat / 100)] ++
              ([BitVec.ofNat 8 (code.toNat % 100)] ++ reason)) := by
          rw [takeWhile_whole plain]
          simp
        have length : ([0, 0] ++ ([BitVec.ofNat 8 (code.toNat / 100)] ++
            ([BitVec.ofNat 8 (code.toNat % 100)] ++ reason)) : List Byte).length = reason.length + 4 := by simp
        refine .whole fun rest => ?_
        rw [split, length, List.append_assoc, List.append_assoc, List.append_assoc]
        exact errCodeDecode_bytes small plain
      | _ => cases value
    | unknownAttr =>
      cases v with
      | unknownAttr typev =>
        obtain rfl := Option.some.inj value
        have few : typev.length ≤ unknownMax := fits
        refine .whole fun rest => ?_
        unfold valueDecode
        dsimp only
        rw [types_length, Nat.mul_div_cancel_left _ (by decide), readTypes_bytes]
        dsimp only
        rw [List.take_of_length_le few]
      | _ => cases value
    | uint16 =>
      cases v with
      | uint16 n =>
        obtain rfl := Option.some.inj value
        have flat : [putBe 2 n.toNat, [0, 0]].flatten = putBe 2 n.toNat ++ [0, 0] := by simp
        have length : (putBe 2 n.toNat ++ [0, 0]).length = 4 := by simp
        rw [flat]
        refine ⟨fun rest => ⟨2, by omega, by rw [length]; rfl, ?_⟩⟩
        rw [length, List.append_assoc, List.drop_left' (putBe_length _ _)]
        have read := @numDecode_bytes ([0, 0] ++ rest) (putBe 2 n.toNat) (4 ≥ 2) rfl 2 (putBe_length _ _)
          fun n => .uint16 (.ofNat 16 n)
        rw [@ofNat_getBe 16 2 rfl] at read
        exact read
      | _ => cases value
    | uint32 =>
      cases v with
      | uint32 n =>
        obtain rfl := Option.some.inj value
        refine .whole fun rest => ?_
        rw [List.flatten_singleton, putBe_length]
        have read := @numDecode_bytes rest (putBe 4 n.toNat) (4 = 4) rfl 4 (putBe_length _ _) fun n => .uint32 (.ofNat 32 n)
        rw [@ofNat_getBe 32 4 rfl] at read
        exact read
      | _ => cases value
    | data =>
      cases v with
      | mb data =>
        obtain rfl := Option.some.inj value
        refine .whole fun rest => ?_
        rw [List.flatten_singleton]
        unfold valueDecode
        dsimp only
        rw [List.take_left, List.drop_left]
      | _ => cases value
    | uint8 =>
      cases v with
      | uint8 n =>
        obtain rfl := Option.some.inj value
        have flat : [[n], [0], [0, 0]].flatten = [n] ++ [0, 0, 0] := rfl
        have length : ([n] ++ [0, 0, 0]).length = 4 := rfl
        have back : BitVec.ofNat 8 (getBe [n]) = n := by simp [getBe]
        rw [flat]
        refine ⟨fun rest => ⟨1, by omega, by rw [length]; rfl, ?_⟩⟩
        have read := @numDecode_bytes ([0, 0, 0] ++ rest) [n] (4 ≥ 1) rfl 1 rfl fun n => .uint8 (.ofNat 8 n)
        rw [back] at read
        exact read
      | _ => cases value
    | evenPort =>
      cases v with
      | evenPort r =>
        obtain rfl := Option.some.inj value
        refine .whole fun rest => ?_
        have read := @numDecode_bytes rest [BitVec.ofNat 8 (r.toNat <<< 7)] (1 ≥ 1) rfl 1 rfl fun n => .evenPort (n.testBit 7)
        refine read.trans ?_
        cases r <;> rfl
      | _ => cases value
    | empty =>
      cases v with
      | empty =>
        obtain rfl := Option.some.inj value
        exact .whole fun rest => rfl
      | _ => cases value
    | uint64 =>
      cases v with
      | uint64 n =>
        obtain rfl := Option.some.inj value
        refine .whole fun rest => ?_
        rw [List.flatten_singleton, putBe_length]
        have read := @numDecode_bytes rest (putBe 8 n.toNat) (8 = 8) rfl 8 (putBe_length _ _) fun n => .uint64 (.ofNat 64 n)
        rw [@ofNat_getBe 64 8 rfl] at read
        exact read
      | _ => cases value

theorem Attr.Encodes.known {attr : Attr} (encodes : attr.Encodes tid) : (formatOf attr.type).isNone = false := by
  unfold Attr.Encodes at encodes
  cases format : formatOf attr.type with
  | none =>
    rw [format] at encodes
    cases value : attr.v <;> rw [value] at encodes <;> cases encodes
  | some _ => rfl

theorem attrDecode_sent {pad : Byte} {attr : Attr} (encodes : attr.Encodes tid) (fits : attr.v.InRange)
    (small : bodyLen tid pad [attr] < 65536) (rest : List Byte) :
    attrDecode tid (sentBytes tid pad [attr] ++ rest) = .ok (attr, rest) := by
  obtain ⟨writes, written⟩ := Option.isSome_iff_exists.mp encodes
  have back := valueBytes_readsBack written fits
  rw [bodyLen] at small
  rw [sentBytes, sentBytes, List.append_nil, written, Option.getD_some] at small ⊢
  rw [attrPadded_length] at small
  generalize writes.flatten = value at back small ⊢
  let pads := List.replicate (padding value.length) pad
  have padded : pads.length = padding value.length := List.length_replicate
  obtain ⟨m, inside, rounds, decoded⟩ := back.reads (pads ++ rest)
  have bytes : attrPadded attr.type value pad ++ rest =
      putBe 2 attr.type.toNat ++ (putBe 2 value.length ++ (value ++ (pads ++ rest))) := by
    simp only [attrPadded, attrBytes, List.append_assoc, pads]
  have enough : ¬ (attrPadded attr.type value pad ++ rest).length < 4 := by
    rw [List.length_append, attrPadded_length]
    omega
  have len : getBe (putBe 2 value.length) = value.length := by
    rw [getBe_putBe]
    refine Nat.mod_eq_of_lt ?_
    unfold rounded at small
    omega
  have whole : (value ++ (pads ++ rest)).length = value.length + (pads ++ rest).length := List.length_append
  have fit : ¬ (value ++ (pads ++ rest)).length < value.length := by omega
  have read : (value ++ (pads ++ rest)).length - ((value ++ (pads ++ rest)).drop m).length = m := by
    rw [List.length_drop]
    omega
  have skipped : m + padding m = (value ++ pads).length := by
    rw [List.length_append, padded]
    exact rounds
  unfold attrDecode
  rw [if_neg enough, bytes, readBe_append (putBe_length _ _)]
  dsimp only
  rw [readBe_append (putBe_length _ _)]
  dsimp only
  rw [len, @ofNat_getBe 16 2 rfl, if_neg fit, decoded]
  dsimp only
  rw [read, List.drop_drop, skipped, ← List.append_assoc, List.drop_left]

theorem loop_sent {pad : Byte} {attrs : List Attr} (encode : ∀ attr ∈ attrs, attr.Encodes tid)
    (fit : ∀ attr ∈ attrs, attr.v.InRange) (small : bodyLen tid pad attrs < 65536) {fuel : Nat}
    (enough : bodyLen tid pad attrs < fuel) (attrl : List Attr) (ua : List (BitVec 16)) :
    loop (attrsBody tid 0) fuel ⟨sentBytes tid pad attrs, attrl, ua⟩ = some (.ok ⟨[], attrl ++ attrs, ua⟩) := by
  induction attrs generalizing fuel attrl with
  | nil =>
    cases fuel with
    | zero => exact absurd enough (Nat.not_lt_zero _)
    | succ fuel =>
      have off : ¬ goesOn ([] : List Byte).length 0 = true := by decide
      rw [sentBytes, loop_inr fuel (attrsBody_done off), List.append_nil]
  | cons attr attrs ih =>
    rw [List.forall_mem_cons] at encode fit
    have split : sentBytes tid pad (attr :: attrs) = sentBytes tid pad [attr] ++ sentBytes tid pad attrs :=
      sentBytes_append tid pad [attr] attrs
    have total : bodyLen tid pad (attr :: attrs) = bodyLen tid pad [attr] + bodyLen tid pad attrs :=
      bodyLen_append [attr] attrs
    have four : 4 ≤ bodyLen tid pad [attr] := by
      rw [bodyLen, sentBytes, sentBytes, List.append_nil, attrPadded_length]
      omega
    cases fuel with
    | zero => exact absurd enough (Nat.not_lt_zero _)
    | succ fuel =>
      have on : goesOn (sentBytes tid pad (attr :: attrs)).length 0 = true := by
        refine (goesOn_inside (Nat.zero_le _) (Nat.lt_trans small (by decide))).mpr ?_
        show 4 ≤ bodyLen tid pad (attr :: attrs)
        omega
      have decoded : attrDecode tid (sentBytes tid pad (attr :: attrs)) = .ok (attr, sentBytes tid pad attrs) := by
        rw [split]
        exact attrDecode_sent encode.1 fit.1 (by omega) _
      have goes : attrsBody tid 0 ⟨sentBytes tid pad (attr :: attrs), attrl, ua⟩ =
          .inl ⟨sentBytes tid pad attrs, attrl ++ [attr], noteUnknown ua attr⟩ := attrsBody_item on decoded
      have noted : noteUnknown ua attr = ua := by
        rw [noteUnknown, encode.1.known]
        exact if_neg fun unknown => absurd unknown.1 (by decide)
      rw [noted] at goes
      rw [loop_inl fuel goes, ih encode.2 fit.2 (by omega) (by omega), List.append_assoc]
      rfl

theorem bodyLen_four (pad : Byte) (attrs : List Attr) : bodyLen tid pad attrs % 4 = 0 := by
  induction attrs with
  | nil => rfl
  | cons attr attrs ih =>
    have first : bodyLen tid pad [attr] % 4 = 0 := by
      rw [bodyLen, sentBytes, sentBytes, List.append_nil, attrPadded_length]
      unfold rounded padding
      omega
    have total : bodyLen tid pad (attr :: attrs) = bodyLen tid pad [attr] + bodyLen tid pad attrs :=
      bodyLen_append [attr] attrs
    omega

/-- The two bits that tell a message from data on a channel are clear. -/
theorem stunType_high (method : BitVec 16) (class_ : BitVec 8) : stunType method class_ &&& 0xc000 = 0 := by
  apply BitVec.eq_of_getLsbD_eq
  intro i less
  interval_cases i <;> simp [stunType]

theorem stunType_low (method : BitVec 16) (class_ : BitVec 8) :
    stunType method class_ &&& 0x3fff = stunType method class_ := by
  apply BitVec.eq_of_getLsbD_eq
  intro i less
  interval_cases i <;> simp [stunType]

theorem hdrDecode_sent {type : BitVec 16} (plain : type &&& 0xc000 = 0) (low : type &&& 0x3fff = type) {len : Nat}
    (small : len < 65536) (four : len % 4 = 0) {body : List Byte} (long : body.length = len) :
    hdrDecode ((hdrWrites (lenHdr type tid len)).flatten ++ body) = .ok (lenHdr type tid len, body) := by
  have bytes : (hdrWrites (lenHdr type tid len)).flatten ++ body =
      putBe 2 type.toNat ++ (putBe 2 (BitVec.ofNat 16 len).toNat ++ (putBe 4 STUN_MAGIC_COOKIE.toNat ++
        (putBe 12 tid.toNat ++ body))) := by
    simp only [hdrWrites, lenHdr, low, List.flatten_cons, List.flatten_nil, List.append_nil, List.append_assoc]
  have enough : ¬ ((hdrWrites (lenHdr type tid len)).flatten ++ body).length < STUN_HEADER_SIZE := by
    rw [List.length_append, hdrWrites_length]
    omega
  have aligned : ¬ (BitVec.ofNat 16 len &&& 0x3 ≠ 0) := by
    rw [not_not]
    apply BitVec.eq_of_toNat_eq
    have kept : (BitVec.ofNat 16 len).toNat = len := by
      rw [BitVec.toNat_ofNat]
      exact Nat.mod_eq_of_lt small
    rw [BitVec.toNat_and, kept]
    exact (Nat.and_two_pow_sub_one_eq_mod len 2).trans four
  have fits : ¬ body.length < (BitVec.ofNat 16 len).toNat := by
    rw [BitVec.toNat_ofNat, Nat.mod_eq_of_lt small]
    omega
  unfold hdrDecode
  rw [if_neg enough, bytes, readBe_put]
  dsimp only
  rw [@ofNat_getBe 16 2 rfl, if_neg (not_not.mpr plain), readBe_put]
  dsimp only
  rw [@ofNat_getBe 16 2 rfl, if_neg aligned, readBe_put]
  dsimp only
  rw [@ofNat_getBe 32 4 rfl, readBe_put]
  dsimp only
  rw [@ofNat_getBe 96 12 rfl, if_neg fits]
  rfl

theorem msgDecode_sent {type : BitVec 16} (plain : type &&& 0xc000 = 0) (low : type &&& 0x3fff = type) {pad : Byte}
    {attrs : List Attr} (encode : ∀ attr ∈ attrs, attr.Encodes tid) (fit : ∀ attr ∈ attrs, attr.v.InRange)
    (small : bodyLen tid pad attrs < 65536) :
    msgDecode (sentWith type tid pad (bodyLen tid pad attrs) attrs) =
      some (.ok (⟨lenHdr type tid (bodyLen tid pad attrs), attrs,
        sentWith type tid pad (bodyLen tid pad attrs) attrs⟩, [])) := by
  have header := @hdrDecode_sent tid type plain low _ small (bodyLen_four pad attrs) (sentBytes tid pad attrs) rfl
  have none_ : (sentBytes tid pad attrs).length - (lenHdr type tid (bodyLen tid pad attrs)).len.toNat = 0 := by
    rw [lenHdr_len small]
    exact Nat.sub_self _
  have walked := @loop_sent tid pad attrs encode fit small ((sentBytes tid pad attrs).length + 1) (Nat.lt_succ_self _) [] []
  unfold msgDecode
  rw [sentWith, header]
  dsimp only
  rw [none_]
  show Option.map _ (loop (attrsBody tid 0) _ _) = _
  rw [walked]
  rfl

end

section
variable {hmacSha1 : List Byte → List Byte → List Byte} {crc32 : List Byte → BitVec 32} {type : BitVec 16}
variable {tid : BitVec 96} {pad : Byte} {attrs : List Attr}

/-- The message that is made of the attributes. -/
def sentMsg (type : BitVec 16) (tid : BitVec 96) (pad : Byte) (attrs : List Attr) : StunMsg :=
  ⟨lenHdr type tid (bodyLen tid pad attrs), attrs, sentWith type tid pad (bodyLen tid pad attrs) attrs⟩

/-- The first attribute of its type, behind others. -/
theorem attr_behind {attrib : StunAttrib} (others : ∀ attr ∈ attrs, attr.type ≠ attrib.code) (v : AttrValue)
    (more : List Attr) :
    (attrs ++ (⟨attrib.code, v⟩ :: more)).find? (fun attr => attr.type = attrib.code) = some ⟨attrib.code, v⟩ := by
  have none_ : attrs.find? (fun attr => attr.type = attrib.code) = none := by
    rw [List.find?_eq_none]
    intro attr inside
    rw [decide_eq_true_eq]
    exact others attr inside
  rw [List.find?_append, none_, Option.none_or, List.find?_cons_of_pos]
  exact decide_eq_true rfl

theorem take_sentWith (len : Nat) (attrs more : List Attr) :
    (sentWith type tid pad len (attrs ++ more)).take (STUN_HEADER_SIZE + bodyLen tid pad attrs) =
      sentWith type tid pad len attrs := by
  rw [sentWith_append]
  exact List.take_left' (sentWith_length len attrs)

/-- No length wraps around where the trailer is counted. -/
theorem less_wraps {n size : Nat} (small : n + size < 65536) (few : size ≤ sizeValues) :
    (STUN_HEADER_SIZE + (n + size) + sizeValues - size) % sizeValues = STUN_HEADER_SIZE + n := by
  have large : sizeValues = 4294967296 := rfl
  have header : STUN_HEADER_SIZE = 20 := rfl
  rw [large] at few ⊢
  rw [header]
  omega

theorem fingerprint_checks (others : ∀ attr ∈ attrs, attr.type ≠ StunAttrib.FINGERPRINT.code)
    (small : bodyLen tid pad (attrs ++ printOf crc32 type tid pad true attrs) < 65536) :
    msgChkFingerprint crc32 (sentMsg type tid pad (attrs ++ printOf crc32 type tid pad true attrs)) = .ok () := by
  have length : bodyLen tid pad (attrs ++ printOf crc32 type tid pad true attrs) = bodyLen tid pad attrs + FP_SIZE := by
    rw [bodyLen_append]
    exact congrArg _ (bodyLen_fingerprint _)
  have fpLen : (sentMsg type tid pad (attrs ++ printOf crc32 type tid pad true attrs)).fpLen =
      STUN_HEADER_SIZE + bodyLen tid pad attrs := by
    show (STUN_HEADER_SIZE + (lenHdr type tid _).len.toNat + sizeValues - FP_SIZE) % sizeValues = _
    rw [lenHdr_len small, length]
    exact less_wraps (by omega) (by decide)
  have found : (sentMsg type tid pad (attrs ++ printOf crc32 type tid pad true attrs)).attr .FINGERPRINT =
      some ⟨StunAttrib.FINGERPRINT.code,
        .uint32 (fingerprint crc32 (sentWith type tid pad (bodyLen tid pad attrs + FP_SIZE) attrs))⟩ :=
    attr_behind others _ []
  have digested : (sentMsg type tid pad (attrs ++ printOf crc32 type tid pad true attrs)).bytes.take
      (STUN_HEADER_SIZE + bodyLen tid pad attrs) = sentWith type tid pad (bodyLen tid pad attrs + FP_SIZE) attrs := by
    rw [← length]
    exact take_sentWith _ attrs _
  unfold msgChkFingerprint
  rw [found, fpLen, digested]
  exact if_pos rfl

/-- The fingerprint, where there is one, is taken off before the integrity is checked. -/
theorem integrity_checks {key : List Byte} {more : List Attr}
    (others : ∀ attr ∈ attrs, attr.type ≠ StunAttrib.MSG_INTEGRITY.code)
    (small : bodyLen tid pad (attrs ++ integrity hmacSha1 type tid pad (some key) attrs) < 65536)
    (digest : ∀ key d, (hmacSha1 key d).length = 20)
    (counted : (sentMsg type tid pad (attrs ++ (integrity hmacSha1 type tid pad (some key) attrs ++ more))).miHdr =
      lenHdr type tid (bodyLen tid pad attrs + MI_SIZE))
    (same : (sentMsg type tid pad (attrs ++ (integrity hmacSha1 type tid pad (some key) attrs ++ more))).miBytes =
      sentWith type tid pad (bodyLen tid pad attrs + MI_SIZE)
        (attrs ++ (integrity hmacSha1 type tid pad (some key) attrs ++ more))) :
    msgChkMi hmacSha1 (sentMsg type tid pad (attrs ++ (integrity hmacSha1 type tid pad (some key) attrs ++ more))) key =
      .ok () := by
  have length : bodyLen tid pad (attrs ++ integrity hmacSha1 type tid pad (some key) attrs) =
      bodyLen tid pad attrs + MI_SIZE := by
    rw [bodyLen_append]
    exact congrArg _ (bodyLen_integrity (digest _ _))
  rw [length] at small
  have miLen : (sentMsg type tid pad (attrs ++ (integrity hmacSha1 type tid pad (some key) attrs ++ more))).miLen =
      STUN_HEADER_SIZE + bodyLen tid pad attrs := by
    unfold StunMsg.miLen
    rw [counted, lenHdr_len small]
    exact less_wraps small (by decide)
  have found :
      (sentMsg type tid pad (attrs ++ (integrity hmacSha1 type tid pad (some key) attrs ++ more))).attr .MSG_INTEGRITY = some ⟨StunAttrib.MSG_INTEGRITY.code,
        .msgIntegrity (hmacSha1 key (sentWith type tid pad (bodyLen tid pad attrs + MI_SIZE) attrs))⟩ :=
    attr_behind others _ more
  unfold msgChkMi
  rw [found, miLen, same, take_sentWith]
  exact if_pos rfl

theorem lenHdr_sub (n size : Nat) :
    { lenHdr type tid (n + size) with len := (lenHdr type tid (n + size)).len - .ofNat 16 size } =
      lenHdr type tid n := by
  have len : BitVec.ofNat 16 (n + size) - BitVec.ofNat 16 size = BitVec.ofNat 16 n := by
    rw [BitVec.ofNat_add, BitVec.add_sub_cancel]
  show (⟨type, BitVec.ofNat 16 (n + size) - BitVec.ofNat 16 size, STUN_MAGIC_COOKIE, tid⟩ : StunHdr) = _
  rw [len]
  rfl

theorem sentWith_drop (len : Nat) (attrs : List Attr) :
    (sentWith type tid pad len attrs).drop STUN_HEADER_SIZE = sentBytes tid pad attrs :=
  List.drop_left' (hdrWrites_length _)

/-- What the receiver checks of the integrity with a fingerprint behind it. -/
theorem counted_fingerprint {n : Nat} {v : AttrValue} (attrs : List Attr)
    (length : bodyLen tid pad (attrs ++ [⟨StunAttrib.FINGERPRINT.code, v⟩]) = n + FP_SIZE) :
    (sentMsg type tid pad (attrs ++ [⟨StunAttrib.FINGERPRINT.code, v⟩])).miHdr = lenHdr type tid n ∧
      (sentMsg type tid pad (attrs ++ [⟨StunAttrib.FINGERPRINT.code, v⟩])).miBytes =
        sentWith type tid pad n (attrs ++ [⟨StunAttrib.FINGERPRINT.code, v⟩]) := by
  have found : ((sentMsg type tid pad (attrs ++ [⟨StunAttrib.FINGERPRINT.code, v⟩])).attr .FINGERPRINT).isSome = true := by
    show (List.find? _ _).isSome = true
    rw [List.find?_isSome]
    exact ⟨⟨StunAttrib.FINGERPRINT.code, v⟩, List.mem_append_right attrs List.mem_cons_self, decide_eq_true rfl⟩
  have header : (sentMsg type tid pad (attrs ++ [⟨StunAttrib.FINGERPRINT.code, v⟩])).miHdr = lenHdr type tid n := by
    unfold StunMsg.miHdr
    rw [if_pos found]
    have sub := @lenHdr_sub type tid n FP_SIZE
    rw [← length] at sub
    exact sub
  refine ⟨header, ?_⟩
  unfold StunMsg.miBytes
  rw [if_pos found, header]
  exact congrArg _ (sentWith_drop _ _)

theorem counted_plain (others : ∀ attr ∈ attrs, attr.type ≠ StunAttrib.FINGERPRINT.code) :
    (sentMsg type tid pad attrs).miHdr = lenHdr type tid (bodyLen tid pad attrs) ∧
      (sentMsg type tid pad attrs).miBytes = sentWith type tid pad (bodyLen tid pad attrs) attrs := by
  have none_ : ¬ ((sentMsg type tid pad attrs).attr .FINGERPRINT).isSome = true := by
    show ¬ (List.find? _ _).isSome = true
    rw [List.find?_isSome]
    rintro ⟨attr, inside, same⟩
    exact others attr inside (of_decide_eq_true same)
  exact ⟨if_neg none_, if_neg none_⟩

section
variable {key : Option (List Byte)} {fp : Bool}

theorem integrity_type :
    ∀ attr ∈ integrity hmacSha1 type tid pad key attrs, attr.type = StunAttrib.MSG_INTEGRITY.code := by
  intro attr inside
  obtain ⟨k, -, rfl⟩ := List.mem_map.mp inside
  rfl

theorem sentAttrl_encodes (digest : ∀ key d, (hmacSha1 key d).length = 20)
    (encode : ∀ attr ∈ attrs, attr.Encodes tid ∧ attr.v.InRange) :
    ∀ attr ∈ sentAttrl hmacSha1 crc32 type tid pad key fp attrs, attr.Encodes tid ∧ attr.v.InRange := by
  intro attr inside
  rcases List.mem_append.mp inside with front | last
  · rcases List.mem_append.mp front with own | inside
    · exact encode attr own
    · obtain ⟨k, -, rfl⟩ := List.mem_map.mp inside
      exact ⟨integrity_encodes tid _, digest _ _⟩
  · cases fp with
    | false => exact absurd last List.not_mem_nil
    | true =>
      rw [List.mem_singleton.mp last]
      exact ⟨fingerprint_encodes tid _, trivial⟩

/-- None of the attributes in front of the fingerprint is one. -/
theorem others_fingerprint (others : ∀ attr ∈ attrs, attr.type ≠ StunAttrib.FINGERPRINT.code) :
    ∀ attr ∈ attrs ++ integrity hmacSha1 type tid pad key attrs, attr.type ≠ StunAttrib.FINGERPRINT.code := by
  intro attr inside
  rcases List.mem_append.mp inside with own | inside
  · exact others attr own
  · rw [integrity_type attr inside]
    decide

theorem sentAttrl_checks {k : List Byte} (digest : ∀ key d, (hmacSha1 key d).length = 20)
    (small : bodyLen tid pad (sentAttrl hmacSha1 crc32 type tid pad (some k) fp attrs) < 65536)
    (others : ∀ attr ∈ attrs, attr.type ≠ StunAttrib.MSG_INTEGRITY.code)
    (plain : fp = false → ∀ attr ∈ attrs, attr.type ≠ StunAttrib.FINGERPRINT.code) :
    msgChkMi hmacSha1 (sentMsg type tid pad (sentAttrl hmacSha1 crc32 type tid pad (some k) fp attrs)) k = .ok () := by
  have length : bodyLen tid pad (attrs ++ integrity hmacSha1 type tid pad (some k) attrs) =
      bodyLen tid pad attrs + MI_SIZE := by
    rw [bodyLen_append]
    exact congrArg _ (bodyLen_integrity (digest _ _))
  have within := small
  rw [sentAttrl, bodyLen_append] at within
  have checks := @integrity_checks hmacSha1 type tid pad attrs k
    (printOf crc32 type tid pad fp (attrs ++ integrity hmacSha1 type tid pad (some k) attrs)) others (by omega) digest
  rw [← List.append_assoc] at checks
  cases fp with
  | true =>
    have counted := @counted_fingerprint type tid pad (bodyLen tid pad attrs + MI_SIZE)
      (.uint32 (fingerprint crc32 (sentWith type tid pad
        (bodyLen tid pad (attrs ++ integrity hmacSha1 type tid pad (some k) attrs) + FP_SIZE)
        (attrs ++ integrity hmacSha1 type tid pad (some k) attrs))))
      (attrs ++ integrity hmacSha1 type tid pad (some k) attrs) (by
        rw [bodyLen_append, length]
        exact congrArg _ (bodyLen_fingerprint _))
    exact checks counted.1 counted.2
  | false =>
    have none_ : printOf crc32 type tid pad false (attrs ++ integrity hmacSha1 type tid pad (some k) attrs) = [] := rfl
    have counted := @counted_plain type tid pad _ (@others_fingerprint hmacSha1 type tid pad attrs (some k) (plain rfl))
    rw [sentAttrl]
    rw [none_, List.append_nil] at checks ⊢
    rw [length] at counted
    exact checks counted.1 counted.2

end

/-- What is written is read back, the attributes of the caller first, and it passes its own checks where the caller's
    attributes hold none of those that the encoder adds itself. -/
theorem encoded_decoded (hmacSha1 : List Byte → List Byte → List Byte) (crc32 : List Byte → BitVec 32)
    (digest : ∀ key d, (hmacSha1 key d).length = 20) {mb : Mbuf} (ends : mb.endPos = mb.pos) (method : BitVec 16)
    (class_ : BitVec 8) (tid : BitVec 96) (ec : Option (BitVec 16 × List Byte)) (key : Option (List Byte)) (fp : Bool)
    (pad : Byte) (attrs : List (BitVec 16 × Option AttrValue))
    (encode : ∀ attr ∈ given (sentAttrs ec attrs), attr.Encodes tid ∧ attr.v.InRange)
    (small : bodyLen tid pad
      (sentAttrl hmacSha1 crc32 (stunType method class_) tid pad key fp (given (sentAttrs ec attrs))) < 65536) :
    let sent := msgVencode hmacSha1 crc32 mb method class_ tid ec key fp pad attrs
    let msg := sentMsg (stunType method class_) tid pad
      (sentAttrl hmacSha1 crc32 (stunType method class_) tid pad key fp (given (sentAttrs ec attrs)))
    sent.1 = false ∧ msgDecode (sent.2.setPos mb.pos).left = some (.ok (msg, [])) ∧
      (∀ k ∈ key, (∀ attr ∈ given (sentAttrs ec attrs), attr.type ≠ StunAttrib.MSG_INTEGRITY.code) →
        (fp = false → ∀ attr ∈ given (sentAttrs ec attrs), attr.type ≠ StunAttrib.FINGERPRINT.code) →
          msgChkMi hmacSha1 msg k = .ok ()) ∧
      (fp = true → (∀ attr ∈ given (sentAttrs ec attrs), attr.type ≠ StunAttrib.FINGERPRINT.code) →
        msgChkFingerprint crc32 msg = .ok ()) := by
  intro sent msg
  have complete := msgVencode_complete ends method class_ (fun attr inside => (encode attr inside).1) digest small
  have all := @sentAttrl_encodes hmacSha1 crc32 (stunType method class_) tid pad _ key fp digest encode
  refine ⟨complete.noError, ?_, ?_, ?_⟩
  · rw [complete.sent.left]
    exact msgDecode_sent (stunType_high method class_) (stunType_low method class_) (fun attr inside => (all attr inside).1)
      (fun attr inside => (all attr inside).2) small
  · intro k given_ others plain
    obtain rfl : key = some k := given_
    exact sentAttrl_checks digest small others plain
  · rintro rfl others
    exact fingerprint_checks (others_fingerprint others) small

/-- A binding request with a priority, an integrity and a fingerprint. -/
theorem encoded_decoded_binding :
    let sent := msgVencode (fun _ _ => List.replicate 20 0) (fun _ => 0) ⟨[], 0, 0⟩ 1 0 1 none (some [1]) true 0
      [(StunAttrib.PRIORITY.code, some (.uint32 0x6e0001ff))]
    let msg := sentMsg (stunType 1 0) 1 0 (sentAttrl (fun _ _ => List.replicate 20 0) (fun _ => 0) (stunType 1 0) 1 0
      (some [1]) true (given (sentAttrs none [(StunAttrib.PRIORITY.code, some (.uint32 0x6e0001ff))])))
    msgDecode (sent.2.setPos 0).left = some (.ok (msg, [])) ∧ msgChkMi (fun _ _ => List.replicate 20 0) msg [1] = .ok () ∧
      msgChkFingerprint (fun _ => 0) msg = .ok () := by
  have own : ∀ attr ∈ given (sentAttrs none [(StunAttrib.PRIORITY.code, some (.uint32 0x6e0001ff))]),
      attr = ⟨StunAttrib.PRIORITY.code, .uint32 0x6e0001ff⟩ := fun attr inside => List.mem_singleton.mp inside
  have whole := @encoded_decoded (fun _ _ => List.replicate 20 0) (fun _ => 0) (fun _ _ => rfl) ⟨[], 0, 0⟩ rfl 1 0 1 none
    (some [1]) true 0 [(StunAttrib.PRIORITY.code, some (.uint32 0x6e0001ff))]
    (fun attr inside => own attr inside ▸ ⟨rfl, trivial⟩) (by decide)
  exact ⟨whole.2.1, whole.2.2.1 [1] rfl (fun attr inside => own attr inside ▸ by decide) nofun,
    whole.2.2.2 rfl (fun attr inside => own attr inside ▸ by decide)⟩

/-- The fingerprint of the caller is found before the one that the encoder adds. -/
theorem fingerprint_given :
    let sent := msgVencode (fun _ _ => List.replicate 20 0) (fun _ => 0) ⟨[], 0, 0⟩ 1 0 1 none none true 0
      [(StunAttrib.FINGERPRINT.code, some (.uint32 0))]
    ∃ msg, msgDecode (sent.2.setPos 0).left = some (.ok (msg, [])) ∧
      msgChkFingerprint (fun _ => 0) msg = .error .EBADMSG := by
  let attrs : List (BitVec 16 × Option AttrValue) := [(StunAttrib.FINGERPRINT.code, some (.uint32 0))]
  have own : ∀ attr ∈ given (sentAttrs none attrs), attr.Encodes 1 ∧ attr.v.InRange := by
    intro attr inside
    rw [List.mem_singleton.mp inside]
    exact ⟨rfl, trivial⟩
  have digest : ∀ key d : List Byte, (List.replicate 20 (0 : Byte)).length = 20 := fun _ _ => rfl
  let all := sentAttrl (fun _ _ => List.replicate 20 0) (fun _ => 0) (stunType 1 0) 1 0 none true
    (given (sentAttrs none attrs))
  have small : bodyLen 1 0 all < 65536 := by decide
  have complete := @msgVencode_complete (fun _ _ => List.replicate 20 0) (fun _ => 0) 1 0 ⟨[], 0, 0⟩ rfl 1 0 none attrs
    (fun attr inside => (own attr inside).1) digest none true small
  have fits := @sentAttrl_encodes (fun _ _ => List.replicate 20 0) (fun _ => 0) (stunType 1 0) 1 0 _ none true digest own
  refine ⟨sentMsg (stunType 1 0) 1 0 all, ?_, ?_⟩
  · rw [complete.sent.left]
    exact msgDecode_sent (stunType_high 1 0) (stunType_low 1 0) (fun attr inside => (fits attr inside).1)
      (fun attr inside => (fits attr inside).2) small
  · exact if_neg (by decide)

end

end Baresip.Stun
