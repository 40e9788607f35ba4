import Baresip.Dns.RrRoundTrip
import Mathlib.Algebra.Ring.Int.Defs

set_option linter.dupNamespace false

namespace Baresip.Dns

open Re Library

/-- The fields in front of the length of the record data. -/
def frontFields (rr : Dnsrr) (ttlOffs : Int) : List Field :=
  [.name true rr.name, .num 2 rr.rdata.type.toNat, .num 2 rr.dnsclass.toNat, .num 4 (ttlEncode rr.ttl ttlOffs).toNat]

/-- A record of a known type whose values are in the range of their fields. -/
structure Dnsrr.InRange (rr : Dnsrr) : Prop where
  name : (Field.name true rr.name).InRange
  ttl : 0 ≤ rr.ttl ∧ rr.ttl < 2 ^ 32
  data : ∃ fields, rr.rdata.fields = some fields ∧ ∀ field ∈ fields, field.InRange

/-- No number has more bytes than an IPv6 address. -/
def Field.narrow : Field → Bool
  | .num n _ => n ≤ 16
  | _ => true

/-- The record data are equal, names without case. -/
inductive SameRdata : Rdata → Rdata → Prop
  | a {addr : BitVec 32} : SameRdata (.a addr) (.a addr)
  | ns {nsdname nsdname' : List Byte} (same : SameName nsdname nsdname') : SameRdata (.ns nsdname) (.ns nsdname')
  | cname {name name' : List Byte} (same : SameName name name') : SameRdata (.cname name) (.cname name')
  | soa {mname mname' rname rname' : List Byte} {serial refresh retry expire ttlmin : BitVec 32}
      (same : SameName mname mname') (same' : SameName rname rname') :
      SameRdata (.soa mname rname serial refresh retry expire ttlmin)
        (.soa mname' rname' serial refresh retry expire ttlmin)
  | ptr {ptrdname ptrdname' : List Byte} (same : SameName ptrdname ptrdname') :
      SameRdata (.ptr ptrdname) (.ptr ptrdname')
  | mx {pref : BitVec 16} {exchange exchange' : List Byte} (same : SameName exchange exchange') :
      SameRdata (.mx pref exchange) (.mx pref exchange')
  | aaaa {addr : BitVec 128} : SameRdata (.aaaa addr) (.aaaa addr)
  | srv {pri weight port : BitVec 16} {target target' : List Byte} (same : SameName target target') :
      SameRdata (.srv pri weight port target) (.srv pri weight port target')
  | naptr {order pref : BitVec 16} {flags services regexp replace replace' : List Byte}
      (same : SameName replace replace') :
      SameRdata (.naptr order pref flags services regexp replace) (.naptr order pref flags services regexp replace')

structure SameRr (rr rr' : Dnsrr) : Prop where
  name : SameName rr.name rr'.name
  dnsclass : rr.dnsclass = rr'.dnsclass
  ttl : rr.ttl = rr'.ttl
  rdata : SameRdata rr.rdata rr'.rdata

def rrStep (start : Nat) (s : EncodeSt) (rr : Dnsrr) : EncodeSt := (rrEncode start rr 0 s).2

/-- What is to hold of a record of a message: it is read from the whole message, and the next one is read behind it. -/
structure RrRight (start : Nat) (whole s : EncodeSt) (rr : Dnsrr) : Prop where
  written : (rrEncode start rr 0 s).1 = false
  decodes : ∃ rr', rrDecode start (whole.mb.setPos s.mb.pos) = .ok (rr', whole.mb.setPos (rrStep start s rr).mb.pos) ∧
    SameRr rr' rr

section
variable {start pos last rdlen : Nat} {ttlOffs : Int} {s : EncodeSt} {bytes : List Byte} {fields fields' : List Field}
  {rr : Dnsrr} {rdata : Rdata} {mb : Mbuf}

theorem fieldsEncode_cons (field : Field) (fields : List Field) (s : EncodeSt) :
    fieldsEncode start (field :: fields) s =
      ((fieldEncode start s field).1 || (fieldsEncode start fields (fieldEncode start s field).2).1,
        (fieldsEncode start fields (fieldEncode start s field).2).2) := rfl

theorem fieldsEncode_append (fields fields' : List Field) (s : EncodeSt) :
    fieldsEncode start (fields ++ fields') s =
      ((fieldsEncode start fields s).1 || (fieldsEncode start fields' (fieldsEncode start fields s).2).1,
        (fieldsEncode start fields' (fieldsEncode start fields s).2).2) := by
  induction fields generalizing s with
  | nil => rfl
  | cons field fields ih =>
    rw [List.cons_append, fieldsEncode_cons, fieldsEncode_cons, ih, Bool.or_assoc]

theorem headFields_front (rr : Dnsrr) (ttlOffs : Int) (rdlen : Nat) :
    headFields rr ttlOffs rdlen = frontFields rr ttlOffs ++ [.num 2 rdlen] := rfl

theorem ttlEncode_toNat (ttl : 0 ≤ rr.ttl ∧ rr.ttl < 2 ^ 32) : ((ttlEncode rr.ttl 0).toNat : Int) = rr.ttl := by
  unfold ttlEncode
  rw [BitVec.toNat_ofInt]
  split
  · rw [Int.sub_zero]
    omega
  · omega

theorem Dnsrr.InRange.head (inRange : rr.InRange) (ttlOffs : Int) :
    ∀ field ∈ frontFields rr ttlOffs, field.InRange := by
  intro field inside
  simp only [frontFields, List.mem_cons, List.not_mem_nil, or_false] at inside
  rcases inside with rfl | rfl | rfl | rfl
  · exact inRange.name
  · exact rr.rdata.type.isLt
  · exact rr.dnsclass.isLt
  · exact (ttlEncode rr.ttl ttlOffs).isLt

theorem most_le (inRange : ∀ field ∈ fields, field.InRange) (narrow : fields.all Field.narrow) :
    most fields ≤ 257 * fields.length := by
  induction fields with
  | nil => exact Nat.le_refl _
  | cons field fields ih =>
    rw [List.forall_mem_cons] at inRange
    rw [List.all_cons, Bool.and_eq_true] at narrow
    have others := ih inRange.2 narrow.2
    have first : field.most ≤ 257 := by
      cases field with
      | num n v =>
        have few : n ≤ 16 := of_decide_eq_true narrow.1
        exact Nat.le_trans few (by decide)
      | name comp name =>
        have fits : name.length ≤ 255 := inRange.1.2.1
        exact Nat.succ_le_succ (Nat.succ_le_succ fits)
      | cstr str =>
        have fits : str.length ≤ 255 := inRange.1.1
        exact Nat.le_trans (Nat.succ_le_succ fits) (by decide)
    unfold most
    rw [List.length_cons]
    omega

/-- The record data are short enough for their length. -/
theorem Rdata.most_lt (known : rdata.fields = some fields) (inRange : ∀ field ∈ fields, field.InRange) :
    most fields < 2 ^ 16 := by
  have few : fields.length ≤ 7 ∧ fields.all Field.narrow := by
    cases rdata
    case other => contradiction
    all_goals
      cases known
      exact ⟨by simp, rfl⟩
  have le := most_le inRange few.2
  omega

/-- The table after a number of two bytes is written. -/
def EncodeSt.num2 (s : EncodeSt) (n : Nat) : EncodeSt := { s with mb := s.mb.writeMem (putBe 2 n) }

theorem putBe_pair (n : Nat) : putBe 2 n = [.ofNat 8 (n / 256), .ofNat 8 n] := rfl

/-- The fields behind a number are the same for another number. -/
theorem fieldsEncode_num2 (start' : s.mb.pos ≤ s.mb.buf.length) (n n' : Nat) :
    fieldsEncode start fields (s.num2 n') =
      ((fieldsEncode start fields (s.num2 n)).1,
        ((fieldsEncode start fields (s.num2 n)).2.putAt s.mb.pos (.ofNat 8 (n' / 256))).putAt (s.mb.pos + 1)
          (.ofNat 8 n')) := by
  have ahead (p : Nat) (here : p < s.mb.pos + 2) : Ahead p (s.num2 n) :=
    ⟨here, (s.mb.writeMem_length (putBe 2 n)).1⟩
  have put : s.num2 n' =
      ((s.num2 n).putAt s.mb.pos (.ofNat 8 (n' / 256))).putAt (s.mb.pos + 1) (.ofNat 8 n') := by
    unfold EncodeSt.num2 EncodeSt.putAt
    dsimp only
    rw [putBe_pair n, putBe_pair n', Mbuf.putAt_pair start']
  have behind : Ahead (s.mb.pos + 1) ((s.num2 n).putAt s.mb.pos (.ofNat 8 (n' / 256))) :=
    (ahead (s.mb.pos + 1) (Nat.lt_succ_self _)).labelled _ _
  rw [put, fieldsEncode_putAt _ _ behind, fieldsEncode_putAt _ _ (ahead s.mb.pos (Nat.lt_add_of_pos_right (by decide)))]

theorem Table.num2 (table : Table start s bytes) (n : Nat) : Table start (s.num2 n) (bytes ++ putBe 2 n) :=
  table.write _

/-- The data behind the length of a record do not depend on it. -/
theorem dataEncode_at (table : Table start s bytes) (inRange : ∀ field ∈ fields, field.InRange) (n : Nat)
    (small : (fieldsEncode start fields (s.num2 n)).2.mb.pos < sizeValues) :
    (fieldsEncode start fields (s.num2 n)).1 = false ∧ ∃ data,
      (fieldsEncode start fields (s.num2 n)).2.mb.Written (bytes ++ putBe 2 n ++ data) ∧
      ∀ n', ∃ s', Table start s' (bytes ++ putBe 2 n' ++ data) ∧
        s'.ht = (fieldsEncode start fields (s.num2 n)).2.ht ∧
        FieldsAt (bytes ++ putBe 2 n' ++ data) start (bytes.length + 2) fields (bytes ++ putBe 2 n' ++ data).length := by
  obtain ⟨ok, bytes', next, kept, -⟩ := fieldsEncode_at (table.num2 n) inRange small
  obtain ⟨data, rfl⟩ := kept
  refine ⟨ok, data, next.written, ?_⟩
  intro n'
  have start' : s.mb.pos ≤ s.mb.buf.length := Nat.le_trans table.written.ended table.written.inside
  have same := @fieldsEncode_num2 start s fields start' n n'
  have small' : (fieldsEncode start fields (s.num2 n')).2.mb.pos < sizeValues := by
    rw [same]
    exact small
  obtain ⟨-, bytes', next', kept', at_⟩ := fieldsEncode_at (table.num2 n') inRange small'
  have put : (fieldsEncode start fields (s.num2 n')).2.mb.Written (bytes ++ putBe 2 n' ++ data) := by
    have first : ((fieldsEncode start fields (s.num2 n)).2.mb.putAt bytes.length (.ofNat 8 (n' / 256))).Written
        (bytes ++ .ofNat 8 (n' / 256) :: .ofNat 8 n :: data) := by
      apply Mbuf.Written.putAt
      have written := next.written
      rw [putBe_pair, List.append_assoc] at written
      exact written
    have second : (((fieldsEncode start fields (s.num2 n)).2.mb.putAt bytes.length (.ofNat 8 (n' / 256))).putAt
        (bytes ++ [BitVec.ofNat 8 (n' / 256)]).length (.ofNat 8 n')).Written
        (bytes ++ [.ofNat 8 (n' / 256)] ++ .ofNat 8 n' :: data) := by
      apply Mbuf.Written.putAt
      rw [← List.append_cons]
      exact first
    rw [same, putBe_pair, List.append_assoc]
    rw [← List.append_cons, List.length_append, ← table.written.length] at second
    exact second
  obtain rfl := next'.written.unique put
  rw [List.length_append, putBe_length] at at_
  refine ⟨_, next', ?_, at_⟩
  rw [same]
  rfl

theorem rrEncode_known (known : rr.rdata.fields = some fields) {front data : EncodeSt} {len : BitVec 16}
    (front_eq : (fieldsEncode start (frontFields rr ttlOffs) s).2 = front)
    (data_eq : (fieldsEncode start fields (front.num2 rr.rdlen.toNat)).2 = data)
    (len_eq : BitVec.ofNat 16 (data.mb.pos - (front.mb.pos + 2)) = len) :
    rrEncode start rr ttlOffs s = ((fieldsEncode start (frontFields rr ttlOffs) s).1 ||
        (fieldsEncode start fields (front.num2 rr.rdlen.toNat)).1,
      ⟨((data.mb.setPos front.mb.pos).writeMem (putBe 2 len.toNat)).advance len.toNat, data.ht⟩) := by
  have head : fieldsEncode start (headFields rr ttlOffs rr.rdlen.toNat) s =
      ((fieldsEncode start (frontFields rr ttlOffs) s).1, front.num2 rr.rdlen.toNat) := by
    rw [headFields_front, fieldsEncode_append, front_eq]
    exact congrArg (fun err => (err, _)) (Bool.or_false _)
  have behind : (front.num2 rr.rdlen.toNat).mb.pos = front.mb.pos + 2 := rfl
  unfold rrEncode
  rw [known, head]
  dsimp only
  rw [data_eq, behind, len_eq]
  rfl

/-- A record in its range is written, with the length of its data in front of them. -/
theorem rrEncode_at (table : Table start s bytes) (inRange : rr.InRange)
    (known : rr.rdata.fields = some fields) (small : (rrEncode start rr 0 s).2.mb.pos < sizeValues) :
    (rrEncode start rr 0 s).1 = false ∧ ∃ bytes' data len, Table start (rrEncode start rr 0 s).2 bytes' ∧
      bytes <+: bytes' ∧ len < 2 ^ 16 ∧ data + len = bytes'.length ∧
      FieldsAt bytes' start bytes.length (headFields rr 0 len) data ∧ FieldsAt bytes' start data fields bytes'.length := by
  obtain ⟨fields', known', dataRange⟩ := inRange.data
  obtain rfl := Option.some.inj (known.symm.trans known')
  generalize front_eq : (fieldsEncode start (frontFields rr 0) s).2 = front
  generalize data_eq : (fieldsEncode start fields (front.num2 rr.rdlen.toNat)).2 = data
  generalize len_eq : BitVec.ofNat 16 (data.mb.pos - (front.mb.pos + 2)) = len
  have result := rrEncode_known known front_eq data_eq len_eq
  have first : front.mb.pos + 2 ≤ data.mb.pos := by
    have kept := fieldsEncode_kept start (pos_kept (front.mb.pos + 2)) fields
      (s := front.num2 rr.rdlen.toNat) (Nat.le_refl _)
    rw [data_eq] at kept
    exact kept
  have bound : data.mb.pos ≤ front.mb.pos + 2 + most fields := by
    rw [← data_eq]
    exact fieldsEncode_pos_bound fields _
  have short := Rdata.most_lt known dataRange
  have len_nat : data.mb.pos = front.mb.pos + 2 + len.toNat := by
    rw [← len_eq, BitVec.toNat_ofNat]
    omega
  rw [result] at small ⊢
  have end_eq : front.mb.pos + 2 + len.toNat < sizeValues := by
    have pos := small
    rw [show (Mbuf.pos _) = front.mb.pos + (putBe 2 len.toNat).length + len.toNat from rfl, putBe_length] at pos
    exact pos
  obtain ⟨ok, bytes0, table0, kept0, at0⟩ := fieldsEncode_at table (inRange.head 0) (by rw [front_eq]; omega)
  rw [front_eq] at table0
  obtain ⟨ok', tail, written, others⟩ := dataEncode_at table0 dataRange rr.rdlen.toNat (by rw [data_eq]; omega)
  rw [data_eq] at written
  obtain ⟨s', table', ht, at_⟩ := others len.toNat
  rw [data_eq] at ht
  have tail_length : tail.length = len.toNat := by
    have length := written.length
    have start_length := table0.written.length
    rw [List.length_append, List.length_append, putBe_length] at length
    omega
  have rewritten := @Mbuf.Written.rewrite _ _ _ _ (putBe 2 len.toNat) written (by rw [putBe_length, putBe_length])
  rw [← table0.written.length, tail_length] at rewritten
  have extends_ : bytes0 <+: bytes0 ++ putBe 2 len.toNat ++ tail :=
    ⟨putBe 2 len.toNat ++ tail, (List.append_assoc _ _ _).symm⟩
  refine ⟨by rw [ok, ok']; rfl, _, bytes0.length + 2, len.toNat, ⟨rewritten, table'.from_, ?_⟩,
    kept0.trans extends_, len.isLt, ?_, ?_, at_⟩
  · intro dn inside
    refine table'.noted dn ?_
    rw [ht]
    exact inside
  · rw [List.length_append, List.length_append, putBe_length, tail_length]
  · rw [headFields_front]
    refine (at0.extend extends_).append (.num ?_ .done)
    rw [List.append_assoc, List.drop_left]
    exact List.prefix_append _ _

theorem ofNat_self {w : Nat} (v : BitVec w) : BitVec.ofNat w v.toNat = v := by
  rw [BitVec.ofNat_toNat, BitVec.setWidth_eq]

theorem hdrDecode_at {hdr : RrHdr} {ttl : Nat} (ttl_eq : ttl = hdr.ttl.toNat)
    (at_ : FieldsAt (mb.buf.take mb.endPos) start pos
      [.num 2 hdr.type.toNat, .num 2 hdr.dnsclass.toNat, .num 4 ttl, .num 2 hdr.rdlen.toNat] last) :
    last = pos + rrHdrSize ∧ hdrDecode (mb.setPos pos) = (hdr, mb.setPos last) := by
  cases at_ with
  | num type at_ =>
    cases at_ with
    | num dnsclass at_ =>
      cases at_ with
      | num ttl' at_ =>
        cases at_ with
        | num rdlen at_ =>
          cases at_
          subst ttl_eq
          refine ⟨rfl, ?_⟩
          unfold hdrDecode
          rw [numDecode_at hdr.type.isLt type]
          dsimp only
          rw [numDecode_at hdr.dnsclass.isLt dnsclass]
          dsimp only
          rw [numDecode_at hdr.ttl.isLt ttl']
          dsimp only
          rw [numDecode_at hdr.rdlen.isLt rdlen]
          simp only [ofNat_self]

/-- The steps for the type of the record data read the fields that are written for them. -/
theorem Rdata.reads (known : rdata.fields = some fields) (at_ : FieldsAt bytes start pos fields (pos + rdlen)) :
    ∃ type, DnsType.ofCode rdata.type = some type ∧ Reads rdlen type.steps fields ∧
      ∀ values, List.Forall₂ SameValue values fields →
        ∃ rdata', Rdata.ofValues type values = some rdata' ∧ SameRdata rdata' rdata := by
  cases rdata with
  | a addr =>
    cases known
    cases at_ with
    | num written at_ =>
      generalize ends : pos + rdlen = last at at_
      cases at_
      refine ⟨.A, rfl, .rdlen (Nat.add_left_cancel ends) (.num .done), ?_⟩
      rintro values (_ | ⟨_ | _, _ | _⟩)
      refine ⟨_, rfl, ?_⟩
      rw [ofNat_self]
      exact .a
  | ns nsdname =>
    cases known
    refine ⟨.NS, rfl, .name .done, ?_⟩
    rintro values (_ | ⟨_ | same, _ | _⟩)
    exact ⟨_, rfl, .ns same⟩
  | cname name =>
    cases known
    refine ⟨.CNAME, rfl, .name .done, ?_⟩
    rintro values (_ | ⟨_ | same, _ | _⟩)
    exact ⟨_, rfl, .cname same⟩
  | soa mname rname serial refresh retry expire ttlmin =>
    cases known
    refine ⟨.SOA, rfl, .name (.name (.left (Nat.le_refl 20) (.num (.num (.num (.num (.num .done))))))), ?_⟩
    rintro values (_ | ⟨_ | same, _ | ⟨_ | same', _ | ⟨_ | _, _ | ⟨_ | _, _ | ⟨_ | _, _ | ⟨_ | _, _ | ⟨_ | _, _ | _⟩⟩⟩⟩⟩⟩⟩)
    refine ⟨_, rfl, ?_⟩
    simp only [ofNat_self]
    exact .soa same same'
  | ptr ptrdname =>
    cases known
    refine ⟨.PTR, rfl, .name .done, ?_⟩
    rintro values (_ | ⟨_ | same, _ | _⟩)
    exact ⟨_, rfl, .ptr same⟩
  | mx pref exchange =>
    cases known
    refine ⟨.MX, rfl, .left (Nat.le_add_right 2 1) (.num (.name .done)), ?_⟩
    rintro values (_ | ⟨_ | _, _ | ⟨_ | same, _ | _⟩⟩)
    refine ⟨_, rfl, ?_⟩
    rw [ofNat_self]
    exact .mx same
  | aaaa addr =>
    cases known
    cases at_ with
    | num written at_ =>
      generalize ends : pos + rdlen = last at at_
      cases at_
      refine ⟨.AAAA, rfl, .rdlen (Nat.add_left_cancel ends) (.num .done), ?_⟩
      rintro values (_ | ⟨_ | _, _ | _⟩)
      refine ⟨_, rfl, ?_⟩
      rw [ofNat_self]
      exact .aaaa
  | srv pri weight port target =>
    cases known
    refine ⟨.SRV, rfl, .left (Nat.le_add_right 6 1) (.num (.num (.num (.name .done)))), ?_⟩
    rintro values (_ | ⟨_ | _, _ | ⟨_ | _, _ | ⟨_ | _, _ | ⟨_ | same, _ | _⟩⟩⟩⟩)
    refine ⟨_, rfl, ?_⟩
    simp only [ofNat_self]
    exact .srv same
  | naptr order pref flags services regexp replace =>
    cases known
    refine ⟨.NAPTR, rfl, .left (Nat.le_add_right 4 4) (.num (.num (.cstr (.cstr (.cstr (.name .done)))))), ?_⟩
    rintro values (_ | ⟨_ | _, _ | ⟨_ | _, _ | ⟨_ | _, _ | ⟨_ | _, _ | ⟨_ | _, _ | ⟨_ | same, _ | _⟩⟩⟩⟩⟩⟩)
    refine ⟨_, rfl, ?_⟩
    simp only [ofNat_self]
    exact .naptr same
  | other => contradiction

/-- The bytes of a record in its range are read as the same record. -/
theorem rrDecode_at {len data : Nat} (inside : mb.endPos ≤ mb.buf.length) (small : mb.endPos ≤ sizeValues)
    (inRange : rr.InRange) (known : rr.rdata.fields = some fields) (len_lt : len < 2 ^ 16)
    (head : FieldsAt (mb.buf.take mb.endPos) start pos (headFields rr 0 len) data)
    (at_ : FieldsAt (mb.buf.take mb.endPos) start data fields (data + len)) (ends : data + len ≤ mb.endPos) :
    ∃ rr', rrDecode start (mb.setPos pos) = .ok (rr', mb.setPos (data + len)) ∧ SameRr rr' rr := by
  obtain ⟨fields', known', dataRange⟩ := inRange.data
  obtain rfl := Option.some.inj (known.symm.trans known')
  obtain ⟨representable, fits, plain⟩ := inRange.name
  obtain ⟨type, code, reads, values⟩ := Rdata.reads known at_
  cases head with
  | @name _ hops next _ _ _ _ few spells fixed =>
    obtain ⟨text, named, same⟩ := nameDecode_at inside small representable fits plain few spells
    have len_nat : (BitVec.ofNat 16 len).toNat = len := Nat.mod_eq_of_lt len_lt
    rw [← len_nat] at fixed
    obtain ⟨behind, hdr⟩ := @hdrDecode_at _ _ _ mb ⟨rr.rdata.type, rr.dnsclass, ttlEncode rr.ttl 0, .ofNat 16 len⟩ _ rfl
      fixed
    obtain ⟨read, decoded, all⟩ := stepsDecode_at inside small reads dataRange at_ ends
    obtain ⟨rdata', made, same'⟩ := values read all
    refine ⟨⟨text, rr.dnsclass, (ttlEncode rr.ttl 0).toNat, .ofNat 16 len, rdata'⟩, ?_,
      ⟨same, rfl, ttlEncode_toNat inRange.ttl, same'⟩⟩
    unfold rrDecode rdataDecode
    rw [named]
    dsimp only
    rw [setPos_getLeft, if_neg (by omega), hdr]
    dsimp only
    rw [setPos_getLeft, len_nat, if_neg (by omega), code]
    dsimp only
    rw [decoded]
    dsimp only
    rw [made]
    rfl

theorem rrEncode_pos_le (inRange : rr.InRange) (s : EncodeSt) : s.mb.pos ≤ (rrEncode start rr 0 s).2.mb.pos := by
  obtain ⟨fields, known, -⟩ := inRange.data
  have front := fieldsEncode_kept start (pos_kept s.mb.pos) (frontFields rr 0) (Nat.le_refl s.mb.pos)
  rw [rrEncode_known known rfl rfl rfl]
  show s.mb.pos ≤ (fieldsEncode start (frontFields rr 0) s).2.mb.pos + (putBe 2 _).length + _
  omega

theorem rrEncode_ended (start : Nat) (inRange : rr.InRange) (ended : s.mb.pos ≤ s.mb.endPos) :
    (rrStep start s rr).mb.pos ≤ (rrStep start s rr).mb.endPos := by
  obtain ⟨fields, known, -⟩ := inRange.data
  have front := fieldsEncode_kept start ended_kept (frontFields rr 0) ended
  unfold rrStep
  generalize front_eq : (fieldsEncode start (frontFields rr 0) s).2 = head at front
  have num := ended_kept.write head (putBe 2 rr.rdlen.toNat) front
  have data := fieldsEncode_kept start ended_kept fields num
  rw [rrEncode_known known front_eq rfl rfl]
  show head.mb.pos + (putBe 2 _).length + (BitVec.ofNat 16 _).toNat ≤ max _ (head.mb.pos + (putBe 2 _).length)
  rw [putBe_length, BitVec.toNat_ofNat]
  have cut := Nat.mod_le ((fieldsEncode start fields (head.num2 rr.rdlen.toNat)).2.mb.pos - (head.mb.pos + 2)) (2 ^ 16)
  have behind : (fieldsEncode start fields (head.num2 rr.rdlen.toNat)).2.mb.pos ≤
      (fieldsEncode start fields (head.num2 rr.rdlen.toNat)).2.mb.endPos := data
  show _ ≤ max (fieldsEncode start fields (head.num2 rr.rdlen.toNat)).2.mb.endPos _
  omega

theorem rrSteps_pos_le (start : Nat) {rrs : List Dnsrr} (inRange : ∀ rr ∈ rrs, rr.InRange) (s : EncodeSt) :
    s.mb.pos ≤ (rrs.foldl (rrStep start) s).mb.pos := by
  induction rrs generalizing s with
  | nil => exact Nat.le_refl _
  | cons rr rrs ih =>
    rw [List.forall_mem_cons] at inRange
    exact Nat.le_trans (rrEncode_pos_le inRange.1 s) (ih inRange.2 _)

theorem rrSteps_ended (start : Nat) {rrs : List Dnsrr} (inRange : ∀ rr ∈ rrs, rr.InRange) (ended : s.mb.pos ≤ s.mb.endPos) :
    (rrs.foldl (rrStep start) s).mb.pos ≤ (rrs.foldl (rrStep start) s).mb.endPos := by
  induction rrs generalizing s with
  | nil => exact ended
  | cons rr rrs ih =>
    rw [List.forall_mem_cons] at inRange
    exact ih inRange.2 (rrEncode_ended start inRange.1 ended)

/-- Each record of a message is read from where it starts, up to where the next one starts. -/
theorem Table.rrs_right {rrs : List Dnsrr} (table : Table start s bytes) (inRange : ∀ rr ∈ rrs, rr.InRange)
    (small : (rrs.foldl (rrStep start) s).mb.endPos < sizeValues) :
    (∃ bytes', Table start (rrs.foldl (rrStep start) s) bytes' ∧ bytes <+: bytes') ∧
      Along (rrStep start) (RrRight start (rrs.foldl (rrStep start) s)) s rrs := by
  induction rrs generalizing s bytes with
  | nil => exact ⟨⟨bytes, table, List.prefix_rfl⟩, trivial⟩
  | cons rr rrs ih =>
    rw [List.forall_mem_cons] at inRange
    rw [List.foldl_cons] at small ⊢
    obtain ⟨fields, known, -⟩ := inRange.1.data
    have ended := rrSteps_ended start inRange.2 (rrEncode_ended start inRange.1 table.written.ended)
    have here : (rrStep start s rr).mb.pos < sizeValues := by
      have before := rrSteps_pos_le start inRange.2 (rrStep start s rr)
      omega
    obtain ⟨ok, bytes', data, len, next, kept, len_lt, length, head, at_⟩ := rrEncode_at table inRange.1 known here
    obtain ⟨⟨bytes'', final, kept'⟩, others⟩ := ih (s := rrStep start s rr) next inRange.2 small
    refine ⟨⟨bytes'', final, kept.trans kept'⟩, ⟨ok, ?_⟩, others⟩
    generalize rrs.foldl (rrStep start) (rrStep start s rr) = whole at final small ended ⊢
    have in_ : bytes' <+: whole.mb.buf.take whole.mb.endPos := by
      refine kept'.trans ?_
      rw [← final.written.content]
      exact List.take_prefix_take_left ended
    have ends : data + len ≤ whole.mb.endPos := by
      have longer := in_.length_le
      rw [List.length_take] at longer
      omega
    rw [← length] at at_
    obtain ⟨rr', decoded, same⟩ := rrDecode_at final.written.inside (Nat.le_of_lt small) inRange.1 known len_lt
      (head.extend in_) (at_.extend in_) ends
    refine ⟨rr', ?_, same⟩
    show rrDecode start (whole.mb.setPos s.mb.pos) = .ok (rr', whole.mb.setPos (rrEncode start rr 0 s).2.mb.pos)
    rw [table.written.length, next.written.length, ← length]
    exact decoded

/-- The records of a message are read as they were written, and a record of any packet is passed by the length that it
    gives for its data exactly when the data end there by their own lengths. -/
theorem records_iff (start : Nat) :
    (∀ (s : EncodeSt) (rrs : List Dnsrr), entries s.ht = [] → start ≤ s.mb.pos → s.mb.pos ≤ s.mb.endPos →
      s.mb.endPos ≤ s.mb.buf.length → (∀ rr ∈ rrs, rr.InRange) → (rrs.foldl (rrStep start) s).mb.endPos < sizeValues →
      Along (rrStep start) (RrRight start (rrs.foldl (rrStep start) s)) s rrs) ∧
    ∀ (mb mb' : Mbuf) (rr : Dnsrr), mb.endPos ≤ mb.buf.length → rrDecode start mb = .ok (rr, mb') →
      ∃ behind, NameEnds mb mb.pos behind ∧ rr.rdlen = (hdrDecode (mb.setPos behind)).1.rdlen ∧
        (mb'.pos = behind + rrHdrSize + rr.rdlen.toNat ↔ DataFit mb behind) := by
  constructor
  · intro s rrs none_ from_ ended inside inRange small
    have written := Mbuf.written_take ended inside
    have table : Table start s (s.mb.buf.take s.mb.pos) := by
      refine ⟨written, written.length ▸ from_, ?_⟩
      rw [none_]
      exact nofun
    exact (table.rrs_right inRange small).2
  · intro mb mb' rr inside decoded
    exact rrDecode_ends inside decoded

end

def mxRecord : Dnsrr := ⟨ascii "re.org", 1, 3600, 0, .mx 10 (ascii "MX.org")⟩

/-- The name server of the root, whose data are two bytes. -/
def nsPacket : Mbuf := ⟨[0, 0, 2, 0, 1, 0, 0, 0, 0, 0, 2, 0, 0x61], 0, 13⟩

def nsRecord : Dnsrr := ⟨[], 1, 0, 2, .ns []⟩

theorem nsPacket_root : NameEnds nsPacket 0 1 := .zero rfl

theorem records_iff_mx :
    Along (rrStep 0) (RrRight 0 ([mxRecord, mxRecord].foldl (rrStep 0) emptyMessage)) emptyMessage
      [mxRecord, mxRecord] ∧ ∃ behind, NameEnds nsPacket nsPacket.pos behind ∧
        nsRecord.rdlen = (hdrDecode (nsPacket.setPos behind)).1.rdlen ∧
        ((nsPacket.setPos 12).pos = behind + rrHdrSize + nsRecord.rdlen.toNat ↔ DataFit nsPacket behind) := by
  refine ⟨(records_iff 0).1 emptyMessage [mxRecord, mxRecord] rfl (Nat.le_refl 0) (by decide) (by decide) ?_
    (by decide +kernel), (records_iff 0).2 nsPacket (nsPacket.setPos 12) nsRecord (by decide) (by decide +kernel)⟩
  have two (first last : List Byte) (plain : dot ∉ first ∧ dot ∉ last) (some_ : first ≠ [] ∧ last ≠ [])
      (short : first.length ≤ LABEL_MAX ∧ last.length ≤ LABEL_MAX) : Representable (first ++ dot :: last) :=
    representable_two plain.1 plain.2 some_.1 some_.2 short.1 short.2
  have inRange : mxRecord.InRange := by
    refine ⟨⟨two (ascii "re") (ascii "org") (by decide +kernel) (by decide +kernel) (by decide +kernel), by decide +kernel,
      by decide +kernel⟩, by decide, _, rfl, ?_⟩
    rw [List.forall_mem_cons, List.forall_mem_singleton]
    exact ⟨show 10 < 256 ^ 2 by decide, two (ascii "MX") (ascii "org") (by decide +kernel) (by decide +kernel) (by decide +kernel),
      by decide +kernel, by decide +kernel⟩
  rw [List.forall_mem_cons, List.forall_mem_singleton]
  exact ⟨inRange, inRange⟩

theorem record_not_passed : rrDecode 0 nsPacket = .ok (nsRecord, nsPacket.setPos 12) ∧ NameEnds nsPacket nsPacket.pos 1 ∧
    (nsPacket.setPos 12).pos ≠ 1 + rrHdrSize + nsRecord.rdlen.toNat :=
  ⟨by decide +kernel, nsPacket_root, by decide⟩

end Baresip.Dns
