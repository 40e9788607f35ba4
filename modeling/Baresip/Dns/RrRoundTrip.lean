import Baresip.Dns.RoundTrip
import Baresip.Dns.Rr
import Baresip.Dns.RrEnds

set_option linter.dupNamespace false

namespace Baresip.Dns

open Re Library

def EncodeSt.putAt (s : EncodeSt) (p : Nat) (v : Byte) : EncodeSt := { s with mb := s.mb.putAt p v }

/-- The position is inside the buffer, and `p` is in front of it. -/
structure Ahead (p : Nat) (s : EncodeSt) : Prop where
  front : p < s.mb.pos
  start : s.mb.pos ≤ s.mb.buf.length

section
variable {start p pos : Nat} {comp : Bool} {s : EncodeSt} {bytes more name : List Byte}

theorem ahead_kept : WriteKeeps (Ahead p) where
  write s data ahead := ⟨Nat.lt_of_lt_of_le ahead.front (Nat.le_add_right _ _), (s.mb.writeMem_length data).1⟩
  putAt s pos v ahead := ⟨ahead.front, by
    show s.mb.pos ≤ (s.mb.buf.set pos v).length
    rw [List.length_set]
    exact ahead.start⟩
  append _ _ _ ahead := ⟨ahead.front, ahead.start⟩

theorem Ahead.char (ahead : Ahead p s) (v c : Byte) : (s.mb.putAt p v).writeU8 c = (s.mb.writeU8 c).putAt p v :=
  Mbuf.putAt_writeMem ahead.front ahead.start v [c]

theorem Ahead.pointer (ahead : Ahead p s) (v : Byte) (n : Nat) :
    encodePointer (s.mb.putAt p v) n = (encodePointer s.mb n).putAt p v :=
  Mbuf.putAt_writeMem ahead.front ahead.start v _

theorem Ahead.labelled (ahead : Ahead p s) (pos : Nat) (w : Byte) : Ahead p { s with mb := s.mb.putAt pos w } :=
  ahead_kept.putAt _ _ _ ahead

/-- The loop writes behind the byte at `p`, whatever that byte is. -/
theorem encodeLoop_putAt (v : Byte) (name : List Byte) (before : p < pos) (ahead : Ahead p s) :
    encodeLoop start comp name pos (s.putAt p v) =
      ((encodeLoop start comp name pos s).1, (encodeLoop start comp name pos s).2.putAt p v) := by
  induction name generalizing pos s with
  | nil =>
    unfold encodeLoop
    dsimp only [EncodeSt.putAt]
    rw [show (s.mb.putAt p v).pos = s.mb.pos from rfl, Mbuf.putAt_putAt (Nat.ne_of_lt before),
      (ahead.labelled pos _).char]
    split <;> rfl
  | cons c name ih =>
    have labelled := ahead.labelled pos (.ofNat 8 (s.mb.pos - pos - 1))
    have next (ht : Option (List Dname)) :
        Ahead p ⟨(s.mb.putAt pos (.ofNat 8 (s.mb.pos - pos - 1))).writeU8 0, ht⟩ := by
      have kept := ahead_kept.write _ [0] labelled
      exact ⟨kept.front, kept.start⟩
    unfold encodeLoop
    dsimp only [EncodeSt.putAt]
    rw [show (s.mb.putAt p v).pos = s.mb.pos from rfl, Mbuf.putAt_putAt (Nat.ne_of_lt before), labelled.char,
      ahead.char]
    split
    · split
      · rfl
      · split
        · split
          · rename_i dn _ _
            rw [labelled.pointer]
          · exact ih ahead.front (next s.ht)
        · exact ih ahead.front (next _)
    · exact ih before (ahead_kept.write _ [c] ahead)

theorem encodeLabels_putAt (v : Byte) (name : List Byte) (ahead : Ahead p s) :
    encodeLabels start comp name (s.putAt p v) =
      ((encodeLabels start comp name s).1, (encodeLabels start comp name s).2.putAt p v) := by
  unfold encodeLabels
  dsimp only [EncodeSt.putAt]
  rw [ahead.char]
  split
  · rfl
  · exact encodeLoop_putAt v name ahead.front (ahead_kept.write _ [0] ahead)

theorem dnameEncode_putAt (v : Byte) (name : List Byte) (ahead : Ahead p s) :
    dnameEncode start comp name (s.putAt p v) =
      ((dnameEncode start comp name s).1, (dnameEncode start comp name s).2.putAt p v) := by
  unfold dnameEncode
  dsimp only [EncodeSt.putAt]
  split
  · split
    · rw [ahead.pointer]
    · exact encodeLabels_putAt v name ahead
  · exact encodeLabels_putAt v name (ahead_kept.append _ _ _ ahead)

theorem fieldEncode_kept {P : EncodeSt → Prop} (keeps : WriteKeeps P) (field : Field) (holds : P s) :
    P (fieldEncode start s field).2 := by
  cases field with
  | num n v => exact keeps.write _ _ holds
  | name comp name => exact keeps.dname name s holds
  | cstr str => exact keeps.write _ _ (keeps.write _ _ holds)

theorem fieldsEncode_kept (start : Nat) {P : EncodeSt → Prop} (keeps : WriteKeeps P) (fields : List Field) (holds : P s) :
    P (fieldsEncode start fields s).2 := by
  induction fields generalizing s with
  | nil => exact holds
  | cons field fields ih => exact ih (fieldEncode_kept keeps field holds)

theorem fieldEncode_putAt (v : Byte) (field : Field) (ahead : Ahead p s) :
    fieldEncode start (s.putAt p v) field =
      ((fieldEncode start s field).1, (fieldEncode start s field).2.putAt p v) := by
  cases field with
  | num n w =>
    unfold fieldEncode
    dsimp only [EncodeSt.putAt]
    rw [Mbuf.putAt_writeMem ahead.front ahead.start]
  | name comp name =>
    unfold fieldEncode
    dsimp only
    rw [dnameEncode_putAt v name ahead]
  | cstr str =>
    have next := ahead_kept.write _ [.ofNat 8 str.length] ahead
    unfold fieldEncode cstrEncode
    dsimp only [EncodeSt.putAt]
    rw [ahead.char]
    exact congrArg (fun mb => (false, EncodeSt.mk mb s.ht)) (Mbuf.putAt_writeMem next.front next.start v _)

theorem fieldsEncode_putAt (v : Byte) (fields : List Field) (ahead : Ahead p s) :
    fieldsEncode start fields (s.putAt p v) =
      ((fieldsEncode start fields s).1, (fieldsEncode start fields s).2.putAt p v) := by
  induction fields generalizing s with
  | nil => rfl
  | cons field fields ih =>
    unfold fieldsEncode
    rw [fieldEncode_putAt v field ahead]
    dsimp only
    rw [ih (fieldEncode_kept ahead_kept field ahead)]

end

/-- How many bytes a character string may have. -/
def CSTR_MAX : Nat := 255

/-- A value in the range of its field. -/
def Field.InRange : Field → Prop
  | .num n v => v < 256 ^ n
  | .name _ text => Representable text ∧ text.length ≤ NAME_MAX ∧ 0 ∉ text
  | .cstr str => str.length ≤ CSTR_MAX ∧ 0 ∉ str

/-- How many bytes a field takes at most. -/
def Field.most : Field → Nat
  | .num n _ => n
  | .name _ text => text.length + 2
  | .cstr str => str.length + 1

def most : List Field → Nat
  | [] => 0
  | field :: fields => field.most + most fields

/-- From the first position to the last one the bytes hold the fields. -/
inductive FieldsAt (bytes : List Byte) (start : Nat) : Nat → List Field → Nat → Prop
  | done {pos : Nat} : FieldsAt bytes start pos [] pos
  | num {pos n v last : Nat} {fields : List Field} (written : putBe n v <+: bytes.drop pos)
      (others : FieldsAt bytes start (pos + n) fields last) : FieldsAt bytes start pos (.num n v :: fields) last
  | name {pos hops next last : Nat} {comp : Bool} {name : List Byte} {fields : List Field}
      (few : hops ≤ (wireLabels name).length + 1) (spells : Spells bytes start pos (wireLabels name) hops next)
      (others : FieldsAt bytes start next fields last) : FieldsAt bytes start pos (.name comp name :: fields) last
  | cstr {pos last : Nat} {str : List Byte} {fields : List Field} (written : labelBytes str <+: bytes.drop pos)
      (others : FieldsAt bytes start (pos + 1 + str.length) fields last) :
      FieldsAt bytes start pos (.cstr str :: fields) last

section
variable {start pos last : Nat} {comp : Bool} {s : EncodeSt} {bytes more name : List Byte} {field : Field}
  {fields fields' : List Field}

theorem encodeLoop_pos_bound (name : List Byte) (pos : Nat) (s : EncodeSt) :
    (encodeLoop start comp name pos s).2.mb.pos ≤ s.mb.pos + name.length + 1 := by
  induction name generalizing pos s with
  | nil =>
    unfold encodeLoop
    dsimp only
    split
    · exact Nat.le_succ _
    · exact Nat.le_refl _
  | cons c name ih =>
    unfold encodeLoop
    dsimp only
    rw [List.length_cons]
    split
    · split
      · dsimp only
        omega
      · split
        · split
          · show s.mb.pos + (putBe 2 _).length ≤ _
            rw [putBe_length]
            omega
          · refine Nat.le_trans (ih _ _) ?_
            show s.mb.pos + 1 + name.length + 1 ≤ _
            omega
        · refine Nat.le_trans (ih _ _) ?_
          show s.mb.pos + 1 + name.length + 1 ≤ _
          omega
    · refine Nat.le_trans (ih _ _) ?_
      show s.mb.pos + 1 + name.length + 1 ≤ _
      omega

theorem encodeLabels_pos_bound (name : List Byte) (s : EncodeSt) :
    (encodeLabels start comp name s).2.mb.pos ≤ s.mb.pos + name.length + 2 := by
  unfold encodeLabels
  dsimp only
  split
  · show s.mb.pos + 1 ≤ _
    omega
  · refine Nat.le_trans (encodeLoop_pos_bound _ _ _) ?_
    show s.mb.pos + 1 + name.length + 1 ≤ _
    omega

theorem dnameEncode_pos_bound (name : List Byte) (s : EncodeSt) :
    (dnameEncode start comp name s).2.mb.pos ≤ s.mb.pos + name.length + 2 := by
  unfold dnameEncode
  split
  · split
    · show s.mb.pos + (putBe 2 _).length ≤ _
      rw [putBe_length]
      omega
    · exact encodeLabels_pos_bound name s
  · exact encodeLabels_pos_bound name _

theorem fieldsEncode_pos_bound (fields : List Field) (s : EncodeSt) :
    (fieldsEncode start fields s).2.mb.pos ≤ s.mb.pos + most fields := by
  induction fields generalizing s with
  | nil => exact Nat.le_refl _
  | cons field fields ih =>
    have first : (fieldEncode start s field).2.mb.pos ≤ s.mb.pos + field.most := by
      cases field with
      | num n v =>
        show s.mb.pos + (putBe n v).length ≤ _
        rw [putBe_length]
        exact Nat.le_refl _
      | name comp name => exact dnameEncode_pos_bound name s
      | cstr str =>
        show s.mb.pos + 1 + (str.take _).length ≤ s.mb.pos + (str.length + 1)
        rw [List.length_take]
        omega
    have others := ih (fieldEncode start s field).2
    unfold fieldsEncode most
    dsimp only
    omega

theorem FieldsAt.extend (at_ : FieldsAt bytes start pos fields last) (extends_ : bytes <+: more) :
    FieldsAt more start pos fields last := by
  induction at_ with
  | done => exact .done
  | num written _ ih => exact .num (prefix_drop extends_ written) ih
  | name few spells _ ih => exact .name few (spells.extend extends_) ih
  | cstr written _ ih => exact .cstr (prefix_drop extends_ written) ih

theorem FieldsAt.append {between : Nat} (at_ : FieldsAt bytes start pos fields between)
    (others : FieldsAt bytes start between fields' last) : FieldsAt bytes start pos (fields ++ fields') last := by
  induction at_ with
  | done => exact others
  | num written _ ih => exact .num written (ih others)
  | name few spells _ ih => exact .name few spells (ih others)
  | cstr written _ ih => exact .cstr written (ih others)

theorem Table.write (table : Table start s bytes) (data : List Byte) :
    Table start { s with mb := s.mb.writeMem data } (bytes ++ data) where
  written := table.written.write data
  from_ := Nat.le_trans table.from_ (List.prefix_append _ _).length_le
  noted := fun dn inside => (table.noted dn inside).extend (List.prefix_append _ _)

/-- A field in its range is written behind what has been written. -/
theorem fieldEncode_at (table : Table start s bytes) (inRange : field.InRange)
    (small : (fieldEncode start s field).2.mb.pos < sizeValues) :
    (fieldEncode start s field).1 = false ∧ ∃ bytes', Table start (fieldEncode start s field).2 bytes' ∧
      bytes <+: bytes' ∧ FieldsAt bytes' start bytes.length [field] bytes'.length := by
  cases field with
  | num n v =>
    refine ⟨rfl, bytes ++ putBe n v, table.write _, List.prefix_append _ _, .num (written_here _ _) ?_⟩
    rw [List.length_append, putBe_length]
    exact .done
  | name comp name =>
    obtain ⟨ok, bytes', hops, next, kept, few, spells⟩ := dnameEncode_names table inRange.1 small
    refine ⟨?_, bytes', next, kept, .name few spells .done⟩
    show (dnameEncode start comp name s).1.isSome = false
    rw [ok]
    rfl
  | cstr str =>
    have short : str.length ≤ 255 := inRange.1
    have len : (BitVec.ofNat 8 str.length).toNat = str.length := by
      rw [BitVec.toNat_ofNat]
      omega
    have whole : cstrEncode s.mb str = (s.mb.writeU8 (.ofNat 8 str.length)).writeMem str := by
      unfold cstrEncode
      dsimp only
      rw [len, List.take_length]
    have next := (table.write [.ofNat 8 str.length]).write str
    rw [List.append_assoc] at next
    refine ⟨rfl, bytes ++ labelBytes str, ?_, List.prefix_append _ _, .cstr (written_here _ _) ?_⟩
    · show Table start { s with mb := cstrEncode s.mb str } _
      rw [whole]
      exact next
    · rw [List.length_append, labelBytes, List.length_cons, Nat.add_comm str.length 1, ← Nat.add_assoc]
      exact .done

theorem fieldsEncode_at (table : Table start s bytes) (inRange : ∀ field ∈ fields, field.InRange)
    (small : (fieldsEncode start fields s).2.mb.pos < sizeValues) :
    (fieldsEncode start fields s).1 = false ∧ ∃ bytes', Table start (fieldsEncode start fields s).2 bytes' ∧
      bytes <+: bytes' ∧ FieldsAt bytes' start bytes.length fields bytes'.length := by
  induction fields generalizing s bytes with
  | nil => exact ⟨rfl, bytes, table, List.prefix_rfl, .done⟩
  | cons field fields ih =>
    rw [List.forall_mem_cons] at inRange
    have here : (fieldEncode start s field).2.mb.pos < sizeValues := by
      have before := fieldsEncode_kept start (pos_kept (fieldEncode start s field).2.mb.pos) fields
        (Nat.le_refl (fieldEncode start s field).2.mb.pos)
      exact Nat.lt_of_le_of_lt before small
    obtain ⟨ok, bytes', next, kept, first⟩ := fieldEncode_at table inRange.1 here
    obtain ⟨ok', bytes'', last, kept', others⟩ := ih next inRange.2 small
    refine ⟨?_, bytes'', last, kept.trans kept', (first.extend kept').append others⟩
    unfold fieldsEncode
    dsimp only
    rw [ok, ok']
    rfl

end

/-- How many bytes a field takes at least. -/
def Field.least : Field → Nat
  | .num n _ => n
  | .name .. => 1
  | .cstr _ => 1

def least : List Field → Nat
  | [] => 0
  | field :: fields => field.least + least fields

/-- The steps read the fields, and their checks pass. -/
inductive Reads (rdlen : Nat) : List Step → List Field → Prop
  | done : Reads rdlen [] []
  | rdlen {n : Nat} {steps : List Step} {fields : List Field} (same : rdlen = n) (reads : Reads rdlen steps fields) :
      Reads rdlen (.rdlen n :: steps) fields
  | left {n : Nat} {steps : List Step} {fields : List Field} (enough : n ≤ least fields)
      (reads : Reads rdlen steps fields) : Reads rdlen (.left n :: steps) fields
  | num {n v : Nat} {steps : List Step} {fields : List Field} (reads : Reads rdlen steps fields) :
      Reads rdlen (.num n :: steps) (.num n v :: fields)
  | name {comp : Bool} {name : List Byte} {steps : List Step} {fields : List Field}
      (reads : Reads rdlen steps fields) : Reads rdlen (.name :: steps) (.name comp name :: fields)
  | cstr {str : List Byte} {steps : List Step} {fields : List Field} (reads : Reads rdlen steps fields) :
      Reads rdlen (.cstr :: steps) (.cstr str :: fields)

/-- What is read of a field. -/
inductive SameValue : Value → Field → Prop
  | num {n v : Nat} : SameValue (.num v) (.num n v)
  | name {comp : Bool} {text name : List Byte} (same : SameName text name) : SameValue (.text text) (.name comp name)
  | cstr {str : List Byte} : SameValue (.text str) (.cstr str)

section
variable {mb : Mbuf} {start pos last rdlen n v hops behind : Nat} {bytes name str : List Byte} {names : List (List Byte)}
  {fields : List Field} {steps : List Step}

theorem Spells.behind_gt (spells : Spells bytes start pos names hops behind) : pos < behind := by
  induction spells with
  | root => exact Nat.lt_succ_self _
  | label _ _ _ _ ih => omega
  | pointer => omega

theorem FieldsAt.least_le (at_ : FieldsAt bytes start pos fields last) : pos + least fields ≤ last := by
  induction at_ with
  | done => exact Nat.le_refl _
  | num _ _ ih =>
    unfold least Field.least
    dsimp only
    omega
  | name _ spells _ ih =>
    have more := spells.behind_gt
    unfold least Field.least
    dsimp only
    omega
  | cstr _ _ ih =>
    unfold least Field.least
    dsimp only
    omega

theorem setPos_left (mb : Mbuf) (pos : Nat) : (mb.setPos pos).left = (mb.buf.take mb.endPos).drop pos := by
  rw [List.drop_take]
  rfl

theorem setPos_getLeft (mb : Mbuf) (pos : Nat) : (mb.setPos pos).getLeft = mb.endPos - pos := rfl

theorem here_fits {piece : List Byte} (here : piece <+: (mb.buf.take mb.endPos).drop pos) :
    piece.length ≤ mb.endPos - pos := by
  have length := here.length_le
  rw [List.length_drop, List.length_take] at length
  omega

theorem here_take {piece : List Byte} (here : piece <+: (mb.buf.take mb.endPos).drop pos) :
    (mb.setPos pos).left.take piece.length = piece := by
  obtain ⟨behind, eq⟩ := here
  rw [setPos_left, ← eq, List.take_left]

theorem numDecode_at (fits : v < 256 ^ n) (here : putBe n v <+: (mb.buf.take mb.endPos).drop pos) :
    numDecode n (mb.setPos pos) = (v, mb.setPos (pos + n)) := by
  have enough := here_fits here
  have bytes := here_take here
  rw [putBe_length] at enough bytes
  unfold numDecode
  rw [setPos_getLeft, if_pos enough, bytes, getBe_putBe, Nat.mod_eq_of_lt fits]
  rfl

theorem cstrDecode_at (short : str.length ≤ CSTR_MAX) (plain : 0 ∉ str)
    (here : labelBytes str <+: (mb.buf.take mb.endPos).drop pos) :
    cstrDecode (mb.setPos pos) = .ok (str, mb.setPos (pos + 1 + str.length)) := by
  unfold CSTR_MAX at short
  have length := here_fits here
  rw [labelBytes, List.length_cons] at length
  have first : putBe 1 str.length <+: (mb.buf.take mb.endPos).drop pos :=
    (List.prefix_append [BitVec.ofNat 8 str.length] str).trans here
  have behind := (drop_head here).2
  have whole := here_take behind
  have text : str.takeWhile (· != 0) = str := by
    rw [← List.append_nil str, List.takeWhile_append_of_pos]
    · rfl
    · intro c inside
      exact bne_iff_ne.mpr fun zero => plain (zero ▸ inside)
  unfold cstrDecode
  rw [setPos_getLeft, if_neg (by omega), numDecode_at (by omega) first]
  dsimp only
  rw [setPos_getLeft, if_neg (by omega), whole, text]
  rfl

theorem nameDecode_at (inside : mb.endPos ≤ mb.buf.length) (small : mb.endPos ≤ sizeValues)
    (representable : Representable name) (fits : name.length ≤ NAME_MAX) (plain : 0 ∉ name)
    (few : hops ≤ (wireLabels name).length + 1)
    (spells : Spells (mb.buf.take mb.endPos) start pos (wireLabels name) hops behind) :
    ∃ text, nameDecode start (mb.setPos pos) = .ok (text, mb.setPos behind) ∧ SameName text name := by
  obtain ⟨text, decodes, same⟩ := @Spells.decodes_name start hops behind name (mb.setPos pos) spells inside small
    representable few fits plain
  have inside' : (mb.setPos pos).endPos ≤ (mb.setPos pos).buf.length := inside
  exact ⟨text, nameDecode_of inside' decodes, same⟩

/-- What the bytes hold is read by the steps for it. -/
theorem stepsDecode_at (inside : mb.endPos ≤ mb.buf.length) (small : mb.endPos ≤ sizeValues)
    (reads : Reads rdlen steps fields) (inRange : ∀ field ∈ fields, field.InRange)
    (at_ : FieldsAt (mb.buf.take mb.endPos) start pos fields last) (ends : last ≤ mb.endPos) :
    ∃ values, stepsDecode start rdlen steps (mb.setPos pos) = .ok (values, mb.setPos last) ∧
      List.Forall₂ SameValue values fields := by
  induction reads generalizing pos with
  | done =>
    cases at_
    exact ⟨[], rfl, .nil⟩
  | rdlen same _ ih =>
    obtain ⟨values, result, all⟩ := ih inRange at_
    refine ⟨values, ?_, all⟩
    unfold stepsDecode
    rw [if_neg (not_not.mpr same), result]
  | left enough _ ih =>
    obtain ⟨values, result, all⟩ := ih inRange at_
    have most := at_.least_le
    refine ⟨values, ?_, all⟩
    unfold stepsDecode
    rw [setPos_getLeft, if_neg (by omega), result]
  | num _ ih =>
    rw [List.forall_mem_cons] at inRange
    cases at_ with
    | num written others =>
      obtain ⟨values, result, all⟩ := ih inRange.2 others
      refine ⟨_, ?_, .cons .num all⟩
      unfold stepsDecode
      rw [numDecode_at inRange.1 written]
      dsimp only
      rw [result]
  | name _ ih =>
    rw [List.forall_mem_cons] at inRange
    cases at_ with
    | name few spells others =>
      obtain ⟨values, result, all⟩ := ih inRange.2 others
      obtain ⟨representable, fits, plain⟩ := inRange.1
      obtain ⟨text, decoded, same⟩ := nameDecode_at inside small representable fits plain few spells
      refine ⟨_, ?_, .cons (.name same) all⟩
      unfold stepsDecode
      rw [decoded]
      dsimp only
      rw [result]
  | cstr _ ih =>
    rw [List.forall_mem_cons] at inRange
    cases at_ with
    | cstr written others =>
      obtain ⟨values, result, all⟩ := ih inRange.2 others
      refine ⟨_, ?_, .cons .cstr all⟩
      unfold stepsDecode
      rw [cstrDecode_at inRange.1.1 inRange.1.2 written]
      dsimp only
      rw [result]

end

end Baresip.Dns
