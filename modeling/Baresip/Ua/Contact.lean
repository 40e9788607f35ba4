import Baresip.Re.Uri
import Baresip.Re.SdpSession
import Mathlib.Data.List.Induction

set_option linter.dupNamespace false

namespace Baresip.Ua

open Re

structure Contact where
  buf : List Byte
  addr : SipAddr
  deriving DecidableEq, Repr

def contactAdd (addr : List Byte) : Except Errno Contact :=
  (sipAddrDecode ⟨0, cstr addr⟩).map fun decoded => ⟨cstr addr, decoded⟩

/-- The contacts of the addresses that can be decoded. -/
def contactList (addrs : List (List Byte)) : List Contact := addrs.filterMap fun addr => (contactAdd addr).toOption

/-- Whether the bytes agree, and how many are read of each. -/
def strncasecmp : Nat → List Byte → List Byte → Bool × Nat
  | n + 1, a :: p1, b :: p2 =>
    if tolower a ≠ tolower b then (false, 1)
    else if a = 0 then (true, 1)
    else ((strncasecmp n p1 p2).1, (strncasecmp n p1 p2).2 + 1)
  | _, _, _ => (true, 0)

/-- The comparison of two pointers that differ. -/
def plCasecmp (l1 : Nat) (p1 : List Byte) (l2 : Nat) (p2 : List Byte) : Bool × Nat :=
  if l1 ≠ l2 then (false, 0) else if l1 = 0 then (true, 0) else strncasecmp l1 p1 p2

/-- The comparison of the typed text with a field. Its pointer is taken, and its length is that of the text. -/
def fieldCasecmp (pl : List Byte) (c : Contact) (field : Pl) : Bool × Nat :=
  plCasecmp pl.length (c.buf.drop field.off ++ [0]) pl.length (pl ++ [0])

/-- Whether a field that is there matches, and how many bytes of it are read. -/
def matchField (pl : List Byte) (c : Contact) : Option Pl → Bool × List (Pl × Nat)
  | none => (false, [])
  | some field => ((fieldCasecmp pl c field).1, [(field, (fieldCasecmp pl c field).2)])

def contactMatch (pl : List Byte) (c : Contact) : Bool × List (Pl × Nat) :=
  let dname := matchField pl c c.addr.dname
  if dname.1 then dname
  else
    let user := matchField pl c c.addr.uri.user
    (user.1, dname.2 ++ user.2)

/-- The contacts that are printed, and the one that stays. -/
structure ContactCmd where
  printed : List Contact
  cnt : Option Contact
  reads : List (Pl × Nat)
  deriving DecidableEq, Repr

def contactStep (pl : List Byte) (cmd : ContactCmd) (c : Contact) : ContactCmd :=
  let (matched, reads) := contactMatch pl c
  if matched then ⟨cmd.printed ++ [c], some c, cmd.reads ++ reads⟩ else { cmd with reads := cmd.reads ++ reads }

inductive ContactUse
  | connect (uri : List Byte)
  | chatPeer (uri : List Byte)
  deriving DecidableEq, Repr

/-- The commands of this handler have a parameter, so there is a text. -/
def cmdContact (cl : List Contact) (key : Byte) (prm : List Byte) (complete : Bool) : ContactCmd × Option ContactUse :=
  let cmd := cl.foldl (contactStep (cstr prm)) ⟨[], none, []⟩
  let used := cmd.cnt.bind fun cnt =>
    if complete = false then none
    else if key = chr '/' then some (.connect cnt.buf)
    else if key = chr '=' then some (.chatPeer cnt.buf)
    else none
  (cmd, used)

/-- The beginning of a text, regardless of case. -/
def CasePrefix (text field : List Byte) : Prop := text.map tolower <+: field.map tolower

instance (text field : List Byte) : Decidable (CasePrefix text field) :=
  inferInstanceAs (Decidable (text.map tolower <+: field.map tolower))

/-- The text goes on behind the whole field. -/
def Outruns (text field : List Byte) : Prop := CasePrefix field text ∧ field.length < text.length

instance (text field : List Byte) : Decidable (Outruns text field) := inferInstanceAs (Decidable (_ ∧ _))

def Contact.Named (c : Contact) (text : List Byte) : Prop :=
  (∃ dname ∈ c.addr.dname, CasePrefix text dname.val) ∨ ∃ user ∈ c.addr.uri.user, CasePrefix text user.val

instance (c : Contact) (text : List Byte) : Decidable (c.Named text) := inferInstanceAs (Decidable (_ ∨ _))

/-- The contacts that are found are those whose name or user begins with the text, the last of them is the one that is
    used, and the names and users are read inside. -/
structure FindsNamed (cl : List Contact) (text : List Byte) (cmd : ContactCmd) : Prop where
  found : cmd.printed = cl.filter fun c => c.Named text
  last : cmd.cnt = cmd.printed.getLast?
  inside : ∀ read ∈ cmd.reads, read.2 ≤ read.1.val.length

/-- The text does not go on behind a whole name, nor behind a whole user where the name does not match. -/
def Contact.Holds (c : Contact) (text : List Byte) : Prop :=
  (∀ dname ∈ c.addr.dname, ¬ Outruns text dname.val) ∧
    ((∃ dname ∈ c.addr.dname, CasePrefix text dname.val) ∨ ∀ user ∈ c.addr.uri.user, ¬ Outruns text user.val)

/-- A slice is the bytes of the buffer at its place. -/
def LiesAt (buf : List Byte) (pl : Pl) : Prop := pl.val <+: buf.drop pl.off

theorem LiesAt.cut (buf : List Byte) : Regex.Cut (LiesAt buf) where
  take whole := (List.take_prefix _ _).trans whole
  drop {off n p} room whole := by
    obtain ⟨behind, split⟩ := whole
    refine ⟨behind, ?_⟩
    rw [← List.drop_drop, ← split, List.drop_append_of_le_length room]

/-- The comparison ends in the field unless the text goes on behind it, and then it tells whether the field begins with the
    text. -/
theorem strncasecmp_spec {text field tail : List Byte} (plain : 0 ∉ text) (plain' : 0 ∉ field) (ends : tail ≠ []) :
    ((strncasecmp text.length (field ++ tail) (text ++ [0])).2 ≤ field.length ↔ ¬ Outruns text field) ∧
      (¬ Outruns text field →
        ((strncasecmp text.length (field ++ tail) (text ++ [0])).1 = true ↔ CasePrefix text field)) := by
  induction field generalizing text with
  | nil =>
    cases text with
    | nil => simp [strncasecmp, Outruns, CasePrefix]
    | cons b text =>
      obtain ⟨a, tail, rfl⟩ := List.exists_cons_of_ne_nil ends
      have runs : Outruns (b :: text) [] := ⟨List.nil_prefix, Nat.succ_pos _⟩
      have read : 0 < (strncasecmp (b :: text).length ([] ++ a :: tail) (b :: text ++ [0])).2 := by
        rw [List.length_cons, List.nil_append, List.cons_append, strncasecmp]
        split_ifs <;> simp
      exact ⟨iff_of_false (Nat.not_le.mpr read) (not_not.mpr runs), fun inside => absurd runs inside⟩
  | cons a field ih =>
    cases text with
    | nil => simp [strncasecmp, Outruns, CasePrefix]
    | cons b text =>
      rw [List.mem_cons, not_or] at plain plain'
      have behind := ih plain.2 plain'.2
      rw [List.length_cons, List.cons_append, List.cons_append, strncasecmp]
      by_cases same : tolower a = tolower b
      · rw [if_neg (not_not.mpr same), if_neg (Ne.symm plain'.1)]
        simpa [Outruns, CasePrefix, List.cons_prefix_cons, same] using behind
      · rw [if_pos same]
        simp [Outruns, CasePrefix, List.cons_prefix_cons, same, Ne.symm same]

/-- The slices of a contact are in its buffer, where no byte is zero. -/
structure Contact.Valid (c : Contact) : Prop where
  plain : 0 ∉ c.buf
  dname : ∀ dname ∈ c.addr.dname, LiesAt c.buf dname
  user : ∀ user ∈ c.addr.uri.user, LiesAt c.buf user

theorem cstr_plain (text : List Byte) : 0 ∉ cstr text := by
  intro member
  have := List.mem_takeWhile_imp member
  simp at this

theorem contactAdd_valid {addr : List Byte} {c : Contact} (added : contactAdd addr = .ok c) : c.Valid := by
  obtain ⟨decoded, at_, rfl⟩ := map_ok added
  have whole : LiesAt (cstr addr) ⟨0, cstr addr⟩ := List.prefix_refl (cstr addr)
  obtain ⟨slices, dname⟩ := sipAddrDecode_holds (LiesAt.cut (cstr addr)) whole at_
  refine ⟨cstr_plain addr, dname, fun user member => slices user ?_⟩
  have inUser : user ∈ decoded.uri.user.toList := Option.mem_toList.mpr member
  simp [Uri.slices, inUser]

theorem contactList_valid {addrs : List (List Byte)} {c : Contact} (member : c ∈ contactList addrs) : c.Valid := by
  obtain ⟨addr, -, added⟩ := List.mem_filterMap.mp member
  exact contactAdd_valid (by cases found : contactAdd addr <;> simp_all [Except.toOption])

theorem fieldCasecmp_spec {text : List Byte} {c : Contact} {field : Pl} (plain : 0 ∉ text) (buf : 0 ∉ c.buf)
    (lies : LiesAt c.buf field) :
    ((fieldCasecmp text c field).2 ≤ field.val.length ↔ ¬ Outruns text field.val) ∧
      (¬ Outruns text field.val → ((fieldCasecmp text c field).1 = true ↔ CasePrefix text field.val)) := by
  obtain ⟨behind, split⟩ := lies
  have plain' : 0 ∉ field.val := by
    intro member
    have inBuf : (0 : Byte) ∈ c.buf.drop field.off := split ▸ List.mem_append_left behind member
    exact buf (List.mem_of_mem_drop inBuf)
  have memory : c.buf.drop field.off ++ [0] = field.val ++ (behind ++ [0]) := by
    rw [← split, List.append_assoc]
  have spec := strncasecmp_spec plain plain' (List.append_ne_nil_of_right_ne_nil behind (List.cons_ne_nil 0 []))
  cases text with
  | nil => simp [fieldCasecmp, plCasecmp, Outruns, CasePrefix]
  | cons b text =>
    rw [fieldCasecmp, plCasecmp, if_neg (by simp), if_neg (by simp), memory]
    exact spec

theorem matchField_spec {text : List Byte} {c : Contact} {field : Option Pl} (plain : 0 ∉ text) (buf : 0 ∉ c.buf)
    (lies : ∀ pl ∈ field, LiesAt c.buf pl) :
    ((∀ read ∈ (matchField text c field).2, read.2 ≤ read.1.val.length) ↔ ∀ pl ∈ field, ¬ Outruns text pl.val) ∧
      ((∀ pl ∈ field, ¬ Outruns text pl.val) →
        ((matchField text c field).1 = true ↔ ∃ pl ∈ field, CasePrefix text pl.val)) := by
  cases field with
  | none => simp [matchField]
  | some pl => simpa [matchField] using fieldCasecmp_spec plain buf (lies pl rfl)

theorem contactMatch_spec {text : List Byte} {c : Contact} (plain : 0 ∉ text) (valid : c.Valid) :
    ((∀ read ∈ (contactMatch text c).2, read.2 ≤ read.1.val.length) ↔ c.Holds text) ∧
      (c.Holds text → ((contactMatch text c).1 = true ↔ c.Named text)) := by
  obtain ⟨dInside, dSame⟩ := matchField_spec plain valid.plain valid.dname
  obtain ⟨uInside, uSame⟩ := matchField_spec plain valid.plain valid.user
  unfold contactMatch Contact.Holds Contact.Named
  dsimp only
  by_cases same : (matchField text c c.addr.dname).1 = true
  · rw [if_pos same, dInside]
    constructor
    · exact ⟨fun short => ⟨short, .inl ((dSame short).mp same)⟩, And.left⟩
    · exact fun ⟨short, _⟩ => iff_of_true same (.inl ((dSame short).mp same))
  · rw [if_neg same]
    simp only [List.mem_append, or_imp, forall_and, dInside, uInside]
    constructor
    · refine and_congr_right fun short => ?_
      rw [← dSame short, or_iff_right same]
    · rintro ⟨short, either⟩
      rw [← dSame short] at either ⊢
      rw [or_iff_right same] at either ⊢
      exact uSame either

theorem contactStep_run (text : List Byte) (cl : List Contact) :
    cl.foldl (contactStep text) ⟨[], none, []⟩ =
      ⟨cl.filter fun c => (contactMatch text c).1, (cl.filter fun c => (contactMatch text c).1).getLast?,
        cl.flatMap fun c => (contactMatch text c).2⟩ := by
  induction cl using List.reverseRecOn with
  | nil => rfl
  | append_singleton cl c ih =>
    rw [List.foldl_append, ih]
    cases matched : (contactMatch text c).1 <;> simp [contactStep, matched, List.filter_append]

/-- The contacts are found as they should be where the text does not outrun the fields that it is compared with. -/
theorem findsNamed_iff (addrs : List (List Byte)) (key : Byte) (prm : List Byte) (complete : Bool) :
    FindsNamed (contactList addrs) (cstr prm) (cmdContact (contactList addrs) key prm complete).1 ↔
      ∀ c ∈ contactList addrs, c.Holds (cstr prm) := by
  have each {c : Contact} (member : c ∈ contactList addrs) :=
    contactMatch_spec (cstr_plain prm) (contactList_valid member)
  have run : (cmdContact (contactList addrs) key prm complete).1 = _ := contactStep_run (cstr prm) (contactList addrs)
  rw [run]
  constructor
  · intro finds c member
    exact (each member).1.mp fun read inRead => finds.inside read (List.mem_flatMap.mpr ⟨c, member, inRead⟩)
  · intro holds
    refine ⟨?_, rfl, ?_⟩
    · apply List.filter_congr
      intro c member
      have same := (each member).2 (holds c member)
      rw [Bool.eq_iff_iff, same, decide_eq_true_iff]
    · intro read inReads
      obtain ⟨c, member, inRead⟩ := List.mem_flatMap.mp inReads
      exact (each member).1.mpr (holds c member) read inRead

/-- The text goes on behind the user, and this contact is called. -/
theorem outrun_called :
    (cmdContact (contactList [ascii "\"Jo\" <sip:jo@b>"]) (chr '/') (ascii "jo@b") true).2 =
        some (.connect (ascii "\"Jo\" <sip:jo@b>")) ∧
      ∀ c ∈ contactList [ascii "\"Jo\" <sip:jo@b>"], ¬ c.Named (ascii "jo@b") := by
  rw [ascii_ofList, ascii_ofList]
  decide +kernel

end Baresip.Ua
