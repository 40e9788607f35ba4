import Baresip.Dns.Dname

set_option linter.dupNamespace false

namespace Baresip.Dns

open Re Library

variable {mb : Mbuf} {start pos : Nat} {s : DnameSt} {label text : List Byte}

theorem readAt_inside (inside : mb.endPos ≤ mb.buf.length) (here : pos < mb.endPos) :
    ∃ c, readAt mb pos = some c ∧ mb.buf[pos]? = some c := by
  have within : pos < mb.buf.length := by omega
  refine ⟨mb.buf[pos], ?_, List.getElem?_eq_getElem within⟩
  rw [readAt, if_pos here, List.getElem?_eq_getElem within]

theorem readAt_some {c : Byte} (read : readAt mb pos = some c) : pos < mb.endPos := by
  unfold readAt at read
  split at read
  · assumption
  · contradiction

/-- A label is copied byte by byte. -/
theorem copyLabel_ok (inside : mb.endPos ≤ mb.buf.length) {len : Nat} {buf : List Byte}
    (whole : pos + len ≤ mb.endPos) (fits : buf.length + len ≤ bufSize) :
    copyLabel mb len pos buf = .ok (buf ++ (mb.buf.drop pos).take len) := by
  induction len generalizing pos buf with
  | zero => simp [copyLabel]
  | succ len ih =>
    obtain ⟨c, read, there⟩ := readAt_inside inside (show pos < mb.endPos by omega)
    have room : buf.length < bufSize := by omega
    have bytes : (mb.buf.drop pos).take (len + 1) = c :: (mb.buf.drop (pos + 1)).take len := by
      obtain ⟨within, rfl⟩ := List.getElem?_eq_some_iff.mp there
      rw [List.drop_eq_getElem_cons within, List.take_succ_cons]
    have put : putChar buf c = .ok (buf ++ [c]) := if_pos room
    rw [copyLabel, read]
    simp only [put]
    rw [ih (by omega) (by simp only [List.length_append, List.length_singleton]; omega), bytes,
      List.append_assoc, List.singleton_append]

structure LabelAt (mb : Mbuf) (pos : Nat) (label : List Byte) (len : Byte) : Prop where
  read : readAt mb pos = some len
  some_ : len ≠ 0
  plain : ¬ len &&& COMP_MASK = COMP_MASK
  whole : ¬ len.toNat > mb.endPos - (pos + 1)
  bytes : label = (mb.buf.drop (pos + 1)).take len.toNat
  length : label.length = len.toNat

theorem labelAt_some (inside : mb.endPos ≤ mb.buf.length) (found : labelAt mb pos = some label) :
    ∃ len, LabelAt mb pos label len := by
  unfold labelAt at found
  split at found
  · contradiction
  · rename_i len read
    split at found
    · contradiction
    · rename_i valid
      rw [not_or, not_or] at valid
      obtain ⟨some_, plain, whole⟩ := valid
      have here := readAt_some read
      obtain rfl := Option.some.inj found
      refine ⟨len, read, some_, plain, whole, rfl, ?_⟩
      rw [List.length_take, List.length_drop]
      omega

theorem LabelAt.pos_lt {len : Byte} (found : LabelAt mb pos label len) : pos < mb.endPos := readAt_some found.read

theorem LabelAt.length_pos {len : Byte} (found : LabelAt mb pos label len) : 0 < len.toNat := by
  have nonzero : len.toNat ≠ 0 := fun zero => found.some_ (BitVec.eq_of_toNat_eq zero)
  omega

theorem plain_small {len : Byte} (plain : ¬ len &&& COMP_MASK = COMP_MASK) : len.toNat < 192 := by
  revert len
  decide +kernel

theorem joined_length (text label : List Byte) :
    (joined text label).length = text.length + (if text.length > 0 then 1 else 0) + label.length := by
  unfold joined
  split
  · simp only [List.length_append, List.length_cons]
    omega
  · omega

theorem putLabel_ok (inside : mb.endPos ≤ mb.buf.length) {len : Byte} (found : LabelAt mb pos label len)
    (fits : (joined text label).length ≤ bufSize - 1) :
    putLabel mb len.toNat (pos + 1) text = .ok (joined text label) := by
  have here := found.pos_lt
  have whole := found.whole
  have length := found.length
  rw [joined_length] at fits
  simp only [bufSize] at fits
  unfold putLabel joined
  split
  · rename_i some_
    rw [if_pos some_] at fits
    have put : putChar text 0x2e = .ok (text ++ [0x2e]) := if_pos (by simp only [bufSize]; omega)
    simp only [put]
    rw [copyLabel_ok inside (by omega) (by
      simp only [List.length_append, List.length_singleton, bufSize]
      omega), found.bytes, List.append_assoc, List.singleton_append]
  · rename_i none_
    rw [if_neg none_] at fits
    obtain rfl : text = [] := List.length_eq_zero_iff.mp (by omega)
    rw [copyLabel_ok inside (by omega) (by simp only [List.length_nil, bufSize]; omega), found.bytes]
    rfl

theorem dnameBody_label (inside : mb.endPos ≤ mb.buf.length) (found : labelAt mb s.pos = some label)
    (fits : (joined s.buf label).length ≤ bufSize - 1) :
    dnameBody mb start s = .inl ⟨s.pos + 1 + label.length, joined s.buf label, s.loopc, s.comp⟩ := by
  obtain ⟨len, at_⟩ := labelAt_some inside found
  have put := putLabel_ok inside at_ fits
  have length := at_.length
  have small := plain_small at_.plain
  have bound := fits
  rw [joined_length] at bound
  simp only [bufSize] at bound
  have room : ¬ len.toNat > (bufSize + sizeValues - (s.buf.length + 2)) % sizeValues := by
    simp only [bufSize, sizeValues]
    split at bound <;> omega
  unfold dnameBody
  rw [if_pos at_.pos_lt, at_.read]
  simp only [if_neg at_.some_, if_neg at_.plain, if_neg at_.whole, if_neg room, put, length]

/-- With one byte left the size check wraps round, and the label is written across the end of the buffer. -/
theorem dnameBody_overrun (inside : mb.endPos ≤ mb.buf.length) (found : labelAt mb s.pos = some label)
    (full : s.buf.length = bufSize - 1) : dnameBody mb start s = .inr .outsideWrite := by
  obtain ⟨len, at_⟩ := labelAt_some inside found
  have here := at_.pos_lt
  have whole := at_.whole
  have positive := at_.length_pos
  simp only [bufSize] at full
  have room : ¬ len.toNat > (bufSize + sizeValues - (s.buf.length + 2)) % sizeValues := by
    simp only [bufSize, sizeValues]
    omega
  have put : putLabel mb len.toNat (s.pos + 1) s.buf = .error .outsideWrite := by
    obtain ⟨more, eq⟩ : ∃ more, len.toNat = more + 1 := ⟨len.toNat - 1, by omega⟩
    have dot : putChar s.buf 0x2e = .ok (s.buf ++ [0x2e]) := if_pos (by simp only [bufSize]; omega)
    obtain ⟨c, read, -⟩ := readAt_inside inside (show s.pos + 1 < mb.endPos by omega)
    have beyond : putChar (s.buf ++ [0x2e]) c = .error .outsideWrite :=
      if_neg (by simp only [List.length_append, List.length_singleton, bufSize]; omega)
    unfold putLabel
    rw [if_pos (by omega)]
    simp only [dot, eq, copyLabel, read, beyond]
  unfold dnameBody
  rw [if_pos here, at_.read]
  simp only [if_neg at_.some_, if_neg at_.plain, if_neg whole, if_neg room, put]

theorem zero_plain : ¬ (0 : Byte) &&& COMP_MASK = COMP_MASK := by decide

theorem dnameBody_zero (start : Nat) (read : readAt mb s.pos = some 0) (fits : s.buf.length ≤ bufSize - 1) :
    ∃ name, dnameBody mb start s = .inr (.name name (s.comp.getD (s.pos + 1))) := by
  have put : putChar s.buf 0 = .ok (s.buf ++ [0]) := if_pos (by simp only [bufSize] at fits ⊢; omega)
  refine ⟨(s.buf ++ [0]).takeWhile (· != 0), ?_⟩
  unfold dnameBody
  rw [if_pos (readAt_some read), read]
  simp only [if_true, put]

/-- Where the position to go back to is taken: behind the pointer, or at it when it is cut off. -/
def behindPointer (mb : Mbuf) (pos : Nat) : Nat := if pos + 1 = mb.endPos then pos else pos + 2

theorem readNtohs_pos (inside : mb.endPos ≤ mb.buf.length) (here : pos < mb.endPos) :
    (readNtohs (mb.setPos pos)).2.pos = behindPointer mb pos := by
  have length : (mb.setPos pos).left.length = mb.endPos - pos := Mbuf.left_length inside
  unfold readNtohs behindPointer
  split
  · rename_i a b rest left
    rw [left, List.length_cons, List.length_cons] at length
    rw [if_neg (by omega)]
    rfl
  · rename_i short
    have cut : pos + 1 = mb.endPos := by
      by_contra more
      match left : (mb.setPos pos).left with
      | [] =>
        rw [left, List.length_nil] at length
        omega
      | [_] =>
        rw [left, List.length_singleton] at length
        omega
      | a :: b :: rest => exact short a b rest left
    rw [if_pos cut]
    rfl

theorem dnameBody_pointer (inside : mb.endPos ≤ mb.buf.length) {target : Nat}
    (leads : pointerAt mb start s.pos = some target) (few : s.loopc ≤ COMP_LOOP) :
    dnameBody mb start s =
      .inl ⟨target, s.buf, s.loopc + 1, some (s.comp.getD (behindPointer mb s.pos))⟩ := by
  unfold pointerAt at leads
  split at leads
  · contradiction
  · rename_i len read
    split at leads
    · rename_i pointer
      obtain rfl := Option.some.inj leads
      have some_ : len ≠ 0 := by
        rintro rfl
        exact zero_plain pointer
      have back := readNtohs_pos inside (readAt_some read)
      unfold dnameBody
      rw [if_pos (readAt_some read), read]
      simp only [if_neg some_, if_pos pointer, if_neg (Nat.not_lt.mpr few), Nat.add_sub_cancel, back]
    · contradiction

/-- What the body of the loop does. -/
inductive BodyDone (mb : Mbuf) (start : Nat) (s : DnameSt) : DnameSt ⊕ DnameEnd → Prop
  | einval (pos : Nat) : BodyDone mb start s (.inr (.einval pos))
  | name (name : List Byte) : readAt mb s.pos = some 0 →
      BodyDone mb start s (.inr (.name name (s.comp.getD (s.pos + 1))))
  | pointer (target : Nat) : pointerAt mb start s.pos = some target → s.loopc ≤ COMP_LOOP →
      BodyDone mb start s (.inl ⟨target, s.buf, s.loopc + 1, some (s.comp.getD (behindPointer mb s.pos))⟩)
  | label (label : List Byte) : labelAt mb s.pos = some label → (joined s.buf label).length ≤ bufSize - 1 →
      BodyDone mb start s (.inl ⟨s.pos + 1 + label.length, joined s.buf label, s.loopc, s.comp⟩)
  | overrun (label : List Byte) : labelAt mb s.pos = some label → s.buf.length = bufSize - 1 →
      BodyDone mb start s (.inr .outsideWrite)

theorem dnameBody_looping {len : Byte} (here : s.pos < mb.endPos) (read : readAt mb s.pos = some len) (zero : len ≠ 0)
    (pointer : len &&& COMP_MASK = COMP_MASK) (many : COMP_LOOP < s.loopc) :
    dnameBody mb start s = .inr (.einval (s.pos + 1)) := by
  unfold dnameBody
  rw [if_pos here, read]
  simp only [if_neg zero, if_pos pointer, if_pos many]

theorem dnameBody_short {len : Byte} (here : s.pos < mb.endPos) (read : readAt mb s.pos = some len) (zero : len ≠ 0)
    (plain : len &&& COMP_MASK ≠ COMP_MASK) (short : len.toNat > mb.endPos - (s.pos + 1)) :
    dnameBody mb start s = .inr (.einval (s.pos + 1)) := by
  unfold dnameBody
  rw [if_pos here, read]
  simp only [if_neg zero, if_neg plain, if_pos short]

theorem dnameBody_refused (inside : mb.endPos ≤ mb.buf.length) (fits : s.buf.length ≤ bufSize - 1) {label : List Byte}
    (found : labelAt mb s.pos = some label) (open_ : s.buf.length ≠ bufSize - 1)
    (room : ¬ (joined s.buf label).length ≤ bufSize - 1) : dnameBody mb start s = .inr (.einval (s.pos + 1)) := by
  obtain ⟨len, at_⟩ := labelAt_some inside found
  have length := at_.length
  have small := plain_small at_.plain
  rw [joined_length, length] at room
  have refused : len.toNat > (bufSize + sizeValues - (s.buf.length + 2)) % sizeValues := by
    simp only [bufSize, sizeValues] at room open_ fits ⊢
    split at room <;> omega
  unfold dnameBody
  rw [if_pos at_.pos_lt, at_.read]
  simp only [if_neg at_.some_, if_neg at_.plain, if_neg at_.whole, if_pos refused]

theorem dnameBody_done (start : Nat) (inside : mb.endPos ≤ mb.buf.length) (fits : s.buf.length ≤ bufSize - 1) :
    BodyDone mb start s (dnameBody mb start s) := by
  by_cases here : s.pos < mb.endPos
  case neg =>
    have ends : dnameBody mb start s = .inr (.einval s.pos) := by
      unfold dnameBody
      rw [if_neg here]
    rw [ends]
    exact .einval _
  obtain ⟨len, read, -⟩ := readAt_inside inside here
  by_cases zero : len = 0
  case pos =>
    obtain ⟨name, done⟩ := dnameBody_zero start (zero ▸ read) fits
    rw [done]
    exact .name name (zero ▸ read)
  by_cases pointer : len &&& COMP_MASK = COMP_MASK
  case pos =>
    by_cases few : s.loopc ≤ COMP_LOOP
    · have leads : ∃ target, pointerAt mb start s.pos = some target := by
        unfold pointerAt
        rw [read]
        simp only [if_pos pointer]
        exact ⟨_, rfl⟩
      obtain ⟨target, leads⟩ := leads
      rw [dnameBody_pointer inside leads few]
      exact .pointer target leads few
    · rw [dnameBody_looping here read zero pointer (Nat.not_le.mp few)]
      exact .einval _
  by_cases short : len.toNat > mb.endPos - (s.pos + 1)
  case pos =>
    rw [dnameBody_short here read zero pointer short]
    exact .einval _
  have found : labelAt mb s.pos = some ((mb.buf.drop (s.pos + 1)).take len.toNat) := by
    unfold labelAt
    rw [read]
    simp only [if_neg (not_or.mpr ⟨zero, not_or.mpr ⟨pointer, short⟩⟩)]
  by_cases full : s.buf.length = bufSize - 1
  · rw [dnameBody_overrun inside found full]
    exact .overrun _ found full
  · by_cases room : (joined s.buf ((mb.buf.drop (s.pos + 1)).take len.toNat)).length ≤ bufSize - 1
    · rw [dnameBody_label inside found room]
      exact .label _ found room
    · rw [dnameBody_refused inside fits found full room]
      exact .einval _

/-- What is kept from one round of the loop to the next. -/
structure Decoding (mb : Mbuf) (start : Nat) (s : DnameSt) (first : Option Nat) : Prop where
  leads : Leads mb start s.buf s.loopc first s.pos
  fits : s.buf.length ≤ bufSize - 1
  few : s.loopc ≤ COMP_LOOP + 1
  comp : s.comp = first.map (behindPointer mb)

theorem dnameInit_decoding (mb : Mbuf) (start : Nat) : Decoding mb start (dnameInit mb) none :=
  ⟨.here, Nat.zero_le _, Nat.zero_le _, rfl⟩

theorem Decoding.next (inside : mb.endPos ≤ mb.buf.length) {first : Option Nat} (decoding : Decoding mb start s first)
    {next : DnameSt} (goes : dnameBody mb start s = .inl next) : ∃ first', Decoding mb start next first' := by
  have done := dnameBody_done start inside decoding.fits
  rw [goes] at done
  cases done with
  | pointer target leads few =>
    refine ⟨some (first.getD s.pos), decoding.leads.pointer leads, decoding.fits, by simp only; omega, ?_⟩
    rw [decoding.comp]
    cases first <;> rfl
  | label label found fits =>
    exact ⟨first, decoding.leads.label found, fits, decoding.few, decoding.comp⟩

/-- A label moves on in the packet, a pointer uses up one of those that may be followed. -/
def rank (mb : Mbuf) (s : DnameSt) : Nat := (COMP_LOOP + 1 - s.loopc) * (mb.endPos + 1) + (mb.endPos - s.pos)

theorem rank_next (inside : mb.endPos ≤ mb.buf.length) (fits : s.buf.length ≤ bufSize - 1) {next : DnameSt}
    (goes : dnameBody mb start s = .inl next) : rank mb next < rank mb s := by
  have done := dnameBody_done start inside fits
  rw [goes] at done
  cases done with
  | pointer target leads few =>
    have used : COMP_LOOP + 1 - s.loopc = (COMP_LOOP + 1 - (s.loopc + 1)) + 1 := by omega
    simp only [rank]
    rw [used, Nat.succ_mul]
    omega
  | label label found room =>
    obtain ⟨len, at_⟩ := labelAt_some inside found
    have here := at_.pos_lt
    simp only [rank]
    omega

theorem dnameDecode_returns (start : Nat) (inside : mb.endPos ≤ mb.buf.length) : ∃ r, dnameDecode mb start r := by
  apply returns_of_rank (I := fun s => ∃ first, Decoding mb start s first) (rank mb)
  · rintro s next ⟨first, decoding⟩ goes
    exact ⟨decoding.next inside goes, rank_next inside decoding.fits goes⟩
  · exact ⟨none, dnameInit_decoding mb start⟩

theorem joined_longer (text label : List Byte) : text.length ≤ (joined text label).length := by
  rw [joined_length]
  omega

/-- The decoder follows the name as far as its text fits. -/
theorem Leads.reaches (inside : mb.endPos ≤ mb.buf.length) {hops : Nat} {first : Option Nat}
    (leads : Leads mb start text hops first pos) (fits : text.length ≤ bufSize - 1) (few : hops ≤ COMP_LOOP + 1) :
    Reaches (dnameBody mb start) (dnameInit mb) ⟨pos, text, hops, first.map (behindPointer mb)⟩ := by
  induction leads with
  | here => exact .refl
  | label leads found ih =>
    rename_i text hops first pos label
    apply (ih (Nat.le_trans (joined_longer text label) fits) few).tail
    exact dnameBody_label inside found fits
  | pointer leads found ih =>
    rename_i text hops first pos target
    apply (ih fits (by omega)).tail
    rw [dnameBody_pointer inside found (by simp only; omega)]
    cases first <;> rfl

theorem pointerAt_some {target : Nat} (leads : pointerAt mb start pos = some target) :
    ∃ len, readAt mb pos = some len ∧ len &&& COMP_MASK = COMP_MASK := by
  unfold pointerAt at leads
  split at leads
  · contradiction
  · rename_i len read
    split at leads
    · rename_i pointer
      exact ⟨len, read, pointer⟩
    · contradiction

theorem Leads.ownEnd_none {hops behind : Nat} (leads : Leads mb start text hops none pos)
    (ends : OwnEnd mb pos behind) : OwnEnd mb mb.pos behind := by
  generalize unled : none = first at leads
  induction leads with
  | here => exact ends
  | label leads found ih => exact ih (.label found ends) unled
  | pointer => contradiction

theorem Leads.ownEnd_some {hops first : Nat} (leads : Leads mb start text hops (some first) pos) :
    OwnEnd mb mb.pos (first + 2) := by
  generalize led : some first = first' at leads
  induction leads with
  | here => contradiction
  | label leads found ih => exact ih led
  | pointer leads found ih =>
    rename_i text hops earlier pos target
    obtain ⟨len, read, pointer⟩ := pointerAt_some found
    cases earlier with
    | none =>
      obtain rfl := Option.some.inj led
      exact leads.ownEnd_none (.pointer read pointer)
    | some earlier => exact ih led

theorem labelAt_read (found : labelAt mb pos = some label) :
    ∃ len, readAt mb pos = some len ∧ len ≠ 0 ∧ ¬ len &&& COMP_MASK = COMP_MASK := by
  unfold labelAt at found
  split at found
  · contradiction
  · rename_i len read
    split at found
    · contradiction
    · rename_i valid
      rw [not_or, not_or] at valid
      exact ⟨len, read, valid.1, valid.2.1⟩

theorem OwnEnd.unique {behind behind' : Nat} (ends : OwnEnd mb pos behind) (ends' : OwnEnd mb pos behind') :
    behind = behind' := by
  induction ends with
  | zero read =>
    cases ends' with
    | zero => rfl
    | pointer read' pointer =>
      obtain rfl := Option.some.inj (read.symm.trans read')
      exact absurd pointer zero_plain
    | label found =>
      obtain ⟨len, read', some_, -⟩ := labelAt_read found
      exact absurd (Option.some.inj (read'.symm.trans read)) some_
  | pointer read pointer =>
    cases ends' with
    | zero read' =>
      obtain rfl := Option.some.inj (read'.symm.trans read)
      exact absurd pointer zero_plain
    | pointer => rfl
    | label found =>
      obtain ⟨len, read', -, plain⟩ := labelAt_read found
      obtain rfl := Option.some.inj (read.symm.trans read')
      exact absurd pointer plain
  | label found ends ih =>
    obtain ⟨len, read, some_, plain⟩ := labelAt_read found
    cases ends' with
    | zero read' => exact absurd (Option.some.inj (read.symm.trans read')) some_
    | pointer read' pointer =>
      obtain rfl := Option.some.inj (read.symm.trans read')
      exact absurd pointer plain
    | label found' ends' =>
      obtain rfl := Option.some.inj (found.symm.trans found')
      exact ih ends'

/-- What the loop may end with: never an access outside of the packet, and a write outside of the buffer only after
    a name that is too long. -/
structure Ended (mb : Mbuf) (start : Nat) (r : DnameEnd) : Prop where
  read : r ≠ .outsideRead
  write : r = .outsideWrite → Overlong mb start
  position : ∀ name pos, r = .name name pos → OwnEnd mb mb.pos pos ∨ CutShort mb start

theorem Decoding.ended (inside : mb.endPos ≤ mb.buf.length) {first : Option Nat}
    (decoding : Decoding mb start s first) {r : DnameEnd} (ends : dnameBody mb start s = .inr r) :
    Ended mb start r := by
  have done := dnameBody_done start inside decoding.fits
  rw [ends] at done
  cases done with
  | einval pos => exact ⟨nofun, nofun, nofun⟩
  | name name read =>
    refine ⟨nofun, nofun, ?_⟩
    rintro _ _ ⟨⟩
    have leads := decoding.leads
    rw [decoding.comp]
    cases first with
    | none => exact .inl (leads.ownEnd_none (.zero read))
    | some first =>
      by_cases cut : first + 1 = mb.endPos
      · exact .inr ⟨s.buf, s.loopc, first, s.pos, leads, decoding.few, decoding.fits, read, cut⟩
      · left
        simp only [Option.map_some, Option.getD_some, behindPointer, if_neg cut]
        exact leads.ownEnd_some
  | overrun label found full =>
    refine ⟨nofun, fun _ => ?_, nofun⟩
    exact ⟨s.buf, s.loopc, first, s.pos, label, decoding.leads, decoding.few, full, found⟩

theorem Overlong.overruns (inside : mb.endPos ≤ mb.buf.length) (overlong : Overlong mb start) :
    dnameDecode mb start .outsideWrite := by
  obtain ⟨text, hops, first, pos, label, leads, few, full, found⟩ := overlong
  apply (leads.reaches inside (Nat.le_of_eq full) few).returns
  exact .done (dnameBody_overrun inside found full)

theorem CutShort.position (inside : mb.endPos ≤ mb.buf.length) (cutShort : CutShort mb start) :
    ∃ name pos, dnameDecode mb start (.name name pos) ∧ ¬ OwnEnd mb mb.pos pos := by
  obtain ⟨text, hops, first, pos, leads, few, fits, read, cut⟩ := cutShort
  have reaches := leads.reaches inside fits few
  obtain ⟨name, done⟩ := dnameBody_zero start
    (s := ⟨pos, text, hops, some (behindPointer mb first)⟩) read fits
  refine ⟨name, first, ?_, ?_⟩
  · apply reaches.returns
    simp only [Option.getD_some, behindPointer, if_pos cut] at done
    exact .done (by simpa only [Option.map_some, behindPointer, if_pos cut] using done)
  · intro own
    have same := own.unique leads.ownEnd_some
    omega

/-- The decoder is safe exactly on the packets in which no label follows when the buffer is full but for a byte,
    and whose first pointer is not cut off in a name that goes on to an end. -/
theorem decodesSafely_iff (inside : mb.endPos ≤ mb.buf.length) :
    DecodesSafely mb start ↔ ¬ Overlong mb start ∧ ¬ CutShort mb start := by
  constructor
  · rintro ⟨r, returns, -, write, position⟩
    constructor
    · intro overlong
      exact write (returns.unique (overlong.overruns inside))
    · intro cutShort
      obtain ⟨name, pos, returns', elsewhere⟩ := cutShort.position inside
      exact elsewhere (position name pos (returns.unique returns'))
  · rintro ⟨fits, whole⟩
    obtain ⟨r, returns⟩ := dnameDecode_returns start inside
    have ended : Ended mb start r := by
      apply returns.of_invariant (I := fun s => ∃ first, Decoding mb start s first)
      · rintro s next ⟨first, decoding⟩ goes
        exact decoding.next inside goes
      · rintro s r ⟨first, decoding⟩ ends
        exact decoding.ended inside ends
      · exact ⟨none, dnameInit_decoding mb start⟩
    refine ⟨r, returns, ended.read, fun write => fits (ended.write write), ?_⟩
    intro name pos result
    exact (ended.position name pos result).resolve_right whole

/-- The root name, in a packet of its own. -/
def rootName : Mbuf := ⟨[0], 0, 1⟩

theorem rootName_leads {hops : Nat} {first : Option Nat} (leads : Leads rootName 0 text hops first pos) :
    text = [] ∧ first = none ∧ pos = 0 := by
  induction leads with
  | here => exact ⟨rfl, rfl, rfl⟩
  | label leads found ih =>
    obtain ⟨-, -, rfl⟩ := ih
    exact absurd found (by simp [labelAt, readAt, rootName])
  | pointer leads found ih =>
    obtain ⟨-, -, rfl⟩ := ih
    obtain ⟨len, read, pointer⟩ := pointerAt_some found
    obtain rfl : 0 = len := Option.some.inj read
    exact absurd pointer zero_plain

theorem decodesSafely_iff_root : DecodesSafely rootName 0 := by
  apply (decodesSafely_iff (by decide)).mpr
  constructor
  · rintro ⟨text, hops, first, pos, label, leads, -, full, -⟩
    obtain ⟨rfl, -⟩ := rootName_leads leads
    exact absurd full (by decide)
  · rintro ⟨text, hops, first, pos, leads, -⟩
    obtain ⟨-, none_, -⟩ := rootName_leads leads
    contradiction

/-- Four labels of 63 bytes fill the buffer but for one byte, and a fifth one follows. -/
def fiveLabels : Mbuf :=
  let label : List Byte := 63 :: List.replicate 63 0x61
  let buf := label ++ label ++ label ++ label ++ [1, 0x61, 0]
  ⟨buf, 0, buf.length⟩

theorem fiveLabels_leads {text : List Byte} {hops pos : Nat} {first : Option Nat}
    (leads : Leads fiveLabels 0 text hops first pos)
    (found : labelAt fiveLabels pos = some (List.replicate 63 0x61)) :
    Leads fiveLabels 0 (joined text (List.replicate 63 0x61)) hops first (pos + 64) := by
  have next := leads.label found
  rwa [List.length_replicate] at next

theorem fiveLabels_overrun : ¬ DecodesSafely fiveLabels 0 := by
  rintro ⟨r, returns, -, write, -⟩
  have one : Leads fiveLabels 0 _ 0 none 64 := fiveLabels_leads .here (by decide +kernel)
  have two : Leads fiveLabels 0 _ 0 none 128 := fiveLabels_leads one (by decide +kernel)
  have three : Leads fiveLabels 0 _ 0 none 192 := fiveLabels_leads two (by decide +kernel)
  have four : Leads fiveLabels 0 _ 0 none 256 := fiveLabels_leads three (by decide +kernel)
  have full : Overlong fiveLabels 0 :=
    ⟨_, 0, none, 256, [0x61], four, by decide, by simp [joined, bufSize], by decide +kernel⟩
  exact write (returns.unique (full.overruns (Nat.le_refl _)))

end Baresip.Dns
