import Baresip.Dns.Sequence
import Baresip.Library.Runs

set_option linter.dupNamespace false

namespace Baresip.Dns

open Re Library

def NAME_MAX : Nat := 255

/-- What is to hold of a name of a message: it is decoded from the whole message, or refused when it has no form. -/
structure NameRight (start : Nat) (whole s : EncodeSt) (call : List Byte × Bool) : Prop where
  decodes (representable : Representable call.1) : (dnameEncode start call.2 call.1 s).1 = none ∧
    ∃ text, dnameDecode (whole.mb.setPos s.mb.pos) start (.name text (encodeStep start s call).mb.pos) ∧
      SameName text call.1
  refuses (not_ : ¬ Representable call.1) : (dnameEncode start call.2 call.1 s).1 = some .EINVAL

/-- The offsets of the names in the table, which are those that pointers are written for. -/
def OffsetsFit (s : EncodeSt) : Prop := ∀ dn ∈ entries s.ht, dn.pos ≤ OFFSET_MASK.toNat

/-- The name has a form, or it has an empty label and nothing that is looked up for it is in the table. -/
def Handled (s : EncodeSt) (call : List Byte × Bool) : Prop :=
  Representable call.1 ∨ HasEmptyLabel call.1 ∧ (call.2 = true → Unnoted s.ht call.1)

section
variable {start hops behind : Nat} {s whole : EncodeSt} {bytes name : List Byte} {call : List Byte × Bool}
  {calls : List (List Byte × Bool)} {mb : Mbuf}

theorem wire_joined (representable : Representable name) :
    (wireLabels name).foldl joined [] = lower name ∨ (wireLabels name).foldl joined [] ++ [dot] = lower name := by
  unfold wireLabels
  by_cases root : lower name = [dot]
  · rw [if_pos root, root]
    exact .inr rfl
  · rw [if_neg root]
    apply joined_labels
    intro label inside
    rw [representable_iff, wireLabels, if_neg root] at representable
    exact (representable label inside).1

theorem wire_length (representable : Representable name) : 2 * (wireLabels name).length ≤ name.length + 1 := by
  unfold wireLabels
  by_cases root : lower name = [dot]
  · rw [if_pos root]
    exact Nat.zero_le _
  · rw [if_neg root, ← lower_length name]
    apply labels_length
    intro label inside
    rw [representable_iff, wireLabels, if_neg root] at representable
    exact (representable label inside).1

theorem zero_lower (plain : 0 ∉ name) : 0 ∉ lower name := by
  intro inside
  obtain ⟨c, mem, zero⟩ := List.mem_map.mp inside
  have none_ : ∀ c : Byte, tolower c = 0 → c = 0 := by decide +kernel
  exact plain (none_ c zero ▸ mem)

/-- The labels of a name that is short enough are decoded to it. -/
theorem Spells.decodes_name (spells : Spells (mb.buf.take mb.endPos) start mb.pos (wireLabels name) hops behind)
    (inside : mb.endPos ≤ mb.buf.length) (small : mb.endPos ≤ sizeValues) (representable : Representable name)
    (few : hops ≤ (wireLabels name).length + 1) (fits : name.length ≤ NAME_MAX) (plain : 0 ∉ name) :
    ∃ text, dnameDecode mb start (.name text behind) ∧ SameName text name := by
  have same := wire_joined representable
  have length := wire_length representable
  have lowered := zero_lower plain
  have short : ((wireLabels name).foldl joined []).length ≤ name.length ∧ 0 ∉ (wireLabels name).foldl joined [] := by
    rcases same with same | same
    · rw [same, lower_length]
      exact ⟨Nat.le_refl _, lowered⟩
    · rw [← lower_length name, ← same, List.length_append]
      refine ⟨Nat.le_add_right _ _, ?_⟩
      rw [← same] at lowered
      exact fun inside => lowered (List.mem_append_left _ inside)
  unfold NAME_MAX at fits
  obtain ⟨text, decodes, eq⟩ := spells.decodes inside small (by unfold COMP_LOOP; omega)
    (by unfold bufSize; omega) short.2
  refine ⟨text, decodes, ?_⟩
  unfold SameName
  rw [eq]
  exact same

theorem steps_pos_le (start : Nat) (calls : List (List Byte × Bool)) (s : EncodeSt) :
    s.mb.pos ≤ (calls.foldl (encodeStep start) s).mb.pos := by
  have kept : Throughout (encodeStep start) (fun next => s.mb.pos ≤ next.mb.pos) s calls :=
    throughout_of_invariant (fun next call => (pos_kept s.mb.pos).dname call.1 next) (Nat.le_refl _)
  exact kept.last

theorem step_kept (table : Table start s bytes) (handled : Handled s call)
    (small : (encodeStep start s call).mb.pos < sizeValues) :
    ∃ bytes', Table start (encodeStep start s call) bytes' ∧ bytes <+: bytes' := by
  rcases handled with representable | ⟨empty, unnoted⟩
  · obtain ⟨-, bytes', -, next, kept, -⟩ := dnameEncode_names table representable small
    exact ⟨bytes', next, kept⟩
  · exact dnameEncode_refused table empty unnoted small

/-- The message so far stays as it is up to the end of the message. -/
theorem steps_kept (table : Table start s bytes) (handled : Along (encodeStep start) Handled s calls)
    (small : (calls.foldl (encodeStep start) s).mb.pos < sizeValues) :
    ∃ bytes', Table start (calls.foldl (encodeStep start) s) bytes' ∧ bytes <+: bytes' := by
  induction calls generalizing s bytes with
  | nil => exact ⟨bytes, table, List.prefix_rfl⟩
  | cons call calls ih =>
    obtain ⟨bytes', next, kept⟩ := step_kept table handled.1 (Nat.lt_of_le_of_lt (steps_pos_le start calls _) small)
    obtain ⟨bytes'', last, kept'⟩ := ih next handled.2 small
    exact ⟨bytes'', last, kept.trans kept'⟩

theorem Table.right (table : Table start s bytes) (handled : Along (encodeStep start) Handled s (call :: calls))
    (whole_eq : (call :: calls).foldl (encodeStep start) s = whole) (small : whole.mb.endPos < sizeValues)
    (ended : whole.mb.pos ≤ whole.mb.endPos) (fits : call.1.length ≤ NAME_MAX) (plain : 0 ∉ call.1) :
    NameRight start whole s call where
  decodes representable := by
    have last : (calls.foldl (encodeStep start) (encodeStep start s call)).mb.pos < sizeValues := by
      rw [← List.foldl_cons, whole_eq]
      omega
    have here : (encodeStep start s call).mb.pos < sizeValues := Nat.lt_of_le_of_lt (steps_pos_le start calls _) last
    obtain ⟨ok, bytes', hops, next, kept, few, spells⟩ := dnameEncode_names table representable here
    obtain ⟨bytes'', final, kept'⟩ := steps_kept next handled.2 last
    have final : Table start whole bytes'' := whole_eq ▸ final
    have in_ : bytes'' <+: whole.mb.buf.take whole.mb.endPos := by
      rw [← final.written.content]
      exact List.take_prefix_take_left final.written.ended
    have there : Spells ((whole.mb.setPos s.mb.pos).buf.take (whole.mb.setPos s.mb.pos).endPos) start
        (whole.mb.setPos s.mb.pos).pos (wireLabels call.1) hops (encodeStep start s call).mb.pos := by
      show Spells (whole.mb.buf.take whole.mb.endPos) start s.mb.pos _ hops (dnameEncode start call.2 call.1 s).2.mb.pos
      rw [table.written.length, next.written.length]
      exact spells.extend (kept'.trans in_)
    exact ⟨ok, there.decodes_name final.written.inside (Nat.le_of_lt small) representable few fits plain⟩
  refuses not_ := by
    obtain ⟨empty, unnoted⟩ := handled.1.resolve_left not_
    exact (dnameEncode_refused_iff table).2 ⟨empty, unnoted⟩

theorem Table.right_iff (table : Table start s bytes)
    (whole_eq : calls.foldl (encodeStep start) s = whole) (small : whole.mb.endPos < sizeValues)
    (ended : whole.mb.pos ≤ whole.mb.endPos) (names : ∀ call ∈ calls, call.1.length ≤ NAME_MAX ∧ 0 ∉ call.1) :
    Along (encodeStep start) (NameRight start whole) s calls ↔ Along (encodeStep start) Handled s calls := by
  induction calls generalizing s bytes with
  | nil => exact Iff.rfl
  | cons call calls ih =>
    rw [List.forall_mem_cons] at names
    have here : (encodeStep start s call).mb.pos < sizeValues := by
      have before := steps_pos_le start calls (encodeStep start s call)
      rw [← List.foldl_cons, whole_eq] at before
      omega
    constructor
    · rintro ⟨right, rights⟩
      have handled : Handled s call := by
        by_cases representable : Representable call.1
        · exact .inl representable
        · exact .inr ((dnameEncode_refused_iff table).1 (right.refuses representable))
      obtain ⟨bytes', next, -⟩ := step_kept table handled here
      exact ⟨handled, (ih next whole_eq names.2).1 rights⟩
    · intro handled
      obtain ⟨bytes', next, -⟩ := step_kept table handled.1 here
      exact ⟨table.right handled whole_eq small ended names.1.1 names.1.2, (ih next whole_eq names.2).2 handled.2⟩

/-- The names of a message are decoded or refused as they are to be exactly when each of them has a form or has an
    empty label and is not found in the table. -/
theorem names_iff (s : EncodeSt) (calls : List (List Byte × Bool)) (none_ : entries s.ht = []) (from_ : start ≤ s.mb.pos)
    (ended : s.mb.pos ≤ s.mb.endPos) (inside : s.mb.endPos ≤ s.mb.buf.length)
    (small : (calls.foldl (encodeStep start) s).mb.endPos < sizeValues)
    (names : ∀ call ∈ calls, call.1.length ≤ NAME_MAX ∧ 0 ∉ call.1) :
    Throughout (encodeStep start) OffsetsFit s calls ∧
      (Along (encodeStep start) (NameRight start (calls.foldl (encodeStep start) s)) s calls ↔
        Along (encodeStep start) Handled s calls) := by
  have written := Mbuf.written_take ended inside
  have table : Table start s (s.mb.buf.take s.mb.pos) := by
    refine ⟨written, written.length ▸ from_, ?_⟩
    rw [none_]
    exact nofun
  have fit : OffsetsFit s := by
    unfold OffsetsFit
    rw [none_]
    exact nofun
  have ends : Throughout (encodeStep start) (fun s => s.mb.pos ≤ s.mb.endPos) s calls :=
    throughout_of_invariant (fun next call => ended_kept.dname call.1 next) ended
  exact ⟨throughout_of_invariant (fun next call => offsets_kept.dname call.1 next) fit,
    table.right_iff rfl small ends.last names⟩

end

/-- A message with a table and no names. -/
def emptyMessage : EncodeSt := ⟨Mbuf.alloc 64, some []⟩

theorem representable_two {first last : List Byte} (plain : dot ∉ first) (plain' : dot ∉ last) (some_ : first ≠ [])
    (some' : last ≠ []) (short : first.length ≤ LABEL_MAX) (short' : last.length ≤ LABEL_MAX) :
    Representable (first ++ dot :: last) := by
  right
  rw [labels_front plain, labels_last plain', if_neg some']
  intro label inside
  rcases List.mem_cons.mp inside with rfl | inside
  · exact ⟨some_, short⟩
  · rw [List.mem_singleton.mp inside]
    exact ⟨some', short'⟩

def twoNames : List (List Byte × Bool) := [(ascii "sip.example", true), (ascii "SIP.example", true)]

theorem names_iff_two : Along (encodeStep 0) (NameRight 0 (twoNames.foldl (encodeStep 0) emptyMessage)) emptyMessage
    twoNames := by
  refine (names_iff emptyMessage twoNames rfl (Nat.le_refl 0) (by decide) (by decide) (by decide +kernel)
    (by decide +kernel)).2.2 ⟨.inl ?_, .inl ?_, trivial⟩
  · show Representable (ascii "sip" ++ dot :: ascii "example")
    exact representable_two (by decide +kernel) (by decide +kernel)
      (by decide +kernel) (by decide +kernel) (by decide +kernel) (by decide +kernel)
  · show Representable (ascii "SIP" ++ dot :: ascii "example")
    exact representable_two (by decide +kernel) (by decide +kernel)
      (by decide +kernel) (by decide +kernel) (by decide +kernel) (by decide +kernel)

/-- A label of 192 bytes, whose length is written as the first byte of a pointer. -/
def longLabel : List Byte := List.replicate 192 0x61

def longCalls : List (List Byte × Bool) := [(longLabel, true)]

/-- The second name has an empty label in front of the dot at its end. -/
def rootCalls : List (List Byte × Bool) := [([dot], true), (0x61 :: [dot, dot], true)]

theorem names_not_refused :
    ¬ Along (encodeStep 0) (NameRight 0 (longCalls.foldl (encodeStep 0) emptyMessage)) emptyMessage longCalls ∧
    ¬ Along (encodeStep 0) (NameRight 0 (rootCalls.foldl (encodeStep 0) emptyMessage)) emptyMessage rootCalls := by
  constructor
  · rintro ⟨right, -⟩
    have plain : dot ∉ longLabel := by decide +kernel
    have long : ¬ Representable longLabel := by
      rintro (root | filled)
      · exact absurd root (by decide +kernel)
      · rw [labels_last plain, if_neg (by decide +kernel)] at filled
        exact absurd (filled longLabel (List.mem_singleton_self _)).2 (by decide +kernel)
    exact absurd (right.refuses long) (by decide +kernel)
  · rintro ⟨-, right, -⟩
    have empty : HasEmptyLabel (0x61 :: [dot, dot]) := by
      refine ⟨by decide, ?_⟩
      rw [show (0x61 :: [dot, dot] : List Byte) = [0x61] ++ dot :: [dot] from rfl, labels_front (by decide),
        show [dot] = [] ++ dot :: ([] : List Byte) from rfl, labels_front (by decide)]
      simp
    exact absurd (right.refuses empty.not_representable) (by decide +kernel)

end Baresip.Dns
