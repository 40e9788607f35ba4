import Baresip.Dns.Spelled

set_option linter.dupNamespace false

namespace Baresip.Dns

open Re Library

/-- The labels that a name is written with. -/
def wireLabels (name : List Byte) : List (List Byte) := if lower name = [dot] then [] else labels (lower name)

def entries (ht : Option (List Dname)) : List Dname := ht.getD []

/-- If the name has a form, it is spelled at the position, over no more pointers than it has labels. -/
def Good (start : Nat) (bytes name : List Byte) (pos : Nat) : Prop :=
  Representable name → ∃ hops behind, hops ≤ (wireLabels name).length ∧
    Spells bytes start pos (wireLabels name) hops behind

/-- What is in the table is found where the table says. -/
structure Noted (start : Nat) (bytes : List Byte) (dn : Dname) : Prop where
  fits : dn.pos ≤ OFFSET_MASK.toNat
  good : Good start bytes dn.name (start + dn.pos)

/-- What is left of a name behind some of its labels. -/
inductive Behind : List Byte → List Byte → Prop
  | first {label rest : List Byte} (some_ : label ≠ []) (plain : dot ∉ label) : Behind (label ++ dot :: rest) rest
  | later {label rest tail : List Byte} (some_ : label ≠ []) (plain : dot ∉ label) (behind : Behind rest tail) :
      Behind (label ++ dot :: rest) tail

/-- Neither the name nor what is left of it behind some of its labels is in the table. -/
def Unnoted (ht : Option (List Dname)) (name : List Byte) : Prop :=
  dnameLookup ht name = none ∧ ∀ rest, Behind name rest → dnameLookup ht rest = none

section
variable {start pos hops behind : Nat} {bytes more name label rest : List Byte} {ht : Option (List Dname)} {dn : Dname}

theorem lower_dot : lower name = [dot] ↔ name = [dot] := by
  constructor
  · intro same
    obtain ⟨c, rfl, head⟩ := List.map_eq_singleton_iff.mp same
    rw [(tolower_dot c).mp head]
  · rintro rfl
    rfl

theorem lower_nil : lower label = [] ↔ label = [] := List.map_eq_nil_iff

theorem representable_iff : Representable name ↔ ∀ label ∈ wireLabels name, label ≠ [] ∧ label.length ≤ LABEL_MAX := by
  unfold Representable wireLabels
  by_cases root : name = [dot]
  · rw [if_pos (lower_dot.mpr root)]
    exact ⟨fun _ => nofun, fun _ => .inl root⟩
  · rw [if_neg (fun same => root (lower_dot.mp same)), labels_lower]
    constructor
    · rintro (same | filled)
      · exact absurd same root
      · intro lowered inside
        obtain ⟨label, mem, rfl⟩ := List.mem_map.mp inside
        obtain ⟨some_, short⟩ := filled label mem
        exact ⟨fun none_ => some_ (lower_nil.mp none_), by rw [lower_length]; exact short⟩
    · intro filled
      right
      intro label inside
      obtain ⟨some_, short⟩ := filled (lower label) (List.mem_map_of_mem inside)
      rw [lower_length] at short
      exact ⟨fun none_ => some_ (lower_nil.mpr none_), short⟩

theorem HasEmptyLabel.not_representable (empty : HasEmptyLabel name) : ¬ Representable name := by
  rintro (root | filled)
  · exact empty.1 root
  · exact (filled [] empty.2).1 rfl

theorem Good.extend (good : Good start bytes name pos) (extends_ : bytes <+: more) : Good start more name pos := by
  intro representable
  obtain ⟨hops, behind, few, spells⟩ := good representable
  exact ⟨hops, behind, few, spells.extend extends_⟩

theorem Noted.extend (noted : Noted start bytes dn) (extends_ : bytes <+: more) : Noted start more dn :=
  ⟨noted.fits, noted.good.extend extends_⟩

/-- A name is spelled where another one is that is equal to it up to case. -/
theorem Good.of_same {other : List Byte} (good : Good start bytes other pos) (same : lower other = lower name) :
    Good start bytes name pos := by
  have labels : wireLabels other = wireLabels name := by
    unfold wireLabels
    rw [same]
  intro representable
  rw [representable_iff, ← labels, ← representable_iff] at representable
  rw [← labels]
  exact good representable

theorem lookup_some (found : dnameLookup ht name = some dn) : dn ∈ entries ht ∧ lower dn.name = lower name := by
  cases ht with
  | none => contradiction
  | some dns => exact ⟨List.mem_of_find?_eq_some found, by simpa [strCasecmp, lower] using List.find?_some found⟩

theorem append_entries (inside : dn ∈ entries (dnameAppend ht name pos)) :
    dn ∈ entries ht ∨ dn = ⟨name, pos⟩ ∧ pos ≤ OFFSET_MASK.toNat := by
  cases ht with
  | none => contradiction
  | some dns =>
    simp only [entries, dnameAppend, Option.map_some, Option.getD_some] at inside ⊢
    split at inside
    · exact .inl inside
    · rename_i kept
      rcases List.mem_append.mp inside with old | new
      · exact .inl old
      · exact .inr ⟨List.mem_singleton.mp new, by omega⟩

theorem append_lookup {other : List Byte} (shorter : other.length < name.length) :
    dnameLookup (dnameAppend ht name pos) other = dnameLookup ht other := by
  cases ht with
  | none => rfl
  | some dns =>
    simp only [dnameLookup, dnameAppend, Option.map_some, Option.bind_some]
    split
    · rfl
    · rw [List.find?_append]
      have differs : strCasecmp name other = false := by
        unfold strCasecmp
        rw [beq_eq_false_iff_ne]
        intro same
        have lengths := congrArg List.length same
        rw [List.length_map, List.length_map] at lengths
        omega
      rw [List.find?_singleton, if_neg (by rw [differs]; exact Bool.false_ne_true), Option.or_none]

theorem Behind.shorter (behind : Behind name rest) : rest.length < name.length := by
  induction behind with
  | first some_ plain =>
    rw [List.length_append, List.length_cons]
    omega
  | later some_ plain _ ih =>
    rw [List.length_append, List.length_cons]
    omega

/-- Two ways to cut a label off the front of a name are the same. -/
theorem front_unique {label' rest' : List Byte} (plain : dot ∉ label) (plain' : dot ∉ label')
    (same : label ++ dot :: rest = label' ++ dot :: rest') : label = label' ∧ rest = rest' := by
  have parts := congrArg (List.splitOn dot) same
  rw [List.splitOn_append_cons_self_of_not_mem plain, List.splitOn_append_cons_self_of_not_mem plain'] at parts
  injection parts with first _
  subst first
  have tails := List.append_cancel_left same
  injection tails with _ tails
  exact ⟨rfl, tails⟩

theorem behind_front (some_ : label ≠ []) (plain : dot ∉ label) {tail : List Byte} :
    Behind (label ++ dot :: rest) tail ↔ tail = rest ∨ Behind rest tail := by
  constructor
  · intro behind
    generalize eq : label ++ dot :: rest = name at behind
    cases behind with
    | first some' plain' => exact .inl (front_unique plain' plain eq.symm).2
    | later some' plain' behind => exact .inr ((front_unique plain plain' eq).2 ▸ behind)
  · rintro (rfl | behind)
    · exact .first some_ plain
    · exact .later some_ plain behind

theorem behind_empty : ¬ Behind (dot :: rest) name := by
  intro behind
  generalize eq : dot :: rest = whole at behind
  have none_ : ∀ label tail : List Byte, label ≠ [] → dot ∉ label → dot :: rest ≠ label ++ dot :: tail := by
    intro label tail some_ plain same
    exact some_ (front_unique (show dot ∉ [] from List.not_mem_nil) plain same).1.symm
  cases behind with
  | first some_ plain => exact none_ _ _ some_ plain eq
  | later some_ plain _ => exact none_ _ _ some_ plain eq

end

/-- The label is written behind the place of its length, and then its length. -/
def writeLabel (mb : Mbuf) (pos : Nat) (label : List Byte) : Mbuf :=
  (label.foldl Mbuf.writeU8 mb).putAt pos (.ofNat 8 label.length)

def noteName (ht : Option (List Dname)) (name : List Byte) (pos : Nat) : Option (List Dname) :=
  if (dnameLookup ht name).isSome then ht else dnameAppend ht name pos

def labelBytes (label : List Byte) : List Byte := .ofNat 8 label.length :: label

section
variable {start : Nat} {comp : Bool} {s : EncodeSt} {bytes label rest name : List Byte} {dn : Dname}

theorem encodeLoop_plain (plain : dot ∉ label) (pos : Nat) (s : EncodeSt) :
    encodeLoop start comp (label ++ rest) pos s =
      encodeLoop start comp rest pos { s with mb := label.foldl Mbuf.writeU8 s.mb } := by
  induction label generalizing s with
  | nil => rfl
  | cons c label ih =>
    rw [List.mem_cons, not_or] at plain
    rw [List.cons_append, encodeLoop_char _ _ (Ne.symm plain.1), ih plain.2]
    rfl

theorem written_chars {mb : Mbuf} (written : mb.Written bytes) (label : List Byte) :
    (label.foldl Mbuf.writeU8 mb).Written (bytes ++ label) := by
  induction label generalizing mb bytes with
  | nil =>
    rw [List.append_nil]
    exact written
  | cons c label ih =>
    have next := ih (written.write [c])
    rw [List.append_assoc] at next
    exact next

theorem written_label {mb : Mbuf} (written : mb.Written (bytes ++ [0])) (label : List Byte) :
    (writeLabel mb bytes.length label).Written (bytes ++ labelBytes label) := by
  have chars := written_chars written label
  rw [List.append_assoc] at chars
  exact chars.putAt (.ofNat 8 label.length)

theorem lablen_eq (written : s.mb.Written (bytes ++ [0])) (label : List Byte) :
    (label.foldl Mbuf.writeU8 s.mb).pos - bytes.length - 1 = label.length := by
  have length := (written_chars written label).length
  rw [List.length_append, List.length_append, List.length_singleton] at length
  omega

theorem encodeLoop_last (written : s.mb.Written (bytes ++ [0])) (plain : dot ∉ label) (some_ : label ≠ []) :
    encodeLoop start comp label bytes.length s =
      (none, { s with mb := (writeLabel s.mb bytes.length label).writeU8 0 }) := by
  have lablen := lablen_eq written label
  have chars := @encodeLoop_plain start comp label [] plain bytes.length s
  have positive := List.length_pos_iff.mpr some_
  rw [List.append_nil] at chars
  rw [chars, encodeLoop_nil]
  dsimp only
  rw [lablen, if_neg (Nat.ne_of_gt positive)]
  rfl

theorem encodeLoop_done (written : s.mb.Written (bytes ++ [0])) :
    encodeLoop start comp [] bytes.length s = (none, s) := by
  rw [encodeLoop_nil]
  exact if_pos (lablen_eq written [])

theorem encodeLoop_empty (written : s.mb.Written (bytes ++ [0])) :
    encodeLoop start comp (dot :: rest) bytes.length s = (some .EINVAL, s) := by
  rw [encodeLoop_dot]
  exact if_pos (lablen_eq written [])

theorem encodeLoop_hit (written : s.mb.Written (bytes ++ [0])) (plain : dot ∉ label) (some_ : label ≠ [])
    (on : comp = true) (found : dnameLookup s.ht rest = some dn) :
    encodeLoop start comp (label ++ dot :: rest) bytes.length s =
      (none, { s with mb := encodePointer (writeLabel s.mb bytes.length label) dn.pos }) := by
  have lablen := lablen_eq written label
  have positive := List.length_pos_iff.mpr some_
  rw [encodeLoop_plain plain, encodeLoop_dot]
  dsimp only
  rw [lablen, if_neg (Nat.ne_of_gt positive), found]
  dsimp only
  rw [if_pos on]
  rfl

theorem encodeLoop_next (written : s.mb.Written (bytes ++ [0])) (plain : dot ∉ label) (some_ : label ≠ [])
    (missed : comp = true → dnameLookup s.ht rest = none) :
    encodeLoop start comp (label ++ dot :: rest) bytes.length s =
      encodeLoop start comp rest (bytes ++ labelBytes label).length
        ⟨(writeLabel s.mb bytes.length label).writeU8 0,
          noteName s.ht rest (offset (bytes ++ labelBytes label).length start)⟩ := by
  have lablen := lablen_eq written label
  have positive := List.length_pos_iff.mpr some_
  have pos : ((label.foldl Mbuf.writeU8 s.mb).putAt bytes.length (.ofNat 8 label.length)).pos =
      (bytes ++ labelBytes label).length := (written_label written label).length
  rw [encodeLoop_plain plain, encodeLoop_dot]
  dsimp only
  rw [lablen, if_neg (Nat.ne_of_gt positive), pos]
  unfold noteName
  cases found : dnameLookup s.ht rest with
  | none => rfl
  | some dn =>
    have off : ¬ comp = true := fun on => by rw [missed on] at found; contradiction
    dsimp only
    rw [if_neg off]
    rfl

theorem noteName_entries {ht : Option (List Dname)} {pos : Nat} (inside : dn ∈ entries (noteName ht name pos)) :
    dn ∈ entries ht ∨ dn = ⟨name, pos⟩ ∧ pos ≤ OFFSET_MASK.toNat := by
  unfold noteName at inside
  split at inside
  · exact .inl inside
  · exact append_entries inside

theorem noteName_lookup {ht : Option (List Dname)} {pos : Nat} {other : List Byte} (shorter : other.length < name.length) :
    dnameLookup (noteName ht name pos) other = dnameLookup ht other := by
  unfold noteName
  split
  · rfl
  · exact append_lookup shorter

/-- The loop refuses a name exactly when it has an empty label and nothing that is looked up is found. -/
theorem encodeLoop_refused_iff (written : s.mb.Written (bytes ++ [0])) :
    (encodeLoop start comp name bytes.length s).1 = some .EINVAL ↔
      [] ∈ labels name ∧ (comp = true → ∀ rest, Behind name rest → dnameLookup s.ht rest = none) := by
  induction name using name_induction generalizing bytes s with
  | last label plain =>
    rw [labels_last plain]
    by_cases some_ : label = []
    · rw [some_, encodeLoop_done written]
      simp
    · rw [encodeLoop_last written plain some_]
      simp [some_]
  | front label rest plain ih =>
    rw [labels_front plain]
    by_cases some_ : label = []
    · rw [some_, List.nil_append, encodeLoop_empty written]
      simp [behind_empty]
    · by_cases missed : comp = true → dnameLookup s.ht rest = none
      · rw [encodeLoop_next written plain some_ missed, ih ((written_label written label).write [0])]
        simp only [List.mem_cons, Ne.symm some_, false_or, behind_front some_ plain]
        apply and_congr_right
        intro _
        constructor
        · rintro unnoted on tail (rfl | behind)
          · exact missed on
          · rw [← noteName_lookup behind.shorter]
            exact unnoted on tail behind
        · intro unnoted on tail behind
          rw [noteName_lookup behind.shorter]
          exact unnoted on tail (.inr behind)
      · obtain ⟨on, found⟩ := Classical.not_imp.mp missed
        obtain ⟨dn, found⟩ := Option.ne_none_iff_exists'.mp found
        rw [encodeLoop_hit written plain some_ on found]
        constructor
        · intro err
          contradiction
        · rintro ⟨-, unnoted⟩
          rw [unnoted on rest (.first some_ plain)] at found
          contradiction

end

end Baresip.Dns
