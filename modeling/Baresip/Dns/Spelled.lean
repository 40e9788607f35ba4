import Baresip.Dns.Dname
import Baresip.Dns.Names

set_option linter.dupNamespace false

namespace Baresip.Dns

open Re Library

/-- The labels of a name. One dot at its end is left out. -/
def labels (name : List Byte) : List (List Byte) :=
  if (name.splitOn dot).getLast? = some [] then (name.splitOn dot).dropLast else name.splitOn dot

def lower (name : List Byte) : List Byte := name.map tolower

def LABEL_MAX : Nat := 63

/-- A name that the messages have a form for. -/
def Representable (name : List Byte) : Prop :=
  name = [dot] ∨ ∀ label ∈ labels name, label ≠ [] ∧ label.length ≤ LABEL_MAX

def HasEmptyLabel (name : List Byte) : Prop := name ≠ [dot] ∧ [] ∈ labels name

/-- The two are equal up to case, and up to one dot at the end of `name`. -/
def SameName (text name : List Byte) : Prop := lower text = lower name ∨ lower text ++ [dot] = lower name

/-- A name is its last label, or a label and the rest behind the dot. -/
theorem name_induction {motive : List Byte → Prop} (last : ∀ label, dot ∉ label → motive label)
    (front : ∀ label rest, dot ∉ label → motive rest → motive (label ++ dot :: rest)) (name : List Byte) :
    motive name := by
  by_cases dotted : dot ∈ name
  · obtain ⟨label, rest, rfl, plain⟩ := List.eq_append_cons_of_mem dotted
    exact front label rest plain (name_induction last front rest)
  · exact last name dotted
termination_by name.length
decreasing_by
  rename_i split
  rw [split, List.length_append, List.length_cons]
  omega

section
variable {label rest name text : List Byte}

theorem labels_last (plain : dot ∉ label) : labels label = if label = [] then [] else [label] := by
  unfold labels
  rw [List.splitOn_eq_singleton plain]
  by_cases empty : label = []
  · rw [if_pos empty, if_pos (by rw [empty]; rfl)]
    rfl
  · rw [if_neg empty, if_neg]
    intro last
    exact empty (Option.some.inj last)

theorem labels_front (plain : dot ∉ label) : labels (label ++ dot :: rest) = label :: labels rest := by
  unfold labels
  rw [List.splitOn_append_cons_self_of_not_mem plain]
  obtain ⟨first, others, parts⟩ := List.exists_cons_of_ne_nil (List.splitOn_ne_nil dot rest)
  rw [parts, List.getLast?_cons_cons, List.dropLast_cons_cons]
  split <;> rfl

theorem labels_dot : labels [dot] = [[]] := @labels_front [] [] List.not_mem_nil

theorem labels_nil : labels [] = [] := labels_last List.not_mem_nil

theorem labels_eq_nil (none_ : labels name = []) : name = [] := by
  induction name using name_induction with
  | last label plain =>
    rw [labels_last plain] at none_
    by_contra some_
    rw [if_neg some_] at none_
    contradiction
  | front label rest plain ih =>
    rw [labels_front plain] at none_
    contradiction

theorem tolower_dot (c : Byte) : tolower c = dot ↔ c = dot := by
  revert c
  decide +kernel

theorem lower_plain : dot ∉ lower label ↔ dot ∉ label := by
  unfold lower
  rw [List.mem_map]
  constructor
  · intro plain inside
    exact plain ⟨dot, inside, rfl⟩
  · rintro plain ⟨c, inside, same⟩
    exact plain ((tolower_dot c).mp same ▸ inside)

theorem lower_length (name : List Byte) : (lower name).length = name.length := List.length_map _

theorem lower_front (label rest : List Byte) : lower (label ++ dot :: rest) = lower label ++ dot :: lower rest := by
  unfold lower
  rw [List.map_append, List.map_cons]
  rfl

theorem labels_lower (name : List Byte) : labels (lower name) = (labels name).map lower := by
  induction name using name_induction with
  | last label plain =>
    rw [labels_last plain, labels_last (lower_plain.mpr plain)]
    cases label <;> rfl
  | front label rest plain ih =>
    rw [lower_front, labels_front plain, labels_front (lower_plain.mpr plain), ih, List.map_cons]

theorem joined_nil (label : List Byte) : joined [] label = label := rfl

theorem joined_some (some_ : text ≠ []) : joined text label = text ++ dot :: label :=
  if_pos (List.length_pos_iff.mpr some_)

theorem lower_joined (text label : List Byte) : lower (joined text label) = joined (lower text) (lower label) := by
  unfold joined
  rw [lower_length]
  split
  · exact lower_front _ _
  · rfl

theorem joined_labels_some (some_ : text ≠ []) (more : labels name ≠ []) :
    (labels name).foldl joined text = text ++ dot :: name ∨
      (labels name).foldl joined text ++ [dot] = text ++ dot :: name := by
  induction name using name_induction generalizing text with
  | last label plain =>
    rw [labels_last plain] at more ⊢
    split at more
    · contradiction
    · rename_i last
      rw [if_neg last]
      exact .inl (joined_some some_)
  | front label rest plain ih =>
    rw [labels_front plain, List.foldl_cons, joined_some some_]
    by_cases ends : labels rest = []
    · right
      rw [ends, labels_eq_nil ends, List.foldl_nil, List.append_assoc]
      rfl
    · have both := @ih (text ++ dot :: label) (List.append_ne_nil_of_left_ne_nil some_ _) ends
      rw [List.append_assoc, List.cons_append] at both
      exact both

/-- Put together again, the labels are the name. -/
theorem joined_labels (filled : ∀ label ∈ labels name, label ≠ []) :
    (labels name).foldl joined [] = name ∨ (labels name).foldl joined [] ++ [dot] = name := by
  induction name using name_induction with
  | last label plain =>
    left
    rw [labels_last plain]
    split
    · rename_i empty
      exact empty.symm
    · rfl
  | front label rest plain _ =>
    rw [labels_front plain] at filled ⊢
    rw [List.foldl_cons, joined_nil]
    by_cases ends : labels rest = []
    · right
      rw [ends, labels_eq_nil ends]
      rfl
    · exact joined_labels_some (filled label List.mem_cons_self) ends

theorem labels_length (filled : ∀ label ∈ labels name, label ≠ []) : 2 * (labels name).length ≤ name.length + 1 := by
  induction name using name_induction with
  | last label plain =>
    rw [labels_last plain]
    split
    · exact Nat.zero_le _
    · rename_i some_
      have length := List.length_pos_iff.mpr some_
      rw [List.length_singleton]
      omega
  | front label rest plain ih =>
    rw [labels_front plain] at filled ⊢
    have others := ih fun label inside => filled label (List.mem_cons_of_mem _ inside)
    have length := List.length_pos_iff.mpr (filled label List.mem_cons_self)
    rw [List.length_cons, List.length_append, List.length_cons]
    omega

end

/-- The bytes that the compression pointer to an offset is written with. -/
def pointerBytes (offset : Nat) : List Byte := putBe 2 (BitVec.ofNat 16 offset ||| COMP_MASK.setWidth 16 <<< 8).toNat

/-- From a position on, the bytes spell labels (in lower case) up to the end of a name, over as many pointers as `hops`
    and with `behind` where the bytes of the name itself end. -/
inductive Spells (bytes : List Byte) (start : Nat) : Nat → List (List Byte) → Nat → Nat → Prop
  | root {pos : Nat} (zero : [0] <+: bytes.drop pos) : Spells bytes start pos [] 0 (pos + 1)
  | label {pos : Nat} {label : List Byte} {others : List (List Byte)} {hops behind : Nat}
      (written : (BitVec.ofNat 8 label.length :: label) <+: bytes.drop pos) (some_ : label ≠ [])
      (short : label.length ≤ LABEL_MAX) (spells : Spells bytes start (pos + 1 + label.length) others hops behind) :
      Spells bytes start pos (lower label :: others) hops behind
  | pointer {pos offset : Nat} {labels : List (List Byte)} {hops behind : Nat} (fits : offset ≤ OFFSET_MASK.toNat)
      (written : pointerBytes offset <+: bytes.drop pos) (spells : Spells bytes start (start + offset) labels hops behind) :
      Spells bytes start pos labels (hops + 1) (pos + 2)

section
variable {bytes more piece : List Byte} {start pos hops behind : Nat} {names : List (List Byte)} {mb : Mbuf}

theorem prefix_drop (extends_ : bytes <+: more) (here : piece <+: bytes.drop pos) : piece <+: more.drop pos := by
  obtain ⟨behind, rfl⟩ := extends_
  rw [List.drop_append]
  exact here.trans (List.prefix_append _ _)

/-- What has been written stays as it is when more is written behind it. -/
theorem Spells.extend (spells : Spells bytes start pos names hops behind) (extends_ : bytes <+: more) :
    Spells more start pos names hops behind := by
  induction spells with
  | root zero => exact .root (prefix_drop extends_ zero)
  | label written some_ short _ ih => exact .label (prefix_drop extends_ written) some_ short ih
  | pointer fits written _ ih => exact .pointer fits (prefix_drop extends_ written) ih

theorem drop_head {c : Byte} {rest : List Byte} (here : c :: rest <+: bytes.drop pos) :
    bytes[pos]? = some c ∧ rest <+: bytes.drop (pos + 1) := by
  obtain ⟨behind, eq⟩ := here
  constructor
  · have head := congrArg (fun l => l[0]?) eq
    rw [List.getElem?_drop] at head
    exact head.symm
  · refine ⟨behind, ?_⟩
    rw [← List.drop_drop, ← eq]
    rfl

theorem readAt_of {c : Byte} {rest : List Byte} (here : c :: rest <+: (mb.buf.take mb.endPos).drop pos) :
    readAt mb pos = some c := by
  obtain ⟨there, -⟩ := drop_head here
  rw [List.getElem?_take] at there
  unfold readAt
  split at there
  · rename_i inside
    rw [if_pos inside]
    exact there
  · contradiction

theorem short_plain {len : Nat} (short : len ≤ LABEL_MAX) :
    ¬ BitVec.ofNat 8 len &&& COMP_MASK = COMP_MASK := by
  have bound : ∀ len : Fin 64, ¬ BitVec.ofNat 8 len.val &&& COMP_MASK = COMP_MASK := by decide +kernel
  exact bound ⟨len, Nat.lt_succ_of_le short⟩

theorem labelAt_of {label : List Byte} (some_ : label ≠ []) (short : label.length ≤ LABEL_MAX)
    (here : (BitVec.ofNat 8 label.length :: label) <+: (mb.buf.take mb.endPos).drop pos) :
    labelAt mb pos = some label := by
  have read := readAt_of here
  obtain ⟨-, there⟩ := drop_head here
  have positive := List.length_pos_iff.mpr some_
  have len : (BitVec.ofNat 8 label.length).toNat = label.length := by
    rw [BitVec.toNat_ofNat]
    unfold LABEL_MAX at short
    omega
  have nonzero : BitVec.ofNat 8 label.length ≠ 0 := by
    intro zero
    have same := congrArg BitVec.toNat zero
    rw [len] at same
    exact absurd same (Nat.ne_of_gt positive)
  have fits := there.length_le
  rw [List.length_drop, List.length_take] at fits
  have whole : ¬ (BitVec.ofNat 8 label.length).toNat > mb.endPos - (pos + 1) := by
    rw [len]
    omega
  have taken : (mb.buf.drop (pos + 1)).take label.length = label := by
    obtain ⟨behind, eq⟩ := there
    rw [List.drop_take] at eq
    have front := congrArg (List.take label.length) eq
    rw [List.take_left, List.take_take, Nat.min_eq_left (by omega)] at front
    exact front.symm
  unfold labelAt
  rw [read]
  dsimp only
  rw [if_neg (not_or.mpr ⟨nonzero, not_or.mpr ⟨short_plain short, whole⟩⟩), len, taken]

theorem putBe_two (v : BitVec 16) : ∃ a b : Byte, putBe 2 v.toNat = [a, b] ∧ a ++ b = v := by
  refine ⟨.ofNat 8 (v.toNat / 256), .ofNat 8 v.toNat, rfl, ?_⟩
  have bound := v.isLt
  apply BitVec.eq_of_toNat_eq
  rw [BitVec.toNat_append, BitVec.toNat_ofNat, BitVec.toNat_ofNat,
    ← Nat.shiftLeft_add_eq_or_of_lt (Nat.mod_lt _ (by decide)), Nat.shiftLeft_eq]
  omega

theorem pointer_mask (v : BitVec 16) : (v ||| COMP_MASK.setWidth 16 <<< 8) &&& OFFSET_MASK = v &&& OFFSET_MASK := by
  have none_ : (COMP_MASK.setWidth 16 <<< 8 : BitVec 16) &&& OFFSET_MASK = 0 := by decide
  rw [BitVec.and_comm, BitVec.and_or_distrib_left, BitVec.and_comm OFFSET_MASK (COMP_MASK.setWidth 16 <<< 8), none_]
  simp [BitVec.and_comm]

theorem pointer_high {a b : Byte} {v : BitVec 16} (high : a ++ b = v ||| COMP_MASK.setWidth 16 <<< 8) :
    a &&& COMP_MASK = COMP_MASK := by
  have top : a = (v.extractLsb' 8 8) ||| COMP_MASK := by
    have part := congrArg (BitVec.extractLsb' 8 8) high
    rw [BitVec.extractLsb'_append_eq_left, BitVec.extractLsb'_or] at part
    exact part
  have all : ∀ a : Byte, (a ||| COMP_MASK) &&& COMP_MASK = COMP_MASK := by decide +kernel
  rw [top]
  exact all _

theorem offset_kept {offset : Nat} (fits : offset ≤ OFFSET_MASK.toNat) :
    (BitVec.ofNat 16 offset &&& OFFSET_MASK).toNat = offset := by
  have bound : offset ≤ 16383 := fits
  rw [BitVec.toNat_and, BitVec.toNat_ofNat, show OFFSET_MASK.toNat = 2 ^ 14 - 1 from rfl, Nat.and_two_pow_sub_one_eq_mod]
  omega

theorem pointerAt_of {offset : Nat} (fits : offset ≤ OFFSET_MASK.toNat) (room : start + offset < sizeValues)
    (here : pointerBytes offset <+: (mb.buf.take mb.endPos).drop pos) :
    pointerAt mb start pos = some (start + offset) ∧ behindPointer mb pos = pos + 2 := by
  obtain ⟨a, b, two, both⟩ := putBe_two (BitVec.ofNat 16 offset ||| COMP_MASK.setWidth 16 <<< 8)
  unfold pointerBytes at here
  rw [two] at here
  have read := readAt_of here
  have length := here.length_le
  rw [List.length_drop, List.length_take, List.length_cons, List.length_singleton] at length
  constructor
  · have left : ∃ rest, (mb.setPos pos).left = a :: b :: rest := by
      obtain ⟨rest, eq⟩ := here
      refine ⟨rest, ?_⟩
      rw [List.drop_take] at eq
      exact eq.symm
    obtain ⟨rest, left⟩ := left
    have word : (readNtohs (mb.setPos pos)).1 = a ++ b := by
      unfold readNtohs
      rw [left]
    unfold pointerAt
    rw [read]
    dsimp only
    rw [if_pos (pointer_high both), word, both, pointer_mask, offset_kept fits, Nat.add_comm, Nat.mod_eq_of_lt room]
  · unfold behindPointer
    rw [if_neg]
    omega

theorem Spells.pos_lt (spells : Spells bytes start pos names hops behind) : pos < bytes.length := by
  cases spells with
  | root zero =>
    have length := zero.length_le
    rw [List.length_drop, List.length_singleton] at length
    omega
  | label written =>
    have length := written.length_le
    rw [List.length_drop, List.length_cons] at length
    omega
  | pointer fits written =>
    have length := written.length_le
    rw [List.length_drop, pointerBytes, putBe_length] at length
    omega

/-- The decoder follows what is spelled. -/
theorem Spells.leads {text : List Byte} {taken : Nat} {first : Option Nat}
    (spells : Spells (mb.buf.take mb.endPos) start pos names hops behind) (small : mb.endPos ≤ sizeValues)
    (leads : Leads mb start text taken first pos) :
    ∃ text' first' pos', Leads mb start text' (taken + hops) first' pos' ∧ readAt mb pos' = some 0 ∧
      lower text' = names.foldl joined (lower text) ∧
      (first'.map (behindPointer mb)).getD (pos' + 1) = (first.map (behindPointer mb)).getD behind := by
  induction spells generalizing text taken first with
  | root zero => exact ⟨text, first, _, leads, readAt_of zero, rfl, rfl⟩
  | label written some_ short _ ih =>
    obtain ⟨text', first', pos', leads', zero, same, back⟩ := ih (leads.label (labelAt_of some_ short written))
    refine ⟨text', first', pos', leads', zero, ?_, back⟩
    rw [same, lower_joined, List.foldl_cons]
  | pointer fits written inner ih =>
    rename_i pos offset names hops behind
    have room := inner.pos_lt
    rw [List.length_take] at room
    obtain ⟨target, two⟩ := pointerAt_of fits (show start + offset < sizeValues by omega) written
    obtain ⟨text', first', pos', leads', zero, same, back⟩ := ih (leads.pointer target)
    refine ⟨text', first', pos', ?_, zero, same, ?_⟩
    · rw [Nat.add_comm hops 1, ← Nat.add_assoc]
      exact leads'
    · rw [back, ← two]
      cases first <;> rfl

theorem lower_zero {text : List Byte} (plain : 0 ∉ lower text) : 0 ∉ text := by
  intro inside
  apply plain
  unfold lower
  rw [List.mem_map]
  exact ⟨0, inside, by decide⟩

theorem takeWhile_plain {text : List Byte} (plain : 0 ∉ text) : (text ++ [0]).takeWhile (· != 0) = text := by
  rw [List.takeWhile_append_of_pos]
  · exact List.append_nil _
  · intro c inside
    exact bne_iff_ne.mpr fun zero => plain (zero ▸ inside)

/-- What is spelled is decoded, and the decoder ends behind the bytes of the name itself. -/
theorem Spells.decodes (spells : Spells (mb.buf.take mb.endPos) start mb.pos names hops behind)
    (inside : mb.endPos ≤ mb.buf.length) (small : mb.endPos ≤ sizeValues) (few : hops ≤ COMP_LOOP + 1)
    (fits : (names.foldl joined []).length ≤ bufSize - 1) (plain : 0 ∉ names.foldl joined []) :
    ∃ text, dnameDecode mb start (.name text behind) ∧ lower text = names.foldl joined [] := by
  obtain ⟨text, first, pos, leads, zero, same, back⟩ := spells.leads small .here
  rw [Nat.zero_add] at leads
  have short : text.length ≤ bufSize - 1 := by
    rw [← lower_length, same]
    exact fits
  have whole := takeWhile_plain (lower_zero (same.symm ▸ plain))
  have put : putChar text 0 = .ok (text ++ [0]) := if_pos (by unfold bufSize at short ⊢; omega)
  have done : dnameBody mb start ⟨pos, text, hops, first.map (behindPointer mb)⟩ = .inr (.name text behind) := by
    unfold dnameBody
    rw [if_pos (readAt_some zero), zero]
    dsimp only
    rw [if_pos rfl, put]
    dsimp only
    rw [whole, back]
    rfl
  exact ⟨text, (leads.reaches inside short few).returns (.done done), same⟩

end

end Baresip.Dns
