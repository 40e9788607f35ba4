import Baresip.Dns.Encoding

set_option linter.dupNamespace false

namespace Baresip.Dns

open Re Library

/-- What is there after a name has been written: its bytes, and the names that have been added to the table. -/
structure Wrote (start : Nat) (bytes name : List Byte) (s r : EncodeSt) (bytes' : List Byte) : Prop where
  written : r.mb.Written bytes'
  kept : bytes <+: bytes'
  good : Good start bytes' name bytes.length
  entries : ∀ dn ∈ entries r.ht, dn ∈ Dns.entries s.ht ∨ Noted start bytes' dn

section
variable {start hops : Nat} {comp : Bool} {s r : EncodeSt} {bytes bytes' label rest name : List Byte} {dn : Dname}

theorem offset_eq {pos : Nat} (from_ : start ≤ pos) (small : pos < sizeValues) : start + offset pos start = pos := by
  have moved : pos + sizeValues - start = (pos - start) + sizeValues := by omega
  unfold offset
  rw [moved, Nat.add_mod_right, Nat.mod_eq_of_lt (by omega)]
  omega

/-- What is kept by each of the writes that names are encoded with. -/
structure WriteKeeps (P : EncodeSt → Prop) : Prop where
  write (s : EncodeSt) (data : List Byte) (holds : P s) : P { s with mb := s.mb.writeMem data }
  putAt (s : EncodeSt) (pos : Nat) (v : Byte) (holds : P s) : P { s with mb := s.mb.putAt pos v }
  append (s : EncodeSt) (name : List Byte) (pos : Nat) (holds : P s) : P { s with ht := dnameAppend s.ht name pos }

theorem WriteKeeps.loop {P : EncodeSt → Prop} (keeps : WriteKeeps P) (name : List Byte) (pos : Nat) (s : EncodeSt)
    (holds : P s) : P (encodeLoop start comp name pos s).2 := by
  induction name generalizing pos s with
  | nil =>
    unfold encodeLoop
    dsimp only
    split
    · exact holds
    · exact keeps.write _ _ (keeps.putAt _ _ _ holds)
  | cons c name ih =>
    unfold encodeLoop
    dsimp only
    split
    · split
      · exact holds
      · split
        · split
          · exact keeps.write _ _ (keeps.putAt _ _ _ holds)
          · exact ih _ _ (keeps.write _ _ (keeps.putAt _ _ _ holds))
        · exact ih _ _ (keeps.append _ _ _ (keeps.write _ _ (keeps.putAt _ _ _ holds)))
    · exact ih _ _ (keeps.write _ _ holds)

theorem WriteKeeps.labels {P : EncodeSt → Prop} (keeps : WriteKeeps P) (name : List Byte) (s : EncodeSt) (holds : P s) :
    P (encodeLabels start comp name s).2 := by
  unfold encodeLabels
  dsimp only
  split
  · exact keeps.write _ _ holds
  · exact keeps.loop _ _ _ (keeps.write _ _ holds)

theorem WriteKeeps.dname {P : EncodeSt → Prop} (keeps : WriteKeeps P) (name : List Byte) (s : EncodeSt) (holds : P s) :
    P (dnameEncode start comp name s).2 := by
  unfold dnameEncode
  split
  · split
    · exact keeps.write _ _ holds
    · exact keeps.labels _ _ holds
  · exact keeps.labels _ _ (keeps.append _ _ _ holds)

theorem pos_kept (least : Nat) : WriteKeeps fun s => least ≤ s.mb.pos where
  write _ data holds := Nat.le_trans holds (Nat.le_add_right _ data.length)
  putAt _ _ _ holds := holds
  append _ _ _ holds := holds

theorem ended_kept : WriteKeeps fun s => s.mb.pos ≤ s.mb.endPos where
  write _ _ _ := Nat.le_max_right _ _
  putAt _ _ _ holds := holds
  append _ _ _ holds := holds

theorem offsets_kept : WriteKeeps fun s => ∀ dn ∈ entries s.ht, dn.pos ≤ OFFSET_MASK.toNat where
  write _ _ holds := holds
  putAt _ _ _ holds := holds
  append s name pos holds := by
    intro dn inside
    rcases append_entries inside with old | ⟨rfl, fits⟩
    · exact holds dn old
    · exact fits

theorem Good.of_spells {pos behind : Nat} (filled : ∀ label ∈ labels name, label ≠ []) (few : hops ≤ (labels name).length)
    (spells : Spells bytes start pos (labels (lower name)) hops behind) : Good start bytes name pos := by
  have wire : wireLabels name = labels (lower name) := by
    unfold wireLabels
    rw [if_neg]
    intro root
    rw [lower_dot.mp root] at filled
    exact filled [] (labels_dot ▸ List.mem_singleton_self _) rfl
  intro _
  rw [wire]
  refine ⟨hops, behind, ?_, spells⟩
  rw [labels_lower, List.length_map]
  exact few

theorem written_here (bytes piece : List Byte) : piece <+: (bytes ++ piece).drop bytes.length := by
  rewrite [List.drop_left]
  exact List.prefix_rfl

theorem label_here (bytes piece more : List Byte) : piece <+: (bytes ++ piece ++ more).drop bytes.length := by
  rw [List.append_assoc, List.drop_left]
  exact List.prefix_append _ _

/-- A label is written, and then the rest of the name. -/
theorem Wrote.next {ht : Option (List Dname)} {mb : Mbuf} (from_ : start ≤ bytes.length) (small : r.mb.pos < sizeValues)
    (wrote : Wrote start (bytes ++ labelBytes label) rest
      ⟨mb, noteName ht rest (offset (bytes ++ labelBytes label).length start)⟩ r bytes')
    (good : Good start bytes' name bytes.length) (s : EncodeSt) (same : s.ht = ht) :
    Wrote start bytes name s r bytes' where
  written := wrote.written
  kept := (List.prefix_append _ _).trans wrote.kept
  good := good
  entries := by
    intro dn inside
    rcases wrote.entries dn inside with earlier | noted
    · rcases noteName_entries earlier with old | ⟨rfl, fits⟩
      · left
        rw [same]
        exact old
      · right
        have reached := wrote.kept.length_le
        have length := wrote.written.length
        have longer : start ≤ (bytes ++ labelBytes label).length := by
          rw [List.length_append]
          omega
        refine ⟨fits, ?_⟩
        rw [offset_eq longer (by omega)]
        exact wrote.good
    · exact .inr noted

theorem known_next {ht : Option (List Dname)} {pos : Nat} {piece : List Byte}
    (known : ∀ dn ∈ entries ht, dn.name.length < name.length → Noted start bytes dn) (shorter : rest.length < name.length) :
    ∀ dn ∈ entries (noteName ht rest pos), dn.name.length < rest.length → Noted start (bytes ++ piece) dn := by
  intro dn inside less
  rcases noteName_entries inside with old | ⟨rfl, -⟩
  · exact (known dn old (Nat.lt_trans less shorter)).extend (List.prefix_append _ _)
  · exact absurd less (Nat.lt_irrefl _)

theorem front_shorter (label rest : List Byte) : rest.length < (label ++ dot :: rest).length := by
  rw [List.length_append, List.length_cons]
  omega

/-- A name all of whose labels have a form is written so that it is spelled where it starts. -/
theorem encodeLoop_names (from_ : start ≤ bytes.length) (written : s.mb.Written (bytes ++ [0]))
    (known : ∀ dn ∈ entries s.ht, dn.name.length < name.length → Noted start bytes dn)
    (filled : ∀ label ∈ labels name, label ≠ [] ∧ label.length ≤ LABEL_MAX)
    (small : (encodeLoop start comp name bytes.length s).2.mb.pos < sizeValues) :
    (encodeLoop start comp name bytes.length s).1 = none ∧
      ∃ bytes' hops, Wrote start bytes name s (encodeLoop start comp name bytes.length s).2 bytes' ∧
        hops ≤ (labels name).length ∧ Spells bytes' start bytes.length (labels (lower name)) hops bytes'.length := by
  have some_ : ∀ label ∈ labels name, label ≠ [] := fun label inside => (filled label inside).1
  induction name using name_induction generalizing bytes s with
  | last label plain =>
    by_cases empty : label = []
    · subst empty
      rw [encodeLoop_done written]
      have spells : Spells (bytes ++ [0]) start bytes.length (labels (lower [])) 0 (bytes ++ [0]).length := by
        rw [List.length_append, show lower [] = [] from rfl, labels_nil]
        exact .root (written_here _ _)
      exact ⟨rfl, _, 0, ⟨written, List.prefix_append _ _, .of_spells some_ (Nat.zero_le _) spells, fun _ => .inl⟩,
        Nat.zero_le _, spells⟩
    · have short := (filled label (by rw [labels_last plain, if_neg empty]; exact List.mem_singleton_self _)).2
      rw [encodeLoop_last written plain empty]
      have spells : Spells (bytes ++ labelBytes label ++ [0]) start bytes.length (labels (lower label)) 0
          (bytes ++ labelBytes label ++ [0]).length := by
        rw [labels_last (lower_plain.mpr plain), if_neg (fun none_ => empty (lower_nil.mp none_))]
        have ends : bytes.length + 1 + label.length = (bytes ++ labelBytes label).length := by
          rw [List.length_append, labelBytes, List.length_cons]
          omega
        have total : (bytes ++ labelBytes label ++ [0]).length = (bytes ++ labelBytes label).length + 1 :=
          List.length_append
        rw [total]
        refine .label (label_here _ _ _) empty short ?_
        rw [ends]
        exact .root (written_here _ _)
      exact ⟨rfl, _, 0, ⟨(written_label written label).write [0],
        (List.prefix_append _ _).trans (List.prefix_append _ _), .of_spells some_ (Nat.zero_le _) spells, fun _ => .inl⟩,
        Nat.zero_le _, spells⟩
  | front label rest plain ih =>
    rw [labels_front plain] at filled
    have full := (filled label List.mem_cons_self).1
    have short := (filled label List.mem_cons_self).2
    have others := fun label inside => filled label (List.mem_cons_of_mem _ inside)
    have ends : bytes.length + 1 + label.length = (bytes ++ labelBytes label).length := by
      rw [List.length_append, labelBytes, List.length_cons]
      omega
    have wire : labels (lower (label ++ dot :: rest)) = lower label :: labels (lower rest) := by
      rw [lower_front, labels_front (lower_plain.mpr plain)]
    by_cases missed : comp = true → dnameLookup s.ht rest = none
    · rw [encodeLoop_next written plain full missed] at small ⊢
      have longer : start ≤ (bytes ++ labelBytes label).length := by
        rw [List.length_append]
        omega
      obtain ⟨ok, bytes', hops, wrote, few, spells⟩ := ih longer ((written_label written label).write [0])
        (known_next known (front_shorter label rest)) others small (fun label inside => (others label inside).1)
      have whole : Spells bytes' start bytes.length (labels (lower (label ++ dot :: rest))) hops bytes'.length := by
        rw [wire]
        refine .label ?_ full short (ends ▸ spells)
        exact prefix_drop wrote.kept (written_here _ _)
      have length : hops ≤ (labels (label ++ dot :: rest)).length := by
        rw [labels_front plain, List.length_cons]
        omega
      exact ⟨ok, bytes', hops, wrote.next from_ small (.of_spells some_ length whole) s rfl, length, whole⟩
    · obtain ⟨on, found⟩ := Classical.not_imp.mp missed
      obtain ⟨dn, found⟩ := Option.ne_none_iff_exists'.mp found
      rw [encodeLoop_hit written plain full on found]
      obtain ⟨inside, same⟩ := lookup_some found
      have lengths : dn.name.length = rest.length := by
        rw [← lower_length dn.name, same, lower_length]
      obtain ⟨fits, good⟩ := known dn inside (lengths ▸ front_shorter label rest)
      have notRoot : rest ≠ [dot] := by
        rintro rfl
        exact (others [] (labels_dot ▸ List.mem_singleton_self _)).1 rfl
      obtain ⟨hops, behind, few, spells⟩ := good.of_same same (.inr others)
      have wireRest : wireLabels rest = labels (lower rest) := if_neg fun root => notRoot (lower_dot.mp root)
      rw [wireRest, labels_lower, List.length_map] at few
      rw [wireRest] at spells
      have written' := (written_label written label).write (pointerBytes dn.pos)
      have whole : Spells (bytes ++ labelBytes label ++ pointerBytes dn.pos) start bytes.length
          (labels (lower (label ++ dot :: rest))) (hops + 1) (bytes ++ labelBytes label ++ pointerBytes dn.pos).length := by
        rw [wire]
        refine .label (label_here _ _ _) full short ?_
        have total : (bytes ++ labelBytes label ++ pointerBytes dn.pos).length = (bytes ++ labelBytes label).length + 2 := by
          rw [List.length_append, pointerBytes, putBe_length]
        rw [ends, total]
        refine .pointer fits (written_here _ _) (spells.extend ?_)
        exact (List.prefix_append _ _).trans (List.prefix_append _ _)
      have length : hops + 1 ≤ (labels (label ++ dot :: rest)).length := by
        rw [labels_front plain, List.length_cons]
        omega
      exact ⟨rfl, _, hops + 1, ⟨written', (List.prefix_append _ _).trans (List.prefix_append _ _),
        .of_spells some_ length whole, fun _ => .inl⟩, length, whole⟩

theorem Good.of_empty {pos : Nat} (empty : HasEmptyLabel name) : Good start bytes name pos :=
  fun representable => absurd representable empty.not_representable

theorem Good.of_root {pos : Nat} (zero : [0] <+: bytes.drop pos) : Good start bytes [dot] pos :=
  fun _ => ⟨0, pos + 1, Nat.zero_le _, .root zero⟩

/-- A name that is refused leaves nothing behind that could be taken for another name. -/
theorem encodeLoop_refused (from_ : start ≤ bytes.length) (written : s.mb.Written (bytes ++ [0]))
    (empty : [] ∈ labels name) (unnoted : comp = true → ∀ rest, Behind name rest → dnameLookup s.ht rest = none)
    (small : (encodeLoop start comp name bytes.length s).2.mb.pos < sizeValues) :
    ∃ bytes', Wrote start bytes name s (encodeLoop start comp name bytes.length s).2 bytes' := by
  induction name using name_induction generalizing bytes s with
  | last label plain =>
    rw [labels_last plain] at empty
    split at empty
    · contradiction
    · rename_i some_
      exact absurd (List.mem_singleton.mp empty).symm some_
  | front label rest plain ih =>
    by_cases some_ : label = []
    · subst some_
      rw [List.nil_append, encodeLoop_empty written]
      refine ⟨bytes ++ [0], written, List.prefix_append _ _, ?_, fun _ => .inl⟩
      by_cases root : rest = []
      · rw [root]
        exact .of_root (written_here _ _)
      · exact .of_empty ⟨by simp [root], empty⟩
    · have missed : comp = true → dnameLookup s.ht rest = none := fun on => unnoted on rest (.first some_ plain)
      rw [encodeLoop_next written plain some_ missed] at small ⊢
      have longer : start ≤ (bytes ++ labelBytes label).length := by
        rw [List.length_append]
        omega
      have notRoot : label ++ dot :: rest ≠ [dot] := by
        intro root
        exact some_ (front_unique plain (show dot ∉ [] from List.not_mem_nil) root).1
      have inner : [] ∈ labels rest := by
        rw [labels_front plain, List.mem_cons] at empty
        exact empty.resolve_left (Ne.symm some_)
      have unnoted' : comp = true → ∀ tail, Behind rest tail →
          dnameLookup (noteName s.ht rest (offset (bytes ++ labelBytes label).length start)) tail = none := by
        intro on tail behind
        rw [noteName_lookup behind.shorter]
        exact unnoted on tail (.later some_ plain behind)
      obtain ⟨bytes', wrote⟩ := ih longer ((written_label written label).write [0]) inner unnoted' small
      exact ⟨bytes', wrote.next from_ small (.of_empty ⟨notRoot, empty⟩) s rfl⟩

/-- The message so far, and a table of the names in it. -/
structure Table (start : Nat) (s : EncodeSt) (bytes : List Byte) : Prop where
  written : s.mb.Written bytes
  from_ : start ≤ bytes.length
  noted : ∀ dn ∈ entries s.ht, Noted start bytes dn

theorem dnameEncode_hit (on : comp = true) (found : dnameLookup s.ht name = some dn) :
    dnameEncode start comp name s = (none, { s with mb := encodePointer s.mb dn.pos }) := by
  unfold dnameEncode
  rw [found]
  exact if_pos on

theorem dnameEncode_next (missed : comp = true → dnameLookup s.ht name = none) :
    dnameEncode start comp name s =
      encodeLabels start comp name { s with ht := noteName s.ht name (offset s.mb.pos start) } := by
  unfold dnameEncode noteName
  cases found : dnameLookup s.ht name with
  | none => rfl
  | some dn =>
    have off : ¬ comp = true := fun on => by rw [missed on] at found; contradiction
    exact if_neg off

theorem encodeLabels_root : encodeLabels start comp [dot] s = (none, { s with mb := s.mb.writeU8 0 }) := by
  unfold encodeLabels
  exact if_pos rfl

theorem encodeLabels_loop (notRoot : name ≠ [dot]) :
    encodeLabels start comp name s = encodeLoop start comp name s.mb.pos { s with mb := s.mb.writeU8 0 } := by
  unfold encodeLabels
  exact if_neg notRoot

/-- The name is added to the table, and what the table then holds is found once the name is written. -/
theorem Table.next (table : Table start s bytes) (small : r.mb.pos < sizeValues) {mb : Mbuf}
    (wrote : Wrote start bytes name ⟨mb, noteName s.ht name (offset bytes.length start)⟩ r bytes') :
    Table start r bytes' where
  written := wrote.written
  from_ := Nat.le_trans table.from_ wrote.kept.length_le
  noted := by
    intro dn inside
    rcases wrote.entries dn inside with earlier | noted
    · rcases noteName_entries earlier with old | ⟨rfl, fits⟩
      · exact (table.noted dn old).extend wrote.kept
      · have reached := wrote.kept.length_le
        have length := wrote.written.length
        have longer := table.from_
        refine ⟨fits, ?_⟩
        rw [offset_eq longer (by omega)]
        exact wrote.good
    · exact noted

theorem Table.known (table : Table start s bytes) :
    ∀ dn ∈ entries (noteName s.ht name (offset bytes.length start)), dn.name.length < name.length →
      Noted start bytes dn := by
  intro dn inside less
  rcases noteName_entries inside with old | ⟨rfl, -⟩
  · exact table.noted dn old
  · exact absurd less (Nat.lt_irrefl _)

/-- A name that has a form is written, and spelled where it starts. -/
theorem dnameEncode_names (table : Table start s bytes) (representable : Representable name)
    (small : (dnameEncode start comp name s).2.mb.pos < sizeValues) :
    (dnameEncode start comp name s).1 = none ∧
      ∃ bytes' hops, Table start (dnameEncode start comp name s).2 bytes' ∧ bytes <+: bytes' ∧
        hops ≤ (wireLabels name).length + 1 ∧
        Spells bytes' start bytes.length (wireLabels name) hops bytes'.length := by
  by_cases missed : comp = true → dnameLookup s.ht name = none
  · rw [dnameEncode_next missed] at small ⊢
    by_cases root : name = [dot]
    · subst root
      rw [encodeLabels_root] at small ⊢
      have spells : Spells (bytes ++ [0]) start bytes.length (wireLabels [dot]) 0 (bytes ++ [0]).length := by
        rw [List.length_append]
        exact .root (written_here _ _)
      rw [table.written.length] at small ⊢
      have wrote : Wrote start bytes [dot] ⟨s.mb, noteName s.ht [dot] (offset bytes.length start)⟩
          ⟨s.mb.writeU8 0, noteName s.ht [dot] (offset bytes.length start)⟩ (bytes ++ [0]) :=
        ⟨table.written.write [0], List.prefix_append _ _, .of_root (written_here _ _), fun _ => .inl⟩
      exact ⟨rfl, bytes ++ [0], 0, table.next small wrote, List.prefix_append _ _, Nat.zero_le _, spells⟩
    · have filled := representable.resolve_left root
      rw [encodeLabels_loop root] at small ⊢
      dsimp only at small ⊢
      rw [table.written.length] at small ⊢
      obtain ⟨ok, bytes', hops, wrote, few, spells⟩ :=
        encodeLoop_names table.from_ (table.written.write [0]) table.known filled small
      have wire : wireLabels name = labels (lower name) := if_neg fun same => root (lower_dot.mp same)
      refine ⟨ok, bytes', hops, table.next small wrote, wrote.kept, ?_, ?_⟩
      · rw [wire, labels_lower, List.length_map]
        omega
      · rw [wire]
        exact spells
  · obtain ⟨on, found⟩ := Classical.not_imp.mp missed
    obtain ⟨dn, found⟩ := Option.ne_none_iff_exists'.mp found
    rw [dnameEncode_hit on found]
    obtain ⟨inside, same⟩ := lookup_some found
    obtain ⟨fits, good⟩ := table.noted dn inside
    obtain ⟨hops, behind, few, spells⟩ := good.of_same same representable
    have extends_ : bytes <+: bytes ++ pointerBytes dn.pos := List.prefix_append _ _
    refine ⟨rfl, bytes ++ pointerBytes dn.pos, hops + 1, ⟨table.written.write _, ?_, ?_⟩, extends_, by omega, ?_⟩
    · exact Nat.le_trans table.from_ extends_.length_le
    · exact fun dn inside => (table.noted dn inside).extend extends_
    · rw [List.length_append, show (pointerBytes dn.pos).length = 2 from putBe_length _ _]
      exact .pointer fits (written_here _ _) (spells.extend extends_)

theorem dnameEncode_refused_iff (table : Table start s bytes) :
    (dnameEncode start comp name s).1 = some .EINVAL ↔ HasEmptyLabel name ∧ (comp = true → Unnoted s.ht name) := by
  by_cases missed : comp = true → dnameLookup s.ht name = none
  · rw [dnameEncode_next missed]
    by_cases root : name = [dot]
    · rw [root, encodeLabels_root]
      simp [HasEmptyLabel]
    · rw [encodeLabels_loop root]
      dsimp only
      rw [table.written.length, encodeLoop_refused_iff (table.written.write [0])]
      constructor
      · rintro ⟨empty, unnoted⟩
        refine ⟨⟨root, empty⟩, fun on => ⟨missed on, ?_⟩⟩
        intro rest behind
        rw [← noteName_lookup behind.shorter]
        exact unnoted on rest behind
      · rintro ⟨⟨-, empty⟩, unnoted⟩
        refine ⟨empty, ?_⟩
        intro on rest behind
        rw [noteName_lookup behind.shorter]
        exact (unnoted on).2 rest behind
  · obtain ⟨on, found⟩ := Classical.not_imp.mp missed
    obtain ⟨dn, found⟩ := Option.ne_none_iff_exists'.mp found
    rw [dnameEncode_hit on found]
    constructor
    · intro err
      contradiction
    · rintro ⟨-, unnoted⟩
      rw [(unnoted on).1] at found
      contradiction

theorem dnameEncode_refused (table : Table start s bytes) (empty : HasEmptyLabel name)
    (unnoted : comp = true → Unnoted s.ht name) (small : (dnameEncode start comp name s).2.mb.pos < sizeValues) :
    ∃ bytes', Table start (dnameEncode start comp name s).2 bytes' ∧ bytes <+: bytes' := by
  rw [dnameEncode_next fun on => (unnoted on).1, encodeLabels_loop empty.1] at small ⊢
  dsimp only at small ⊢
  rw [table.written.length] at small ⊢
  have unnoted' : comp = true → ∀ rest, Behind name rest →
      dnameLookup (noteName s.ht name (offset bytes.length start)) rest = none := by
    intro on rest behind
    rw [noteName_lookup behind.shorter]
    exact (unnoted on).2 rest behind
  obtain ⟨bytes', wrote⟩ := encodeLoop_refused table.from_ (table.written.write [0]) empty.2 unnoted' small
  exact ⟨bytes', table.next small wrote, wrote.kept⟩

end

end Baresip.Dns
