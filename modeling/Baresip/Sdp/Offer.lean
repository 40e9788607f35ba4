import Baresip.Sdp.Lines
import Baresip.Sdp.MediaLine

set_option linter.dupNamespace false

namespace Baresip.Sdp

open Re Library

variable {δ : Type} {pton : InetPton}

/-- The name and the protocol that `media_decode` finds in the value of an m line. -/
def asks (name proto : List Byte) (v : List Byte) : Bool :=
  match reRegex v mediaPattern with
  | .ok [name', _, proto', _] => name'.val == name && proto'.val == proto
  | _ => false

/-- What the values `before` leave of local media lines with a name and a protocol is what is behind the value
    `v`, which is now the media line `m`. -/
def Taken (lmedial : List (SdpMline δ)) (before : List (List Byte)) (v : List Byte) (m : SdpMline δ) : Prop :=
  ∃ name port proto fmtv : Pl, reRegex v mediaPattern = .ok [name, port, proto, fmtv] ∧ m.name = name.val ∧
    (m.proto = proto.val ∨ m.proto = cstr proto.val) ∧
    (∃ fresh : SdpMline δ, fresh.rfmtl = [] ∧
      m.rfmtl.map (·.id) = (mediaFormats (fmtv.val.length + 1) fresh fmtv.val).rfmtl.map (·.id)) ∧
    (lmedial.countP (·.named name.val proto.val) ≤ before.countP (asks name.val proto.val) → m.disabled = true)

/-- An offer to a session with the local media lines `lmedial` has got as far as the m lines `seen`. -/
structure Decoded (lmedial : List (SdpMline δ)) (seen : List (List Byte)) (s : SdpReader δ) : Prop where
  next : s.next = seen.length
  left : ∀ name proto, s.sess.lmedial.countP (·.named name proto) =
    lmedial.countP (·.named name proto) - seen.countP (asks name proto)
  unheard : ∀ m ∈ s.sess.lmedial, m.rfmtl = []
  length : s.sess.medial.length = seen.length
  line : ∀ i v, seen[i]? = some v → ∃ m, s.sess.medial[i]? = some m ∧ Taken lmedial (seen.take i) v m

theorem Taken.of_outline {lmedial : List (SdpMline δ)} {before : List (List Byte)} {v : List Byte} {m m' : SdpMline δ}
    (taken : Taken lmedial before v m) (same : outline m' = outline m) : Taken lmedial before v m' := by
  obtain ⟨name, port, proto, fmtv, read, name_, proto_, formats, off⟩ := taken
  have local_ : sdpMediaRreset m' = sdpMediaRreset m := congrArg Prod.fst same
  have ids : m'.rfmtl.map (·.id) = m.rfmtl.map (·.id) := congrArg Prod.snd same
  have name' : (sdpMediaRreset m').name = m.name := by rw [local_]; rfl
  have proto' : (sdpMediaRreset m').proto = m.proto := by rw [local_]; rfl
  have disabled' : (sdpMediaRreset m').disabled = m.disabled := by rw [local_]; rfl
  refine ⟨name, port, proto, fmtv, read, ?_, ?_, ?_, ?_⟩
  · exact name'.trans name_
  · rw [← proto'] at proto_
    exact proto_
  · rw [ids]
    exact formats
  · rw [← disabled'] at off
    exact off

theorem Decoded.of_same {lmedial : List (SdpMline δ)} {seen : List (List Byte)} {s s' : SdpReader δ}
    (decoded : Decoded lmedial seen s) (same : SameLines s s') : Decoded lmedial seen s' := by
  refine ⟨?_, ?_, ?_, ?_, ?_⟩
  · rw [SdpReader.next, same.media]
    exact decoded.next
  · rw [same.lmedial]
    exact decoded.left
  · rw [same.lmedial]
    exact decoded.unheard
  · have lengths := congrArg List.length same.medial
    rw [List.length_map, List.length_map] at lengths
    rw [lengths, decoded.length]
  · intro i v at_
    obtain ⟨m, line, taken⟩ := decoded.line i v at_
    have same_ := congrArg (fun l => l[i]?) same.medial
    simp only [List.getElem?_map, line, Option.map_some] at same_
    obtain ⟨m', line', outline_⟩ := Option.map_eq_some_iff.mp same_
    exact ⟨m', line', taken.of_outline outline_⟩

theorem countP_eraseP {α : Type*} {p : α → Bool} {l : List α} {a : α} (found : l.find? p = some a) (q : α → Bool) :
    (l.eraseP p).countP q + (if q a then 1 else 0) = l.countP q := by
  rw [← List.countP_cons]
  exact (perm_eraseP found).countP_eq q

theorem asks_found {v : List Byte} {name port proto fmtv : Pl}
    (read : reRegex v mediaPattern = .ok [name, port, proto, fmtv]) (name' proto' : List Byte) :
    asks name' proto' v = (name.val == name' && proto.val == proto') := by
  rw [asks, read]

theorem named_same {name proto name' proto' : List Byte} {m : SdpMline δ} (named : m.named name proto = true) :
    m.named name' proto' = (name == name' && proto == proto') := by
  unfold SdpMline.named at named ⊢
  rw [Bool.and_eq_true, beq_iff_eq, beq_iff_eq] at named
  rw [← named.1, ← named.2, BEq.comm, @BEq.comm _ _ _ proto']

theorem mediaFormats_named (calls : Nat) (m : SdpMline δ) (fmtv : List Byte) :
    (mediaFormats calls m fmtv).name = m.name ∧ (mediaFormats calls m fmtv).proto = m.proto ∧
      (mediaFormats calls m fmtv).disabled = m.disabled := by
  induction calls generalizing m fmtv with
  | zero => exact ⟨rfl, rfl, rfl⟩
  | succ calls ih =>
    rw [mediaFormats]
    split
    · exact ih _ _
    · exact ⟨rfl, rfl, rfl⟩

theorem cstr_letters {name : List Byte} (letters_ : ∀ c ∈ name, isLetter c = true) : cstr name = name := by
  rw [cstr, List.takeWhile_eq_self_iff]
  intro c member
  exact bne_iff_ne.mpr (letter_not_space (letters_ c member)).2

/-- The media line that is taken has the name and the protocol, and is disabled when none was left. -/
structure TakenFrom (sess : SdpSession δ) (name proto : Pl) (m : SdpMline δ) (lmedial : List (SdpMline δ)) :
    Prop where
  left : ∀ name' proto', lmedial.countP (·.named name' proto') =
    sess.lmedial.countP (·.named name' proto') - if name.val == name' && proto.val == proto' then 1 else 0
  subset : lmedial ⊆ sess.lmedial
  unheard : m.rfmtl = []
  sameName : m.name = name.val
  sameProto : m.proto = proto.val ∨ m.proto = cstr proto.val
  off : sess.lmedial.countP (·.named name.val proto.val) = 0 → m.disabled = true

theorem mediaTake_spec {sess : SdpSession δ} (unheard : ∀ m ∈ sess.lmedial, m.rfmtl = []) {name : Pl}
    (letters_ : ∀ c ∈ name.val, isLetter c = true) (proto : Pl) :
    TakenFrom sess name proto (mediaTake sess name proto).1 (mediaTake sess name proto).2 := by
  unfold mediaTake
  cases found : sdpMediaFind sess name proto with
  | none =>
    refine ⟨?_, List.Subset.refl _, rfl, cstr_letters letters_, .inr rfl, fun _ => rfl⟩
    intro name' proto'
    by_cases same : (name.val == name' && proto.val == proto') = true
    · rw [Bool.and_eq_true, beq_iff_eq, beq_iff_eq] at same
      have none_ : sess.lmedial.countP (·.named name' proto') = 0 := by
        rw [← same.1, ← same.2, List.countP_eq_zero]
        exact List.find?_eq_none.mp found
      rw [none_, Nat.zero_sub]
    · rw [if_neg same]
      rfl
  | some m =>
    have named := List.find?_some found
    have member := List.mem_of_find?_eq_some found
    have both := named
    unfold SdpMline.named at both
    rw [Bool.and_eq_true, beq_iff_eq, beq_iff_eq] at both
    refine ⟨?_, List.eraseP_subset, unheard m member, both.1.symm, .inl both.2.symm, ?_⟩
    · intro name' proto'
      have count := countP_eraseP found (·.named name' proto')
      rw [named_same named] at count
      dsimp only
      omega
    · intro zero
      exact absurd (List.countP_eq_zero.mp zero m member) (not_not.mpr named)

theorem TakenFrom.taken {lmedial rest : List (SdpMline δ)} {seen : List (List Byte)} {s : SdpReader δ} {v : List Byte}
    {name port proto fmtv : Pl} {m : SdpMline δ} (from_ : TakenFrom s.sess name proto m rest)
    (decoded : Decoded lmedial seen s) (read : reRegex v mediaPattern = .ok [name, port, proto, fmtv]) :
    Taken lmedial seen v (mediaRemote s.sess m port fmtv) := by
  obtain ⟨name_, proto_, disabled_⟩ := mediaFormats_named (fmtv.val.length + 1) m fmtv.val
  refine ⟨name, port, proto, fmtv, read, name_.trans from_.sameName, ?_, ⟨m, from_.unheard, rfl⟩, ?_⟩
  · have proto' := from_.sameProto
    rw [← proto_] at proto'
    exact proto'
  · intro none_
    have left := decoded.left name.val proto.val
    exact disabled_.trans (from_.off (left.trans (Nat.sub_eq_zero_of_le none_)))

theorem lines_concat {lmedial medial : List (SdpMline δ)} {seen : List (List Byte)} {v : List Byte} {m : SdpMline δ}
    (length : medial.length = seen.length)
    (line : ∀ i w, seen[i]? = some w → ∃ m, medial[i]? = some m ∧ Taken lmedial (seen.take i) w m)
    (new : Taken lmedial seen v m) (i : Nat) (w : List Byte) (at_ : (seen ++ [v])[i]? = some w) :
    ∃ m', (medial ++ [m])[i]? = some m' ∧ Taken lmedial ((seen ++ [v]).take i) w m' := by
  by_cases old : i < seen.length
  · rw [List.getElem?_append_left old] at at_
    obtain ⟨m', there, taken⟩ := line i w at_
    refine ⟨m', ?_, ?_⟩
    · rw [List.getElem?_append_left (by rw [length]; exact old), there]
    · rw [List.take_append_of_le_length (Nat.le_of_lt old)]
      exact taken
  · have last : i = seen.length := by
      have inside := (List.getElem?_eq_some_iff.mp at_).1
      rw [List.length_append, List.length_singleton] at inside
      omega
    subst last
    rw [List.getElem?_concat_length] at at_
    obtain rfl := Option.some.inj at_
    refine ⟨m, ?_, ?_⟩
    · rw [← length, List.getElem?_concat_length]
    · rw [List.take_left]
      exact new

theorem Decoded.media_step {lmedial : List (SdpMline δ)} {seen : List (List Byte)} {s s' : SdpReader δ} {v : List Byte}
    (decoded : Decoded lmedial seen s) (done : mediaDecode s true ⟨0, v⟩ = .ok s') :
    Decoded lmedial (seen ++ [v]) s' := by
  unfold mediaDecode at done
  dsimp only at done
  split at done
  · rename_i name port proto fmtv read
    have behind : s.sess.medial[seen.length]? = none := by
      rw [← decoded.length]
      exact List.getElem?_eq_none (Nat.le_refl _)
    rw [decoded.next, behind] at done
    dsimp only at done
    rw [if_neg (by decide)] at done
    have letters_ : ∀ c ∈ name.val, isLetter c = true := by
      obtain ⟨_, _, _, _, captures, -, all⟩ := media_shape read
      rw [(List.cons.inj captures).1]
      exact all
    have from_ := mediaTake_spec decoded.unheard letters_ proto
    generalize mediaTake s.sess name proto = taken at done from_
    rw [← Except.ok.inj done]
    refine ⟨?_, ?_, ?_, ?_, ?_⟩
    · show s.sess.medial.length + 1 = _
      rw [decoded.length, List.length_append, List.length_singleton]
    · intro name' proto'
      have left := decoded.left name' proto'
      rw [List.countP_append, List.countP_singleton, asks_found read]
      show taken.2.countP _ = _
      rw [from_.left, left, Nat.sub_sub]
    · intro m member
      exact decoded.unheard m (from_.subset member)
    · show (s.sess.medial ++ [_]).length = _
      rw [List.length_append, List.length_append, decoded.length]
      rfl
    · exact lines_concat decoded.length decoded.line (from_.taken decoded read)
  · contradiction

/-- The values of the m lines among lines. -/
def mediaLines (lines : List (Byte × List Byte)) : List (List Byte) :=
  lines.filterMap fun line => if line.1 = chr 'm' then some line.2 else none

theorem Decoded.run {lmedial : List (SdpMline δ)} {lines : List (Byte × List Byte)} {seen : List (List Byte)}
    {s s' : SdpReader δ} (decoded : Decoded lmedial seen s)
    (done : lines.foldlM (fun s l => lineDecode pton true s l.1 l.2) s = .ok s') :
    Decoded lmedial (seen ++ mediaLines lines) s' := by
  induction lines generalizing seen s with
  | nil =>
    obtain rfl := Except.ok.inj done
    rw [mediaLines, List.filterMap_nil, List.append_nil]
    exact decoded
  | cons line lines ih =>
    rw [List.foldlM_cons] at done
    cases step : lineDecode pton true s line.1 line.2 with
    | error err =>
      rw [step] at done
      contradiction
    | ok next =>
      rw [step] at done
      rcases lineDecode_cases step with ⟨media, taken⟩ | ⟨other, same⟩
      · have rest := ih (decoded.media_step taken) done
        rw [List.append_assoc] at rest
        rw [mediaLines, List.filterMap_cons, if_pos media]
        exact rest
      · have rest := ih (decoded.of_same same) done
        rw [mediaLines, List.filterMap_cons, if_neg other]
        exact rest

/-- A session that no message has been decoded into, which may have any local media lines. -/
structure Fresh (sess : SdpSession δ) : Prop where
  medial : sess.medial = []
  unheard : ∀ m ∈ sess.lmedial, m.rfmtl = []

theorem Fresh.decoded {sess : SdpSession δ} (fresh : Fresh sess) : Decoded sess.lmedial [] ⟨sess.forget, none⟩ := by
  refine ⟨rfl, fun _ _ => rfl, fresh.unheard, ?_, nofun⟩
  show (sess.medial.map sdpMediaRreset).length = 0
  rw [fresh.medial]
  rfl

end Baresip.Sdp
