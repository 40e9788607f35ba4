import Baresip.Library.Fields
import Baresip.Re.SdpDecode

set_option linter.dupNamespace false

namespace Baresip.Sdp

open Re Library

def isNewline (c : Byte) : Bool := c == chr '\r' || c == chr '\n'

/-- A line's type and value. A type of 0 is passed over together with its equals sign. -/
def lineOf : List Byte → Option (Byte × List Byte)
  | c :: d :: val => if d = chr '=' then (if c = 0 then lineOf val else some (c, val)) else none
  | _ => none

def messageLines (mb : List Byte) : List (Byte × List Byte) := (fields isNewline mb).filterMap lineOf

def restOfLine (pl : List Byte) : List Byte := pl.takeWhile fun c => !isNewline c

def behindLine (pl : List Byte) : List Byte := pl.dropWhile fun c => !isNewline c

theorem isNewline_iff {c : Byte} : isNewline c = true ↔ c = chr '\r' ∨ c = chr '\n' := by
  simp [isNewline]

theorem behindLine_ends (pl : List Byte) : ∀ c ∈ (behindLine pl).head?, isNewline c = true := by
  intro c first
  have stops := List.head?_dropWhile_not (fun c => !isNewline c) pl
  rw [behindLine] at first
  rw [first] at stops
  simpa using stops

theorem restOfLine_inside {pl : List Byte} : ∀ c ∈ restOfLine pl, isNewline c = false := by
  intro c member
  simpa using List.mem_takeWhile_imp member

/-- The first line of a text that does not start with the end of one. -/
theorem messageLines_line {head : List Byte} (some_ : head ≠ []) (inside : ∀ c ∈ head, isNewline c = false)
    (pl : List Byte) :
    messageLines (head ++ pl) = (lineOf (head ++ restOfLine pl)).toList ++ messageLines (behindLine pl) := by
  have field : IsField isNewline (head ++ restOfLine pl) (behindLine pl) := by
    refine ⟨fun none_ => some_ (List.append_eq_nil_iff.mp none_).1, ?_, behindLine_ends pl⟩
    intro c member
    rcases List.mem_append.mp member with first | rest
    · exact inside c first
    · exact restOfLine_inside c rest
  have whole : head ++ pl = head ++ restOfLine pl ++ behindLine pl := by
    rw [List.append_assoc, restOfLine, behindLine, List.takeWhile_append_dropWhile]
  rw [messageLines, whole, fields_run field, List.filterMap_cons]
  cases lineOf (head ++ restOfLine pl) <;> rfl

/-- A line of type 0 is read on as if it had just begun. -/
theorem messageLines_behind (pl : List Byte) :
    messageLines pl = (lineOf (restOfLine pl)).toList ++ messageLines (behindLine pl) := by
  cases pl with
  | nil => rfl
  | cons c pl =>
    cases newline : isNewline c with
    | true =>
      have rest : restOfLine (c :: pl) = [] := by simp [restOfLine, newline]
      have behind : behindLine (c :: pl) = c :: pl := by simp [behindLine, newline]
      rw [rest, behind]
      rfl
    | false =>
      have line := @messageLines_line [c] (List.cons_ne_nil _ _) (by simpa using newline) pl
      have rest : restOfLine (c :: pl) = c :: restOfLine pl := by simp [restOfLine, newline]
      have behind : behindLine (c :: pl) = behindLine pl := by simp [behindLine, newline]
      rw [rest, behind]
      exact line

/-- What is still to be read: the rest of the line that has begun, if one has, and the lines behind it. -/
def unread (type : Byte) (val pl : List Byte) : List (Byte × List Byte) :=
  if type = 0 then messageLines pl else (type, val ++ restOfLine pl) :: messageLines (behindLine pl)

/-- A message that is accepted is the run of its lines. -/
theorem decodeLoop_accepted {σ : Type} {line : σ → Byte → List Byte → Except Errno σ} (s : σ) (type : Byte)
    (val pl : List Byte) (accepted : (decodeLoop line s type val pl).1 = none) :
    (unread type val pl).foldlM (fun s l => line s l.1 l.2) s = .ok (decodeLoop line s type val pl).2 := by
  fun_induction decodeLoop line s type val pl with
  | case1 s type val =>
    by_cases none_ : type = 0
    · rw [unread, if_pos none_]
      rfl
    · rw [if_neg none_] at accepted
      contradiction
  | case2 s val c pl newline ih =>
    have same : unread 0 val (c :: pl) = unread 0 [] pl := by
      rw [unread, if_pos rfl, unread, if_pos rfl, messageLines, fields_separator (isNewline_iff.mpr newline)]
      rfl
    rw [same]
    exact ih accepted
  | case3 => contradiction
  | case4 s type val c pl newline some_ s' taken ih =>
    have newline_ : isNewline c = true := isNewline_iff.mpr newline
    have same : unread type val (c :: pl) = (type, val) :: unread 0 [] pl := by
      rw [unread, if_neg some_, unread, if_pos rfl]
      simp [restOfLine, behindLine, newline_, messageLines, fields_separator newline_]
    rw [same, List.foldlM_cons, taken]
    exact ih accepted
  | case5 s type val c pl text some_ ih =>
    have text_ : isNewline c = false := Bool.eq_false_iff.mpr fun newline => text (isNewline_iff.mp newline)
    have same : unread type val (c :: pl) = unread type (val ++ [c]) pl := by
      rw [unread, if_neg some_, unread, if_neg some_]
      simp [restOfLine, behindLine, text_]
    rw [same]
    exact ih accepted
  | case6 => contradiction
  | case7 s type val c text none_ pl ih =>
    obtain rfl : type = 0 := not_not.mp none_
    have text_ : isNewline c = false := Bool.eq_false_iff.mpr fun newline => text (isNewline_iff.mp newline)
    have line_ := @messageLines_line [c, chr '='] (List.cons_ne_nil _ _)
      (List.forall_mem_cons.mpr ⟨text_, List.forall_mem_singleton.mpr (by decide)⟩) pl
    have same : unread 0 val (c :: chr '=' :: pl) = unread c [] pl := by
      rw [unread, if_pos rfl, unread]
      by_cases zero : c = 0
      · rw [if_pos zero]
        refine line_.trans ?_
        rw [messageLines_behind pl]
        simp [lineOf, zero]
      · have head : lineOf ([c, chr '='] ++ restOfLine pl) = some (c, restOfLine pl) := by
          show (if chr '=' = chr '=' then (if c = 0 then lineOf (restOfLine pl) else some (c, restOfLine pl)) else none) = _
          rw [if_pos rfl, if_neg zero]
        rw [if_neg zero]
        refine line_.trans ?_
        rw [head]
        rfl
    rw [same]
    exact ih accepted
  | case8 => contradiction

theorem sdpDecode_accepted {δ : Type} {pton : InetPton} {sess : SdpSession δ} {mb : List Byte} {offer : Bool}
    (accepted : (sdpDecode pton sess mb offer).1 = none) :
    ∃ s, (messageLines mb).foldlM (fun s l => lineDecode pton offer s l.1 l.2) ⟨sess.forget, none⟩ = .ok s ∧
      (sdpDecode pton sess mb offer).2 = { s.sess with medial := s.sess.medial.map fun m =>
        { m with toSdpMedia := sdpMediaAlignFormats m.toSdpMedia offer } } := by
  unfold sdpDecode at accepted ⊢
  have run := @decodeLoop_accepted _ (lineDecode pton offer) ⟨sess.forget, none⟩ 0 [] mb
  generalize decodeLoop _ _ _ _ _ = looped at accepted run ⊢
  obtain ⟨outcome, s⟩ := looped
  cases outcome with
  | some err => contradiction
  | none => exact ⟨s, run rfl, rfl⟩

variable {δ : Type} {pton : InetPton}

/-- What only an m line changes: the local side of the media lines and the formats that the peer has listed. -/
def outline (m : SdpMline δ) : SdpMline δ × List (Option String) := (sdpMediaRreset m, m.rfmtl.map (·.id))

structure SameLines (s s' : SdpReader δ) : Prop where
  media : s'.media = s.media
  lmedial : s'.sess.lmedial = s.sess.lmedial
  medial : s'.sess.medial.map outline = s.sess.medial.map outline
  laddr : s'.sess.laddr = s.sess.laddr
  lattrl : s'.sess.lattrl = s.sess.lattrl
  lbwv : s'.sess.lbwv = s.sess.lbwv
  ident : s'.sess.id = s.sess.id ∧ s'.sess.ver = s.sess.ver

theorem sameLines_refl (s : SdpReader δ) : SameLines s s := ⟨rfl, rfl, rfl, rfl, rfl, rfl, rfl, rfl⟩

theorem map_set_same {α β : Type*} (f : α → β) {l : List α} {i : Nat} {a b : α} (at_ : l[i]? = some a)
    (same : f b = f a) : (l.set i b).map f = l.map f := by
  apply List.ext_getElem?
  intro j
  rw [List.getElem?_map, List.getElem?_map, List.getElem?_set]
  by_cases here : i = j
  · subst here
    rw [if_pos rfl, at_, if_pos (List.getElem?_eq_some_iff.mp at_).1]
    exact congrArg some same
  · rw [if_neg here]

theorem map_modify_same {α β : Type*} (f : α → β) {g : α → α} (same : ∀ a, f (g a) = f a) (l : List α) (i : Nat) :
    (l.modify i g).map f = l.map f := by
  apply List.ext_getElem?
  intro j
  rw [List.getElem?_map, List.getElem?_map, List.getElem?_modify]
  cases l[j]? with
  | none => rfl
  | some a =>
    show some (f (if i = j then g a else a)) = some (f a)
    by_cases here : i = j
    · rw [if_pos here, same]
    · rw [if_neg here]

theorem perm_eraseP {α : Type*} {p : α → Bool} {l : List α} {a : α} (found : l.find? p = some a) :
    (a :: l.eraseP p).Perm l := by
  induction l with
  | nil => contradiction
  | cons b l ih =>
    cases here : p b with
    | true =>
      rw [List.find?_cons_of_pos here] at found
      rw [List.eraseP_cons_of_pos here, Option.some.inj found]
    | false =>
      rw [List.find?_cons_of_neg (by simp [here])] at found
      rw [List.eraseP_cons_of_neg (by simp [here])]
      exact (List.Perm.swap b a _).trans ((ih found).cons b)

theorem update_same {s : SdpReader δ} {media : SdpMline δ → SdpMline δ} {sess : SdpSession δ → SdpSession δ}
    (media_ : ∀ m, outline (media m) = outline m) (sess_ : SameLines s { s with sess := sess s.sess }) :
    SameLines s (s.update media sess) := by
  unfold SdpReader.update
  split
  · exact sess_
  · exact ⟨rfl, rfl, map_modify_same _ media_ _ _, rfl, rfl, rfl, rfl, rfl⟩

theorem onMedia_same {s s' : SdpReader δ} {f : SdpMline δ → Except Errno (SdpMline δ)}
    (media : ∀ m m', f m = .ok m' → outline m' = outline m) (done : s.onMedia f = .ok s') : SameLines s s' := by
  unfold SdpReader.onMedia at done
  split at done
  · rw [← Except.ok.inj done]
    exact sameLines_refl _
  · split at done
    · rw [← Except.ok.inj done]
      exact sameLines_refl _
    · rename_i m at_
      cases changed : f m with
      | error err =>
        rw [changed] at done
        contradiction
      | ok m' =>
        rw [changed] at done
        rw [← Except.ok.inj done]
        exact ⟨rfl, rfl, map_set_same _ at_ (media m m' changed), rfl, rfl, rfl, rfl, rfl⟩

theorem formatUpdate_ids {f : SdpFormat δ → SdpFormat δ} (same : ∀ fmt, (f fmt).id = fmt.id)
    (rfmtl : List (SdpFormat δ)) (id : Pl) :
    (sdpFormatUpdate rfmtl id f).map (·.id) = rfmtl.map (·.id) := by
  unfold sdpFormatUpdate
  induction rfmtl with
  | nil => rfl
  | cons fmt rfmtl ih =>
    rw [updateFirst]
    split
    · rw [List.map_cons, List.map_cons, same]
    · rw [List.map_cons, List.map_cons, ih]

theorem attrDecodeFmtp_same {pl : Pl} (m m' : SdpMline δ) (done : attrDecodeFmtp m pl = .ok m') :
    outline m' = outline m := by
  unfold attrDecodeFmtp at done
  split at done
  · rw [← Except.ok.inj done]
    refine Prod.ext rfl ?_
    apply formatUpdate_ids
    intro fmt
    rfl
  · contradiction

theorem attrDecodeRtpmap_same {pl : Pl} (m m' : SdpMline δ) (done : attrDecodeRtpmap m pl = .ok m') :
    outline m' = outline m := by
  unfold attrDecodeRtpmap at done
  split at done
  · rw [← Except.ok.inj done]
    refine Prod.ext rfl ?_
    apply formatUpdate_ids
    intro fmt
    rfl
  · contradiction

theorem attrDecodeRtcp_same {pl : Pl} (m m' : SdpMline δ) (done : attrDecodeRtcp pton m pl = .ok m') :
    outline m' = outline m := by
  unfold attrDecodeRtcp at done
  split at done
  · rw [← Except.ok.inj done]
    rfl
  · split at done
    · rw [← Except.ok.inj done]
      rfl
    · contradiction

theorem setDir_same (s : SdpReader δ) (dir : SdpDir) : SameLines s (s.setDir dir) := by
  apply update_same
  · exact fun _ => rfl
  · exact ⟨rfl, rfl, rfl, rfl, rfl, rfl, rfl, rfl⟩

theorem attrDecode_same {s s' : SdpReader δ} {pl : Pl} (done : attrDecode pton s pl = .ok s') : SameLines s s' := by
  unfold attrDecode at done
  dsimp only at done
  split_ifs at done
  · exact onMedia_same attrDecodeFmtp_same done
  · rw [← Except.ok.inj done]
    exact setDir_same s _
  · rw [← Except.ok.inj done]
    exact setDir_same s _
  · exact onMedia_same attrDecodeRtcp_same done
  · exact onMedia_same attrDecodeRtpmap_same done
  · rw [← Except.ok.inj done]
    exact setDir_same s _
  · rw [← Except.ok.inj done]
    exact setDir_same s _
  · rw [← Except.ok.inj done]
    unfold sdpAttrAdd
    apply update_same
    · exact fun _ => rfl
    · exact ⟨rfl, rfl, rfl, rfl, rfl, rfl, rfl, rfl⟩

theorem bandwidthDecode_same {s s' : SdpReader δ} {pl : Pl} (done : bandwidthDecode s pl = .ok s') :
    SameLines s s' := by
  unfold bandwidthDecode at done
  split at done
  · split at done
    · rw [← Except.ok.inj done]
      exact sameLines_refl _
    · rw [← Except.ok.inj done]
      apply update_same
      · exact fun _ => rfl
      · exact ⟨rfl, rfl, rfl, rfl, rfl, rfl, rfl, rfl⟩
  · contradiction

theorem connDecode_same {s s' : SdpReader δ} {pl : Pl} (done : connDecode pton s pl = .ok s') : SameLines s s' := by
  unfold connDecode at done
  split at done
  · rw [← Except.ok.inj done]
    apply update_same
    · exact fun _ => rfl
    · exact ⟨rfl, rfl, rfl, rfl, rfl, rfl, rfl, rfl⟩
  · contradiction

/-- A line that is taken is an m line, or changes nothing of that kind. -/
theorem lineDecode_cases {s s' : SdpReader δ} {offer : Bool} {type : Byte} {val : List Byte}
    (done : lineDecode pton offer s type val = .ok s') :
    type = chr 'm' ∧ mediaDecode s offer ⟨0, val⟩ = .ok s' ∨ type ≠ chr 'm' ∧ SameLines s s' := by
  unfold lineDecode at done
  split_ifs at done with attr bandwidth conn media
  · exact .inr ⟨by rw [attr]; decide, attrDecode_same done⟩
  · exact .inr ⟨by rw [bandwidth]; decide, bandwidthDecode_same done⟩
  · exact .inr ⟨by rw [conn]; decide, connDecode_same done⟩
  · exact .inl ⟨media, done⟩
  · rw [← Except.ok.inj done]
    exact .inr ⟨media, sameLines_refl _⟩
  · rw [← Except.ok.inj done]
    exact .inr ⟨media, sameLines_refl _⟩

end Baresip.Sdp
