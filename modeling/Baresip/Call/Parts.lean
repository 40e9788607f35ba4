import Baresip.Call.Multipart
import Mathlib.Data.List.TakeWhile

set_option linter.dupNamespace false

namespace Baresip.Multipart

open Re Library

/-- The delimiter of a boundary tag. -/
def delimiter (bnd : Pl) : List Byte := ascii "--" ++ bnd.val

/-- The message from a position on. -/
def rest (mb : Mbuf) (off : Nat) : Pl := ⟨off, (mb.buf.drop off).take (mb.endPos - off)⟩

/-- Where the boundaries of a text begin. -/
def boundaries (bnd text : Pl) : List Nat := marks (stands (delimiter bnd)) (delimiter bnd).length 0 text.off text.val

/-- The boundaries of a message, each with the next one. -/
def consecutive (bnd : Pl) (mb : Mbuf) : List (Nat × Nat) := neighbours (boundaries bnd (rest mb mb.pos))

def beginsLine (mb : Mbuf) (a : Nat) : Bool := a == mb.pos || mb.buf[a - 1]? == some (chr '\n')

/-- Where the line of a position is over, its line feed included. -/
def lineEnd (mb : Mbuf) (a : Nat) : Nat := a + (rest mb a).val.findIdx (· == chr '\n') + 1

/-- The lines of a message that begin with the delimiter. -/
def boundaryLines (bnd : Pl) (mb : Mbuf) : List Nat := (boundaries bnd (rest mb mb.pos)).filter (beginsLine mb)

/-- The part lies between two boundary lines, the next one and the one before it. -/
structure Between (mb : Mbuf) (bnd part : Pl) (a b : Nat) : Prop where
  next : (a, b) ∈ neighbours (boundaryLines bnd mb)
  behind : lineEnd mb a ≤ part.off
  before : part.off + part.val.length ≤ b
  text : part.val = (mb.buf.drop part.off).take part.val.length

/-- The header lines of a part, which name application/sdp, and its body behind the first empty line. -/
structure SdpPart (part : Pl) (hdrs body : List Byte) : Prop where
  text : part.val = hdrs ++ (ascii "\r\n" ++ body)
  lines : ascii "\r\n" <:+ hdrs
  first : ∀ i, i + 2 < hdrs.length → ¬ ascii "\r\n\r\n" <+: part.val.drop i
  some_ : body ≠ []
  names : ∃ front word after, hdrs = front ++ word ++ after ∧ word.map tolower = ascii "application/sdp"

/-- The window of the buffer is the body of that part. -/
def bodyWindow (mb : Mbuf) (part : Pl) (hdrs body : List Byte) : Mbuf :=
  { mb with pos := part.off + (hdrs.length + 2), endPos := part.off + (hdrs.length + 2) + body.length }

theorem emptyLine_exact {word : List Byte} (same : word.map tolower = (ascii "\r\n\r\n").map tolower) :
    word = ascii "\r\n\r\n" := by
  have cr : ∀ x : Byte, tolower x = tolower (chr '\r') → x = chr '\r' := by decide +kernel
  have lf : ∀ x : Byte, tolower x = tolower (chr '\n') → x = chr '\n' := by decide +kernel
  obtain ⟨a, word, rfl, first, same⟩ := List.map_eq_cons_iff.mp same
  obtain ⟨b, word, rfl, second, same⟩ := List.map_eq_cons_iff.mp same
  obtain ⟨c, word, rfl, third, same⟩ := List.map_eq_cons_iff.mp same
  obtain ⟨d, word, rfl, fourth, same⟩ := List.map_eq_cons_iff.mp same
  rw [cr a first, lf b second, cr c third, lf d fourth, List.map_eq_nil_iff.mp same, ascii_ofList]
  rfl

theorem emptyLine_parses : Regex.Parses (ascii "\r\n\r\n[^]+") (behind (ascii "\r\n\r\n")) := by
  have plain : ∀ c ∈ ascii "\r\n\r\n", c ≠ chr '\\' ∧ c ≠ chr '[' := by
    rw [ascii_ofList]
    decide
  have parses := behind_parses plain
  have whole : ascii "\r\n\r\n" ++ ascii "[^]+" = ascii "\r\n\r\n[^]+" := by
    rw [ascii_ofList, ascii_ofList, ascii_ofList]
    rfl
  rwa [whole] at parses

/-- The search for the body finds the first empty line that has something behind it. -/
theorem emptyLine_found {part body : Pl} (fits : part.val.length ≤ Regex.uint32Max)
    (found : reRegexFrom (ascii "\r\n\r\n[^]+") part.off part.val = .ok [body]) :
    ∃ before after, part.val = before ++ (ascii "\r\n\r\n" ++ after) ∧ after ≠ [] ∧
      body = ⟨part.off + before.length + 4, after⟩ ∧
      ∀ i < before.length, ¬ ascii "\r\n\r\n" <+: part.val.drop i := by
  obtain ⟨before, after, text, stands_, missed, captured⟩ :=
    (reRegexFrom_behind emptyLine_parses (by decide +kernel) fits part.off [body]).mp found
  have longer : 4 < after.length := stands_longer stands_
  have line : after = ascii "\r\n\r\n" ++ after.drop 4 := by
    conv_lhs => rw [← List.take_append_drop 4 after]
    exact congrArg (· ++ after.drop 4) (emptyLine_exact (stands_split stands_))
  refine ⟨before, after.drop 4, by rw [text, ← line], ?_, (List.cons.inj captured).1, ?_⟩
  · rw [← List.length_pos_iff, List.length_drop]
    omega
  · intro i less front
    have earlier := stands_of_prefix front (by
      rw [List.length_drop, text, List.length_append]
      show 4 < before.length + after.length - i
      omega)
    rw [missed i less] at earlier
    contradiction

theorem decodePart_cases {part : Pl} (fits : part.val.length ≤ Regex.uint32Max) (mb : Mbuf) :
    decodePart part mb = mb ∨
      ∃ hdrs body, SdpPart part hdrs body ∧ decodePart part mb = bodyWindow mb part hdrs body := by
  unfold decodePart
  split
  · rename_i body found
    obtain ⟨before, after, text, some_, rfl, first⟩ := emptyLine_found fits found
    have line : ascii "\r\n\r\n" = ascii "\r\n" ++ ascii "\r\n" := by
      rw [ascii_ofList, ascii_ofList]
      rfl
    have whole : part.val = (before ++ ascii "\r\n") ++ (ascii "\r\n" ++ after) := by
      rw [text, line, List.append_assoc, List.append_assoc]
    have length : (before ++ ascii "\r\n").length = before.length + 2 := List.length_append
    have width : part.off + before.length + 4 - part.off - 2 = (before ++ ascii "\r\n").length := by omega
    dsimp only
    rw [width, whole, List.take_left]
    cases named : reRegex (before ++ ascii "\r\n") (ascii "application/sdp") with
    | error err => exact .inl rfl
    | ok captures =>
      have names := reRegex_names (by rw [ascii_ofList]; decide) (by rw [ascii_ofList]; decide) named
      have lower : (ascii "application/sdp").map tolower = ascii "application/sdp" := by
        rw [ascii_ofList]
        decide
      rw [lower] at names
      refine .inr ⟨before ++ ascii "\r\n", after, ⟨whole, List.suffix_append _ _, ?_, some_, names⟩, ?_⟩
      · intro i less
        exact first i (by omega)
      · rw [bodyWindow, length]
        rfl
  · exact .inl rfl

/-- A tag that the pattern has as it is. -/
def Plain (bnd : Pl) : Prop := ∀ c ∈ bnd.val, c ≠ chr '\\' ∧ c ≠ chr '[' ∧ c ≠ 0

/-- A message buffer as large as the 32 bits of a size can say. -/
structure Content extends Unread where
  fits : mb.buf.length ≤ Regex.uint32Max

variable {bnd : Pl} {src : Content} {off a b : Nat}

theorem delimiter_length (bnd : Pl) : (delimiter bnd).length = bnd.val.length + 2 := by
  rw [delimiter, List.length_append, Nat.add_comm]
  rfl

theorem delimiter_plain (plain : Plain bnd) : ∀ c ∈ delimiter bnd, c ≠ chr '\\' ∧ c ≠ chr '[' ∧ c ≠ 0 := by
  rw [delimiter, List.forall_mem_append]
  exact ⟨by decide, plain⟩

theorem boundaryExpr_plain (plain : Plain bnd) {expr : List Byte} (printed : boundaryExpr bnd = some expr) :
    expr = delimiter bnd ++ ascii "[^]+" := by
  unfold boundaryExpr at printed
  dsimp only at printed
  split_ifs at printed
  rw [← Option.some.inj printed]
  apply List.takeWhile_eq_self_iff.mpr
  show ∀ c ∈ delimiter bnd ++ ascii "[^]+", (c != 0) = true
  rw [List.forall_mem_append]
  exact ⟨fun c member => bne_iff_ne.mpr (delimiter_plain plain c member).2.2, by decide⟩

theorem rest_length (inside : off ≤ src.mb.endPos) : (rest src.mb off).val.length = src.mb.endPos - off := by
  have allocated := src.inside
  rw [rest, List.length_take, List.length_drop]
  omega

theorem rest_drop (mb : Mbuf) (off k : Nat) : (rest mb off).val.drop k = (rest mb (off + k)).val := by
  rw [rest, rest, List.drop_take, List.drop_drop, Nat.sub_sub]

/-- The search for a boundary finds the first one, and goes on behind it. -/
theorem search_rest (plain : Plain bnd) (inside : off ≤ src.mb.endPos) :
    (boundaries bnd (rest src.mb off) = [] ∧
      ∃ err, search (delimiter bnd ++ ascii "[^]+") (rest src.mb off) = .ok (.error err)) ∨
    ∃ b, off ≤ b ∧ b + (delimiter bnd).length < src.mb.endPos ∧
      boundaries bnd (rest src.mb off) = b :: boundaries bnd (rest src.mb (b + (delimiter bnd).length)) ∧
      search (delimiter bnd ++ ascii "[^]+") (rest src.mb off) =
        .ok (.ok (rest src.mb (b + (delimiter bnd).length))) := by
  have plain_ : ∀ c ∈ delimiter bnd, c ≠ chr '\\' ∧ c ≠ chr '[' := fun c member =>
    ⟨(delimiter_plain plain c member).1, (delimiter_plain plain c member).2.1⟩
  have length := rest_length inside
  have allocated := src.inside
  have fits : (rest src.mb off).val.length ≤ Regex.uint32Max := by
    have bound := src.fits
    omega
  have some_ : delimiter bnd ++ ascii "[^]+" ≠ [] := List.append_ne_nil_of_right_ne_nil _ (by decide)
  have found := reRegexFrom_behind (behind_parses plain_) some_ fits off
  have one : ¬ 1 < argumentsFrom (delimiter bnd ++ ascii "[^]+") (rest src.mb off).off (rest src.mb off).val :=
    Nat.not_lt_of_le (behind_arguments plain_ _ _)
  rcases marks_cases (stands (delimiter bnd)) (rest src.mb off).val with none_ | ⟨before, after, text, more, stands_, none_⟩
  · left
    refine ⟨marks_none none_, ?_⟩
    rw [search, if_neg one]
    cases result : reRegexFrom (delimiter bnd ++ ascii "[^]+") (rest src.mb off).off (rest src.mb off).val with
    | error err => exact ⟨err, rfl⟩
    | ok captures =>
      obtain ⟨before, after, text, stands_, -⟩ := (found captures).mp result
      have longer := stands_longer stands_
      have here := none_ before.length (by rw [text, List.length_append]; omega)
      rw [text, List.drop_left, stands_] at here
      contradiction
  · right
    have longer := stands_longer stands_
    have whole : before.length + after.length = src.mb.endPos - off := by
      rw [← length, text, List.length_append]
    have behind_ : after.drop (delimiter bnd).length = (rest src.mb (off + before.length + (delimiter bnd).length)).val := by
      rw [Nat.add_assoc, ← rest_drop, text, List.drop_append, List.drop_of_length_le (Nat.le_add_right _ _),
        Nat.add_sub_cancel_left, List.nil_append]
    refine ⟨off + before.length, Nat.le_add_right _ _, by omega, ?_, ?_⟩
    · rw [boundaries, text, marks_first (by rw [delimiter_length]; omega) more stands_ (by rwa [← text]), behind_]
      rfl
    · have result : reRegexFrom (delimiter bnd ++ ascii "[^]+") (rest src.mb off).off (rest src.mb off).val = .ok _ :=
        (found _).mpr ⟨before, after, text, stands_, none_, rfl⟩
      rw [search, if_neg one, result, behind_]
      rfl

/-- The part between two boundaries. -/
def partBetween (mb : Mbuf) (bnd : Pl) (ab : Nat × Nat) : Pl :=
  let off := ab.1 + (delimiter bnd).length + 2
  ⟨off, (mb.buf.drop off).take (ab.2 - off)⟩

/-- Two boundaries with room for a line end between them. -/
def Apart (bnd : Pl) (ab : Nat × Nat) : Prop := ab.1 + (delimiter bnd).length + 2 ≤ ab.2

theorem partLen_apart (apart : Apart bnd (a, b)) (small : b + (delimiter bnd).length ≤ Regex.uint32Max) :
    partLen (rest src.mb (a + (delimiter bnd).length)) (rest src.mb (b + (delimiter bnd).length)) bnd =
      b - (a + (delimiter bnd).length + 2) := by
  unfold Apart at apart
  unfold Regex.uint32Max at small
  have length := delimiter_length bnd
  have two : (2 : BitVec 32).toNat = 2 := rfl
  simp only [partLen, rest, BitVec.toNat_sub, BitVec.toNat_ofNat, two]
  omega

/-- Where there is none, the length wraps. -/
theorem partLen_near (near : ¬ Apart bnd (a, b)) (behind_ : a + (delimiter bnd).length ≤ b) :
    Regex.uint32Max < a + (delimiter bnd).length + 2 +
      partLen (rest src.mb (a + (delimiter bnd).length)) (rest src.mb (b + (delimiter bnd).length)) bnd := by
  unfold Apart at near
  unfold Regex.uint32Max
  have length := delimiter_length bnd
  have two : (2 : BitVec 32).toNat = 2 := rfl
  simp only [partLen, rest, BitVec.toNat_sub, BitVec.toNat_ofNat, two]
  omega

instance (bnd : Pl) (ab : Nat × Nat) : Decidable (Apart bnd ab) := inferInstanceAs (Decidable (_ ≤ _))

/-- The loop hands on the parts between the boundaries as long as they are apart. -/
theorem parts_run (plain : Plain bnd) {left : Nat} {d : Decoded} (inside : a + (delimiter bnd).length ≤ src.mb.endPos)
    (enough : src.mb.endPos - (a + (delimiter bnd).length) ≤ left) :
    parts src.mb (delimiter bnd ++ ascii "[^]+") bnd left (rest src.mb (a + (delimiter bnd).length)) d =
      let bs := neighbours (a :: boundaries bnd (rest src.mb (a + (delimiter bnd).length)))
      if ∀ ab ∈ bs, Apart bnd ab then .ok ((bs.map (partBetween src.mb bnd)).foldl Decoded.part d)
      else .error .outside := by
  have length := delimiter_length bnd
  have alone : ∀ a, ∀ ab ∈ neighbours [a], Apart bnd ab := by simp
  dsimp only
  induction left generalizing a d with
  | zero =>
    have text := rest_length inside
    have none_ : boundaries bnd (rest src.mb (a + (delimiter bnd).length)) = [] := by
      rcases search_rest plain inside with ⟨none_, -⟩ | ⟨b, behind_, before, -⟩
      · exact none_
      · omega
    rw [none_, parts, if_neg (by omega), if_pos (alone a)]
    rfl
  | succ left ih =>
    have text := rest_length inside
    rw [parts]
    rcases search_rest plain inside with ⟨none_, err, stopped⟩ | ⟨b, behind_, before, first, next⟩
    · rw [none_, stopped, if_pos (alone a)]
      split_ifs
      · rfl
      · rfl
    · have allocated := src.inside
      have bound := src.fits
      rw [if_pos (by omega), next, first, neighbours_cons, List.map_cons, List.foldl_cons]
      simp only [List.forall_mem_cons]
      show (if src.mb.endPos < a + (delimiter bnd).length + 2 + _ then _ else _) = _
      by_cases apart : Apart bnd (a, b)
      · have span : a + (delimiter bnd).length + 2 ≤ b := apart
        rw [partLen_apart apart (by omega), if_neg (by omega)]
        simp only [apart, true_and]
        apply ih
        · omega
        · omega
      · have wrapped := @partLen_near bnd src a b apart behind_
        rw [if_pos (by omega), if_neg (fun both => apart both.1)]

theorem handed_foldl (l : List Pl) (d : Decoded) : (l.foldl Decoded.part d).handed = d.handed ++ l := by
  induction l generalizing d with
  | nil => exact (List.append_nil _).symm
  | cons part l ih =>
    rw [List.foldl_cons, ih]
    exact List.append_assoc ..

theorem window_foldl {l : List Pl} (fits : ∀ part ∈ l, part.val.length ≤ Regex.uint32Max) (d : Decoded) :
    (l.foldl Decoded.part d).mb = d.mb ∨
      ∃ part ∈ l, ∃ hdrs body, SdpPart part hdrs body ∧
        (l.foldl Decoded.part d).mb = bodyWindow d.mb part hdrs body := by
  induction l generalizing d with
  | nil => exact .inl rfl
  | cons part l ih =>
    rw [List.forall_mem_cons] at fits
    rw [List.foldl_cons]
    rcases ih fits.2 (d.part part) with same | ⟨later, member, hdrs, body, sdp, window⟩
    · rw [same]
      rcases decodePart_cases fits.1 d.mb with kept | ⟨hdrs, body, sdp, window⟩
      · exact .inl kept
      · exact .inr ⟨part, List.mem_cons_self, hdrs, body, sdp, window⟩
    · right
      refine ⟨later, List.mem_cons_of_mem _ member, hdrs, body, sdp, ?_⟩
      rw [window]
      rcases decodePart_cases fits.1 d.mb with kept | ⟨hdrs', body', -, earlier⟩
      · rw [Decoded.part, kept]
      · rw [Decoded.part, earlier]
        rfl

/-- What the parts of a message must be, and the window that is left for the session description. -/
structure Sound (ctype : List Byte) (mb : Mbuf) (d : Decoded) : Prop where
  between : ∀ part ∈ d.handed, ∃ bnd a b, boundaryTag ctype = .ok bnd ∧ Between mb bnd part a b
  window : d.mb = mb ∨
    ∃ part ∈ d.handed, ∃ hdrs body, SdpPart part hdrs body ∧ d.mb = bodyWindow mb part hdrs body
  ordered : d.mb.pos ≤ d.mb.endPos ∧ d.mb.endPos ≤ mb.endPos

def Safe (ctype : List Byte) (mb : Mbuf) : Prop :=
  ∃ err d, decodeMultipartSdp ctype mb = .ok (err, d) ∧ Sound ctype mb d

/-- The boundaries are apart, the first and the last of at least two begin a line, and where a line begins with one
    and another follows, the line is over two bytes behind the delimiter. -/
structure Tidy (bnd : Pl) (mb : Mbuf) : Prop where
  apart : ∀ ab ∈ consecutive bnd mb, Apart bnd ab
  ends : ∀ ab ∈ consecutive bnd mb, beginsLine mb ab.1 = true → lineEnd mb ab.1 ≤ ab.1 + (delimiter bnd).length + 2
  first : ∀ a ∈ (boundaries bnd (rest mb mb.pos)).dropLast.head?, beginsLine mb a = true
  last : ∀ b ∈ (boundaries bnd (rest mb mb.pos)).tail.getLast?, beginsLine mb b = true

/-- The boundaries of the message are tidy, or nothing that the pattern of the tag means is in it. -/
def Meets (ctype : List Byte) (mb : Mbuf) : Prop :=
  ∀ bnd expr, boundaryTag ctype = .ok bnd → boundaryExpr bnd = some expr →
    (Plain bnd ∧ Tidy bnd mb) ∨ ∃ err, search expr (rest mb mb.pos) = .ok (.error err)

theorem boundaries_inside (member : b ∈ boundaries bnd (rest src.mb src.mb.pos)) : b ≤ src.mb.endPos := by
  obtain ⟨before, after, text, -, rfl⟩ := marks_sound member
  have length := rest_length src.ordered
  have ordered := src.ordered
  rw [text, List.length_append] at length
  show src.mb.pos + before.length ≤ src.mb.endPos
  omega

theorem lineEnd_behind (mb : Mbuf) (a : Nat) : a < lineEnd mb a := by
  unfold lineEnd
  omega

theorem line_inside (member : b ∈ boundaryLines bnd src.mb) : b ≤ src.mb.endPos :=
  boundaries_inside (List.mem_filter.mp member).1

theorem Tidy.between (tidy : Tidy bnd src.mb) {ab : Nat × Nat} (member : ab ∈ consecutive bnd src.mb) :
    ∃ a b, Between src.mb bnd (partBetween src.mb bnd ab) a b := by
  obtain ⟨cd, next, left, right⟩ := neighbours_filter marks_sorted tidy.first tidy.last member
  have apart : ab.1 + (delimiter bnd).length + 2 ≤ ab.2 := tidy.apart ab member
  obtain ⟨inside, begins⟩ := List.mem_filter.mp (mem_of_neighbours next).1
  obtain ⟨z, pair⟩ := neighbours_of_lt marks_sorted inside (mem_of_neighbours member).2 (by omega)
  have closed : lineEnd src.mb cd.1 ≤ cd.1 + (delimiter bnd).length + 2 := tidy.ends (cd.1, z) pair begins
  have short : (partBetween src.mb bnd ab).val.length ≤ ab.2 - (ab.1 + (delimiter bnd).length + 2) :=
    List.length_take_le _ _
  refine ⟨cd.1, cd.2, next, ?_, ?_, List.prefix_iff_eq_take.mp (List.take_prefix _ _)⟩
  · show lineEnd src.mb cd.1 ≤ ab.1 + (delimiter bnd).length + 2
    omega
  · show ab.1 + (delimiter bnd).length + 2 + _ ≤ cd.2
    omega

/-- What the parts between the boundaries need is what they have where they are between boundary lines. -/
theorem tidy_of_between (apart : ∀ ab ∈ consecutive bnd src.mb, Apart bnd ab)
    (between : ∀ ab ∈ consecutive bnd src.mb, ∃ a b, Between src.mb bnd (partBetween src.mb bnd ab) a b) :
    Tidy bnd src.mb := by
  have around {ab : Nat × Nat} (member : ab ∈ consecutive bnd src.mb) :
      ∃ a b, (a, b) ∈ neighbours (boundaryLines bnd src.mb) ∧ a ≤ ab.1 ∧ ab.2 ≤ b ∧
        lineEnd src.mb a ≤ ab.1 + (delimiter bnd).length + 2 := by
    obtain ⟨a, b, inside⟩ := between ab member
    have span : ab.1 + (delimiter bnd).length + 2 ≤ ab.2 := apart ab member
    have closed : lineEnd src.mb a ≤ ab.1 + (delimiter bnd).length + 2 := inside.behind
    have last := boundaries_inside (mem_of_neighbours member).2
    have allocated := src.inside
    have length : (partBetween src.mb bnd ab).val.length = ab.2 - (ab.1 + (delimiter bnd).length + 2) := by
      rw [partBetween, List.length_take, List.length_drop]
      omega
    have before : ab.1 + (delimiter bnd).length + 2 + _ ≤ b := inside.before
    have begins := lineEnd_behind src.mb a
    refine ⟨a, b, inside.next, ?_, by omega, closed⟩
    rcases neighbours_around marks_sorted member (List.mem_filter.mp (mem_of_neighbours inside.next).1).1 with
      left | right
    · exact left
    · omega
  refine ⟨apart, ?_, ?_, ?_⟩
  · intro ab member begins
    obtain ⟨a, b, next, left, right, closed⟩ := around member
    have span : ab.1 + (delimiter bnd).length + 2 ≤ ab.2 := apart ab member
    have line : ab.1 ∈ boundaryLines bnd src.mb := List.mem_filter.mpr ⟨(mem_of_neighbours member).1, begins⟩
    rcases neighbours_around (marks_sorted.filter _) next line with upper | lower
    · rwa [Nat.le_antisymm left upper] at closed
    · have order : b ≤ ab.1 := lower
      omega
  · intro x first
    obtain ⟨y, member, lower⟩ := neighbours_head marks_sorted first
    obtain ⟨a, b, next, left, -⟩ := around member
    obtain ⟨inside, begins⟩ := List.mem_filter.mp (mem_of_neighbours next).1
    rwa [Nat.le_antisymm left (lower a inside)] at begins
  · intro x last
    obtain ⟨y, member, upper⟩ := neighbours_last marks_sorted last
    obtain ⟨a, b, next, -, right, -⟩ := around member
    obtain ⟨inside, begins⟩ := List.mem_filter.mp (mem_of_neighbours next).2
    rwa [Nat.le_antisymm (upper b inside) right] at begins

theorem Tidy.sound {ctype : List Byte} (tidy : Tidy bnd src.mb) (tag : boundaryTag ctype = .ok bnd) :
    Sound ctype src.mb (((consecutive bnd src.mb).map (partBetween src.mb bnd)).foldl Decoded.part ⟨src.mb, []⟩) := by
  have between : ∀ part ∈ (consecutive bnd src.mb).map (partBetween src.mb bnd),
      ∃ a b, Between src.mb bnd part a b :=
    List.forall_mem_map.mpr fun ab member => tidy.between member
  have within {part : Pl} {a b : Nat} (inside : Between src.mb bnd part a b) :
      part.off + part.val.length ≤ src.mb.endPos :=
    Nat.le_trans inside.before (line_inside (mem_of_neighbours inside.next).2)
  have fits : ∀ part ∈ (consecutive bnd src.mb).map (partBetween src.mb bnd),
      part.val.length ≤ Regex.uint32Max := by
    intro part member
    obtain ⟨a, b, inside⟩ := between part member
    have last := within inside
    have allocated := src.inside
    have bound := src.fits
    omega
  have handed := handed_foldl ((consecutive bnd src.mb).map (partBetween src.mb bnd)) ⟨src.mb, []⟩
  rw [List.nil_append] at handed
  have window := window_foldl fits ⟨src.mb, []⟩
  refine ⟨?_, ?_, ?_⟩
  · rw [handed]
    intro part member
    obtain ⟨a, b, inside⟩ := between part member
    exact ⟨bnd, a, b, tag, inside⟩
  · rw [handed]
    exact window
  · rcases window with same | ⟨part, member, hdrs, body, sdp, window⟩
    · rw [same]
      exact ⟨src.ordered, Nat.le_refl _⟩
    · obtain ⟨a, b, inside⟩ := between part member
      have last := within inside
      have length := congrArg List.length sdp.text
      rw [List.length_append, List.length_append] at length
      rw [window]
      refine ⟨Nat.le_add_right _ _, ?_⟩
      show part.off + (hdrs.length + 2) + body.length ≤ src.mb.endPos
      have two : (ascii "\r\n").length = 2 := rfl
      omega

theorem decode_plain {ctype expr : List Byte} (tag : boundaryTag ctype = .ok bnd)
    (printed : boundaryExpr bnd = some expr) (plain : Plain bnd) :
    if ∀ ab ∈ consecutive bnd src.mb, Apart bnd ab then
      ∃ err, decodeMultipartSdp ctype src.mb =
        .ok (err, ((consecutive bnd src.mb).map (partBetween src.mb bnd)).foldl
          Decoded.part ⟨src.mb, []⟩)
    else decodeMultipartSdp ctype src.mb = .error .outside := by
  obtain rfl := boundaryExpr_plain plain printed
  unfold decodeMultipartSdp
  rw [tag]
  dsimp only
  rw [printed]
  dsimp only
  rw [show (⟨src.mb.pos, src.mb.left⟩ : Pl) = rest src.mb src.mb.pos from rfl, consecutive]
  rcases search_rest plain src.ordered with ⟨none_, err, stopped⟩ | ⟨a, behind_, before, first, next⟩
  · rw [none_, stopped, if_pos (by simp)]
    exact ⟨some err, rfl⟩
  · have run := @parts_run bnd src a plain _ ⟨src.mb, []⟩ (Nat.le_of_lt before)
      (Nat.le_of_eq (rest_length (Nat.le_of_lt before)).symm)
    dsimp only at run
    rw [first, next]
    dsimp only
    rw [run]
    split_ifs
    · exact ⟨none, rfl⟩
    · rfl

theorem unchanged_safe {ctype : List Byte} {err : Errno}
    (run : decodeMultipartSdp ctype src.mb = .ok (some err, ⟨src.mb, []⟩)) : Safe ctype src.mb :=
  ⟨some err, ⟨src.mb, []⟩, run, nofun, .inl rfl, src.ordered, Nat.le_refl _⟩

theorem safe_of_meets {ctype : List Byte} (meets : Meets ctype src.mb) : Safe ctype src.mb := by
  cases tag : boundaryTag ctype with
  | error err =>
    apply @unchanged_safe src ctype err
    rw [decodeMultipartSdp, tag]
  | ok bnd =>
    cases printed : boundaryExpr bnd with
    | none =>
      apply @unchanged_safe src ctype .ENOMEM
      rw [decodeMultipartSdp, tag]
      dsimp only
      rw [printed]
    | some expr =>
      rcases meets bnd expr tag printed with ⟨plain, tidy⟩ | ⟨err, stopped⟩
      · have run := @decode_plain bnd src ctype expr tag printed plain
        rw [if_pos tidy.apart] at run
        obtain ⟨err, run⟩ := run
        exact ⟨err, _, run, tidy.sound tag⟩
      · apply @unchanged_safe src ctype err
        rw [decodeMultipartSdp, tag]
        dsimp only
        rw [printed]
        dsimp only
        rw [show (⟨src.mb.pos, src.mb.left⟩ : Pl) = rest src.mb src.mb.pos from rfl, stopped]

theorem Safe.tidy {ctype expr : List Byte} (safe : Safe ctype src.mb) (tag : boundaryTag ctype = .ok bnd)
    (printed : boundaryExpr bnd = some expr) (plain : Plain bnd) : Tidy bnd src.mb := by
  obtain ⟨err, d, run, sound⟩ := safe
  have result := @decode_plain bnd src ctype expr tag printed plain
  split_ifs at result with apart
  · obtain ⟨err', result⟩ := result
    obtain ⟨-, rfl⟩ := Prod.mk.inj (Except.ok.inj (run.symm.trans result))
    apply tidy_of_between apart
    intro ab member
    have handed : partBetween src.mb bnd ab ∈ (((consecutive bnd src.mb).map (partBetween src.mb bnd)).foldl
        Decoded.part ⟨src.mb, []⟩).handed := by
      rw [handed_foldl]
      exact List.mem_append_right _ (List.mem_map_of_mem member)
    obtain ⟨bnd', a, b, tag', between⟩ := sound.between _ handed
    obtain rfl := Except.ok.inj (tag.symm.trans tag')
    exact ⟨a, b, between⟩
  · rw [run] at result
    contradiction

/-- The search ends. The parts are sound when the boundaries are tidy, and for a plain tag only then. -/
theorem safe_iff_tidy (ctype : List Byte) (src : Content) :
    decodeMultipartSdp ctype src.mb ≠ .error .unfinished ∧ (Meets ctype src.mb → Safe ctype src.mb) ∧
      ((∀ bnd, boundaryTag ctype = .ok bnd → Plain bnd) → Safe ctype src.mb → Meets ctype src.mb) := by
  refine ⟨decode_finishes ctype src.mb, safe_of_meets, ?_⟩
  intro plain safe bnd expr tag printed
  exact .inl ⟨plain bnd tag, safe.tidy tag printed (plain bnd tag)⟩

def bTag : List Byte := ascii "multipart/mixed;boundary=b"

def oneSdp : Content where
  mb := ⟨ascii "--b\r\nContent-Type: application/sdp\r\n\r\nv=0\r\n--b--\r\n", 0, 50⟩
  ordered := by decide
  inside := by decide
  fits := by decide

theorem oneSdp_tidy : Meets bTag oneSdp.mb := by
  intro bnd expr tag printed
  have b : boundaryTag bTag = .ok ⟨25, ascii "b"⟩ := by
    rw [bTag, ascii_ofList]
    decide +kernel
  obtain rfl := Except.ok.inj (b.symm.trans tag)
  left
  constructor
  · show ∀ c ∈ ascii "b", c ≠ chr '\\' ∧ c ≠ chr '[' ∧ c ≠ 0
    decide
  · have text : oneSdp.mb = ⟨_, 0, 50⟩ := congrArg (Mbuf.mk · 0 50) (ascii_ofList _)
    rw [text]
    constructor
    all_goals decide +kernel

theorem safe_oneSdp : Safe bTag oneSdp.mb := (safe_iff_tidy bTag oneSdp).2.1 oneSdp_tidy

def adjacent : Content where
  mb := ⟨ascii "--b--b\r\n", 0, 8⟩
  ordered := by decide
  inside := by decide
  fits := by decide

/-- The length of the part between two adjacent boundaries wraps. -/
theorem adjacent_wraps : ¬ Safe bTag adjacent.mb := by
  rintro ⟨err, d, run, -⟩
  have outside : decodeMultipartSdp bTag adjacent.mb = .error .outside := by
    have text : adjacent.mb = ⟨_, 0, 8⟩ := congrArg (Mbuf.mk · 0 8) (ascii_ofList _)
    rw [text, bTag, ascii_ofList]
    decide +kernel
  rw [outside] at run
  contradiction

/-- A tag that reads an argument that is not there. -/
example : decodeMultipartSdp (ascii "multipart/mixed;boundary=[a]1") ⟨ascii "--ab\r\n", 0, 6⟩ = .error .arguments := by
  rw [ascii_ofList, ascii_ofList]
  decide +kernel

end Baresip.Multipart
