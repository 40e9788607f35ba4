import Baresip.Library.Fields
import Baresip.Re.Pattern
import Baresip.Re.SdpDecode

set_option linter.dupNamespace false

namespace Baresip.Sdp

open Re Library

def isSpace (c : Byte) : Bool := c == chr ' '

def isLetter (c : Byte) : Bool := (chr 'a' ≤ c && c ≤ chr 'z') || (chr 'A' ≤ c && c ≤ chr 'Z')

/-- The value of an m line: `<media> <port> <proto> <fmt> ...`. -/
structure MLine where
  name : List Byte
  port : List Byte
  proto : List Byte
  fmts : List (List Byte)
  deriving DecidableEq, Repr

def spaced (tokens : List (List Byte)) : List Byte := tokens.flatMap (chr ' ' :: ·)

def MLine.text (l : MLine) : List Byte := l.name ++ spaced (l.port :: l.proto :: l.fmts)

/-- The fields of an m line that is written with single spaces and without zero bytes. -/
def MLine.read (v : List Byte) : Option MLine :=
  match fields isSpace v with
  | name :: port :: proto :: fmts =>
    let l : MLine := ⟨name, port, proto, fmts⟩
    if l.text = v ∧ ¬ v.contains 0 then some l else none
  | _ => none

structure Token (t : List Byte) : Prop where
  some_ : t ≠ []
  inside : ∀ c ∈ t, isSpace c = false
  plain : 0 ∉ t

structure MLine.Tokens (l : MLine) : Prop where
  name : Token l.name
  port : Token l.port
  proto : Token l.proto
  fmts : ∀ t ∈ l.fmts, Token t

theorem spaced_head (tokens : List (List Byte)) : ∀ c ∈ (spaced tokens).head?, isSpace c = true := by
  cases tokens with
  | nil => exact nofun
  | cons t tokens =>
    intro c first
    obtain rfl := Option.some.inj first
    rfl

theorem fields_spaced {t : List Byte} (token : Token t) {tokens : List (List Byte)} (all : ∀ t ∈ tokens, Token t) :
    fields isSpace (t ++ spaced tokens) = t :: tokens := by
  rw [fields_run ⟨token.some_, token.inside, spaced_head tokens⟩]
  congr 1
  induction tokens with
  | nil => rfl
  | cons u tokens ih =>
    rw [List.forall_mem_cons] at all
    show fields isSpace (chr ' ' :: (u ++ spaced tokens)) = _
    rw [fields_separator rfl, fields_run ⟨all.1.some_, all.1.inside, spaced_head tokens⟩, ih all.2]

theorem spaced_plain {tokens : List (List Byte)} (all : ∀ t ∈ tokens, Token t) : 0 ∉ spaced tokens := by
  intro zero
  obtain ⟨t, member, inside⟩ := List.mem_flatMap.mp zero
  rcases List.mem_cons.mp inside with space | inside
  · exact absurd space (by decide)
  · exact (all t member).plain inside

theorem MLine.Tokens.all {l : MLine} (tokens : l.Tokens) : ∀ t ∈ l.port :: l.proto :: l.fmts, Token t := by
  rw [List.forall_mem_cons, List.forall_mem_cons]
  exact ⟨tokens.port, tokens.proto, tokens.fmts⟩

theorem read_text {l : MLine} (tokens : l.Tokens) : MLine.read l.text = some l := by
  have plain : 0 ∉ l.text := by
    rw [MLine.text, List.mem_append]
    rintro (name | rest)
    · exact tokens.name.plain name
    · exact spaced_plain tokens.all rest
  unfold MLine.read
  rw [MLine.text, fields_spaced tokens.name tokens.all]
  refine if_pos ⟨rfl, ?_⟩
  rw [List.contains_iff_mem]
  exact plain

theorem read_some {v : List Byte} {l : MLine} (read : MLine.read v = some l) : l.text = v ∧ l.Tokens := by
  unfold MLine.read at read
  split at read
  · rename_i name port proto fmts split_
    dsimp only at read
    split_ifs at read with text
    obtain rfl := Option.some.inj read
    rw [List.contains_iff_mem] at text
    have tokens : ∀ t ∈ fields isSpace v, Token t := by
      intro t member
      obtain ⟨some_, inside, within⟩ := fields_sound v t member
      exact ⟨some_, inside, fun zero => text.2 (within.subset zero)⟩
    rw [split_] at tokens
    simp only [List.forall_mem_cons] at tokens
    exact ⟨text.1, tokens.1, tokens.2.1, tokens.2.2.1, tokens.2.2.2⟩
  · contradiction

def letters : List Chr := [⟨chr 'a', chr 'z'⟩]

def space : List Chr := [⟨chr ' ', chr ' '⟩]

def mediaItems : List Item :=
  [.cls false false letters 1 Regex.uint32Max, .lit (chr ' '), .cls true false space 1 Regex.uint32Max,
    .lit (chr ' '), .cls true false space 1 Regex.uint32Max, .cls true false [] 0 Regex.uint32Max]

theorem media_parses : Regex.Parses mediaPattern mediaItems := by
  have name : Regex.Opens (ascii "[a-z]+") false false letters 1 Regex.uint32Max := .ofList fun _ _ _ _ _ _ _ _ _ => rfl
  have token : Regex.Opens (ascii "[^ ]+") true false space 1 Regex.uint32Max := .ofList fun _ _ _ _ _ _ _ _ _ => rfl
  have rest : Regex.Opens (ascii "[^]*") true false [] 0 Regex.uint32Max := .ofList fun _ _ _ _ _ _ _ _ _ => rfl
  have plain : chr ' ' ≠ chr '\\' ∧ chr ' ' ≠ chr '[' := by decide
  exact ((((((Regex.Parses.nil.cls rest).cls token).lit plain).cls token).lit plain).cls name)

theorem letter_class (c : Byte) : exprMatch letters (tolower c) false = isLetter c := by
  revert c
  decide +kernel

theorem space_class (c : Byte) : exprMatch space (tolower c) true = !isSpace c := by
  revert c
  decide +kernel

theorem any_class (c : Byte) : exprMatch [] (tolower c) true = true := rfl

theorem letter_not_space {c : Byte} (letter : isLetter c = true) : isSpace c = false ∧ c ≠ 0 := by
  revert c
  decide +kernel

theorem spaced_stops_letter (tokens : List (List Byte)) :
    ∀ c ∈ (spaced tokens).head?, exprMatch letters (tolower c) false = false := by
  intro c first
  have space_ := spaced_head tokens c first
  rw [letter_class]
  cases letter : isLetter c with
  | false => rfl
  | true =>
    rw [(letter_not_space letter).1] at space_
    contradiction

theorem spaced_stops_token (tokens : List (List Byte)) :
    ∀ c ∈ (spaced tokens).head?, exprMatch space (tolower c) true = false := by
  intro c first
  rw [space_class, spaced_head tokens c first]
  rfl

theorem Token.inside_class {t : List Byte} (token : Token t) : ∀ c ∈ t, exprMatch space (tolower c) true = true := by
  intro c member
  rw [space_class, token.inside c member]
  rfl

/-- A token behind a space. -/
theorem matchItems_token {t : List Byte} (token : Token t) (fits : t.length ≤ Regex.uint32Max)
    (tokens : List (List Byte)) (items : List Item) (off : Nat) :
    matchItems (.lit (chr ' ') :: .cls true false space 1 Regex.uint32Max :: items) off (spaced (t :: tokens)) =
      (matchItems items (off + 1 + t.length) (spaced tokens)).map (⟨off + 1, t⟩ :: ·) := by
  show matchItems (.cls true false space 1 Regex.uint32Max :: items) (off + 1) (t ++ spaced tokens) = _
  exact matchItems_run fits (List.length_pos_iff.mpr token.some_) token.inside_class (spaced_stops_token tokens)
    items _

theorem MLine.text_length (l : MLine) : l.text.length = l.name.length + (1 + l.port.length + (1 + l.proto.length +
    (spaced l.fmts).length)) := by
  simp only [MLine.text, spaced, List.flatMap_cons, List.length_append, List.length_cons]
  omega

theorem length_le_spaced (tokens : List (List Byte)) : tokens.length ≤ (spaced tokens).length := by
  induction tokens with
  | nil => exact Nat.le_refl _
  | cons t tokens ih =>
    simp only [spaced, List.flatMap_cons, List.length_append, List.length_cons] at ih ⊢
    omega

/-- An m line whose name is all letters is read as it is written. -/
theorem media_found {l : MLine} (tokens : l.Tokens) (name : ∀ c ∈ l.name, isLetter c = true)
    (fits : l.text.length ≤ Regex.uint32Max) :
    ∃ port proto fmtv : Pl, reRegex l.text mediaPattern = .ok [⟨0, l.name⟩, port, proto, fmtv] ∧
      port.val = l.port ∧ proto.val = l.proto ∧ fmtv.val = spaced l.fmts := by
  have lengths := l.text_length
  have name_class : ∀ c ∈ l.name, exprMatch letters (tolower c) false = true := by
    intro c member
    rw [letter_class]
    exact name c member
  have rest (off : Nat) : matchItems [.cls true false [] 0 Regex.uint32Max] off (spaced l.fmts) =
      .ok [⟨off, spaced l.fmts⟩] := by
    have run := @matchItems_run true [] 0 (spaced l.fmts) [] (by omega) (Nat.zero_le _) (fun c _ => any_class c) nofun
      [] off
    rwa [List.append_nil] at run
  have hit : matchItems mediaItems 0 l.text = .ok [⟨0, l.name⟩, ⟨0 + l.name.length + 1, l.port⟩,
      ⟨0 + l.name.length + 1 + l.port.length + 1, l.proto⟩,
      ⟨0 + l.name.length + 1 + l.port.length + 1 + l.proto.length, spaced l.fmts⟩] := by
    rw [MLine.text, mediaItems, matchItems_run (by omega) (List.length_pos_iff.mpr tokens.name.some_) name_class
      (spaced_stops_letter _), matchItems_token tokens.port (by omega), matchItems_token tokens.proto (by omega), rest]
    rfl
  have some_ : l.text ≠ [] := fun none_ => tokens.name.some_ (List.append_eq_nil_iff.mp none_).1
  exact ⟨_, _, _, (reRegexFrom_ok media_parses (by decide) 0 l.text _).mpr ⟨[], l.text, rfl, some_, hit, nofun⟩,
    rfl, rfl, rfl⟩

theorem media_shape {v : List Byte} {captures : List Pl} (found : reRegex v mediaPattern = .ok captures) :
    ∃ name port proto fmtv : Pl, captures = [name, port, proto, fmtv] ∧ name.val ≠ [] ∧
      ∀ c ∈ name.val, isLetter c = true := by
  obtain ⟨before, after, -, -, hit, -⟩ := (reRegexFrom_ok media_parses (by decide) 0 v captures).mp found
  obtain ⟨rest, rfl, enough, hit⟩ := matchItems_many_ok hit
  obtain ⟨x, p, -, -, hit⟩ := matchItems_lit_ok hit
  obtain ⟨rest, rfl, -, hit⟩ := matchItems_many_ok hit
  obtain ⟨x, p, -, -, hit⟩ := matchItems_lit_ok hit
  obtain ⟨rest, rfl, -, hit⟩ := matchItems_many_ok hit
  obtain ⟨rest, rfl, -, hit⟩ := matchItems_many_ok hit
  obtain rfl := Except.ok.inj hit
  refine ⟨_, _, _, _, rfl, List.length_pos_iff.mp enough, ?_⟩
  intro c member
  have inside := List.mem_takeWhile_imp member
  rwa [letter_class] at inside

theorem format_parses : Regex.Parses formatPattern [.lit (chr ' '), .cls true false space 1 Regex.uint32Max] := by
  have token : Regex.Opens (ascii "[^ ]+") true false space 1 Regex.uint32Max := .ofList fun _ _ _ _ _ _ _ _ _ => rfl
  have plain : chr ' ' ≠ chr '\\' ∧ chr ' ' ≠ chr '[' := by decide
  exact (Regex.Parses.nil.cls token).lit plain

theorem format_found {t : List Byte} (token : Token t) (fits : t.length ≤ Regex.uint32Max) (tokens : List (List Byte)) :
    reRegex (spaced (t :: tokens)) formatPattern = .ok [⟨1, t⟩] := by
  apply (reRegexFrom_ok format_parses (by decide) 0 _ _).mpr
  refine ⟨[], spaced (t :: tokens), rfl, List.cons_ne_nil _ _, ?_, nofun⟩
  rw [matchItems_token token fits]
  rfl

theorem Token.cstr_eq {t : List Byte} (token : Token t) : cstr t = t := cstr_whole fun member => token.plain member

theorem ascii_ofBytes (val : List Byte) : ascii (ofBytes val) = val := by
  have char (c : Byte) : BitVec.ofNat 8 (Char.ofNat c.toNat).toNat = c := by
    revert c
    decide +kernel
  rw [ascii, ofBytes, String.toList_ofList, List.map_map]
  exact (List.map_congr_left fun c _ => char c).trans (List.map_id val)

variable {δ : Type}

/-- The formats that an m line lists, with their ids. -/
theorem mediaFormats_ids {tokens : List (List Byte)} (all : ∀ t ∈ tokens, Token t)
    (fits : (spaced tokens).length ≤ Regex.uint32Max) {calls : Nat} (enough : tokens.length < calls) (m : SdpMline δ) :
    (mediaFormats calls m (spaced tokens)).rfmtl.map (·.id) =
      m.rfmtl.map (·.id) ++ tokens.map fun t => some (ofBytes t) := by
  induction tokens generalizing calls m with
  | nil =>
    obtain ⟨calls, rfl⟩ := Nat.exists_eq_succ_of_ne_zero (Nat.ne_zero_of_lt enough)
    exact (List.append_nil _).symm
  | cons t tokens ih =>
    obtain ⟨calls, rfl⟩ := Nat.exists_eq_succ_of_ne_zero (Nat.ne_zero_of_lt enough)
    rw [List.forall_mem_cons] at all
    have length : (spaced (t :: tokens)).length = t.length + (spaced tokens).length + 1 := by
      simp only [spaced, List.flatMap_cons, List.length_append, List.length_cons]
      omega
    have rest : (spaced (t :: tokens)).drop (1 + t.length) = spaced tokens := by
      rw [Nat.add_comm]
      exact List.drop_left
    rw [mediaFormats, format_found all.1 (by omega)]
    dsimp only
    rw [rest, ih all.2 (by omega) (Nat.lt_of_succ_lt_succ enough), sdpFormatRadd, all.1.cstr_eq, List.map_append,
      List.append_assoc]
    rfl

end Baresip.Sdp
