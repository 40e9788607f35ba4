import Baresip.Re.SdpEncode
import Baresip.Sdp.Offer
import Mathlib.Data.List.Basic

set_option linter.dupNamespace false

namespace Baresip.Sdp

open Re Library

variable {δ : Type} {pton : InetPton} {print : SdpPrinter δ}

/-- The value of a line that starts with `m=`. -/
def mediaValue : List Byte → Option (List Byte)
  | c :: d :: v => if c = chr 'm' ∧ d = chr '=' then some v else none
  | _ => none

def offered (mb : List Byte) : List (List Byte) := (fields isNewline mb).filterMap mediaValue

/-- A line that is read as an m line though it starts with another type, which is 0. -/
def Hidden (line : List Byte) : Prop := mediaValue line = none ∧ ∃ v, lineOf line = some (chr 'm', v)

def asksFor (name proto : List Byte) (v : List Byte) : Bool :=
  (MLine.read v).any fun l => l.name == name && l.proto == proto

/-- What an answer has to be for the m lines of an offer. Where there is no local media line of the name and the
    protocol for one of them, as the earlier ones have taken them all, its port is zero. -/
structure Answers (sess : SdpSession δ) (offered answered : List (List Byte)) : Prop where
  length : answered.length = offered.length
  line : ∀ (i : Nat) (v : List Byte) (l : MLine), offered[i]? = some v → MLine.read v = some l →
    ∃ a l', answered[i]? = some a ∧ MLine.read a = some l' ∧ l'.name = l.name ∧ l'.proto = l.proto ∧
      (l'.port ≠ ascii "0" → l'.fmts ≠ [] ∧ l'.fmts ⊆ l.fmts) ∧
      (sess.lmedial.countP (·.named l.name l.proto) ≤ (offered.take i).countP (asksFor l.name l.proto) →
        l'.port = ascii "0")

theorem mediaValue_line {line v : List Byte} (value : mediaValue line = some v) :
    lineOf line = some (chr 'm', v) := by
  unfold mediaValue at value
  split at value
  · rename_i c d w
    split_ifs at value with starts
    obtain ⟨rfl, rfl⟩ := starts
    obtain rfl := Option.some.inj value
    rfl
  · contradiction

def lineMedia (line : List Byte) : Option (List Byte) :=
  (lineOf line).bind fun l => if l.1 = chr 'm' then some l.2 else none

theorem mediaLines_message (mb : List Byte) :
    mediaLines (messageLines mb) = (fields isNewline mb).filterMap lineMedia :=
  List.filterMap_filterMap

theorem lineMedia_value {line v : List Byte} (value : mediaValue line = some v) : lineMedia line = some v := by
  rw [lineMedia, mediaValue_line value]
  rfl

theorem lineMedia_hidden {line : List Byte} : Hidden line ↔ mediaValue line = none ∧ lineMedia line ≠ none := by
  unfold Hidden lineMedia
  cases lineOf line with
  | none => simp
  | some l =>
    obtain ⟨type, val⟩ := l
    by_cases media : type = chr 'm'
    · simp [media]
    · simp [media]

theorem countP_extra {α β : Type*} {f g : α → Option β} (sub : ∀ a b, f a = some b → g a = some b) (l : List α) :
    l.countP (fun a => (g a).isSome) =
      l.countP (fun a => (f a).isSome) + l.countP fun a => (f a).isNone && (g a).isSome := by
  induction l with
  | nil => rfl
  | cons a l ih =>
    rw [List.countP_cons, List.countP_cons, List.countP_cons, ih]
    cases here : f a with
    | none => simp [Nat.add_assoc]
    | some b => simp [sub a b here, Nat.add_right_comm]

instance (line : List Byte) : Decidable (Hidden line) := decidable_of_iff' _ lineMedia_hidden

theorem length_filterMap_iff {α β : Type*} {f g : α → Option β} (sub : ∀ a b, f a = some b → g a = some b)
    (l : List α) : (l.filterMap g).length = (l.filterMap f).length ↔ ∀ a ∈ l, ¬ (f a = none ∧ g a ≠ none) := by
  rw [List.length_filterMap_eq_countP, List.length_filterMap_eq_countP, countP_extra sub, Nat.add_eq_left,
    List.countP_eq_zero]
  simp [Option.isSome_iff_ne_none]

/-- The lines that are read as m lines are as many as the m lines when none is hidden. -/
theorem mediaLines_length (mb : List Byte) : (mediaLines (messageLines mb)).length = (offered mb).length ↔
    ∀ line ∈ fields isNewline mb, ¬ Hidden line := by
  simp only [lineMedia_hidden]
  rw [mediaLines_message, offered]
  exact length_filterMap_iff (fun _ _ => lineMedia_value) _

theorem mediaLines_eq {mb : List Byte} (open_ : ∀ line ∈ fields isNewline mb, ¬ Hidden line) :
    mediaLines (messageLines mb) = offered mb := by
  rw [mediaLines_message, offered]
  apply List.filterMap_congr
  intro line member
  have shown := open_ line member
  rw [lineMedia_hidden] at shown
  cases value : mediaValue line with
  | none => exact not_not.mp fun hidden => shown ⟨value, hidden⟩
  | some v => exact lineMedia_value value

def aligned (m : SdpMline δ) : SdpMline δ := { m with toSdpMedia := sdpMediaAlignFormats m.toSdpMedia true }

theorem aligned_disabled (m : SdpMline δ) : (aligned m).disabled = m.disabled := by
  show (sdpMediaAlignFormats m.toSdpMedia true).disabled = m.disabled
  unfold sdpMediaAlignFormats
  split
  · rfl
  · rfl

/-- The local formats that are supported have the ids of formats that the peer has listed. -/
theorem alignRemote_supported {rfmtl lfmtl : List (SdpFormat δ)} {ids : List (Option String)}
    (before : ∀ fmt ∈ lfmtl, fmt.sup = true → fmt.id ∈ ids) :
    ∀ fmt ∈ (alignRemote true lfmtl rfmtl).1, fmt.sup = true → fmt.id ∈ ids ++ rfmtl.map (·.id) := by
  induction rfmtl generalizing lfmtl ids with
  | nil =>
    rw [List.map_nil, List.append_nil]
    exact before
  | cons rfmt rfmtl ih =>
    have next : ∀ fmt ∈ (alignFormat true lfmtl rfmt).1, fmt.sup = true → fmt.id ∈ ids ++ [rfmt.id] := by
      unfold alignFormat
      split
      · exact fun fmt member sup => List.mem_append_left _ (before fmt member sup)
      · intro fmt member sup
        rcases List.mem_append.mp member with old | new
        · exact List.mem_append_left _ (before fmt (List.mem_of_mem_eraseP old) sup)
        · rw [List.mem_singleton.mp new]
          exact List.mem_append_right _ (List.mem_singleton_self _)
    have rest := ih next
    rw [List.append_assoc] at rest
    exact rest

theorem aligned_supported {m : SdpMline δ} (on : (aligned m).off false = false) :
    ∀ fmt ∈ (aligned m).lfmtl.filter (·.sup), fmt.id ∈ m.rfmtl.map (·.id) := by
  unfold SdpMline.off at on
  rw [Bool.or_eq_false_iff, Bool.or_eq_false_iff, aligned_disabled] at on
  have port : (m.raddr.port == 0) = false := by
    have same : (aligned m).raddr = m.raddr := by
      show (sdpMediaAlignFormats m.toSdpMedia true).raddr = m.raddr
      unfold sdpMediaAlignFormats
      split
      · rfl
      · rfl
    rw [← same]
    exact on.2
  have lines : (aligned m).lfmtl = (sdpMediaAlignFormats m.toSdpMedia true).lfmtl := rfl
  unfold sdpMediaAlignFormats at lines
  rw [on.1.1, port, if_neg (by decide)] at lines
  intro fmt member
  rw [lines, List.mem_filter] at member
  obtain ⟨inside, sup⟩ := member
  have fresh := @alignRemote_supported _ m.rfmtl (m.lfmtl.map fun lfmt => { lfmt with rparams := none, sup := false })
    [] (by simp) fmt
  rcases List.mem_append.mp inside with kept | moved
  · exact fresh (List.mem_filter.mp kept).1 sup
  · exact fresh (List.mem_filter.mp (List.mem_reverse.mp moved)).1 sup

theorem digit_plain {c : Char} (digit : c.isDigit = true) :
    isSpace (BitVec.ofNat 8 c.toNat) = false ∧ BitVec.ofNat 8 c.toNat ≠ 0 := by
  unfold Char.isDigit at digit
  rw [Bool.and_eq_true, decide_eq_true_iff, decide_eq_true_iff] at digit
  have low : 48 ≤ c.toNat := digit.1
  have high : c.toNat ≤ 57 := digit.2
  have value : (BitVec.ofNat 8 c.toNat).toNat = c.toNat := by
    rw [BitVec.toNat_ofNat]
    omega
  constructor
  · rw [Bool.eq_false_iff]
    intro space_
    have same := congrArg BitVec.toNat (beq_iff_eq.mp space_)
    rw [value, show (chr ' ').toNat = 32 from rfl] at same
    omega
  · intro zero
    have same := congrArg BitVec.toNat zero
    rw [value] at same
    have none_ : (0 : Byte).toNat = 0 := rfl
    omega

theorem decimal_token (n : Nat) : Token (decimal n) := by
  have digits : decimal n = (Nat.toDigits 10 n).map fun c => BitVec.ofNat 8 c.toNat := by
    rw [decimal, ascii, show toString n = n.repr from rfl, Nat.repr_eq_ofList_toDigits, String.toList_ofList]
  have plain (c : Byte) (member : c ∈ decimal n) : isSpace c = false ∧ c ≠ 0 := by
    rw [digits] at member
    obtain ⟨d, inside, rfl⟩ := List.mem_map.mp member
    exact digit_plain (Nat.isDigit_of_mem_toDigits (by decide) (by decide) inside)
  refine ⟨?_, fun c member => (plain c member).1, fun zero => (plain 0 zero).2 rfl⟩
  rw [digits]
  exact fun none_ => Nat.toDigits_ne_nil (List.map_eq_nil_iff.mp none_)

theorem zero_token : Token (ascii "0") := ⟨by decide, by decide, by decide⟩

def answerLine (m : SdpMline δ) : MLine :=
  if m.off false then ⟨m.name, ascii "0", m.proto, [ascii "0"]⟩
  else
    ⟨m.name, decimal m.laddr.port.toNat, m.proto, (m.lfmtl.filter (·.sup)).map fun fmt => ascii (fmt.id.getD "")⟩

theorem mediaLine_text (m : SdpMline δ) : (mediaLine m false).value = (answerLine m).text := by
  unfold mediaLine answerLine
  split_ifs
  · have zero : ascii " 0 " = chr ' ' :: (ascii "0" ++ [chr ' ']) ∧ ascii " 0" = chr ' ' :: ascii "0" := by decide
    simp [MLine.text, spaced, zero]
  · simp [MLine.text, spaced, List.flatMap_map]

theorem answerLine_tokens {m : SdpMline δ} (name : Token m.name) (proto : Token m.proto)
    (ids : m.off false = false → ∀ fmt ∈ m.lfmtl.filter (·.sup), Token (ascii (fmt.id.getD ""))) :
    (answerLine m).Tokens := by
  unfold answerLine
  split_ifs with off
  · exact ⟨name, zero_token, proto, List.forall_mem_singleton.mpr zero_token⟩
  · exact ⟨name, decimal_token _, proto, List.forall_mem_map.mpr (ids (Bool.eq_false_iff.mpr off))⟩

theorem answerLine_name (m : SdpMline δ) : (answerLine m).name = m.name := by
  unfold answerLine
  split_ifs
  all_goals rfl

theorem answerLine_proto (m : SdpMline δ) : (answerLine m).proto = m.proto := by
  unfold answerLine
  split_ifs
  all_goals rfl

theorem answerLine_off {m : SdpMline δ} (off : m.off false = true) : (answerLine m).port = ascii "0" := by
  unfold answerLine
  rw [if_pos off]

/-- A line that is accepted has formats, which are its supported ones. -/
theorem answerLine_formats {m : SdpMline δ} {fmts : List (List Byte)}
    (listed : m.off false = false → ∀ fmt ∈ m.lfmtl.filter (·.sup), ascii (fmt.id.getD "") ∈ fmts)
    (accepted : (answerLine m).port ≠ ascii "0") : (answerLine m).fmts ≠ [] ∧ (answerLine m).fmts ⊆ fmts := by
  unfold answerLine at accepted ⊢
  split_ifs at accepted ⊢ with off
  · exact absurd rfl accepted
  · have on := Bool.eq_false_iff.mpr off
    constructor
    · intro none_
      have some_ := on
      unfold SdpMline.off at some_
      rw [Bool.or_eq_false_iff, Bool.or_eq_false_iff, List.map_eq_nil_iff.mp none_] at some_
      have full : ([] : List (SdpFormat δ)).length ≠ 0 := ne_of_beq_false some_.1.2
      exact full rfl
    · intro t member
      obtain ⟨fmt, inside, rfl⟩ := List.mem_map.mp member
      exact listed on fmt inside

/-- The first field of a line does not depend on what is behind it. -/
theorem read_name {l k : MLine} (read : MLine.read k.text = some l) (some_ : k.name ≠ [])
    (inside : ∀ c ∈ k.name, isSpace c = false) : l.name = k.name := by
  obtain ⟨text, tokens⟩ := read_some read
  have first := fields_run ⟨tokens.name.some_, tokens.name.inside, spaced_head (l.port :: l.proto :: l.fmts)⟩
  have second := fields_run ⟨some_, inside, spaced_head (k.port :: k.proto :: k.fmts)⟩
  rw [← MLine.text, text] at first
  rw [← MLine.text, first] at second
  exact (List.cons.inj second).1

/-- A message body as long as the 32 bits of a size can say. -/
structure Body where
  bytes : List Byte
  fits : bytes.length ≤ Regex.uint32Max

def answered (pton : InetPton) (print : SdpPrinter δ) (sess : SdpSession δ) (body : Body) : List (List Byte) :=
  mediaValues (sdpEncode print (sdpDecode pton sess body.bytes true).2 false).1

/-- Every m line of the offer has left its media line, which is answered behind those of the earlier ones. -/
theorem answered_lines {sess : SdpSession δ} (fresh : Fresh sess) {body : Body}
    (accepted : (sdpDecode pton sess body.bytes true).1 = none) :
    ∃ medial : List (SdpMline δ), answered pton print sess body = medial.map (fun m => (answerLine (aligned m)).text) ∧
      medial.length = (mediaLines (messageLines body.bytes)).length ∧
      ∀ i v, (mediaLines (messageLines body.bytes))[i]? = some v →
        ∃ m, medial[i]? = some m ∧ Taken sess.lmedial ((mediaLines (messageLines body.bytes)).take i) v m := by
  obtain ⟨s, run, result⟩ := sdpDecode_accepted accepted
  have decoded := fresh.decoded.run run
  rw [List.nil_append] at decoded
  refine ⟨s.sess.medial, ?_, decoded.length, decoded.line⟩
  rw [answered, result, mediaValues_encode]
  show (s.sess.medial.map aligned ++ []).map _ = _
  rw [List.append_nil, List.map_map]
  exact List.map_congr_left fun m _ => mediaLine_text (aligned m)

theorem offered_fits (body : Body) {v : List Byte} (member : v ∈ offered body.bytes) :
    v.length ≤ Regex.uint32Max := by
  obtain ⟨line, inside, value⟩ := List.mem_filterMap.mp member
  have short := (fields_sound body.bytes line inside).2.2.length_le
  unfold mediaValue at value
  split at value
  · split_ifs at value
    obtain rfl := Option.some.inj value
    have fits := body.fits
    rw [List.length_cons, List.length_cons] at short
    omega
  · contradiction

theorem asks_of_asksFor {v name proto : List Byte} (fits : v.length ≤ Regex.uint32Max)
    (letters_ : ∀ l, MLine.read v = some l → ∀ c ∈ l.name, isLetter c = true) (for_ : asksFor name proto v = true) :
    asks name proto v = true := by
  unfold asksFor at for_
  cases read : MLine.read v with
  | none =>
    rw [read] at for_
    contradiction
  | some l =>
    rw [read] at for_
    obtain ⟨rfl, tokens⟩ := read_some read
    obtain ⟨port, proto', fmtv, found, -, same, -⟩ := media_found tokens (letters_ l read) fits
    rw [asks_found found, same]
    exact for_

/-- The media line of an m line whose name is all letters is answered as the offer asks. -/
theorem Taken.answers {lmedial : List (SdpMline δ)} {before : List (List Byte)} {l : MLine} {m : SdpMline δ}
    (taken : Taken lmedial before l.text m) (tokens : l.Tokens) (letters_ : ∀ c ∈ l.name, isLetter c = true)
    (fits : l.text.length ≤ Regex.uint32Max) :
    ∃ l', MLine.read (answerLine (aligned m)).text = some l' ∧ l'.name = l.name ∧ l'.proto = l.proto ∧
      (l'.port ≠ ascii "0" → l'.fmts ≠ [] ∧ l'.fmts ⊆ l.fmts) ∧
      (lmedial.countP (·.named l.name l.proto) ≤ before.countP (asks l.name l.proto) → l'.port = ascii "0") := by
  obtain ⟨name, port, proto, fmtv, read, name_, proto_, ⟨fresh, unheard, ids⟩, off⟩ := taken
  obtain ⟨port', proto', fmtv', found, -, sameProto, sameFmts⟩ := media_found tokens letters_ fits
  rw [read] at found
  obtain ⟨rfl, rfl, rfl, rfl⟩ : name = ⟨0, l.name⟩ ∧ port = port' ∧ proto = proto' ∧ fmtv = fmtv' := by
    simpa using found
  rw [sameProto] at proto_ off
  rw [tokens.proto.cstr_eq, or_self] at proto_
  have length := l.text_length
  rw [sameFmts, mediaFormats_ids tokens.fmts (by omega) (Nat.lt_succ_of_le (length_le_spaced _)), unheard] at ids
  have listed : (aligned m).off false = false → ∀ fmt ∈ (aligned m).lfmtl.filter (·.sup),
      ascii (fmt.id.getD "") ∈ l.fmts := by
    intro on fmt member
    have id := aligned_supported on fmt member
    rw [ids] at id
    obtain ⟨t, inside, same⟩ := List.mem_map.mp id
    rw [← same, Option.getD_some, ascii_ofBytes]
    exact inside
  have line_tokens : (answerLine (aligned m)).Tokens := by
    apply answerLine_tokens
    · show Token m.name
      rw [name_]
      exact tokens.name
    · show Token m.proto
      rw [proto_]
      exact tokens.proto
    · exact fun on fmt member => tokens.fmts _ (listed on fmt member)
  refine ⟨_, read_text line_tokens, (answerLine_name _).trans name_, (answerLine_proto _).trans proto_, ?_, ?_⟩
  · exact answerLine_formats listed
  · intro none_
    apply answerLine_off
    unfold SdpMline.off
    rw [aligned_disabled, off none_]
    rfl

/-- An accepted offer is answered as it asks if and only if no line is hidden and the names of its m lines are
    all letters. -/
theorem answers_iff {sess : SdpSession δ} (fresh : Fresh sess) (body : Body)
    (accepted : (sdpDecode pton sess body.bytes true).1 = none) :
    Answers sess (offered body.bytes) (answered pton print sess body) ↔
      (∀ line ∈ fields isNewline body.bytes, ¬ Hidden line) ∧
        ∀ v ∈ offered body.bytes, ∀ l ∈ MLine.read v, ∀ c ∈ l.name, isLetter c = true := by
  obtain ⟨medial, lines, length, taken⟩ := @answered_lines _ _ print _ fresh _ accepted
  constructor
  · intro answers
    have lengths := answers.length
    rw [lines, List.length_map, length] at lengths
    refine ⟨(mediaLines_length body.bytes).mp lengths, ?_⟩
    intro v member l read
    obtain ⟨i, at_⟩ := List.mem_iff_getElem?.mp member
    obtain ⟨a, l', answer, read', name, -⟩ := answers.line i v l at_ read
    rw [lines, List.getElem?_map] at answer
    obtain ⟨m, here, rfl⟩ := Option.map_eq_some_iff.mp answer
    have inside : i < (mediaLines (messageLines body.bytes)).length := by
      rw [← length]
      exact (List.getElem?_eq_some_iff.mp here).1
    obtain ⟨m', here', name', port, proto, fmtv, found, same, -⟩ := taken i _ (List.getElem?_eq_getElem inside)
    rw [here] at here'
    obtain rfl := Option.some.inj here'
    obtain ⟨_, _, _, _, captures, some_, letters_⟩ := media_shape found
    rw [← (List.cons.inj captures).1, ← same] at some_ letters_
    have first := read_name read' (by rwa [answerLine_name]) (by
      rw [answerLine_name]
      exact fun c member => (letter_not_space (letters_ c member)).1)
    rw [← name, first, answerLine_name]
    exact letters_
  · rintro ⟨open_, letters_⟩
    rw [mediaLines_eq open_] at length taken
    refine ⟨by rw [lines, List.length_map, length], ?_⟩
    intro i v l at_ read
    obtain ⟨m, here, taken_⟩ := taken i v at_
    have member := List.mem_of_getElem? at_
    obtain ⟨rfl, tokens⟩ := read_some read
    obtain ⟨l', read', name, proto, formats, off⟩ := taken_.answers tokens (letters_ _ member l read)
      (offered_fits body member)
    refine ⟨_, l', by rw [lines, List.getElem?_map, here]; rfl, read', name, proto, formats, ?_⟩
    intro none_
    apply off
    refine none_.trans (List.countP_mono_left fun w earlier => ?_)
    have member' := List.mem_of_mem_take earlier
    exact asks_of_asksFor (offered_fits body member') (letters_ w member')

/-- A session with one local audio line, which nothing has been decoded into. -/
def localAudio : SdpSession Unit where
  lmedial := [{ (mediaAlloc (ascii "audio") (ascii "RTP/AVP") : SdpMline Unit) with
    lfmtl := [⟨some "0", none, none, some "PCMU", none, none, false, true, 0, 8000, 1⟩]
    laddr := .inet 0 4000 }]
  medial := []
  lattrl := []
  rattrl := []
  laddr := .inet 0xc0000202 0
  raddr := .init
  lbwv := noBandwidth
  rbwv := noBandwidth
  id := 1
  ver := 1
  rdir := .sendrecv
  known := Sa.init_known

theorem localAudio_fresh : Fresh localAudio := ⟨rfl, fun _ member => by rw [List.mem_singleton.mp member]; rfl⟩

def plainPrinter : SdpPrinter Unit := ⟨fun _ => [], fun _ _ => [], fun _ _ => []⟩

def twoLines : Body := ⟨ascii "v=0\r\nm=audio 5000 RTP/AVP 8 0\r\nm=audio 5002 RTP/AVP 0\r\n", by decide⟩

theorem answers_two_lines : Answers localAudio (offered twoLines.bytes)
    (answered noPton plainPrinter localAudio twoLines) :=
  (answers_iff localAudio_fresh twoLines (by decide +kernel)).mpr ⟨by decide +kernel, by decide +kernel⟩

def hyphen : Body := ⟨ascii "v=0\r\nm=x-audio 5000 RTP/AVP 0\r\n", by decide⟩

/-- The name of a media line is only read from behind its hyphen. -/
theorem name_lost : (sdpDecode noPton localAudio hyphen.bytes true).1 = none ∧
    ¬ Answers localAudio (offered hyphen.bytes) (answered noPton plainPrinter localAudio hyphen) := by
  refine ⟨by decide +kernel, ?_⟩
  intro answers
  have answer : answered noPton plainPrinter localAudio hyphen = [ascii "audio 4000 RTP/AVP 0"] := by decide +kernel
  obtain ⟨a, l', at_, read, name, -⟩ := answers.line 0 (ascii "x-audio 5000 RTP/AVP 0")
    ⟨ascii "x-audio", ascii "5000", ascii "RTP/AVP", [ascii "0"]⟩ (by decide +kernel) (by decide +kernel)
  rw [answer] at at_
  obtain rfl := Option.some.inj at_
  have read' : MLine.read (ascii "audio 4000 RTP/AVP 0") =
      some ⟨ascii "audio", ascii "4000", ascii "RTP/AVP", [ascii "0"]⟩ := by decide +kernel
  rw [read'] at read
  rw [← Option.some.inj read] at name
  exact absurd name (by decide)

end Baresip.Sdp
