import Baresip.Library.Splits
import Baresip.Sip.Message

set_option linter.dupNamespace false

namespace Baresip.Sip.Message

open Re Library

def isBlank (c : Byte) : Bool := c == chr ' ' || c == chr '\t' || c == chr '\r' || c == chr '\n'

/-- Every line feed is that of a fold, with a space or a tab behind it. -/
def folded : Bool → List Byte → Bool
  | lf, [] => !lf
  | lf, c :: raw => (!lf || c == chr ' ' || c == chr '\t') && folded (c == chr '\n') raw

theorem folded_append {lf : Bool} {x y : List Byte} (fold : folded lf (x ++ y) = true)
    (starts : ∀ c ∈ y.head?, isBlank c = false) : folded lf x = true ∧ folded false y = true := by
  induction x generalizing lf with
  | nil =>
    cases lf with
    | false => exact ⟨rfl, fold⟩
    | true =>
      cases y with
      | nil => contradiction
      | cons c y =>
        have plain := starts c rfl
        simp only [isBlank, Bool.or_eq_false_iff] at plain
        simp only [List.nil_append, folded, plain, Bool.not_true, Bool.or_self, Bool.false_and] at fold
        contradiction
  | cons c x ih =>
    rw [List.cons_append, folded, Bool.and_eq_true] at fold
    obtain ⟨front, back⟩ := ih fold.2
    exact ⟨by rw [folded, fold.1, front, Bool.true_and], back⟩

theorem folded_plain {lf : Bool} {c : Byte} {x : List Byte} (fold : folded lf (c :: x) = true)
    (plain : isBlank c = false) : lf = false ∧ folded false x = true := by
  simp only [isBlank, Bool.or_eq_false_iff] at plain
  obtain ⟨⟨⟨space, tab⟩, -⟩, feed⟩ := plain
  rw [folded, space, tab, feed, Bool.or_false, Bool.or_false, Bool.and_eq_true, Bool.not_eq_true'] at fold
  exact fold

/-- The quoting that the loop follows. -/
def toggle (quote : Bool) (c : Byte) : Bool := if c = chr '"' then !quote else quote

def commaAt (comsep quote : Bool) (c : Byte) : Bool := c == chr ',' && comsep && !quote

/-- The elements into which the loop cuts a value. -/
def pieces (comsep : Bool) (raw : List Byte) : List (List Byte) := splits (commaAt comsep) toggle false raw

abbrev Quiet (comsep : Bool) : Bool → List Byte → Prop := Along toggle fun quote c => commaAt comsep quote c = false

/-- A call of `hdr_add`. -/
structure Call where
  hdr : SipHdr
  atomic : Bool
  line : Bool
  deriving DecidableEq, Repr

def hdrAdds (msg : SipMsg) : List Call → Except Errno SipMsg
  | [] => .ok msg
  | call :: calls =>
    match hdrAdd msg call.hdr call.atomic call.line with
    | .error e => .error e
    | .ok msg => hdrAdds msg calls

def andThen {A B : Type} (x : Except Errno A) (f : A → Except DecodeErr B) : Except DecodeErr B :=
  match x with
  | .error e => .error (.errno e)
  | .ok a => f a

theorem andThen_cons {B : Type} (msg : SipMsg) (call : Call) (calls : List Call) (f : SipMsg → Except DecodeErr B) :
    andThen (hdrAdds msg (call :: calls)) f =
      andThen (hdrAdd msg call.hdr call.atomic call.line) fun msg => andThen (hdrAdds msg calls) f := by
  rw [hdrAdds]
  cases hdrAdd msg call.hdr call.atomic call.line <;> rfl

theorem andThen_append {B : Type} (msg : SipMsg) (x y : List Call) (f : SipMsg → Except DecodeErr B) :
    andThen (hdrAdds msg (x ++ y)) f = andThen (hdrAdds msg x) fun msg => andThen (hdrAdds msg y) f := by
  induction x generalizing msg with
  | nil => rfl
  | cons call x ih =>
    rw [List.cons_append, andThen_cons, andThen_cons]
    congr 1
    funext msg
    exact ih msg

/-- An element of a line that has more of them. -/
def elementCall (name : List Byte) (id : HdrId) (x : List Byte) : Call := ⟨⟨name, trim isBlank x, id⟩, true, false⟩

/-- A header line: between its name and its value stand white space and a colon. -/
structure HdrLine where
  name : List Byte
  gap : List Byte
  raw : List Byte
  named : name ≠ []
  plain : ∀ c ∈ name, isBlank c = false ∧ c ≠ chr ':'
  spaced : ∀ c ∈ gap, c = chr ' ' ∨ c = chr '\t'
  fold : folded false raw = true

def crlf : List Byte := ascii "\r\n"

namespace HdrLine

def id (l : HdrLine) : HdrId := hdrHash l.name

def value (l : HdrLine) : List Byte := trim isBlank l.raw

def text (l : HdrLine) : List Byte := l.name ++ l.gap ++ chr ':' :: l.raw ++ crlf

def cut (l : HdrLine) : List (List Byte) := pieces (hdrCommaSeparated l.id) l.raw

/-- No element of a value is blank. -/
def Filled (l : HdrLine) : Prop := l.value ≠ [] → ∀ x ∈ l.cut, trim isBlank x ≠ []

/-- What the loop adds for a line. -/
def calls (l : HdrLine) : List Call :=
  if l.cut.length = 1 then [⟨⟨l.name, l.value, l.id⟩, true, true⟩]
  else l.cut.map (elementCall l.name l.id) ++ [⟨⟨l.name, l.value, l.id⟩, false, true⟩]

end HdrLine

namespace Scan

theorem run_more {s s' : Scan} {c : Byte} (stepped : s.step c = .more s') (text : List Byte) :
    s.run (c :: text) = s'.run text := by
  rw [run, stepped]

theorem step_space {s : Scan} {c : Byte} (space : c = chr ' ' ∨ c = chr '\t') :
    s.step c = .more { s with lf := false, ws := s.ws + 1, seen := s.seen ++ [c] } := if_pos space

theorem step_return (s : Scan) : s.step (chr '\r') = .more { s with ws := s.ws + 1, seen := s.seen ++ [chr '\r'] } := by
  rw [step, if_neg (by decide), if_pos rfl]

theorem step_feed {s : Scan} (lf : s.lf = false) :
    s.step (chr '\n') = .more { s with ws := s.ws + 1, lf := true, seen := s.seen ++ [chr '\n'] } := by
  rw [step, if_neg (by decide), if_neg (by decide), if_pos rfl, lf, if_neg Bool.false_ne_true]

theorem plain_cases {c : Byte} (plain : isBlank c = false) :
    ¬ (c = chr ' ' ∨ c = chr '\t') ∧ c ≠ chr '\r' ∧ c ≠ chr '\n' := by
  simp only [isBlank, Bool.or_eq_false_iff, beq_eq_false_iff_ne] at plain
  obtain ⟨⟨⟨space, tab⟩, ret⟩, feed⟩ := plain
  exact ⟨not_or.mpr ⟨space, tab⟩, ret, feed⟩

theorem step_plain {s : Scan} {c : Byte} (plain : isBlank c = false) (lf : s.lf = false) :
    s.step c = if c = chr ',' ∧ s.comsep ∧ s.quote = false then advance c s.endElement else advance c (s.char c) := by
  obtain ⟨space, ret, feed⟩ := plain_cases plain
  rw [step, if_neg space, if_neg ret, if_neg feed, lf, if_neg Bool.false_ne_true]

theorem step_blank {s : Scan} {c : Byte} {x : List Byte} (blank : isBlank c = true)
    (fold : folded s.lf (c :: x) = true) :
    s.step c = .more { s with seen := s.seen ++ [c], ws := s.ws + 1, lf := c == chr '\n' } := by
  simp only [isBlank, Bool.or_eq_true, beq_iff_eq] at blank
  rw [folded, Bool.and_eq_true] at fold
  have lf (other : (c == chr ' ') = false ∧ (c == chr '\t') = false) : s.lf = false := by
    have first := fold.1
    rw [other.1, other.2, Bool.or_false, Bool.or_false, Bool.not_eq_true'] at first
    exact first
  rcases blank with ((rfl | rfl) | rfl) | rfl
  · exact step_space (.inl rfl)
  · exact step_space (.inr rfl)
  · rw [step_return, lf ⟨rfl, rfl⟩]
    rfl
  · exact step_feed (lf ⟨rfl, rfl⟩)

/-- White space with its folds. -/
theorem run_blanks {s : Scan} {b : List Byte} (blank : ∀ c ∈ b, isBlank c = true) (fold : folded s.lf b = true)
    (text : List Byte) :
    s.run (b ++ text) = run { s with seen := s.seen ++ b, ws := s.ws + b.length, lf := false } text := by
  induction b generalizing s with
  | nil =>
    have lf : s.lf = false := by simpa [folded] using fold
    have same : ({ s with seen := s.seen ++ [], ws := s.ws + 0, lf := false } : Scan) = s := by
      rw [List.append_nil, ← lf, Nat.add_zero]
    exact congrArg (fun s => run s text) same.symm
  | cons c b ih =>
    rw [List.forall_mem_cons] at blank
    rw [List.cons_append, run_more (step_blank blank.1 fold)]
    rw [folded, Bool.and_eq_true] at fold
    rw [ih blank.2 fold.2, List.append_assoc, Nat.add_assoc, Nat.add_comm 1]
    rfl

/-- The loop is in the value of the header of this name. -/
structure InValue (s : Scan) (name : List Byte) : Prop where
  begun : s.name.isNone = false
  len : s.nameLen ≠ 0
  bytes : (s.seen.drop (s.name.getD 0)).take s.nameLen = name
  inside : s.name.getD 0 + s.nameLen ≤ s.seen.length

theorem InValue.later {s s' : Scan} {name x : List Byte} (inValue : s.InValue name) (same : s'.name = s.name)
    (len : s'.nameLen = s.nameLen) (seen : s'.seen = s.seen ++ x) : s'.InValue name := by
  have inside := inValue.inside
  refine ⟨by rw [same]; exact inValue.begun, by rw [len]; exact inValue.len, ?_, ?_⟩
  · rw [same, len, seen, List.drop_append_of_le_length (by omega),
      List.take_append_of_le_length (by rw [List.length_drop]; omega)]
    exact inValue.bytes
  · rw [same, len, seen, List.length_append]
    omega

theorem step_value {s : Scan} {name : List Byte} {c : Byte} (inValue : s.InValue name) (plain : isBlank c = false)
    (lf : s.lf = false) (quiet : ¬ (c = chr ',' ∧ s.comsep ∧ s.quote = false)) : s.step c = advance c (.ok (s.valueChar c)) := by
  rw [step_plain plain lf, if_neg quiet, char, inValue.begun, if_neg Bool.false_ne_true, if_neg inValue.len]

theorem valueChar_begun {s : Scan} (begun : s.cv.isNone = false ∧ s.v.isNone = false) (c : Byte) :
    s.valueChar c = { s with quote := toggle s.quote c, ws := 0 } := by
  unfold valueChar
  simp only [begun.1, begun.2, Bool.false_eq_true, if_false]
  rfl

theorem valueChar_first {s : Scan} (cv : s.cv = none) (c : Byte) :
    s.valueChar c =
      { s with quote := toggle false c, cv := some s.seen.length, v := some (s.v.getD s.seen.length), ws := 0 } := by
  unfold valueChar
  cases s.v <;> simp [cv, toggle]

theorem toggle_blank {c : Byte} (blank : isBlank c = true) (quote : Bool) : toggle quote c = quote := by
  have other : c ≠ chr '"' := by
    rintro rfl
    exact absurd blank (by decide)
  exact if_neg other

theorem foldl_toggle_blank {x : List Byte} (blank : ∀ c ∈ x, isBlank c = true) (quote : Bool) :
    x.foldl toggle quote = quote := by
  induction x with
  | nil => rfl
  | cons c x ih =>
    rw [List.forall_mem_cons] at blank
    rw [List.foldl_cons, toggle_blank blank.1, ih blank.2]

theorem not_comma {comsep quote : Bool} {c : Byte} (quiet : commaAt comsep quote c = false) :
    ¬ (c = chr ',' ∧ comsep ∧ quote = false) := by
  rintro ⟨rfl, rfl, rfl⟩
  exact absurd quiet (by decide)

/-- One byte of an element that has begun. -/
theorem run_byte {s : Scan} {c : Byte} {name x : List Byte} (inValue : s.InValue name)
    (begun : s.cv.isNone = false ∧ s.v.isNone = false) (fold : folded s.lf (c :: x) = true)
    (quiet : commaAt s.comsep s.quote c = false) (text : List Byte) :
    s.run (c :: text) =
      run { s with
        seen := s.seen ++ [c], ws := if isBlank c then s.ws + 1 else 0, quote := toggle s.quote c, lf := c == chr '\n' }
        text := by
  cases blank : isBlank c with
  | true => rw [run_more (step_blank blank fold), toggle_blank blank, if_pos rfl]
  | false =>
    obtain ⟨lf, -⟩ := folded_plain fold blank
    have stepped := step_value inValue blank lf (not_comma quiet)
    rw [valueChar_begun begun] at stepped
    have feed : (c == chr '\n') = false := beq_eq_false_iff_ne.mpr (plain_cases blank).2.2
    rw [run_more stepped, feed, lf, if_neg Bool.false_ne_true]

/-- The rest of an element, once it has begun. -/
theorem run_inside {s : Scan} {name x : List Byte} (inValue : s.InValue name)
    (begun : s.cv.isNone = false ∧ s.v.isNone = false) (fold : folded s.lf x = true) (quiet : Quiet s.comsep s.quote x) (text : List Byte) :
    s.run (x ++ text) =
      run { s with seen := s.seen ++ x, ws := trail isBlank s.ws x, quote := x.foldl toggle s.quote, lf := false }
        text := by
  induction x generalizing s with
  | nil =>
    have lf : s.lf = false := by simpa [folded] using fold
    have same : ({ s with seen := s.seen ++ [], ws := trail isBlank s.ws [], quote := s.quote, lf := false } : Scan) = s := by
      rw [List.append_nil, ← lf]
      rfl
    exact congrArg (fun s => run s text) same.symm
  | cons c x ih =>
    rw [List.cons_append, run_byte inValue begun fold quiet.1]
    have next := fold
    rw [folded, Bool.and_eq_true] at next
    apply (ih (s := { s with
      seen := s.seen ++ [c], ws := if isBlank c then s.ws + 1 else 0, quote := toggle s.quote c, lf := c == chr '\n' })
      (inValue.later rfl rfl rfl) begun next.2 quiet.2).trans
    rw [List.append_assoc]
    rfl

/-- The loop behind the elements `raw` of a value, with pointers to the whole and to the last of them. -/
def behind (s : Scan) (raw last : List Byte) : Scan :=
  { s with
    seen := s.seen ++ raw, cv := some (s.seen.length + (raw.length - last.length) + lead isBlank last)
    v := some (s.v.getD (s.seen.length + lead isBlank raw)), ws := trail isBlank 0 raw
    quote := raw.foldl toggle false, lf := false }

theorem InValue.behind {s : Scan} {name : List Byte} (inValue : s.InValue name) (raw last : List Byte) :
    (s.behind raw last).InValue name :=
  inValue.later rfl rfl rfl

theorem run_element {s : Scan} {name x : List Byte} (inValue : s.InValue name) (cv : s.cv = none) (lf : s.lf = false)
    (fold : folded false x = true) (quiet : Quiet s.comsep false x) (some_ : trim isBlank x ≠ []) (text : List Byte) :
    s.run (x ++ text) = (s.behind x x).run text := by
  obtain ⟨b, c, y, rfl, blank, plain⟩ := trim_cases some_
  obtain ⟨front, back⟩ := folded_append fold (fun c' first => by
    obtain rfl := Option.some.inj first
    exact plain)
  rw [Quiet, along_append, foldl_toggle_blank blank] at quiet
  have open_ : ¬ (c = chr ',' ∧ s.comsep ∧ s.quote = false) := fun comma => not_comma quiet.2.1 ⟨comma.1, comma.2.1, rfl⟩
  rw [← lf] at front
  rw [List.append_assoc, run_blanks blank front, List.cons_append]
  have stepped := step_value (s := { s with seen := s.seen ++ b, ws := s.ws + b.length, lf := false })
    (inValue.later rfl rfl rfl) plain rfl open_
  rw [valueChar_first] at stepped
  · have inside := run_inside
      (s := { s with
        seen := s.seen ++ b ++ [c], cv := some (s.seen ++ b).length, v := some (s.v.getD (s.seen ++ b).length), ws := 0
        quote := toggle false c, lf := false })
      (inValue.later rfl rfl (List.append_assoc _ _ _)) ⟨rfl, rfl⟩ (folded_plain back plain).2 quiet.2.2 text
    apply (run_more stepped _).trans
    apply inside.trans
    rw [Scan.behind, lead_append blank plain, trail_append, trail_cons plain, List.foldl_append,
      foldl_toggle_blank blank, List.append_assoc, List.append_assoc, List.length_append, Nat.sub_self]
    rfl
  · exact cv

/-- A pointer to the first byte of some text that is not blank has that text behind it. -/
theorem value_trim {s : Scan} {before x : List Byte} (seen : s.seen = before ++ x) (ws : s.ws = trail isBlank 0 x)
    (some_ : trim isBlank x ≠ []) : s.value (some (before.length + lead isBlank x)) = trim isBlank x := by
  obtain ⟨b, c, y, rfl, blank, plain⟩ := trim_cases some_
  have left : (before ++ b ++ c :: y).length - (before ++ b).length = (c :: y).length := by
    rw [List.length_append, Nat.add_sub_cancel_left]
  rw [value, seen, ws, lead_append blank plain, trim_append blank plain, trail_append, trail_cons plain,
    ← List.append_assoc, ← List.length_append, List.drop_left, left]
  exact take_trail plain y

theorem hdr_eq {s : Scan} {name : List Byte} (inValue : s.InValue name) (p : Option Nat) :
    s.hdr p = ⟨name, s.value p, s.id⟩ := by
  rw [hdr, inValue.bytes]

theorem hdr_element {s : Scan} {name x : List Byte} (inValue : s.InValue name) (some_ : trim isBlank x ≠ []) :
    (s.behind x x).hdr (s.behind x x).cv = ⟨name, trim isBlank x, s.id⟩ := by
  have value : (s.behind x x).value (some (s.seen.length + lead isBlank x)) = trim isBlank x :=
    value_trim rfl rfl some_
  rw [hdr_eq (inValue.behind x x)]
  show SipHdr.mk name ((s.behind x x).value (some (s.seen.length + (x.length - x.length) + lead isBlank x))) s.id = _
  rw [Nat.sub_self, Nat.add_zero, value]

def withMsg (s : Scan) (msg : SipMsg) : Scan := { s with msg := msg }

/-- The loop behind a comma between two elements. -/
def comma (s : Scan) (msg : SipMsg) : Scan := { s with seen := s.seen ++ [chr ','], cv := none, msg := msg }

theorem step_comma {s : Scan} (len : s.nameLen ≠ 0) (lf : s.lf = false) (open_ : commaAt s.comsep s.quote (chr ',') = true)
    (text : List Byte) :
    s.run (chr ',' :: text) =
      andThen (hdrAdd s.msg (s.hdr s.cv) true false) fun msg => (s.comma msg).run text := by
  simp only [commaAt, Bool.and_eq_true, beq_self_eq_true, true_and, Bool.not_eq_true'] at open_
  rw [run, step_plain (by decide) lf, if_pos ⟨rfl, open_.1, open_.2⟩, endElement, if_neg len]
  cases hdrAdd s.msg (s.hdr s.cv) true false <;> rfl

/-- One more element in front of those that the loop is behind. -/
theorem behind_comma {s : Scan} {x y last : List Byte} (some_ : trim isBlank x ≠ [])
    (unquoted : x.foldl toggle false = false) (short : last.length ≤ y.length) (msg : SipMsg) :
    ((s.behind x x).comma msg).behind y last = (s.behind (x ++ chr ',' :: y) last).withMsg msg := by
  have at_ : (s.seen ++ x ++ [chr ',']).length + (y.length - last.length) =
      s.seen.length + ((x ++ chr ',' :: y).length - last.length) := by
    simp only [List.length_append, List.length_cons, List.length_nil]
    omega
  have seen : s.seen ++ x ++ [chr ','] ++ y = s.seen ++ (x ++ chr ',' :: y) := by simp
  have ws : trail isBlank 0 (x ++ chr ',' :: y) = trail isBlank 0 y := by
    rw [trail_append, trail_cons (by decide)]
  have quote : (x ++ chr ',' :: y).foldl toggle false = y.foldl toggle false := by
    rw [List.foldl_append, unquoted]
    rfl
  unfold behind comma withMsg
  rw [← seen, ws, quote, lead_front some_, ← at_]
  rfl

/-- The loop over a value adds all its elements but the last. -/
theorem run_pieces {s : Scan} {name raw last : List Byte} {first : List (List Byte)} (inValue : s.InValue name)
    (cv : s.cv = none) (lf : s.lf = false) (fold : folded false raw = true)
    (cut : pieces s.comsep raw = first ++ [last]) (filled : ∀ x ∈ pieces s.comsep raw, trim isBlank x ≠ [])
    (text : List Byte) :
    s.run (raw ++ text) =
      andThen (hdrAdds s.msg (first.map (elementCall name s.id))) fun msg =>
        ((s.behind raw last).withMsg msg).run text := by
  rcases splits_cases (commaAt s.comsep) toggle false raw with quiet | ⟨x, a, y, rfl, quiet, separates⟩
  · have whole : pieces s.comsep raw = [raw] := splits_quiet quiet
    have some_ := filled raw (by rw [whole]; exact List.mem_singleton_self raw)
    rw [whole, List.singleton_eq_append_iff] at cut
    rcases cut with ⟨rfl, last_⟩ | ⟨-, none_⟩
    · obtain rfl := (List.cons.inj last_).1
      exact run_element inValue cv lf fold quiet some_ text
    · exact absurd none_ (List.cons_ne_nil _ _)
  · obtain rfl : a = chr ',' := by
      simp only [commaAt, Bool.and_eq_true, beq_iff_eq] at separates
      exact separates.1.1
    have unquoted : x.foldl toggle false = false := by
      simpa [commaAt] using (Bool.and_eq_true_iff.mp separates).2
    have rest : pieces s.comsep (x ++ chr ',' :: y) = x :: pieces s.comsep y := by
      rw [pieces, splits_separator quiet separates, unquoted]
      rfl
    rw [rest] at cut filled
    rw [List.forall_mem_cons] at filled
    obtain ⟨front, back⟩ := folded_append fold (fun c first => by
      obtain rfl := Option.some.inj first
      decide)
    rw [List.cons_eq_append_iff] at cut
    rcases cut with ⟨-, last_⟩ | ⟨first, rfl, cut⟩
    · exact absurd (List.cons.inj last_).2.symm (splits_ne_nil y)
    · obtain ⟨done, whole, -⟩ := splits_last cut
      have short : last.length ≤ y.length := by
        rw [whole, List.length_append]
        exact Nat.le_add_left _ _
      have element := run_element inValue cv lf front quiet filled.1 (chr ',' :: (y ++ text))
      have comma := step_comma (s := s.behind x x) inValue.len rfl separates (y ++ text)
      rw [hdr_element inValue filled.1] at comma
      rw [List.append_assoc, List.cons_append, element, comma, List.map_cons, andThen_cons]
      congr 1
      funext msg
      have later := run_pieces (s := (s.behind x x).comma msg) (inValue.later rfl rfl (List.append_assoc _ _ _)) rfl rfl
        (folded_plain back (by decide)).2 cut filled.2 text
      rw [behind_comma filled.1 unquoted short] at later
      exact later
termination_by raw.length

/-- The loop is where a line begins. -/
structure Fresh (s : Scan) : Prop where
  name : s.name = none
  comsep : s.comsep = false
  lf : s.lf = false
  cv : s.cv = none
  v : s.v = none

/-- The loop behind the colon of a line. -/
def opened (s : Scan) (l : HdrLine) : Scan :=
  { s with
    seen := s.seen ++ (l.name ++ l.gap ++ [chr ':']), name := some s.seen.length, nameLen := l.name.length
    id := l.id, comsep := hdrCommaSeparated l.id, ws := l.gap.length, lf := false }

theorem step_nameChar {s : Scan} {c : Byte} (comsep : s.comsep = false) (lf : s.lf = false) (begun : s.name.isNone = false)
    (len : s.nameLen = 0) (plain : isBlank c = false) : s.step c = advance c (s.nameChar c) := by
  have open_ : ¬ (c = chr ',' ∧ s.comsep ∧ s.quote = false) := by
    rw [comsep]
    exact fun comma => absurd comma.2.1 Bool.false_ne_true
  rw [step_plain plain lf, if_neg open_, char, begun, if_neg Bool.false_ne_true, if_pos len]

def past (s : Scan) (x : List Byte) : Scan := { s with seen := s.seen ++ x }

theorem past_append (s : Scan) (x y : List Byte) : (s.past x).past y = s.past (x ++ y) := by
  unfold past
  rw [List.append_assoc]

theorem run_nameChars {s : Scan} {x : List Byte} (comsep : s.comsep = false) (lf : s.lf = false)
    (begun : s.name.isNone = false) (len : s.nameLen = 0) (ws : s.ws = 0)
    (plain : ∀ c ∈ x, isBlank c = false ∧ c ≠ chr ':') (text : List Byte) :
    s.run (x ++ text) = (s.past x).run text := by
  induction x generalizing s with
  | nil =>
    have same : s.past [] = s := by rw [past, List.append_nil]
    rw [same]
    rfl
  | cons c x ih =>
    rw [List.forall_mem_cons] at plain
    have stepped := step_nameChar comsep lf begun len plain.1.1
    have same : ({ s with ws := 0 } : Scan) = s := by rw [← ws]
    rw [nameChar, if_pos plain.1.2, same] at stepped
    have rest := @ih (s.past [c]) comsep lf begun len ws plain.2
    rw [past_append] at rest
    exact (run_more stepped _).trans rest

theorem folded_spaces {b : List Byte} (spaced : ∀ c ∈ b, c = chr ' ' ∨ c = chr '\t') :
    folded false b = true ∧ ∀ c ∈ b, isBlank c = true := by
  induction b with
  | nil => exact ⟨rfl, fun _ none_ => absurd none_ List.not_mem_nil⟩
  | cons c b ih =>
    rw [List.forall_mem_cons] at spaced
    obtain ⟨fold, blank⟩ := ih spaced.2
    rcases spaced.1 with rfl | rfl
    · exact ⟨fold, List.forall_mem_cons.mpr ⟨by decide, blank⟩⟩
    · exact ⟨fold, List.forall_mem_cons.mpr ⟨by decide, blank⟩⟩

/-- The loop behind the name of a line. -/
def named (s : Scan) (name : List Byte) : Scan :=
  { s with seen := s.seen ++ name, name := some s.seen.length, nameLen := 0, ws := 0 }

theorem run_name {s : Scan} (fresh : s.Fresh) {name : List Byte} (some_ : name ≠ [])
    (plain : ∀ c ∈ name, isBlank c = false ∧ c ≠ chr ':') (text : List Byte) :
    s.run (name ++ text) = (s.named name).run text := by
  obtain ⟨c, x, rfl⟩ := List.exists_cons_of_ne_nil some_
  rw [List.forall_mem_cons] at plain
  have open_ : ¬ (c = chr ',' ∧ s.comsep ∧ s.quote = false) := by
    rw [fresh.comsep]
    exact fun comma => absurd comma.2.1 Bool.false_ne_true
  have stepped := step_plain plain.1.1 fresh.lf
  rw [if_neg open_, char, fresh.name] at stepped
  simp only [Option.isNone_none, if_true, nameChar, ne_eq, plain.1.2, not_false_eq_true] at stepped
  have rest := run_nameChars (s := s.named [c]) fresh.comsep fresh.lf rfl rfl rfl plain.2 text
  apply (run_more stepped _).trans
  apply rest.trans
  unfold past named
  rw [List.append_assoc]
  rfl

theorem step_colon {s : Scan} {p : Nat} {name : List Byte} (comsep : s.comsep = false) (lf : s.lf = false)
    (begun : s.name = some p) (len : s.nameLen = 0) (some_ : name ≠ [])
    (seen : (s.seen.drop p).take (s.seen.length - p - s.ws) = name) (length : s.seen.length - p - s.ws = name.length) :
    s.step (chr ':') =
      .more { s with
        seen := s.seen ++ [chr ':'], name := some p, nameLen := name.length, id := hdrHash name
        comsep := hdrCommaSeparated (hdrHash name) } := by
  have positive : ¬ name.length = 0 := fun none_ => some_ (List.eq_nil_of_length_eq_zero none_)
  have stepped := step_nameChar (c := chr ':') comsep lf (by rw [begun]; rfl) len (by decide)
  rw [nameChar, if_neg (not_not.mpr rfl), begun] at stepped
  simp only [Option.getD_some] at stepped
  rw [seen, length, if_neg positive] at stepped
  exact stepped

theorem run_opened {s : Scan} (fresh : s.Fresh) (l : HdrLine) (text : List Byte) :
    s.run (l.name ++ l.gap ++ chr ':' :: text) = (s.opened l).run text := by
  obtain ⟨fold, blank⟩ := folded_spaces l.spaced
  have left : (s.seen ++ l.name ++ l.gap).length - s.seen.length - (0 + l.gap.length) = l.name.length := by
    simp only [List.length_append]
    omega
  have bytes : ((s.seen ++ l.name ++ l.gap).drop s.seen.length).take l.name.length = l.name := by
    rw [List.append_assoc, List.drop_left, List.take_left]
  have colon := step_colon
    (s := { s.named l.name with seen := s.seen ++ l.name ++ l.gap, ws := 0 + l.gap.length, lf := false })
    (p := s.seen.length) fresh.comsep rfl rfl rfl l.named (by rw [left]; exact bytes) left
  rw [List.append_assoc, run_name fresh l.named l.plain]
  apply (run_blanks blank (by rw [named, fresh.lf]; exact fold) _).trans
  apply (run_more colon text).trans
  have seen : s.seen ++ l.name ++ l.gap ++ [chr ':'] = s.seen ++ (l.name ++ l.gap ++ [chr ':']) := by simp
  rw [opened, ← seen, Nat.zero_add]
  rfl

/-- The loop once a line has come, with what is still to be added when the next byte comes. -/
structure Closes (t : Scan) (calls : List Call) : Prop where
  lf : t.lf = true
  plain : ∀ msg, (t.withMsg msg).endLine = hdrAdds msg calls
  feed : ∀ msg, endLine { t.withMsg msg with seen := t.seen ++ crlf, ws := t.ws + 2 } = hdrAdds msg calls

/-- What is still to be added at the end of a line. -/
def closing (name : List Byte) (id : HdrId) (raw last : List Byte) (first : List (List Byte)) : List Call :=
  if first = [] then [⟨⟨name, trim isBlank raw, id⟩, true, true⟩]
  else [elementCall name id last, ⟨⟨name, trim isBlank raw, id⟩, false, true⟩]

theorem endLine_adds {e : Scan} (len : e.nameLen ≠ 0) :
    e.endLine =
      hdrAdds e.msg
        (⟨e.hdr e.cv, true, e.cv == e.v⟩ :: if e.cv = e.v then [] else [⟨e.hdr e.v, false, true⟩]) := by
  rw [endLine, if_neg len, hdrAdds]
  cases hdrAdd e.msg (e.hdr e.cv) true (e.cv == e.v) with
  | error err => rfl
  | ok msg =>
    by_cases same : e.cv = e.v
    · simp [same, hdrAdds]
    · simp only [same, ne_eq, not_false_eq_true, if_true, if_false, hdrAdds]
      cases hdrAdd msg (e.hdr e.v) false true <;> rfl

theorem endLine_behind {e : Scan} {name before raw last b : List Byte} {first : List (List Byte)}
    (inValue : e.InValue name) (seen : e.seen = before ++ (raw ++ b)) (ws : e.ws = trail isBlank 0 (raw ++ b))
    (blank : ∀ c ∈ b, isBlank c = true)
    (cv : e.cv = some (before.length + (raw.length - last.length) + lead isBlank last))
    (v : e.v = some (before.length + lead isBlank raw)) (cut : pieces e.comsep raw = first ++ [last])
    (filled : ∀ x ∈ pieces e.comsep raw, trim isBlank x ≠ []) :
    e.endLine = hdrAdds e.msg (closing name e.id raw last first) := by
  rw [cut, List.forall_mem_append, List.forall_mem_singleton] at filled
  obtain ⟨done, rfl, which⟩ := splits_last cut
  have some_ : trim isBlank (done ++ last) ≠ [] := by
    intro none_
    exact filled.2 (trim_eq_nil.mpr fun c member => trim_eq_nil.mp none_ c (List.mem_append_right _ member))
  have whole : e.value e.v = trim isBlank (done ++ last) := by
    rw [v, ← lead_front some_ b, ← trim_front blank]
    apply value_trim seen ws
    rw [trim_front blank]
    exact some_
  rw [endLine_adds inValue.len, hdr_eq inValue, hdr_eq inValue, whole]
  rcases which with ⟨rfl, rfl⟩ | ⟨x, rest, rfl, begins, short⟩
  · have same : e.cv = e.v := by
      rw [cv, v, List.nil_append, Nat.sub_self, Nat.add_zero]
    rw [same, whole, beq_self_eq_true, if_pos rfl, closing, if_pos rfl]
  · obtain ⟨more, rfl⟩ := begins
    rw [List.forall_mem_cons] at filled
    have front := lead_lt filled.1.1
    rw [List.append_assoc, lead_front filled.1.1] at v
    have other : e.cv ≠ e.v := by
      rw [cv, v]
      intro same
      have at_ := Option.some.inj same
      simp only [List.length_append] at at_ short
      omega
    have element : e.value e.cv = trim isBlank last := by
      have offset : before.length + ((x ++ more ++ last).length - last.length) = (before ++ (x ++ more)).length := by
        simp only [List.length_append]
        omega
      rw [cv, offset, ← lead_front filled.2 b, ← trim_front blank]
      apply value_trim
      · rw [seen]
        simp
      · rw [ws, List.append_assoc, trail_append]
        refine trail_reset _ _ ?_
        obtain ⟨u, c, w, rfl, -, plain⟩ := trim_cases filled.2
        exact ⟨c, by simp, plain⟩
      · rw [trim_front blank]
        exact filled.2
    have apart : (e.cv == e.v) = false := beq_eq_false_iff_ne.mpr other
    rw [element, apart, if_neg other, closing, if_neg (List.cons_ne_nil _ _)]
    rfl

/-- The loop behind the line feed of a line. -/
def atFeed (s : Scan) : Scan := { s with seen := s.seen ++ crlf, ws := s.ws + 2, lf := true }

theorem run_crlf {s : Scan} (lf : s.lf = false) (text : List Byte) : s.run (crlf ++ text) = s.atFeed.run text := by
  have feed := step_feed (s := { s with ws := s.ws + 1, seen := s.seen ++ [chr '\r'] }) lf
  apply (run_more (step_return s) _).trans
  apply (run_more feed text).trans
  unfold atFeed
  rw [List.append_assoc]
  rfl

theorem crlf_blank : ∀ c ∈ crlf, isBlank c = true := by decide

theorem InValue.opened {s : Scan} (l : HdrLine) : (s.opened l).InValue l.name := by
  refine ⟨rfl, fun none_ => l.named (List.eq_nil_of_length_eq_zero none_), ?_, ?_⟩
  · show ((s.seen ++ (l.name ++ l.gap ++ [chr ':'])).drop s.seen.length).take l.name.length = l.name
    rw [List.drop_left, List.append_assoc, List.take_left]
  · show s.seen.length + l.name.length ≤ (s.seen ++ (l.name ++ l.gap ++ [chr ':'])).length
    simp only [List.length_append]
    omega

theorem closes_of_lines {t : Scan} {calls : List Call} (lf : t.lf = true)
    (ends : ∀ msg b, (∀ c ∈ b, isBlank c = true) →
      endLine { t.withMsg msg with seen := t.seen ++ b, ws := t.ws + b.length } = hdrAdds msg calls) :
    t.Closes calls := by
  refine ⟨lf, fun msg => ?_, fun msg => ends msg crlf crlf_blank⟩
  have same : ({ t.withMsg msg with seen := t.seen ++ [], ws := t.ws + 0 } : Scan) = t.withMsg msg := by
    rw [List.append_nil, Nat.add_zero]
    rfl
  have ended := ends msg [] fun _ none_ => absurd none_ List.not_mem_nil
  exact (congrArg endLine same).symm.trans ended

theorem endLine_blank {e : Scan} {name : List Byte} (inValue : e.InValue name) (cv : e.cv = none) (v : e.v = none) :
    e.endLine = hdrAdds e.msg [⟨⟨name, [], e.id⟩, true, true⟩] := by
  rw [endLine_adds inValue.len, hdr_eq inValue, cv, v, if_pos rfl]
  rfl

theorem quiet_blank {comsep quote : Bool} {x : List Byte} (blank : ∀ c ∈ x, isBlank c = true) : Quiet comsep quote x := by
  induction x generalizing quote with
  | nil => trivial
  | cons c x ih =>
    rw [List.forall_mem_cons] at blank
    refine ⟨?_, ih blank.2⟩
    have other : (c == chr ',') = false := by
      rw [beq_eq_false_iff_ne]
      rintro rfl
      exact absurd blank.1 (by decide)
    show (c == chr ',' && comsep && !quote) = false
    rw [other, Bool.false_and, Bool.false_and]

/-- The loop adds for a line what is before its last element, and keeps the rest for the next byte. -/
def Runs (s : Scan) (l : HdrLine) : Prop :=
  ∃ (t : Scan) (first last : List Call), l.calls = first ++ last ∧ t.Closes last ∧ t.seen = s.seen ++ l.text ∧
    ∀ text, s.run (l.text ++ text) = andThen (hdrAdds s.msg first) fun msg => (t.withMsg msg).run text

theorem run_text {s : Scan} (fresh : s.Fresh) (l : HdrLine) (text : List Byte) :
    s.run (l.text ++ text) = (s.opened l).run (l.raw ++ (crlf ++ text)) := by
  have whole : l.text ++ text = l.name ++ l.gap ++ chr ':' :: (l.raw ++ (crlf ++ text)) := by simp [HdrLine.text]
  rw [whole]
  exact run_opened fresh l _

/-- A value without elements. -/
theorem runs_blank {s : Scan} (fresh : s.Fresh) {l : HdrLine} (blank : l.value = []) : s.Runs l := by
  have all := trim_eq_nil.mp blank
  have calls : l.calls = [⟨⟨l.name, [], l.id⟩, true, true⟩] := by
    rw [HdrLine.calls, HdrLine.cut, pieces, splits_quiet (quiet_blank all), blank]
    rfl
  let t : Scan :=
    atFeed { s.opened l with seen := (s.opened l).seen ++ l.raw, ws := (s.opened l).ws + l.raw.length, lf := false }
  refine ⟨t, [], _, calls, closes_of_lines rfl fun msg b _ => ?_, ?_, fun text => ?_⟩
  · have seen : t.seen ++ b = (s.opened l).seen ++ (l.raw ++ (crlf ++ b)) := by
      show (s.opened l).seen ++ l.raw ++ crlf ++ b = _
      simp only [List.append_assoc]
    exact endLine_blank ((InValue.opened l).later rfl rfl seen) fresh.cv fresh.v
  · show s.seen ++ (l.name ++ l.gap ++ [chr ':']) ++ l.raw ++ crlf = s.seen ++ l.text
    simp [HdrLine.text]
  · rw [run_text fresh]
    apply (run_blanks all l.fold _).trans
    exact run_crlf rfl text

theorem runs_filled {s : Scan} (fresh : s.Fresh) {l : HdrLine} (filled : ∀ x ∈ l.cut, trim isBlank x ≠ []) :
    s.Runs l := by
  obtain ⟨first, last, cut⟩ := (List.eq_nil_or_concat l.cut).resolve_left (splits_ne_nil _)
  rw [List.concat_eq_append] at cut
  have calls : l.calls = first.map (elementCall l.name l.id) ++ closing l.name l.id l.raw last first := by
    rw [HdrLine.calls, cut, closing]
    by_cases one : first = []
    · subst one
      rfl
    · have many : (first ++ [last]).length ≠ 1 := by
        have positive := List.length_pos_iff.mpr one
        rw [List.length_append, List.length_singleton]
        omega
      rw [if_neg many, if_neg one, List.map_append, List.append_assoc]
      rfl
  let t : Scan := atFeed ((s.opened l).behind l.raw last)
  refine ⟨t, _, _, calls, closes_of_lines rfl fun msg b blank => ?_, ?_, fun text => ?_⟩
  · have seen : t.seen ++ b = (s.opened l).seen ++ (l.raw ++ (crlf ++ b)) := by
      show (s.opened l).seen ++ l.raw ++ crlf ++ b = _
      simp only [List.append_assoc]
    have both : ∀ c ∈ crlf ++ b, isBlank c = true := by
      rw [List.forall_mem_append]
      exact ⟨crlf_blank, blank⟩
    have inValue : InValue { t.withMsg msg with seen := t.seen ++ b, ws := t.ws + b.length } l.name :=
      (InValue.opened l).later rfl rfl seen
    refine endLine_behind inValue seen ?_ both rfl ?_ cut filled
    · show trail isBlank 0 l.raw + 2 + b.length = trail isBlank 0 (l.raw ++ (crlf ++ b))
      rw [trail_append, trail_blank both, List.length_append, Nat.add_assoc]
      rfl
    · show some ((s.opened l).v.getD _) = _
      rw [show (s.opened l).v = none from fresh.v]
      rfl
  · show s.seen ++ (l.name ++ l.gap ++ [chr ':']) ++ l.raw ++ crlf = s.seen ++ l.text
    simp [HdrLine.text]
  · have run := run_pieces (InValue.opened (s := s) l) fresh.cv rfl l.fold cut filled (crlf ++ text)
    rw [run_text fresh, run]
    congr 1
    funext msg
    exact run_crlf rfl text

theorem runs_line {s : Scan} (fresh : s.Fresh) {l : HdrLine} (filled : l.Filled) : s.Runs l := by
  by_cases blank : l.value = []
  · exact runs_blank fresh blank
  · exact runs_filled fresh (filled blank)

theorem fresh_nextLine (t : Scan) (msg : SipMsg) : (t.nextLine msg).Fresh := ⟨rfl, rfl, rfl, rfl, rfl⟩

theorem step_nextLine {t : Scan} (lf : t.lf = true) {c : Byte} (plain : isBlank c = false) (text : List Byte) :
    t.run (c :: text) = andThen t.endLine fun msg => (t.nextLine msg).run (c :: text) := by
  obtain ⟨space, ret, feed⟩ := plain_cases plain
  rw [run, step, if_neg space, if_neg ret, if_neg feed, if_pos lf]
  cases t.endLine with
  | error e => rfl
  | ok msg =>
    have open_ : ¬ (c = chr ',' ∧ (t.nextLine msg).comsep ∧ (t.nextLine msg).quote = false) := fun comma =>
      absurd comma.2.1 Bool.false_ne_true
    show _ = (t.nextLine msg).run (c :: text)
    rw [run, step_plain plain rfl, if_neg open_]
    rfl

/-- What was left of a line is added when the next one begins. -/
theorem run_next {t : Scan} {calls : List Call} (closes : t.Closes calls) (msg : SipMsg) (l : HdrLine)
    (text : List Byte) :
    (t.withMsg msg).run (l.text ++ text) =
      andThen (hdrAdds msg calls) fun msg => (t.nextLine msg).run (l.text ++ text) := by
  obtain ⟨c, x, cons⟩ := List.exists_cons_of_ne_nil l.named
  have plain := (l.plain c (by rw [cons]; exact List.mem_cons_self)).1
  have begins : l.text ++ text = c :: (x ++ l.gap ++ chr ':' :: l.raw ++ crlf ++ text) := by
    rw [HdrLine.text, cons]
    simp
  have next := step_nextLine (t := t.withMsg msg) closes.lf plain (x ++ l.gap ++ chr ':' :: l.raw ++ crlf ++ text)
  rw [closes.plain, ← begins] at next
  exact next

theorem step_eoh {s : Scan} (lf : s.lf = true) (text : List Byte) :
    s.run (chr '\n' :: text) =
      andThen (endLine { s with ws := s.ws + 1, seen := s.seen ++ [chr '\n'] }) fun msg =>
        .ok (msg, s.seen.length + 1) := by
  rw [run, step, if_neg (by decide), if_neg (by decide), if_pos rfl, if_pos lf]
  cases endLine { s with ws := s.ws + 1, seen := s.seen ++ [chr '\n'] } <;> rfl

theorem run_eoh {t : Scan} {calls : List Call} (closes : t.Closes calls) (msg : SipMsg) (body : List Byte) :
    (t.withMsg msg).run (crlf ++ body) =
      andThen (hdrAdds msg calls) fun msg => .ok (msg, t.seen.length + 2) := by
  have eoh := step_eoh (s := { t.withMsg msg with ws := t.ws + 1, seen := t.seen ++ [chr '\r'] }) closes.lf body
  have seen : t.seen ++ [chr '\r'] ++ [chr '\n'] = t.seen ++ crlf := List.append_assoc _ _ _
  simp only [seen, List.length_append, List.length_singleton] at eoh
  rw [← closes.feed msg]
  exact (run_more (step_return (t.withMsg msg)) _).trans eoh

/-- All lines of a header and the empty line behind them. -/
theorem run_lines {t : Scan} {calls : List Call} (closes : t.Closes calls) (msg : SipMsg) {lines : List HdrLine}
    (filled : ∀ l ∈ lines, l.Filled) (body : List Byte) :
    (t.withMsg msg).run (lines.flatMap HdrLine.text ++ (crlf ++ body)) =
      andThen (hdrAdds msg (calls ++ lines.flatMap HdrLine.calls)) fun msg =>
        .ok (msg, t.seen.length + (lines.flatMap HdrLine.text).length + 2) := by
  induction lines generalizing t calls msg with
  | nil =>
    rw [List.flatMap_nil, List.flatMap_nil, List.append_nil]
    exact run_eoh closes msg body
  | cons l lines ih =>
    rw [List.forall_mem_cons] at filled
    rw [List.flatMap_cons, List.flatMap_cons, List.append_assoc, run_next closes, andThen_append]
    congr 1
    funext msg
    obtain ⟨t', first, last, whole, closes', seen, line⟩ := runs_line (fresh_nextLine t msg) filled.1
    rw [line, whole, List.append_assoc, andThen_append]
    congr 1
    funext msg'
    have length : t'.seen.length = t.seen.length + l.text.length := by
      rw [seen, List.length_append]
      rfl
    rw [ih closes' msg' filled.2, length, List.length_append, Nat.add_assoc t.seen.length]

theorem run_header (seen : List Byte) (msg : SipMsg) {lines : List HdrLine} (some_ : lines ≠ [])
    (filled : ∀ l ∈ lines, l.Filled) (body : List Byte) :
    (start seen msg).run (lines.flatMap HdrLine.text ++ (crlf ++ body)) =
      andThen (hdrAdds msg (lines.flatMap HdrLine.calls)) fun msg =>
        .ok (msg, seen.length + (lines.flatMap HdrLine.text).length + 2) := by
  obtain ⟨l, lines, rfl⟩ := List.exists_cons_of_ne_nil some_
  rw [List.forall_mem_cons] at filled
  have fresh : (start seen msg).Fresh := ⟨rfl, rfl, rfl, rfl, rfl⟩
  obtain ⟨t, first, last, whole, closes, at_, line⟩ := runs_line fresh filled.1
  rw [List.flatMap_cons, List.flatMap_cons, List.append_assoc, line, whole, List.append_assoc, andThen_append]
  congr 1
  funext msg'
  have length : t.seen.length = seen.length + l.text.length := by
    rw [at_, List.length_append]
    rfl
  rw [run_lines closes msg' filled.2, length, List.length_append, Nat.add_assoc seen.length]

end Scan

end Baresip.Sip.Message
