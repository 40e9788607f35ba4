import Baresip.Sip.Headers

set_option linter.dupNamespace false

namespace Baresip.Sip.Message

open Re Library

/-- Where a value is: in a quoted string, behind a backslash in one, between angle brackets. -/
structure Marks where
  quote : Bool
  esc : Bool
  angle : Bool
  deriving DecidableEq, Repr

namespace Marks

def start : Marks := ⟨false, false, false⟩

def next (m : Marks) (c : Byte) : Marks :=
  if m.quote then
    if m.esc then { m with esc := false }
    else if c = chr '\\' then { m with esc := true }
    else if c = chr '"' then { m with quote := false }
    else m
  else if c = chr '"' then { m with quote := true }
  else if c = chr '<' then { m with angle := true }
  else if c = chr '>' then { m with angle := false }
  else m

def separates (m : Marks) (c : Byte) : Bool := c == chr ',' && !m.quote && !m.angle

/-- No quote of a string is behind a backslash, and no comma between angle brackets. -/
def Simple (m : Marks) (c : Byte) : Prop :=
  ¬ (m.quote = true ∧ m.esc = true ∧ c = chr '"') ∧ ¬ (m.quote = false ∧ m.angle = true ∧ c = chr ',')

instance (m : Marks) (c : Byte) : Decidable (m.Simple c) := inferInstanceAs (Decidable (_ ∧ _))

end Marks

namespace HdrLine

/-- The elements of a line, between the commas that are neither in a string nor between angle brackets. -/
def elements (l : HdrLine) : List (List Byte) :=
  (splits (fun m c => hdrCommaSeparated l.id && m.separates c) Marks.next Marks.start l.raw).map (trim isBlank)

def Simple (l : HdrLine) : Prop := Along Marks.next Marks.Simple Marks.start l.raw

instance (l : HdrLine) : Decidable l.Simple := inferInstanceAs (Decidable (Along _ _ _ _))

/-- What the list of header lines has of a line. -/
def listed (l : HdrLine) : List SipHdr :=
  if l.id = .via ∨ l.id = .route then l.elements.map fun e => ⟨l.name, e, l.id⟩ else [⟨l.name, l.value, l.id⟩]

theorem quote_next {m : Marks} {c : Byte} (simple : m.Simple c) : (m.next c).quote = toggle m.quote c := by
  obtain ⟨quote, esc, angle⟩ := m
  unfold Marks.next toggle
  cases quote with
  | true =>
    cases esc with
    | true =>
      have plain : c ≠ chr '"' := fun same => simple.1 ⟨rfl, rfl, same⟩
      simp [plain]
    | false =>
      by_cases back : c = chr '\\'
      · subst back
        decide +revert
      · by_cases ends : c = chr '"'
        · have other : chr '"' ≠ chr '\\' := by decide
          simp [ends, other]
        · simp [back, ends]
  | false =>
    by_cases opens : c = chr '"'
    · simp [opens]
    · simp only [opens, Bool.false_eq_true, if_false]
      split_ifs <;> rfl

/-- Where a line is simple, the elements into which the loop cuts it are its elements. -/
theorem cut_elements {l : HdrLine} (simple : hdrCommaSeparated l.id = true → l.Simple) :
    l.cut.map (trim isBlank) = l.elements := by
  rw [cut, pieces, elements]
  congr 1
  cases comsep : hdrCommaSeparated l.id with
  | false =>
    apply splits_congr (R := fun _ _ => True) (Q := fun _ _ => True) _ trivial
    · exact along_of_invariant (I := fun _ => True) (fun _ _ _ => trivial) (fun _ _ _ => trivial) trivial
    · intro quote m c _ _
      rw [commaAt, Bool.and_false, Bool.false_and, Bool.false_and]
      exact ⟨rfl, trivial⟩
  | true =>
    apply splits_congr (R := fun quote m => quote = m.quote) (Q := Marks.Simple) _ rfl (simple comsep)
    rintro quote m c rfl simple
    refine ⟨?_, (quote_next simple).symm⟩
    by_cases comma : c = chr ','
    · have outside : m.quote = false → m.angle = false := by
        intro quote
        rw [← Bool.not_eq_true]
        exact fun inside => simple.2 ⟨quote, inside, comma⟩
      cases quote : m.quote with
      | true => simp [commaAt, Marks.separates, quote]
      | false => simp [commaAt, Marks.separates, quote, outside quote]
    · have other : (c == chr ',') = false := beq_eq_false_iff_ne.mpr comma
      simp [commaAt, Marks.separates, other]

end HdrLine

/-- A result with the headers of this message. -/
def Keeps (msg : SipMsg) (r : Except Errno SipMsg) : Prop :=
  ∀ msg', r = .ok msg' → msg'.hdrht = msg.hdrht ∧ msg'.hdrl = msg.hdrl

theorem Keeps.ok {msg next : SipMsg} (same : next.hdrht = msg.hdrht ∧ next.hdrl = msg.hdrl) : Keeps msg (.ok next) := by
  rintro msg' ⟨⟩
  exact same

theorem Keeps.map {A : Type} {msg : SipMsg} {x : Except Errno A} {f : A → SipMsg}
    (same : ∀ a, (f a).hdrht = msg.hdrht ∧ (f a).hdrl = msg.hdrl) : Keeps msg (x.map f) := by
  intro msg' parsed
  obtain ⟨a, -, rfl⟩ := map_ok parsed
  exact same a

theorem Keeps.ite {msg : SipMsg} {c : Prop} [Decidable c] {a b : Except Errno SipMsg} (yes : Keeps msg a)
    (no : Keeps msg b) : Keeps msg (if c then a else b) := by
  by_cases holds : c
  · rwa [if_pos holds]
  · rwa [if_neg holds]

theorem parse_keeps {msg msg' : SipMsg} {id : HdrId} {val : List Byte} {atomic : Bool}
    (parsed : msg.parse id val atomic = .ok msg') : msg'.hdrht = msg.hdrht ∧ msg'.hdrl = msg.hdrl := by
  have keeps : Keeps msg (msg.parse id val atomic) := by
    unfold SipMsg.parse
    repeat' apply Keeps.ite
    all_goals
      first
      | exact .ok ⟨rfl, rfl⟩
      | exact .map fun _ => ⟨rfl, rfl⟩
  exact keeps msg' parsed

/-- Whether a call puts its header into the list of lines. -/
def Call.listed (call : Call) : Bool := if call.hdr.id = .via ∨ call.hdr.id = .route then call.atomic else call.line

theorem hdrAdds_stored {msg msg' : SipMsg} {calls : List Call} (added : hdrAdds msg calls = .ok msg') :
    msg'.hdrht = msg.hdrht ++ (calls.filter (·.atomic)).map (·.hdr) ∧
      msg'.hdrl = msg.hdrl ++ (calls.filter (·.listed)).map (·.hdr) := by
  induction calls generalizing msg with
  | nil =>
    obtain rfl := Except.ok.inj added
    simp
  | cons call calls ih =>
    rw [hdrAdds] at added
    cases first : hdrAdd msg call.hdr call.atomic call.line with
    | error e =>
      rw [first] at added
      contradiction
    | ok next =>
      rw [first] at added
      obtain ⟨table, list⟩ := ih added
      obtain ⟨table', list'⟩ := parse_keeps first
      rw [table, list, table', list', SipMsg.store]
      constructor
      · cases atomic : call.atomic <;> simp [atomic]
      · by_cases listed : call.listed = true
        · have kept := listed
          rw [Call.listed] at kept
          simp [listed, kept]
        · have kept := listed
          rw [Call.listed] at kept
          simp [listed, kept]

namespace HdrLine

theorem calls_cases (l : HdrLine) :
    (∃ x, l.cut = [x] ∧ trim isBlank x = l.value ∧ l.calls = [⟨⟨l.name, l.value, l.id⟩, true, true⟩]) ∨
      hdrCommaSeparated l.id = true ∧
        l.calls = l.cut.map (elementCall l.name l.id) ++ [⟨⟨l.name, l.value, l.id⟩, false, true⟩] := by
  have whole (quiet : Quiet (hdrCommaSeparated l.id) false l.raw) :
      ∃ x, l.cut = [x] ∧ trim isBlank x = l.value ∧ l.calls = [⟨⟨l.name, l.value, l.id⟩, true, true⟩] := by
    have cut : l.cut = [l.raw] := splits_quiet quiet
    exact ⟨l.raw, cut, rfl, by rw [calls, cut]; rfl⟩
  rcases splits_cases (commaAt (hdrCommaSeparated l.id)) toggle false l.raw with quiet | ⟨x, c, y, raw, quiet, separates⟩
  · exact .inl (whole quiet)
  · have comsep : hdrCommaSeparated l.id = true := by
      simp only [commaAt, Bool.and_eq_true] at separates
      exact separates.1.2
    have many : l.cut.length ≠ 1 := by
      have some_ : splits (commaAt (hdrCommaSeparated l.id)) toggle (toggle (x.foldl toggle false) c) y ≠ [] :=
        splits_ne_nil y
      have positive := List.length_pos_iff.mpr some_
      rw [cut, pieces, raw, splits_separator quiet separates, List.length_cons]
      omega
    exact .inr ⟨comsep, if_neg many⟩

theorem calls_atomic (l : HdrLine) :
    (l.calls.filter (·.atomic)).map (·.hdr) = (l.cut.map (trim isBlank)).map fun e => ⟨l.name, e, l.id⟩ := by
  rcases l.calls_cases with ⟨x, cut, value, calls⟩ | ⟨-, calls⟩
  · rw [calls, cut, List.map_singleton, value]
    rfl
  · have all : (l.cut.map (elementCall l.name l.id)).filter (·.atomic) = l.cut.map (elementCall l.name l.id) := by
      rw [List.filter_eq_self]
      intro call member
      obtain ⟨x, -, rfl⟩ := List.mem_map.mp member
      rfl
    rw [calls, List.filter_append, all, List.map_append, List.map_map, List.map_map]
    exact List.append_nil _

theorem calls_listed {l : HdrLine} (simple : hdrCommaSeparated l.id = true → l.Simple) :
    (l.calls.filter (·.listed)).map (·.hdr) = l.listed := by
  rw [listed, ← cut_elements simple]
  rcases l.calls_cases with ⟨x, cut, value, calls⟩ | ⟨-, calls⟩
  · rw [calls, cut, List.map_singleton, value]
    by_cases each : l.id = .via ∨ l.id = .route
    · simp [Call.listed, each]
    · simp [Call.listed, each]
  · rw [calls, List.filter_append, List.map_append]
    by_cases each : l.id = .via ∨ l.id = .route
    · have all : (l.cut.map (elementCall l.name l.id)).filter (·.listed) = l.cut.map (elementCall l.name l.id) := by
        rw [List.filter_eq_self]
        intro call member
        obtain ⟨x, -, rfl⟩ := List.mem_map.mp member
        exact if_pos each
      rw [all, if_pos each, List.map_map, List.map_map]
      simp [Call.listed, each, Function.comp_def, elementCall]
    · have none_ : (l.cut.map (elementCall l.name l.id)).filter (·.listed) = [] := by
        rw [List.filter_eq_nil_iff]
        intro call member
        obtain ⟨x, -, rfl⟩ := List.mem_map.mp member
        simp [Call.listed, elementCall, each]
      rw [none_, if_neg each]
      simp [Call.listed, each]

end HdrLine

/-- The values of the common headers decode. -/
def Parses (id : HdrId) (val : List Byte) : Prop :=
  (id = .via → ∃ via, sipViaDecode val = .ok via) ∧
    (id = .to_ ∨ id = .from_ → ∃ addr, sipAddrDecode ⟨0, val⟩ = .ok addr) ∧
    (id = .cseq → ∃ cseq, sipCseqDecode val = .ok cseq)

theorem sipTaddrDecode_ok {val : List Byte} (parses : ∃ addr, sipAddrDecode ⟨0, val⟩ = .ok addr)
    (old : Option SipTaddr) : ∃ taddr, sipTaddrDecode old val = .ok taddr := by
  obtain ⟨addr, decoded⟩ := parses
  rw [sipTaddrDecode, decoded]
  exact ⟨_, rfl⟩

theorem parse_ok {id : HdrId} {val : List Byte} {atomic : Bool}
    (parses : Parses id val ∨ hdrCommaSeparated id = true ∧ atomic = false) (msg : SipMsg) :
    ∃ msg', msg.parse id val atomic = .ok msg' := by
  have decodes (other : hdrCommaSeparated id = false) : Parses id val :=
    parses.resolve_right fun comma => absurd (other.symm.trans comma.1) Bool.false_ne_true
  unfold SipMsg.parse
  by_cases via : id = .via
  · rw [if_pos via]
    by_cases once : atomic = false ∨ msg.via.isSome
    · rw [if_pos once]
      exact ⟨_, rfl⟩
    · have decoded := parses.resolve_right fun comma => once (.inl comma.2)
      obtain ⟨v, ok⟩ := decoded.1 via
      rw [if_neg once, ok]
      exact ⟨_, rfl⟩
  rw [if_neg via]
  by_cases to_ : id = .to_
  · obtain ⟨taddr, ok⟩ := sipTaddrDecode_ok ((decodes (by rw [to_]; decide)).2.1 (.inl to_)) msg.to_
    rw [if_pos to_, ok]
    exact ⟨_, rfl⟩
  rw [if_neg to_]
  by_cases from_ : id = .from_
  · obtain ⟨taddr, ok⟩ := sipTaddrDecode_ok ((decodes (by rw [from_]; decide)).2.1 (.inr from_)) msg.from_
    rw [if_pos from_, ok]
    exact ⟨_, rfl⟩
  rw [if_neg from_]
  by_cases cseq : id = .cseq
  · obtain ⟨c, ok⟩ := (decodes (by rw [cseq]; decide)).2.2 cseq
    rw [if_neg (by rw [cseq]; decide), if_pos cseq, ok]
    exact ⟨_, rfl⟩
  rw [if_neg cseq]
  -- The other headers are taken as they are.
  repeat' split
  all_goals exact ⟨_, rfl⟩

theorem hdrAdds_ok {calls : List Call}
    (parses : ∀ call ∈ calls, Parses call.hdr.id call.hdr.val ∨
      hdrCommaSeparated call.hdr.id = true ∧ call.atomic = false) (msg : SipMsg) :
    ∃ msg', hdrAdds msg calls = .ok msg' := by
  induction calls generalizing msg with
  | nil => exact ⟨msg, rfl⟩
  | cons call calls ih =>
    rw [List.forall_mem_cons] at parses
    obtain ⟨next, first⟩ := parse_ok parses.1 (msg.store call.hdr call.atomic call.line)
    obtain ⟨msg', rest⟩ := ih parses.2 next
    exact ⟨msg', by rw [hdrAdds, hdrAdd, first]; exact rest⟩

theorem calls_parse {l : HdrLine} (parses : ∀ x ∈ l.cut, Parses l.id (trim isBlank x)) :
    ∀ call ∈ l.calls, Parses call.hdr.id call.hdr.val ∨
      hdrCommaSeparated call.hdr.id = true ∧ call.atomic = false := by
  rcases l.calls_cases with ⟨x, cut, value, calls⟩ | ⟨comsep, calls⟩
  · rw [calls, List.forall_mem_singleton, ← value]
    exact .inl (parses x (by rw [cut]; exact List.mem_singleton_self x))
  · rw [calls, List.forall_mem_append, List.forall_mem_singleton]
    refine ⟨fun call member => ?_, .inr ⟨comsep, rfl⟩⟩
    obtain ⟨x, there, rfl⟩ := List.mem_map.mp member
    exact .inl (parses x there)

theorem ofLine_empty {x y z : List Byte} {msg : SipMsg} (made : SipMsg.ofLine x y z = .ok msg) :
    msg.hdrht = [] ∧ msg.hdrl = [] := by
  unfold SipMsg.ofLine at made
  dsimp only at made
  split_ifs at made
  · split at made
    · contradiction
    · obtain rfl := Except.ok.inj made
      exact ⟨rfl, rfl⟩
  · obtain rfl := Except.ok.inj made
    exact ⟨rfl, rfl⟩

/-- A text with a request line or a status line, these header lines and this body, where no element of a header
    that has a value is empty. -/
def IsMessage (text : List Byte) (lines : List HdrLine) (body : List Byte) : Prop :=
  (∃ x y z n msg, startline text = some (x, y, z, n) ∧ SipMsg.ofLine x y z = .ok msg ∧
    text.drop n = lines.flatMap HdrLine.text ++ (crlf ++ body)) ∧
    lines ≠ [] ∧ ∀ l ∈ lines, l.value ≠ [] → ∀ e ∈ l.elements, e ≠ []

theorem filled_of_elements {l : HdrLine} (simple : hdrCommaSeparated l.id = true → l.Simple)
    (filled : l.value ≠ [] → ∀ e ∈ l.elements, e ≠ []) : l.Filled := by
  intro some_ x member
  apply filled some_
  rw [← HdrLine.cut_elements simple]
  exact List.mem_map_of_mem member

theorem decode_message {text body : List Byte} {lines : List HdrLine} (message : IsMessage text lines body)
    (simple : ∀ l ∈ lines, hdrCommaSeparated l.id = true → l.Simple) :
    ∃ msg n, msg.hdrht = [] ∧ msg.hdrl = [] ∧ text.drop n = body ∧
      sipMsgDecode text = andThen (hdrAdds msg (lines.flatMap HdrLine.calls)) fun msg => .ok (msg, n) := by
  obtain ⟨⟨x, y, z, n, msg, line, made, whole⟩, some_, filled⟩ := message
  have ran := Scan.run_header (text.take n) msg some_
    (fun l member => filled_of_elements (simple l member) (filled l member)) body
  obtain ⟨table, list⟩ := ofLine_empty made
  have inside : (text.take n).length = n := by
    have length := congrArg List.length whole
    have two : crlf.length = 2 := rfl
    rw [List.length_drop, List.length_append, List.length_append, two] at length
    rw [List.length_take]
    omega
  refine ⟨msg, (text.take n).length + (lines.flatMap HdrLine.text).length + 2, table, list, ?_, ?_⟩
  · rw [inside, Nat.add_assoc, ← List.drop_drop, whole, ← List.append_assoc]
    apply List.drop_left'
    rw [List.length_append]
    rfl
  · rw [sipMsgDecode, line]
    dsimp only
    rw [made]
    dsimp only
    rw [whole, ran]

theorem lines_values {lines : List HdrLine} (simple : ∀ l ∈ lines, hdrCommaSeparated l.id = true → l.Simple)
    (id : HdrId) :
    ((((lines.flatMap HdrLine.calls).filter (·.atomic)).map (·.hdr)).filter (·.id = id)).map (·.val) =
      (lines.filter (·.id = id)).flatMap HdrLine.elements := by
  induction lines with
  | nil => rfl
  | cons l lines ih =>
    rw [List.forall_mem_cons] at simple
    rw [List.flatMap_cons, List.filter_append, List.map_append, List.filter_append, List.map_append, ih simple.2,
      HdrLine.calls_atomic, HdrLine.cut_elements simple.1]
    by_cases same : l.id = id
    · rw [List.filter_cons_of_pos (by simpa using same), List.flatMap_cons]
      congr 1
      rw [List.filter_eq_self.mpr]
      · rw [List.map_map]
        exact List.map_id _
      · intro hdr member
        obtain ⟨e, -, rfl⟩ := List.mem_map.mp member
        simpa using same
    · rw [List.filter_cons_of_neg (by simpa using same)]
      have none_ : (l.elements.map fun e => (⟨l.name, e, l.id⟩ : SipHdr)).filter (·.id = id) = [] := by
        rw [List.filter_eq_nil_iff]
        intro hdr member
        obtain ⟨e, -, rfl⟩ := List.mem_map.mp member
        simpa using same
      rw [none_]
      rfl

theorem lines_listed {lines : List HdrLine} (simple : ∀ l ∈ lines, hdrCommaSeparated l.id = true → l.Simple) :
    ((lines.flatMap HdrLine.calls).filter (·.listed)).map (·.hdr) = lines.flatMap HdrLine.listed := by
  induction lines with
  | nil => rfl
  | cons l lines ih =>
    rw [List.forall_mem_cons] at simple
    rw [List.flatMap_cons, List.flatMap_cons, List.filter_append, List.map_append, ih simple.2,
      HdrLine.calls_listed simple.1]

/-- Whatever message the decoder accepts, it stores the elements of its headers in their order, and lists each
    header line with its value, or each element of it; and it accepts all whose common headers decode. -/
theorem headers_stored (text body : List Byte) (lines : List HdrLine) (message : IsMessage text lines body)
    (simple : ∀ l ∈ lines, hdrCommaSeparated l.id = true → l.Simple) :
    (∀ msg n, sipMsgDecode text = .ok (msg, n) →
      text.drop n = body ∧ (∀ id, msg.values id = (lines.filter (·.id = id)).flatMap HdrLine.elements) ∧
        msg.hdrl = lines.flatMap HdrLine.listed) ∧
      ((∀ l ∈ lines, ∀ e ∈ l.elements, Parses l.id e) → ∃ r, sipMsgDecode text = .ok r) := by
  obtain ⟨first, m, table, list, rest, decoded⟩ := decode_message message simple
  constructor
  · intro msg n ok
    rw [decoded] at ok
    cases added : hdrAdds first (lines.flatMap HdrLine.calls) with
    | error e =>
      rw [added] at ok
      contradiction
    | ok msg' =>
      rw [added] at ok
      obtain ⟨rfl, rfl⟩ := Prod.mk.inj (Except.ok.inj ok)
      obtain ⟨table', list'⟩ := hdrAdds_stored added
      rw [table, List.nil_append] at table'
      rw [list, List.nil_append] at list'
      refine ⟨rest, fun id => ?_, ?_⟩
      · rw [SipMsg.values, table']
        exact lines_values simple id
      · rw [list']
        exact lines_listed simple
  · intro parses
    have each : ∀ call ∈ lines.flatMap HdrLine.calls, Parses call.hdr.id call.hdr.val ∨
        hdrCommaSeparated call.hdr.id = true ∧ call.atomic = false := by
      intro call member
      obtain ⟨l, there, inside⟩ := List.mem_flatMap.mp member
      refine calls_parse (fun x cut => parses l there _ ?_) call inside
      rw [← HdrLine.cut_elements (simple l there)]
      exact List.mem_map_of_mem cut
    obtain ⟨msg', added⟩ := hdrAdds_ok each first
    exact ⟨(msg', m), by rw [decoded, added]; rfl⟩

def response (lines : List HdrLine) : List Byte :=
  ascii "SIP/2.0 200 OK\r\n" ++ (lines.flatMap HdrLine.text ++ (crlf ++ []))

theorem response_message {lines : List HdrLine}
    (line : startline (response lines) = some (ascii "SIP/2.0", ascii "200", ascii "OK", 16)) (some_ : lines ≠ [])
    (filled : ∀ l ∈ lines, l.value ≠ [] → ∀ e ∈ l.elements, e ≠ []) : IsMessage (response lines) lines [] :=
  ⟨⟨_, _, _, _,
    ⟨false, [], [], none, ascii "SIP/2.0", 200, ascii "OK", [], [], none, none, none, none, none, none, none, none, none⟩,
    line, by decide, List.drop_left' (by decide)⟩, some_, filled⟩

/-- A folded line with a comma in a string, and one without a value. -/
def plainLines : List HdrLine :=
  [⟨ascii "Contact", ascii " ", ascii " \"a, b\" <sip:a@b>\r\n ,<sip:c>", by decide, by decide, by decide, by decide⟩,
    ⟨ascii "k", [], [], by decide, by decide, by decide, by decide⟩]

theorem headers_stored_plain :
    (∀ msg n, sipMsgDecode (response plainLines) = .ok (msg, n) →
      (response plainLines).drop n = [] ∧
        (∀ id, msg.values id = (plainLines.filter (·.id = id)).flatMap HdrLine.elements) ∧
        msg.hdrl = plainLines.flatMap HdrLine.listed) ∧
      ((∀ l ∈ plainLines, ∀ e ∈ l.elements, Parses l.id e) → ∃ r, sipMsgDecode (response plainLines) = .ok r) :=
  headers_stored (response plainLines) [] plainLines
    (response_message (by decide +kernel) (by decide +kernel) (by decide +kernel)) (by decide +kernel)

def contactLine : HdrLine := ⟨ascii "Contact", [], ascii " <sip:a,b@c>", by decide, by decide, by decide, by decide⟩

def warningLine : HdrLine := ⟨ascii "Warning", [], ascii " 399 h \"a\\\",b\"", by decide, by decide, by decide, by decide⟩

def routeLine : HdrLine := ⟨ascii "Route", [], ascii " <sip:x>,<sip:y>", by decide, by decide, by decide, by decide⟩

/-- Its name has the hash of Contact. -/
def otherLine : HdrLine := ⟨ascii "bjo", [], ascii " d", by decide, by decide, by decide, by decide⟩

def otherLines : List HdrLine := [contactLine, warningLine, routeLine, otherLine]

/-- A comma between angle brackets and one behind an escaped quote cut an element in two, another header counts as
    Contact, and the list has two entries for the line of a Route. -/
theorem headers_cut_apart :
    IsMessage (response otherLines) otherLines [] ∧
      contactLine.elements = [ascii "<sip:a,b@c>"] ∧ warningLine.elements = [ascii "399 h \"a\\\",b\""] ∧
      (sipMsgDecode (response otherLines)).map (fun r =>
          (r.1.values .contact, r.1.values .warning, (r.1.hdrl.filter (·.id = .route)).map (·.val))) =
        .ok ([ascii "<sip:a", ascii "b@c>", ascii "d"], [ascii "399 h \"a\\\"", ascii "b\""],
          [ascii "<sip:x>", ascii "<sip:y>"]) :=
  ⟨response_message (by decide +kernel) (by decide +kernel) (by decide +kernel), by decide +kernel, by decide +kernel, by decide +kernel⟩

end Baresip.Sip.Message
