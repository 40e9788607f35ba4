import Baresip.Re.Runs

set_option linter.dupNamespace false

namespace Baresip.Re.Lookup

/-- What `re_snprintf` writes to the 128 bytes of a pattern: the pieces up to the first one that has no room. -/
def printed (head name tail : List Byte) : List Byte :=
  if head.length + name.length + tail.length ≤ 127 then head ++ (name ++ tail)
  else if head.length + name.length ≤ 127 then head ++ name
  else head

/-- What a search for a parameter says. The pattern may end before the capture of the value, which is unset then. -/
inductive Report
  | absent
  | found (val : Pl)
  | unset
  deriving DecidableEq, Repr

def fmtHead : List Byte := ascii "[;]*[ \t\r\n]*"
def sipHead : List Byte := ascii ";[ \t\r\n]*"
def valueTail : List Byte := ascii "[ \t\r\n]*=[ \t\r\n]*[~ \t\r\n;]+"
def endsTail : List Byte := ascii "[ \t\r\n;=]*"

/-- No answer stands for one that depends on a capture that is unset. -/
def fmtParamExists (pl pname : List Byte) : Option Bool :=
  match reRegex pl (printed fmtHead pname endsTail) with
  | .ok [semi, _, eop] =>
    if eop.val = [] ∧ eop.off < pl.length then some false else some (decide (semi.val ≠ [] ∨ semi.off = 0))
  | .ok _ => none
  | .error _ => some false

def fmtParamGet (pl pname : List Byte) : Report :=
  match reRegex pl (printed fmtHead pname valueTail) with
  | .ok (semi :: captures) =>
    if semi.val ≠ [] ∨ semi.off = 0 then
      match captures with
      | [_, _, _, val] => .found val
      | _ => .unset
    else .absent
  | _ => .absent

def sipParamExists (pl name : List Byte) : Report :=
  match reRegex pl (printed sipHead name endsTail) with
  | .ok [v1, v2] =>
    if v2.val = [] ∧ v2.off < pl.length then .absent
    else .found ⟨v1.off - 1, (pl.drop (v1.off - 1)).take (v2.off - (v1.off - 1))⟩
  | .ok _ => .unset
  | .error _ => .absent

def sipParamDecode (pl name : List Byte) : Report :=
  match reRegex pl (printed sipHead name valueTail) with
  | .ok [_, _, _, v] => .found v
  | .ok _ => .unset
  | .error _ => .absent

/-! The elements of a parameter string. -/

def White (c : Byte) : Prop := c ∈ ascii " \t\r\n"

instance (c : Byte) : Decidable (White c) := inferInstanceAs (Decidable (c ∈ ascii " \t\r\n"))

/-- Whether a text ends inside quotes, and whether behind a backslash. -/
def quoteState (text : List Byte) : Bool × Bool :=
  text.foldl (fun (quote, esc) c =>
    if esc then (quote, false)
    else if c = chr '\\' then (quote, true)
    else if c = chr '"' then (!quote, false)
    else (quote, false)) (false, false)

/-- An element begins behind a semicolon outside quotes, and one of `prm.c` also where the text does. -/
def Begins (sip : Bool) (text : List Byte) (j : Nat) : Prop :=
  (sip = false ∧ j = 0) ∨
    ∃ i, j = i + 1 ∧ text[i]? = some (chr ';') ∧ quoteState (text.take i) = (false, false)

def nameStart (text : List Byte) (j : Nat) : Nat := j + ((text.drop j).takeWhile fun c => decide (White c)).length

/-- What ends the name of a parameter. -/
def Ends (c : Byte) : Prop := c ∈ ascii " \t\r\n;="

instance (c : Byte) : Decidable (Ends c) := inferInstanceAs (Decidable (c ∈ ascii " \t\r\n;="))

def elementName (text : List Byte) (j : Nat) : List Byte :=
  (text.drop (nameStart text j)).takeWhile fun c => !decide (Ends c)

/-- An element has the name, in whatever case. -/
structure Named (sip : Bool) (text name : List Byte) (j : Nat) : Prop where
  begins : Begins sip text j
  name : (elementName text j).map tolower = name.map tolower

/-- How far a value goes: up to a blank or a semicolon outside quotes. -/
def valueLength : Bool → Bool → List Byte → Nat
  | _, _, [] => 0
  | quote, esc, c :: p =>
    if esc then valueLength quote false p + 1
    else if c = chr '\\' then valueLength quote true p + 1
    else if c = chr '"' then valueLength (!quote) false p + 1
    else if quote ∨ c ∉ ascii " \t\r\n;" then valueLength quote false p + 1
    else 0

/-- The value in the text behind a name, without the quotes around it. -/
def valueBehind (p : List Byte) : Option Pl :=
  let gap := (p.takeWhile fun c => decide (White c)).length
  match p.drop gap with
  | [] => none
  | c :: q =>
    if c ≠ chr '=' then none
    else
      let gap' := (q.takeWhile fun c => decide (White c)).length
      let r := q.drop gap'
      let pl := Regex.stripQuotes ⟨gap + 1 + gap', r.take (valueLength false false r)⟩
      if pl.val = [] then none else some pl

/-- The value where a name of this length stands. -/
def valueAt (text : List Byte) (n k : Nat) : Option Pl := 
  (valueBehind (text.drop (k + n))).map fun pl => ⟨k + n + pl.off, pl.val⟩

/-- The stretch of an element from its semicolon to the end of its name. -/
def spanAt (text : List Byte) (n a k : Nat) : Pl := ⟨a, (text.drop a).take (k + n - a)⟩

/-! The patterns. -/

/-- What comes behind the name in a pattern that may have been cut. -/
inductive Tail
  | bare | ends | value
  deriving DecidableEq, Repr

def headItems (sip : Bool) : List Item :=
  (if sip then [.lit (chr ';')] else [.cls false false (singles (ascii ";")) 0 Regex.uint32Max]) ++
    [.cls false false (singles (ascii " \t\r\n")) 0 Regex.uint32Max]

def tailItems : Tail → List Item
  | .bare => []
  | .ends => [.cls false false (singles (ascii " \t\r\n;=")) 0 Regex.uint32Max]
  | .value =>
    [.cls false false (singles (ascii " \t\r\n")) 0 Regex.uint32Max, .lit (chr '='),
      .cls false false (singles (ascii " \t\r\n")) 0 Regex.uint32Max,
      .cls true true (singles (ascii " \t\r\n;")) 1 Regex.uint32Max]

/-- A byte of the names in question. -/
def Plain (c : Byte) : Prop :=
  Digit c ∨ (0x61 ≤ tolower c ∧ tolower c ≤ 0x7a) ∨ c = chr '-' ∨ c = chr '_'

instance (c : Byte) : Decidable (Plain c) := inferInstanceAs (Decidable (_ ∨ _))

theorem Plain.literal {c : Byte} (plain : Plain c) : c ≠ chr '\\' ∧ c ≠ chr '[' := by
  revert c
  decide +kernel

theorem Plain.inside {c x : Byte} (plain : Plain c) (same : tolower x = tolower c) : ¬ Ends x ∧ x ≠ chr '"' := by
  have apart : ∀ c, Plain c → ¬ Ends (tolower c) ∧ tolower c ≠ chr '"' := by
    unfold Ends
    rw [ascii_ofList]
    decide +kernel
  have kept : ∀ x, Ends x ∨ x = chr '"' → tolower x = x := by
    unfold Ends
    rw [ascii_ofList]
    decide +kernel
  obtain ⟨goes, quote⟩ := apart c plain
  constructor
  · intro ends
    rw [← same, kept x (.inl ends)] at goes
    exact goes ends
  · intro quoted
    rw [← same, kept x (.inr quoted)] at quote
    exact quote quoted

def tailText : Tail → List Byte
  | .bare => []
  | .ends => endsTail
  | .value => valueTail

def headText (sip : Bool) : List Byte := if sip then sipHead else fmtHead

theorem tail_parses (tail : Tail) : Regex.Parses (tailText tail) (tailItems tail) := by
  have gap : Regex.Opens (ascii "[ \t\r\n]*") false false (singles (ascii " \t\r\n")) 0 Regex.uint32Max :=
    .ofList fun _ _ _ _ _ _ _ _ _ => rfl
  have ends : Regex.Opens (ascii "[ \t\r\n;=]*") false false (singles (ascii " \t\r\n;=")) 0 Regex.uint32Max :=
    .ofList fun _ _ _ _ _ _ _ _ _ => rfl
  have value : Regex.Opens (ascii "[~ \t\r\n;]+") true true (singles (ascii " \t\r\n;")) 1 Regex.uint32Max :=
    .ofList fun _ _ _ _ _ _ _ _ _ => rfl
  cases tail with
  | bare => exact Regex.Parses.nil
  | ends => exact Regex.Parses.nil.cls ends
  | value => exact (((Regex.Parses.nil.cls value).cls gap).lit (by decide)).cls gap

theorem lookup_parses (sip : Bool) {name : List Byte} (plain : ∀ c ∈ name, Plain c) (tail : Tail) :
    Regex.Parses (headText sip ++ (name ++ tailText tail)) (headItems sip ++ (name.map .lit ++ tailItems tail)) := by
  have semis : Regex.Opens (ascii "[;]*") false false (singles (ascii ";")) 0 Regex.uint32Max :=
    .ofList fun _ _ _ _ _ _ _ _ _ => rfl
  have gap : Regex.Opens (ascii "[ \t\r\n]*") false false (singles (ascii " \t\r\n")) 0 Regex.uint32Max :=
    .ofList fun _ _ _ _ _ _ _ _ _ => rfl
  have behind := (tail_parses tail).lits fun c member => (plain c member).literal
  cases sip with
  | false => exact (behind.cls gap).cls semis
  | true => exact (behind.cls gap).lit (by decide)

/-! One attempt. -/

/-- How many bytes come in front of the name in an attempt, if one is made. -/
def lead (sip : Bool) (p : List Byte) : Option Nat :=
  if sip then
    match p with
    | [] => none
    | c :: q => if c = chr ';' then some (1 + (q.takeWhile fun c => decide (White c)).length) else none
  else
    let semis := (p.takeWhile fun c => decide (c = chr ';')).length
    some (semis + ((p.drop semis).takeWhile fun c => decide (White c)).length)

def leadCaptures (sip : Bool) (off : Nat) (p : List Byte) : List Pl :=
  if sip then [⟨off + 1, (p.drop 1).takeWhile fun c => decide (White c)⟩]
  else
    let semis := p.takeWhile fun c => decide (c = chr ';')
    [⟨off, semis⟩, ⟨off + semis.length, (p.drop semis.length).takeWhile fun c => decide (White c)⟩]

/-- A class of some bytes takes all of them that come first. -/
theorem matchItems_class {bs : List Byte} (caseless : Caseless bs) {p : List Byte} (fits : p.length ≤ Regex.uint32Max)
    (items : List Item) (off : Nat) :
    matchItems (.cls false false (singles bs) 0 Regex.uint32Max :: items) off p =
      (matchItems items (off + (p.takeWhile fun c => decide (c ∈ bs)).length)
        (p.drop (p.takeWhile fun c => decide (c ∈ bs)).length)).map
          (⟨off, p.takeWhile fun c => decide (c ∈ bs)⟩ :: ·) := by
  have run : classRun false (singles bs) p = p.takeWhile fun c => decide (c ∈ bs) := by
    simp [classRun, exprMatch_singles caseless]
  rw [matchItems_many, List.take_of_length_le fits, run]
  dsimp only
  rw [if_neg (Nat.not_lt_zero _)]

theorem white_class {p : List Byte} (fits : p.length ≤ Regex.uint32Max) (items : List Item) (off : Nat) :
    matchItems (.cls false false (singles (ascii " \t\r\n")) 0 Regex.uint32Max :: items) off p =
      (matchItems items (off + (p.takeWhile fun c => decide (White c)).length)
        (p.drop (p.takeWhile fun c => decide (White c)).length)).map
          (⟨off, p.takeWhile fun c => decide (White c)⟩ :: ·) :=
  matchItems_class (caseless_of (by decide)) fits items off

theorem map_two (r : Except Mismatch (List Pl)) (a b : Pl) : (r.map (b :: ·)).map (a :: ·) = r.map ([a, b] ++ ·) := by
  cases r <;> rfl

theorem head_matches (sip : Bool) {p : List Byte} (fits : p.length ≤ Regex.uint32Max) (more : p ≠ []) (items : List Item)
    (off : Nat) : matchItems (headItems sip ++ items) off p =
      match lead sip p with
      | none => .error .again
      | some n => (matchItems items (off + n) (p.drop n)).map (leadCaptures sip off p ++ ·) := by
  have shorter (n : Nat) : (p.drop n).length ≤ Regex.uint32Max := by
    rw [List.length_drop]
    omega
  cases sip with
  | false =>
    show matchItems (.cls false false (singles (ascii ";")) 0 Regex.uint32Max ::
      .cls false false (singles (ascii " \t\r\n")) 0 Regex.uint32Max :: items) off p = _
    have single : (fun c => decide (c ∈ ascii ";")) = fun c => decide (c = chr ';') := by
      funext c
      exact decide_eq_decide.mpr List.mem_singleton
    rw [matchItems_class (caseless_of (by decide)) fits, white_class (shorter _), single]
    simp only [lead, leadCaptures, Bool.false_eq_true, if_false]
    rw [Nat.add_assoc, List.drop_drop, map_two]
  | true =>
    obtain ⟨c, q, rfl⟩ := List.exists_cons_of_ne_nil more
    show matchItems (.lit (chr ';') :: .cls false false (singles (ascii " \t\r\n")) 0 Regex.uint32Max :: items) off
      (c :: q) = _
    unfold lead leadCaptures
    rw [if_pos rfl]
    dsimp only
    by_cases semi : c = chr ';'
    · have fits' : q.length ≤ Regex.uint32Max := shorter 1
      rw [if_pos semi, semi, matchItems_lit, white_class fits']
      dsimp only
      rw [Nat.add_comm 1, List.drop_succ_cons, Nat.add_assoc, Nat.add_comm 1]
      rfl
    · have other : tolower (chr ';') ≠ tolower c := by
        intro same
        exact semi ((tolower_fixed (b := chr ';') (by decide) (by decide) c).mp same.symm)
      rw [if_neg semi, matchItems, if_pos other]

/-- The text begins with the name, in whatever case. -/
def Starts (name p : List Byte) : Prop := (p.take name.length).map tolower = name.map tolower

instance (name p : List Byte) : Decidable (Starts name p) := inferInstanceAs (Decidable (_ = _))

theorem Starts.length_le {name p : List Byte} (starts : Starts name p) : name.length ≤ p.length := by
  have same := congrArg List.length starts
  rw [List.length_map, List.length_map, List.length_take] at same
  omega

theorem starts_cons {b c : Byte} {name p : List Byte} :
    Starts (b :: name) (c :: p) ↔ tolower c = tolower b ∧ Starts name p := by
  simp [Starts]

theorem name_matches {name p : List Byte} (starts : Starts name p) (items : List Item) (off : Nat) :
    matchItems (name.map .lit ++ items) off p = matchItems items (off + name.length) (p.drop name.length) := by
  induction name generalizing p off with
  | nil => rfl
  | cons b name ih =>
    obtain ⟨c, p, rfl⟩ := List.exists_cons_of_length_pos (Nat.lt_of_lt_of_le (Nat.succ_pos _) starts.length_le)
    obtain ⟨same, starts⟩ := starts_cons.mp starts
    rw [List.map_cons, List.cons_append, matchItems, if_neg (not_not.mpr same.symm), ih starts, List.length_cons,
      List.drop_succ_cons]
    congr 1
    omega

/-- Where the name is not, the attempt is given up, and for good only when the text has ended. -/
theorem name_differs {name p : List Byte} (differs : ¬ Starts name p) (items : List Item) (off : Nat) :
    matchItems (name.map .lit ++ items) off p = .error .again ∨
      (p.length < name.length ∧ matchItems (name.map .lit ++ items) off p = .error (.stop .ENOENT)) := by
  induction name generalizing p off with
  | nil => exact absurd rfl differs
  | cons b name ih =>
    cases p with
    | nil => exact .inr ⟨Nat.succ_pos _, rfl⟩
    | cons c p =>
      rw [List.map_cons, List.cons_append, matchItems]
      by_cases same : tolower b = tolower c
      · rw [if_neg (not_not.mpr same)]
        rcases ih (fun starts => differs (starts_cons.mpr ⟨same.symm, starts⟩)) (off + 1) with again | ⟨short, stop⟩
        · exact .inl again
        · exact .inr ⟨Nat.succ_lt_succ short, stop⟩
      · rw [if_pos same]
        exact .inl rfl

theorem scan_value {p : List Byte} {room : Nat} (fits : p.length ≤ room) (quote esc : Bool) :
    Regex.scan (singles (ascii " \t\r\n;")) true true room quote esc p = valueLength quote esc p := by
  induction p generalizing room quote esc with
  | nil => rfl
  | cons c p ih =>
    obtain ⟨room, rfl⟩ : ∃ n, room = n + 1 := ⟨room - 1, by simp only [List.length_cons] at fits; omega⟩
    have fits : p.length ≤ room := Nat.le_of_succ_le_succ fits
    have stops : exprMatch (singles (ascii " \t\r\n;")) (tolower c) true = decide (c ∉ ascii " \t\r\n;") := by
      rw [exprMatch_singles (caseless_of (by decide))]
      simp
    rw [Regex.scan, if_neg (Nat.succ_ne_zero _), valueLength, stops]
    simp only [Nat.add_sub_cancel, ih fits, Bool.true_and, beq_iff_eq]
    cases esc <;> cases quote <;> simp

theorem stripQuotes_add (off x : Nat) (v : List Byte) : Regex.stripQuotes ⟨off + x, v⟩ =
    ⟨off + (Regex.stripQuotes ⟨x, v⟩).off, (Regex.stripQuotes ⟨x, v⟩).val⟩ := by
  unfold Regex.stripQuotes
  dsimp only
  split_ifs
  · rfl
  · rfl

/-- The last class of a value's pattern takes as much as the value is long. -/
theorem value_class {r : List Byte} (fits : r.length ≤ Regex.uint32Max) (off : Nat) :
    matchItems [.cls true true (singles (ascii " \t\r\n;")) 1 Regex.uint32Max] off r =
      let pl := Regex.stripQuotes ⟨off, r.take (valueLength false false r)⟩
      if pl.val = [] then .error .again else .ok [pl] := by
  have short : (Regex.stripQuotes ⟨off, r.take (valueLength false false r)⟩).val.length ≤ Regex.uint32Max := by
    refine Nat.le_trans (Regex.stripQuotes_le _) (Nat.le_trans ?_ fits)
    exact List.length_take_le' _ _
  rw [matchItems, scan_value fits]
  simp only [if_true, Nat.lt_one_iff, List.length_eq_zero_iff, Nat.not_lt_of_le short, or_false]
  split_ifs
  · rfl
  · rfl

theorem value_eq {p : List Byte} (fits : p.length ≤ Regex.uint32Max) (off : Nat) :
    matchItems (tailItems .value) off p =
      let gap := p.takeWhile fun c => decide (White c)
      match p.drop gap.length with
      | [] => .error (.stop .ENOENT)
      | c :: q =>
        if c ≠ chr '=' then .error .again
        else
          let gap' := q.takeWhile fun c => decide (White c)
          let r := q.drop gap'.length
          let pl := Regex.stripQuotes ⟨off + (gap.length + 1 + gap'.length), r.take (valueLength false false r)⟩
          if pl.val = [] then .error .again
          else .ok [⟨off, gap⟩, ⟨off + gap.length + 1, gap'⟩, pl] := by
  have equals (c : Byte) : tolower (chr '=') = tolower c ↔ c = chr '=' :=
    eq_comm.trans (tolower_fixed (b := chr '=') (by decide) (by decide) c)
  rw [tailItems, white_class fits]
  dsimp only
  cases behind : p.drop (p.takeWhile fun c => decide (White c)).length with
  | nil => rfl
  | cons c q =>
    have shorter := congrArg List.length behind
    rw [List.length_drop, List.length_cons] at shorter
    dsimp only
    rw [matchItems]
    by_cases same : c = chr '='
    · rw [if_neg (not_not.mpr ((equals c).mpr same)), if_neg (not_not.mpr same),
        white_class (by omega), value_class (by rw [List.length_drop]; omega)]
      dsimp only
      rw [Nat.add_assoc off, Nat.add_assoc off]
      split_ifs
      · rfl
      · rfl
    · rw [if_pos fun eq => same ((equals c).mp eq), if_pos same]
      rfl

theorem value_matches {p : List Byte} {pl : Pl} (fits : p.length ≤ Regex.uint32Max) (value : valueBehind p = some pl)
    (off : Nat) : ∃ gap gap', matchItems (tailItems .value) off p = .ok [gap, gap', ⟨off + pl.off, pl.val⟩] := by
  rw [value_eq fits]
  unfold valueBehind at value
  dsimp only at value ⊢
  split at value
  · contradiction
  · rename_i c q behind
    split_ifs at value with other empty
    rw [if_neg other, stripQuotes_add, if_neg empty, ← Option.some.inj value]
    exact ⟨_, _, rfl⟩

theorem value_differs {p : List Byte} (fits : p.length ≤ Regex.uint32Max) (none_ : valueBehind p = none) (off : Nat) :
    matchItems (tailItems .value) off p = .error .again ∨
      ((∀ c ∈ p, White c) ∧ matchItems (tailItems .value) off p = .error (.stop .ENOENT)) := by
  rw [value_eq fits]
  unfold valueBehind at none_
  dsimp only at none_ ⊢
  split at none_
  · rename_i behind
    refine .inr ⟨?_, rfl⟩
    have all : p.length ≤ (p.takeWhile fun c => decide (White c)).length := List.drop_eq_nil_iff.mp behind
    have whole := (List.takeWhile_prefix fun c => decide (White c)).eq_of_length_le all
    intro c member
    rw [← whole] at member
    exact of_decide_eq_true (List.mem_takeWhile_imp (p := fun c => decide (White c)) member)
  · split_ifs at none_ with other empty
    · exact .inl (if_pos other)
    · rw [if_neg other, stripQuotes_add, if_pos empty]
      exact .inl rfl

/-! The first place where an attempt succeeds. -/

def Tail.Holds (tail : Tail) (p : List Byte) : Prop := tail = .value → (valueBehind p).isSome = true

/-- An attempt from `a` comes to the name at `k` and goes through. -/
structure Place (sip : Bool) (tail : Tail) (text name : List Byte) (a k : Nat) : Prop where
  inside : a < text.length
  lead : ∃ n, lead sip (text.drop a) = some n ∧ k = a + n
  spelled : Starts name (text.drop k)
  goes : tail.Holds (text.drop (k + name.length))

def First (sip : Bool) (tail : Tail) (text name : List Byte) (a k : Nat) : Prop :=
  Place sip tail text name a k ∧ ∀ a' < a, ∀ k', ¬ Place sip tail text name a' k'

def allItems (sip : Bool) (tail : Tail) (name : List Byte) : List Item :=
  headItems sip ++ (name.map .lit ++ tailItems tail)

variable {sip : Bool} {tail : Tail} {text name : List Byte} {a k : Nat}

theorem Place.attempt (place : Place sip tail text name a k) (fits : text.length ≤ Regex.uint32Max) :
    ∃ captures, matchItems (tailItems tail) (k + name.length) (text.drop (k + name.length)) = .ok captures ∧
      matchItems (allItems sip tail name) a (text.drop a) = .ok (leadCaptures sip a (text.drop a) ++ captures) := by
  have shorter (n : Nat) : (text.drop n).length ≤ Regex.uint32Max := by
    rw [List.length_drop]
    omega
  have behind : ∃ captures,
      matchItems (tailItems tail) (k + name.length) (text.drop (k + name.length)) = .ok captures := by
    cases tail with
    | bare => exact ⟨[], rfl⟩
    | ends =>
      rw [tailItems, matchItems_class (caseless_of (by decide)) (shorter _)]
      exact ⟨_, rfl⟩
    | value =>
      obtain ⟨pl, value⟩ := Option.isSome_iff_exists.mp (place.goes rfl)
      obtain ⟨gap, gap', matched⟩ := value_matches (shorter _) value (k + name.length)
      exact ⟨_, matched⟩
  obtain ⟨captures, matched⟩ := behind
  obtain ⟨n, at_, rfl⟩ := place.lead
  refine ⟨captures, matched, ?_⟩
  have more : text.drop a ≠ [] := by
    rw [ne_eq, List.drop_eq_nil_iff]
    exact Nat.not_le_of_lt place.inside
  rw [allItems, head_matches sip (shorter a) more, at_]
  dsimp only
  rw [List.drop_drop, name_matches place.spelled, List.drop_drop, matched]
  rfl

theorem White.ends {c : Byte} (white : White c) : Ends c := by
  have blank : ascii " \t\r\n" ⊆ ascii " \t\r\n;=" := by
    rw [ascii_ofList, ascii_ofList]
    decide
  exact blank white

theorem whites_end {q : List Byte} : ∀ c ∈ q.take (q.takeWhile fun c => decide (White c)).length, Ends c := by
  intro c member
  rw [← List.prefix_iff_eq_take.mp (List.takeWhile_prefix fun c => decide (White c))] at member
  exact (of_decide_eq_true (List.mem_takeWhile_imp (p := fun c => decide (White c)) member) : White c).ends

/-- Nothing in front of the name can be in a name. -/
theorem lead_ends {p : List Byte} {n : Nat} (leads : lead sip p = some n) : ∀ c ∈ p.take n, Ends c := by
  intro c member
  unfold lead at leads
  split_ifs at leads with is
  · split at leads
    · contradiction
    · rename_i b q
      split_ifs at leads with semi
      obtain rfl := Option.some.inj leads
      rw [Nat.add_comm, List.take_succ_cons] at member
      rcases List.mem_cons.mp member with rfl | member
      · rw [semi]
        decide
      · exact whites_end c member
  · obtain rfl := Option.some.inj leads
    rw [List.take_add] at member
    rcases List.mem_append.mp member with member | member
    · rw [← List.prefix_iff_eq_take.mp (List.takeWhile_prefix fun c => decide (c = chr ';'))] at member
      rw [of_decide_eq_true (List.mem_takeWhile_imp (p := fun c => decide (c = chr ';')) member)]
      decide
    · exact whites_end c member

theorem ends_between {n i : Nat} {c : Byte} (leads : lead sip (text.drop a) = some n) (from_ : a ≤ i) (to_ : i < a + n)
    (at_ : text[i]? = some c) : Ends c := by
  apply lead_ends leads
  apply List.mem_of_getElem? (i := i - a)
  rw [List.getElem?_take, if_pos (by omega), List.getElem?_drop, ← at_]
  congr 1
  omega

/-- No byte of a name that the text spells ends a name, or is a quote. -/
theorem spelled_plain (plain : ∀ c ∈ name, Plain c) (spelled : Starts name (text.drop k)) {i : Nat}
    (inside : i < name.length) : ∃ c, text[k + i]? = some c ∧ ¬ Ends c ∧ c ≠ chr '"' := by
  have same := congrArg (·[i]?) spelled
  rw [List.getElem?_map, List.getElem?_map, List.getElem?_take, if_pos inside, List.getElem?_drop,
    List.getElem?_eq_getElem inside] at same
  obtain ⟨c, at_, eq⟩ := Option.map_eq_some_iff.mp same
  exact ⟨c, at_, (plain _ (List.getElem_mem inside)).inside eq⟩

theorem Place.fits (place : Place sip tail text name a k) (some_ : name ≠ []) : k + name.length ≤ text.length := by
  have short := place.spelled.length_le
  have := List.length_pos_iff.mpr some_
  rw [List.length_drop] at short
  omega

theorem value_equals {p : List Byte} (value : (valueBehind p).isSome = true) : chr '=' ∈ p := by
  unfold valueBehind at value
  dsimp only at value
  split at value
  · contradiction
  · rename_i c q behind
    split_ifs at value with other empty
    · contradiction
    · contradiction
    · apply List.mem_of_mem_drop
      rw [behind, not_not.mp other]
      exact List.mem_cons_self

/-- Where an attempt is given up for good, no later one would succeed. -/
theorem attempt_stops (fits : text.length ≤ Regex.uint32Max) (plain : ∀ c ∈ name, Plain c)
    (some_ : tail = .value → name ≠ []) (inside : a < text.length) {e : Errno}
    (stop : matchItems (allItems sip tail name) a (text.drop a) = .error (.stop e)) :
    ∀ a' ≥ a, ∀ k, ¬ Place sip tail text name a' k := by
  have shorter (n : Nat) : (text.drop n).length ≤ Regex.uint32Max := by
    rw [List.length_drop]
    omega
  have more : text.drop a ≠ [] := by
    rw [ne_eq, List.drop_eq_nil_iff]
    exact Nat.not_le_of_lt inside
  rw [allItems, head_matches sip (shorter a) more] at stop
  cases leads : lead sip (text.drop a) with
  | none =>
    rw [leads] at stop
    cases stop
  | some n =>
    rw [leads] at stop
    dsimp only at stop
    rw [List.drop_drop] at stop
    -- a later place has its name behind this one's
    have behind {a' k : Nat} (later : a' ≥ a) (place : Place sip tail text name a' k) (some_ : name ≠ []) : a + n ≤ k := by
      by_contra before
      obtain ⟨m, -, from_⟩ := place.lead
      obtain ⟨c, at_, apart, -⟩ := spelled_plain plain place.spelled (List.length_pos_iff.mpr some_)
      exact apart (ends_between leads (by omega) (by omega) at_)
    intro a' later k place
    by_cases spelled : Starts name (text.drop (a + n))
    · rw [name_matches spelled, List.drop_drop] at stop
      cases tail with
      | bare => contradiction
      | ends =>
        rw [tailItems, matchItems_class (caseless_of (by decide)) (shorter _)] at stop
        contradiction
      | value =>
        cases value : valueBehind (text.drop (a + n + name.length)) with
        | some pl =>
          obtain ⟨gap, gap', matched⟩ := value_matches (shorter _) value (a + n + name.length)
          rw [matched] at stop
          contradiction
        | none =>
          rcases value_differs (shorter _) value (a + n + name.length) with again | ⟨blank, -⟩
          · rw [again] at stop
            cases stop
          · have further := behind later place (some_ rfl)
            have equals := value_equals (place.goes rfl)
            rw [show k + name.length = a + n + name.length + (k - (a + n)) by omega, ← List.drop_drop] at equals
            exact absurd (blank _ (List.mem_of_mem_drop equals)) (by decide)
    · rcases name_differs spelled (tailItems tail) (a + n) with again | ⟨short, -⟩
      · rw [again] at stop
        cases stop
      · have some_ : name ≠ [] := List.length_pos_iff.mp (by omega)
        have further := behind later place some_
        have room := place.fits some_
        rw [List.length_drop] at short
        omega

/-- Where there is no place, the attempt fails. -/
theorem attempt_fails (fits : text.length ≤ Regex.uint32Max) (inside : a < text.length) {captures : List Pl}
    (matched : matchItems (allItems sip tail name) a (text.drop a) = .ok captures) :
    ∃ k, Place sip tail text name a k := by
  have shorter (n : Nat) : (text.drop n).length ≤ Regex.uint32Max := by
    rw [List.length_drop]
    omega
  have more : text.drop a ≠ [] := by
    rw [ne_eq, List.drop_eq_nil_iff]
    exact Nat.not_le_of_lt inside
  rw [allItems, head_matches sip (shorter a) more] at matched
  cases leads : lead sip (text.drop a) with
  | none =>
    rw [leads] at matched
    contradiction
  | some n =>
    rw [leads] at matched
    dsimp only at matched
    rw [List.drop_drop] at matched
    by_cases spelled : Starts name (text.drop (a + n))
    · refine ⟨a + n, inside, ⟨n, leads, rfl⟩, spelled, ?_⟩
      rintro rfl
      by_contra none_
      rw [Option.not_isSome_iff_eq_none] at none_
      rw [name_matches spelled, List.drop_drop] at matched
      rcases value_differs (shorter _) none_ (a + n + name.length) with again | ⟨-, stop⟩
      · rw [again] at matched
        contradiction
      · rw [stop] at matched
        contradiction
    · rcases name_differs spelled (tailItems tail) (a + n) with again | ⟨-, stop⟩
      · rw [again] at matched
        contradiction
      · rw [stop] at matched
        contradiction

/-- The search finds the first place. -/
theorem lookup_ok (fits : text.length ≤ Regex.uint32Max) (plain : ∀ c ∈ name, Plain c) (some_ : tail = .value → name ≠ [])
    (captures : List Pl) : reRegex text (headText sip ++ (name ++ tailText tail)) = .ok captures ↔
      ∃ a k, First sip tail text name a k ∧ ∃ behind,
        matchItems (tailItems tail) (k + name.length) (text.drop (k + name.length)) = .ok behind ∧
        captures = leadCaptures sip a (text.drop a) ++ behind := by
  have settled : ∀ a < text.length, ∀ e, matchItems (allItems sip tail name) a (text.drop a) = .error (.stop e) →
      ∀ a' ≥ a, a' < text.length → ∀ captures, matchItems (allItems sip tail name) a' (text.drop a') ≠ .ok captures := by
    intro a inside e stop a' later inside' captures matched
    obtain ⟨k, place⟩ := attempt_fails fits inside' matched
    exact attempt_stops fits plain some_ inside stop a' later k place
  have head : headText sip ++ (name ++ tailText tail) ≠ [] := by
    apply List.append_ne_nil_of_left_ne_nil
    cases sip <;> decide
  rw [reRegex_first (lookup_parses sip plain tail) head settled]
  constructor
  · rintro ⟨a, inside, matched, missed⟩
    obtain ⟨k, place⟩ := attempt_fails fits inside matched
    obtain ⟨behind, goes, matched'⟩ := place.attempt fits
    refine ⟨a, k, ⟨place, fun a' less k' place' => ?_⟩, behind, goes, Except.ok.inj (matched.symm.trans matched')⟩
    obtain ⟨behind', -, matched'⟩ := place'.attempt fits
    exact missed a' less _ matched'
  · rintro ⟨a, k, ⟨place, first⟩, behind, goes, rfl⟩
    obtain ⟨behind', goes', matched⟩ := place.attempt fits
    obtain rfl := Except.ok.inj (goes.symm.trans goes')
    refine ⟨a, place.inside, matched, fun a' less captures matched' => ?_⟩
    obtain ⟨k', place'⟩ := attempt_fails fits (Nat.lt_trans less place.inside) matched'
    exact first a' less k' place'

theorem lookup_error (fits : text.length ≤ Regex.uint32Max) (plain : ∀ c ∈ name, Plain c)
    (some_ : tail = .value → name ≠ []) {e : Errno}
    (failed : reRegex text (headText sip ++ (name ++ tailText tail)) = .error e) :
    ∀ a k, ¬ First sip tail text name a k := by
  intro a k first
  obtain ⟨behind, goes, -⟩ := first.1.attempt fits
  have found := (lookup_ok fits plain some_ _).mpr ⟨a, k, first, behind, goes, rfl⟩
  rw [failed] at found
  contradiction

theorem First.unique {a' k' : Nat} (first : First sip tail text name a k) (first' : First sip tail text name a' k') :
    a = a' ∧ k = k' := by
  have same : a = a' := Nat.le_antisymm (Nat.le_of_not_lt fun less => first.2 a' less k' first'.1)
    (Nat.le_of_not_lt fun less => first'.2 a less k first.1)
  subst same
  obtain ⟨n, leads, rfl⟩ := first.1.lead
  obtain ⟨n', leads', rfl⟩ := first'.1.lead
  rw [leads] at leads'
  exact ⟨rfl, congrArg (a + ·) (Option.some.inj leads')⟩

end Baresip.Re.Lookup
