import Baresip.Httpauth.Digest

set_option linter.dupNamespace false

namespace Baresip.Httpauth

open Re

theorem letter_apart {c : Byte} (letter : exprMatch letters (tolower c) false = true) :
    exprMatch blankComma (tolower c) false = false := by
  revert c
  decide +kernel

theorem blank_comma {c : Byte} (inside : exprMatch blank (tolower c) false = true) :
    exprMatch blankComma (tolower c) false = true := by
  revert c
  decide +kernel

/-- Where a quote aware class is: inside quotes, and behind a backslash. -/
abbrev Marks := Bool × Bool

def Marks.next (inside : Byte → Bool) : Marks → Byte → Option Marks
  | (quote, true), _ => some (quote, false)
  | (quote, false), c =>
    if c = chr '\\' then some (quote, true)
    else if c = chr '"' then some (!quote, false)
    else if quote || inside c then some (quote, false)
    else none

/-- The marks behind a text that the class takes as a whole. -/
def Marks.through (inside : Byte → Bool) (m : Marks) (x : List Byte) : Option Marks := x.foldlM (Marks.next inside) m

section
variable {inside : Byte → Bool} {m m' : Marks} {x y : List Byte} {c : Byte}

theorem through_cons : m.through inside (c :: x) = (m.next inside c).bind fun m => m.through inside x :=
  List.foldlM_cons

theorem through_append : m.through inside (x ++ y) = (m.through inside x).bind fun m => m.through inside y :=
  List.foldlM_append

/-- The class goes on behind a text that it takes. -/
theorem scan_through {chrv : List Chr} {neg : Bool} {room : Nat} {quote esc : Bool} (fits : x.length ≤ room)
    (taken : Marks.through (fun c => exprMatch chrv (tolower c) neg) (quote, esc) x = some m') :
    Regex.scan chrv neg true room quote esc (x ++ y) =
      x.length + Regex.scan chrv neg true (room - x.length) m'.1 m'.2 y := by
  induction x generalizing room quote esc with
  | nil =>
    obtain rfl : (quote, esc) = m' := Option.some.inj taken
    simp
  | cons c x ih =>
    rw [List.length_cons] at fits
    rw [through_cons, Option.bind_eq_some_iff] at taken
    rcases taken with ⟨⟨quote', esc'⟩, first, rest⟩
    have more : room ≠ 0 := by omega
    have later : room - 1 - x.length = room - (x.length + 1) := by omega
    have next := @ih (room - 1) quote' esc' (by omega) rest
    have turn : Regex.scan chrv neg true room quote esc (c :: (x ++ y)) =
        Regex.scan chrv neg true (room - 1) quote' esc' (x ++ y) + 1 := by
      rw [Regex.scan, if_neg more]
      cases esc with
      | true =>
        obtain ⟨rfl, rfl⟩ : quote = quote' ∧ false = esc' := by simpa [Marks.next] using first
        simp
      | false =>
        rw [Marks.next] at first
        by_cases slash : c = chr '\\'
        · rw [if_pos slash] at first
          obtain ⟨rfl, rfl⟩ : quote = quote' ∧ true = esc' := by simpa using first
          simp [slash]
        · rw [if_neg slash] at first
          by_cases mark : c = chr '"'
          · rw [if_pos mark] at first
            obtain ⟨rfl, rfl⟩ : (!quote) = quote' ∧ false = esc' := by simpa using first
            have other : chr '"' ≠ chr '\\' := by decide
            simp [mark, other]
          · rw [if_neg mark] at first
            by_cases open_ : (quote || exprMatch chrv (tolower c) neg) = true
            · rw [if_pos open_] at first
              obtain ⟨rfl, rfl⟩ : quote = quote' ∧ false = esc' := by simpa using first
              cases quote with
              | true => simp [slash, mark]
              | false =>
                rw [Bool.false_or] at open_
                simp [slash, mark, open_]
            · rw [if_neg open_] at first
              contradiction
    rw [List.cons_append, turn, next, later, List.length_cons]
    omega

end

/-- What ends a value. -/
def valueByte (c : Byte) : Bool := exprMatch blankComma (tolower c) true

/-- A text that is read as one value wherever a comma follows it. -/
def Closed (x : List Byte) : Prop := Marks.through valueByte (false, false) x = some (false, false)

instance (x : List Byte) : Decidable (Closed x) := inferInstanceAs (Decidable (_ = _))

/-- The quotes around it are those that its quoted form begins and ends with. -/
def Complete (v : List Byte) : Prop := Closed (quoted v)

instance (v : List Byte) : Decidable (Complete v) := inferInstanceAs (Decidable (Closed _))

/-- A text without quotes and backslashes. -/
def Plain (v : List Byte) : Prop := ∀ c ∈ v, c ≠ chr '"' ∧ c ≠ chr '\\'

theorem through_plain {v : List Byte} (plain : Plain v) : Marks.through valueByte (true, false) v = some (true, false) := by
  induction v with
  | nil => rfl
  | cons c v ih =>
    rw [Plain, List.forall_mem_cons] at plain
    have first : Marks.next valueByte (true, false) c = some (true, false) := by
      simp [Marks.next, plain.1.1, plain.1.2]
    rw [through_cons, first]
    exact ih plain.2

theorem complete_iff (v : List Byte) :
    Complete v ↔ (Marks.through valueByte (true, false) v).bind (fun m => m.next valueByte (chr '"')) = some (false, false) := by
  have opens : Marks.next valueByte (false, false) (chr '"') = some (true, false) := by decide
  unfold Complete Closed quoted
  rw [List.cons_append, through_cons, opens, Option.bind_some, through_append]
  simp only [through_cons]
  have last (m : Marks) : (m.next valueByte (chr '"')).bind (fun m => m.through valueByte []) =
      m.next valueByte (chr '"') := by
    cases m.next valueByte (chr '"') <;> rfl
  simp only [last]

theorem complete_plain {v : List Byte} (plain : Plain v) : Complete v := by
  rw [complete_iff, through_plain plain]
  decide

theorem closed_token {v : List Byte} (token : ∀ c ∈ v, c ≠ chr '"' ∧ c ≠ chr '\\' ∧ valueByte c = true) : Closed v := by
  induction v with
  | nil => rfl
  | cons c v ih =>
    rw [List.forall_mem_cons] at token
    have first : Marks.next valueByte (false, false) c = some (false, false) := by
      simp [Marks.next, token.1.1, token.1.2.1, token.1.2.2]
    show Marks.through valueByte (false, false) (c :: v) = _
    rw [through_cons, first]
    exact ih token.2

structure Param where
  name : List Byte
  val : List Byte
  quote : Bool

namespace Param

def written (p : Param) : List Byte := if p.quote then quoted p.val else p.val

def text (p : Param) : List Byte := p.name ++ chr '=' :: p.written

/-- A parameter that is read as it is written. -/
structure Wellformed (p : Param) : Prop where
  named : p.name ≠ []
  letters : ∀ c ∈ p.name, exprMatch letters (tolower c) false = true
  closed : Closed p.written
  begins : ∀ c ∈ p.written.head?, exprMatch blank (tolower c) false = false
  some_ : p.written ≠ []
  token : p.quote = false → p.val.head? ≠ some (chr '"')

/-- How far the loop goes on behind the parameter: the closing quote is read again. -/
def behind (p : Param) : List Byte := if p.quote then [chr '"'] else []

theorem strip (p : Param) (wellformed : p.Wellformed) (off : Nat) :
    Regex.stripQuotes ⟨off, p.written⟩ = ⟨off + (if p.quote then 1 else 0), p.val⟩ := by
  unfold Regex.stripQuotes
  cases quote : p.quote with
  | true =>
    have written : p.written = quoted p.val := by rw [Param.written, if_pos quote]
    have ends : (quoted p.val).getLast? = some (chr '"') := List.getLast?_concat
    have long : 1 < (quoted p.val).length := by simp [quoted]
    rw [written, if_pos ⟨long, rfl, ends⟩]
    simp [quoted]
  | false =>
    have written : p.written = p.val := by rw [Param.written, if_neg (by simp [quote])]
    rw [written, if_neg (fun taken => wellformed.token quote taken.2.1)]
    rfl

end Param

theorem comma_ends (y : List Byte) (comma : ∀ c ∈ y.head?, c = chr ',') (room : Nat) :
    Regex.scan blankComma true true room false false y = 0 := by
  cases y with
  | nil => rfl
  | cons c y =>
    rw [comma c rfl, Regex.scan]
    by_cases none_ : room = 0
    · rw [if_pos none_]
    · rw [if_neg none_]
      have slash : (chr ',' == chr '\\') = false := by decide
      have mark : (chr ',' == chr '"') = false := by decide
      have outside : exprMatch blankComma (tolower (chr ',')) true = false := by decide
      simp [slash, mark, outside]

/-- The value of a parameter in front of the next one or the end. -/
theorem matchItems_value (p : Param) (wellformed : p.Wellformed) (off : Nat) {y : List Byte}
    (fits : p.written.length ≤ Regex.uint32Max) (comma : ∀ c ∈ y.head?, c = chr ',') :
    matchItems [.cls true true blankComma 0 Regex.uint32Max] off (p.written ++ y) =
      .ok [⟨off + (if p.quote then 1 else 0), p.val⟩] := by
  have taken : Regex.scan blankComma true true Regex.uint32Max false false (p.written ++ y) = p.written.length := by
    rw [scan_through fits wellformed.closed, comma_ends y comma, Nat.add_zero]
  have short : p.val.length ≤ Regex.uint32Max := by
    have longer : p.val.length ≤ p.written.length := by
      unfold Param.written
      split
      · simp only [quoted, List.length_append, List.length_cons]
        omega
      · exact Nat.le_refl _
    exact Nat.le_trans longer fits
  rw [matchItems, taken, List.take_left, if_pos rfl, p.strip wellformed]
  rw [if_neg (by simpa using short)]
  rfl

theorem matchItems_gap {chrv : List Chr} {y : List Byte} (items : List Item) (off : Nat)
    (stops : ∀ c ∈ y.head?, exprMatch chrv (tolower c) false = false) :
    matchItems (.cls false false chrv 0 Regex.uint32Max :: items) off y = (matchItems items off y).map (⟨off, []⟩ :: ·) :=
  @matchItems_run false chrv 0 [] y (Nat.zero_le _) (Nat.zero_le _) nofun stops items off

/-- A parameter behind its separator. -/
theorem matchItems_param (p : Param) (wellformed : p.Wellformed) (off : Nat) {sep y : List Byte} (some_ : sep ≠ [])
    (separates : ∀ c ∈ sep, exprMatch blankComma (tolower c) false = true)
    (fits : (sep ++ p.text).length ≤ Regex.uint32Max) (comma : ∀ c ∈ y.head?, c = chr ',') :
    ∃ seps gap gap', matchItems paramItems off (sep ++ p.text ++ y) =
      .ok [seps, ⟨off + sep.length, p.name⟩, gap, gap',
        ⟨off + sep.length + p.name.length + 1 + (if p.quote then 1 else 0), p.val⟩] := by
  have length : (sep ++ p.text).length = sep.length + (p.name.length + (p.written.length + 1)) := by
    simp only [Param.text, List.length_append, List.length_cons]
  have name : ∀ c ∈ (p.name ++ chr '=' :: (p.written ++ y)).head?, exprMatch blankComma (tolower c) false = false := by
    intro c first
    rcases named : p.name with _ | ⟨c', name'⟩
    · exact absurd named wellformed.named
    · rw [named] at first
      obtain rfl : c' = c := by simpa using first
      exact letter_apart (wellformed.letters c' (by rw [named]; exact List.mem_cons_self))
  have equals : ∀ c ∈ (chr '=' :: (p.written ++ y)).head?, exprMatch letters (tolower c) false = false := by
    intro c first
    obtain rfl : chr '=' = c := by simpa using first
    decide
  have gapless : ∀ c ∈ (chr '=' :: (p.written ++ y)).head?, exprMatch blank (tolower c) false = false := by
    intro c first
    obtain rfl : chr '=' = c := by simpa using first
    decide
  have value : ∀ c ∈ (p.written ++ y).head?, exprMatch blank (tolower c) false = false := by
    intro c first
    rcases written : p.written with _ | ⟨c', rest⟩
    · exact absurd written wellformed.some_
    · rw [written] at first
      exact wellformed.begins c (by rw [written]; simpa using first)
  have enough : 1 ≤ sep.length := List.length_pos_iff.mpr some_
  have enough' : 1 ≤ p.name.length := List.length_pos_iff.mpr wellformed.named
  refine ⟨⟨off, sep⟩, ⟨off + sep.length + p.name.length, []⟩, ⟨off + sep.length + p.name.length + 1, []⟩, ?_⟩
  have whole : sep ++ p.text ++ y = sep ++ (p.name ++ chr '=' :: (p.written ++ y)) := by
    simp [Param.text]
  rw [whole, paramItems, matchItems_run (by omega) enough separates name]
  rw [matchItems_run (by omega) enough' wellformed.letters equals]
  rw [matchItems_gap _ _ gapless, matchItems, if_neg (by simp), matchItems_gap _ _ value]
  rw [matchItems_value p wellformed _ (by omega) comma]
  rfl

theorem quote_missed (off : Nat) (p : List Byte) : matchItems paramItems off (chr '"' :: p) = .error .again := by
  have none_ : classRun false blankComma ((chr '"' :: p).take Regex.uint32Max) = [] := by
    have outside : ¬ exprMatch blankComma (tolower (chr '"')) false = true := by decide
    show (chr '"' :: p.take 4294967294).takeWhile _ = []
    exact List.takeWhile_cons_of_neg (by exact outside)
  rw [paramItems, matchItems_many, none_]
  rfl

/-- The loop reads a parameter, and goes on behind its value. -/
theorem digestParams_cons (p : Param) (wellformed : p.Wellformed) {front sep y : List Byte}
    (rest : front = [] ∨ front = [chr '"']) (some_ : sep ≠ [])
    (separates : ∀ c ∈ sep, exprMatch blankComma (tolower c) false = true)
    (fits : (sep ++ p.text).length ≤ Regex.uint32Max) (comma : ∀ c ∈ y.head?, c = chr ',') :
    digestParams (front ++ (sep ++ p.text ++ y)) = (p.name, p.val) :: digestParams (p.behind ++ y) := by
  rcases matchItems_param p wellformed front.length some_ separates fits comma with ⟨seps, gap, gap', hit⟩
  have found := (reRegexFrom_ok param_parses (by decide) 0 (front ++ (sep ++ p.text ++ y)) _).mpr
    ⟨front, sep ++ p.text ++ y, rfl, by simp [some_], by rw [Nat.zero_add]; exact hit, by
      intro i less
      rcases rest with rfl | rfl
      · contradiction
      · obtain rfl : i = 0 := by simpa using less
        exact quote_missed _ _⟩
  have behind : (front ++ (sep ++ p.text ++ y)).drop
      (front.length + sep.length + p.name.length + 1 + (if p.quote then 1 else 0) + p.val.length) = p.behind ++ y := by
    cases quote : p.quote with
    | true =>
      have whole : front ++ (sep ++ p.text ++ y) =
          (front ++ sep ++ p.name ++ [chr '=', chr '"'] ++ p.val) ++ (p.behind ++ y) := by
        simp [Param.text, Param.written, Param.behind, quote, quoted]
      rw [whole]
      apply List.drop_left'
      simp only [List.length_append, List.length_cons, List.length_nil, if_true]
    | false =>
      have whole : front ++ (sep ++ p.text ++ y) = (front ++ sep ++ p.name ++ [chr '='] ++ p.val) ++ (p.behind ++ y) := by
        simp [Param.text, Param.written, Param.behind, quote]
      rw [whole]
      apply List.drop_left'
      simp only [List.length_append, List.length_cons, List.length_nil, Bool.false_eq_true, if_false]
  rw [digestParams]
  split
  · rename_i seps' name gap₁ gap₂ val found'
    rw [reRegex, found] at found'
    simp only [Except.ok.injEq, List.cons.injEq, and_true] at found'
    rcases found' with ⟨-, rfl, -, -, rfl⟩
    dsimp only
    rw [behind]
  · rename_i other
    exact absurd found (other _ _ _ _ _)

theorem digestParams_end {front : List Byte} (rest : front = [] ∨ front = [chr '"']) : digestParams front = [] := by
  have none_ : reRegex front paramPattern = .error .ENOENT := by
    rcases rest with rfl | rfl <;> decide
  rw [digestParams]
  split
  · rename_i found
    rw [none_] at found
    contradiction
  · rfl

/-- Parameters behind a separator each, the first one's being given. -/
def paramsText : List Byte → List Param → List Byte
  | _, [] => []
  | sep, p :: ps => sep ++ p.text ++ paramsText (ascii ", ") ps

theorem paramsText_comma (ps : List Param) : ∀ c ∈ (paramsText (ascii ", ") ps).head?, c = chr ',' := by
  intro c first
  cases ps with
  | nil => contradiction
  | cons p ps => exact (Option.some.inj first).symm

theorem digestParams_text (ps : List Param) (wellformed : ∀ p ∈ ps, p.Wellformed) {front sep : List Byte}
    (rest : front = [] ∨ front = [chr '"']) (some_ : sep ≠ [])
    (separates : ∀ c ∈ sep, exprMatch blankComma (tolower c) false = true)
    (fits : (paramsText sep ps).length ≤ Regex.uint32Max) :
    digestParams (front ++ paramsText sep ps) = ps.map fun p => (p.name, p.val) := by
  induction ps generalizing front sep with
  | nil => simpa [paramsText] using digestParams_end rest
  | cons p ps ih =>
    rw [List.forall_mem_cons] at wellformed
    rw [paramsText, List.length_append] at fits
    have again : p.behind = [] ∨ p.behind = [chr '"'] := by
      unfold Param.behind
      split
      · exact .inr rfl
      · exact .inl rfl
    have commas : ∀ c ∈ ascii ", ", exprMatch blankComma (tolower c) false = true := by decide
    rw [paramsText, digestParams_cons p wellformed.1 rest some_ separates (by omega) (paramsText_comma ps), List.map_cons]
    rw [ih wellformed.2 again (by decide) commas (by omega)]

theorem hexDigits_length (width v : Nat) : (hexDigits width v).length = width := by
  induction width generalizing v with
  | zero => rfl
  | succ width ih => rw [hexDigits, List.length_append, ih, List.length_singleton]

theorem hexDigits_mem {width v : Nat} {c : Byte} (member : c ∈ hexDigits width v) : ∃ d < 16, c = hexDigit d := by
  induction width generalizing v with
  | zero => contradiction
  | succ width ih =>
    rw [hexDigits, List.mem_append, List.mem_singleton] at member
    rcases member with member | rfl
    · exact ih member
    · exact ⟨v % 16, Nat.mod_lt _ (by omega), rfl⟩

theorem hexDigit_token : ∀ d < 16,
    hexDigit d ≠ chr '"' ∧ hexDigit d ≠ chr '\\' ∧ valueByte (hexDigit d) = true := by decide

theorem hexDigits_token {width v : Nat} :
    ∀ c ∈ hexDigits width v, c ≠ chr '"' ∧ c ≠ chr '\\' ∧ valueByte c = true := by
  intro c member
  rcases hexDigits_mem member with ⟨d, small, rfl⟩
  exact hexDigit_token d small

theorem hexDigits_plain (width v : Nat) : Plain (hexDigits width v) := fun c member =>
  ⟨(hexDigits_token c member).1, (hexDigits_token c member).2.1⟩

theorem hex_plain (bytes : List Byte) : Plain (hex bytes) := by
  intro c member
  rcases List.mem_flatMap.mp member with ⟨v, -, member⟩
  exact hexDigits_plain _ _ c member

theorem hex_length (bytes : List Byte) : (hex bytes).length = 2 * bytes.length := by
  induction bytes with
  | nil => rfl
  | cons v bytes ih =>
    rw [hex, List.flatMap_cons, List.length_append, hexDigits_length, List.length_cons]
    rw [hex] at ih
    omega

theorem unhex_byte (v : Byte) : chHex (hexDigit (v.toNat / 16 % 16)) <<< 4 + chHex (hexDigit (v.toNat % 16)) = v := by
  revert v
  decide +kernel

theorem unhex_hex (bytes : List Byte) : unhex (hex bytes) = bytes := by
  induction bytes with
  | nil => rfl
  | cons v bytes ih =>
    have digits : hexDigits 2 v.toNat = [hexDigit (v.toNat / 16 % 16), hexDigit (v.toNat % 16)] := rfl
    rw [hex, List.flatMap_cons, digits]
    show _ :: unhex (hex bytes) = _
    rw [ih, unhex_byte]

theorem matchItems_lits (cs : List Byte) (items : List Item) (off : Nat) (p : List Byte) :
    matchItems (cs.map .lit ++ items) off (cs ++ p) = matchItems items (off + cs.length) p := by
  induction cs generalizing off with
  | nil => rfl
  | cons c cs ih =>
    rw [List.map_cons, List.cons_append, List.cons_append, matchItems, if_neg (by simp), ih, List.length_cons,
      Nat.add_assoc, Nat.add_comm 1]

def schemeItems : List Item :=
  .cls false false blank 0 Regex.uint32Max :: ((ascii "Digest").map .lit ++
    [.cls false false blank 1 Regex.uint32Max])

theorem scheme_parses : Regex.Parses schemePattern schemeItems := by
  have gap : Regex.Opens (ascii "[ \t\r\n]*") false false blank 0 Regex.uint32Max := fun _ _ _ _ _ _ _ _ _ => rfl
  have some_ : Regex.Opens (ascii "[ \t\r\n]+") false false blank 1 Regex.uint32Max := fun _ _ _ _ _ _ _ _ _ => rfl
  have plain : ∀ c ∈ ascii "Digest", c ≠ chr '\\' ∧ c ≠ chr '[' := by decide
  exact .ofList (((Regex.Parses.nil.cls some_).lits plain).cls gap)

theorem digestDecode_text {ps : List Param} (wellformed : ∀ p ∈ ps, p.Wellformed) (some_ : ps ≠ [])
    (fits : (paramsText (ascii " ") ps).length ≤ Regex.uint32Max) :
    digestDecode (ascii "Digest" ++ paramsText (ascii " ") ps) = .ok (ps.map fun p => (p.name, p.val)) := by
  rcases ps with _ | ⟨p, ps⟩
  · contradiction
  · have blanks : ∀ c ∈ ascii " ", exprMatch blank (tolower c) false = true := by decide
    have separates : ∀ c ∈ ascii " ", exprMatch blankComma (tolower c) false = true := by decide
    have name : ∀ c ∈ (p.text ++ paramsText (ascii ", ") ps).head?, exprMatch blank (tolower c) false = false := by
      intro c first
      have formed := wellformed p List.mem_cons_self
      rcases named : p.name with _ | ⟨c', name'⟩
      · exact absurd named formed.named
      · rw [Param.text, named] at first
        obtain rfl : c' = c := by simpa using first
        have apart := letter_apart (formed.letters c' (by rw [named]; exact List.mem_cons_self))
        cases inside : exprMatch blank (tolower c') false with
        | false => rfl
        | true =>
          rw [blank_comma inside] at apart
          contradiction
    have scheme : ∀ c ∈ (ascii "Digest" ++ (ascii " " ++ (p.text ++ paramsText (ascii ", ") ps))).head?,
        exprMatch blank (tolower c) false = false := by
      intro c first
      obtain rfl : chr 'D' = c := Option.some.inj first
      decide
    have hit : matchItems schemeItems 0 (ascii "Digest" ++ (ascii " " ++ (p.text ++ paramsText (ascii ", ") ps))) =
        .ok [⟨0, []⟩, ⟨6, ascii " "⟩] := by
      rw [schemeItems, matchItems_gap _ _ scheme, matchItems_lits, matchItems_run (by decide) (by decide) blanks name]
      rfl
    have whole : paramsText (ascii " ") (p :: ps) = ascii " " ++ (p.text ++ paramsText (ascii ", ") ps) := by
      rw [paramsText, List.append_assoc]
    have found := (reRegexFrom_ok scheme_parses (by decide) 0 _ _).mpr ⟨[], _, rfl, by simp [ascii], hit, nofun⟩
    have params := @digestParams_text (p :: ps) wellformed [] (ascii " ") (.inl rfl) (by decide) separates fits
    rw [List.nil_append] at found params
    rw [whole] at params
    rw [digestDecode, reRegex, whole, found]
    dsimp only
    rw [if_neg (by simp), List.drop_left' (by decide), params]

namespace Param

variable {name v : List Byte}

theorem quoted_wellformed (named : name ≠ []) (letters : ∀ c ∈ name, exprMatch letters (tolower c) false = true)
    (complete : Complete v) : Param.Wellformed ⟨name, v, true⟩ where
  named := named
  letters := letters
  closed := complete
  begins := by
    intro c first
    obtain rfl : chr '"' = c := Option.some.inj first
    decide
  some_ := List.cons_ne_nil _ _
  token := nofun

theorem token_wellformed (named : name ≠ []) (letters : ∀ c ∈ name, exprMatch letters (tolower c) false = true)
    (some_ : v ≠ []) (token : ∀ c ∈ v, c ≠ chr '"' ∧ c ≠ chr '\\' ∧ valueByte c = true) :
    Param.Wellformed ⟨name, v, false⟩ where
  named := named
  letters := letters
  closed := closed_token token
  begins := by
    intro c first
    have inside := (token c (List.mem_of_mem_head? first)).2.2
    have apart : exprMatch blankComma (tolower c) false = !valueByte c := by simp [valueByte, exprMatch]
    cases blanked : exprMatch blank (tolower c) false with
    | false => rfl
    | true =>
      rw [blank_comma blanked, inside] at apart
      contradiction
  some_ := some_
  token := by
    intro _ first
    exact (token _ (List.mem_of_mem_head? first)).1 rfl

end Param

end Baresip.Httpauth
