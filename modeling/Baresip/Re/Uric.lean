import Baresip.Httpauth.Digest

set_option linter.dupNamespace false

namespace Baresip.Re

open Httpauth

namespace Uric

def isalnum (c : Byte) : Bool :=
  (chr '0' ≤ c && c ≤ chr '9') || (chr 'A' ≤ c && c ≤ chr 'Z') || (chr 'a' ≤ c && c ≤ chr 'z')

def isMark (c : Byte) : Bool := (ascii "-_.!~*'()").contains c

def isUnreserved (c : Byte) : Bool := isalnum c || isMark c

def isUserUnreserved (c : Byte) : Bool := (ascii "&=+$,;?/").contains c

def isHnvUnreserved (c : Byte) : Bool := (ascii "[]/?:+$").contains c

def isUser (c : Byte) : Bool := isUnreserved c || isUserUnreserved c

def isPassword (c : Byte) : Bool := (ascii "&=+$,").contains c || isUnreserved c

def isParamUnreserved (c : Byte) : Bool := (ascii "[]/:&+$").contains c

def isParamchar (c : Byte) : Bool := isParamUnreserved c || isUnreserved c

def isHvalue (c : Byte) : Bool := isHnvUnreserved c || isUnreserved c

end Uric

/-- The components that have functions of their own. -/
inductive UriComp
  | user | password | param | header
  deriving DecidableEq, Repr

def UriComp.handler : UriComp → Byte → Bool
  | user => Uric.isUser
  | password => Uric.isPassword
  | param => Uric.isParamchar
  | header => Uric.isHvalue

def hexDigitUpper (v : Nat) : Byte :=
  if v < 10 then chr '0' + BitVec.ofNat 8 v else chr 'A' + BitVec.ofNat 8 (v - 10)

/-- `local_itoa` for base 16, with the digits of a number of 32 bits. -/
def itoaUpper : Nat → Nat → List Byte
  | 0, _ => []
  | digits + 1, n => if n < 16 then [hexDigitUpper n] else itoaUpper digits (n / 16) ++ [hexDigitUpper (n % 16)]

/-- The format `%02X`. -/
def hexPadded (n : BitVec 32) : List Byte :=
  List.replicate (2 - (itoaUpper 8 n.toNat).length) (chr '0') ++ itoaUpper 8 n.toNat

/-- A character as an argument of variable type, on a platform whose characters are signed or not. -/
def promoted (signed : Bool) (c : Byte) : BitVec 32 := if signed then c.signExtend 32 else c.setWidth 32

def compEscape (signed : Bool) (eh : Byte → Bool) (pl : List Byte) : List Byte :=
  pl.flatMap fun c => if eh c then [c] else chr '%' :: hexPadded (promoted signed c)

/-- `outside` is a read behind the text. -/
inductive UnescapeErr
  | EBADMSG | EINVAL | outside
  deriving DecidableEq, Repr

/-- How many values the type of a length has. -/
def sizeValues : Nat := 4294967296

/-- `l - 2` in the type of a length. -/
def lessTwo (l : Nat) : Nat := if l < 2 then sizeValues + l - 2 else l - 2

/-- The characters from an index on: what has been printed, and the error that ended it. -/
def unescapeFrom (eh : Byte → Bool) (l : Nat) : Nat → List Byte → List Byte × Option UnescapeErr
  | _, [] => ([], none)
  | i, c :: rest =>
    if eh c then
      let (out, err) := unescapeFrom eh l (i + 1) rest
      (c :: out, err)
    else if c = chr '%' then
      if i < lessTwo l then
        match rest with
        | hi :: lo :: rest =>
          let (out, err) := unescapeFrom eh l (i + 3) rest
          ((chHex hi <<< 4 ||| chHex lo) :: out, err)
        | _ => ([], some .outside)
      else ([], some .EBADMSG)
    else ([], some .EINVAL)

def compUnescape (eh : Byte → Bool) (pl : List Byte) : List Byte × Option UnescapeErr :=
  unescapeFrom eh pl.length 0 pl

def uriUserEscape (signed : Bool) (pl : List Byte) : List Byte := compEscape signed Uric.isUser pl

def uriUserUnescape (pl : List Byte) : List Byte × Option UnescapeErr := compUnescape Uric.isUser pl

def uriPasswordEscape (signed : Bool) (pl : List Byte) : List Byte := compEscape signed Uric.isPassword pl

def uriPasswordUnescape (pl : List Byte) : List Byte × Option UnescapeErr := compUnescape Uric.isPassword pl

def uriParamEscape (signed : Bool) (pl : List Byte) : List Byte := compEscape signed Uric.isParamchar pl

def uriParamUnescape (pl : List Byte) : List Byte × Option UnescapeErr := compUnescape Uric.isParamchar pl

def uriHeaderEscape (signed : Bool) (pl : List Byte) : List Byte := compEscape signed Uric.isHvalue pl

def uriHeaderUnescape (pl : List Byte) : List Byte × Option UnescapeErr := compUnescape Uric.isHvalue pl

namespace UriComp

def escape (signed : Bool) : UriComp → List Byte → List Byte
  | user => uriUserEscape signed
  | password => uriPasswordEscape signed
  | param => uriParamEscape signed
  | header => uriHeaderEscape signed

def unescape : UriComp → List Byte → List Byte × Option UnescapeErr
  | user => uriUserUnescape
  | password => uriPasswordUnescape
  | param => uriParamUnescape
  | header => uriHeaderUnescape

theorem escape_eq (signed : Bool) (comp : UriComp) (s : List Byte) :
    comp.escape signed s = compEscape signed comp.handler s := by
  cases comp <;> rfl

theorem unescape_eq (comp : UriComp) (s : List Byte) : comp.unescape s = compUnescape comp.handler s := by
  cases comp <;> rfl

theorem handler_alnum (comp : UriComp) {c : Byte} (alnum : Uric.isalnum c = true) : comp.handler c = true := by
  cases comp <;> simp [handler, Uric.isUser, Uric.isPassword, Uric.isParamchar, Uric.isHvalue, Uric.isUnreserved, alnum]

theorem handler_percent (comp : UriComp) : comp.handler (chr '%') = false := by
  cases comp <;> decide

theorem contains_high {l : List Byte} {c : Byte} (low : ∀ d ∈ l, d < 0x80) (high : 0x80 ≤ c) : l.contains c = false := by
  rw [List.contains_eq_mem, decide_eq_false_iff_not]
  intro mem
  have := low c mem
  bv_omega

theorem unreserved_high {c : Byte} (high : 0x80 ≤ c) : Uric.isUnreserved c = false := by
  have mark : Uric.isMark c = false := contains_high (by decide) high
  have alnum : Uric.isalnum c = false := by
    have nine : ¬ c ≤ chr '9' := by
      have : chr '9' = 0x39#8 := by decide
      rw [this]
      bv_omega
    have upper : ¬ c ≤ chr 'Z' := by
      have : chr 'Z' = 0x5A#8 := by decide
      rw [this]
      bv_omega
    have lower : ¬ c ≤ chr 'z' := by
      have : chr 'z' = 0x7A#8 := by decide
      rw [this]
      bv_omega
    simp [Uric.isalnum, nine, upper, lower]
  simp [Uric.isUnreserved, mark, alnum]

theorem handler_high (comp : UriComp) {c : Byte} (high : 0x80 ≤ c) : comp.handler c = false := by
  cases comp with
  | user => rw [handler, Uric.isUser, unreserved_high high, Uric.isUserUnreserved, contains_high (by decide) high]; rfl
  | password => rw [handler, Uric.isPassword, unreserved_high high, contains_high (by decide) high]; rfl
  | param => rw [handler, Uric.isParamchar, unreserved_high high, Uric.isParamUnreserved, contains_high (by decide) high]; rfl
  | header => rw [handler, Uric.isHvalue, unreserved_high high, Uric.isHnvUnreserved, contains_high (by decide) high]; rfl

end UriComp

example : uriUserEscape false (ascii "a b@c") = ascii "a%20b%40c" := by decide +kernel
example : uriUserUnescape (ascii "a%20b%40c") = (ascii "a b@c", none) := by decide +kernel

/-- A text of characters that stand for themselves and of complete escapes. -/
inductive Units (eh : Byte → Bool) : List Byte → Prop
  | nil : Units eh []
  | char {c : Byte} {rest : List Byte} : eh c = true → Units eh rest → Units eh (c :: rest)
  | escape {hi lo : Byte} {rest : List Byte} : Units eh rest → Units eh (chr '%' :: hi :: lo :: rest)

/-- No byte is read behind the text, and an escape that is cut off is an error. -/
def ReadsInside (comp : UriComp) (s : List Byte) : Prop :=
  (comp.unescape s).2 ≠ some .outside ∧
    ∀ front back, s = front ++ chr '%' :: back → Units comp.handler front → back.length < 2 →
      ((comp.unescape s).2).isSome = true

/-- Unescaping by the structure of the text. -/
def decoded (eh : Byte → Bool) : List Byte → List Byte × Option UnescapeErr
  | [] => ([], none)
  | c :: rest =>
    if eh c then
      ((c :: (decoded eh rest).1), (decoded eh rest).2)
    else if c = chr '%' then
      match rest with
      | hi :: lo :: rest => ((chHex hi <<< 4 ||| chHex lo) :: (decoded eh rest).1, (decoded eh rest).2)
      | _ => ([], some .EBADMSG)
    else ([], some .EINVAL)

@[simp] theorem decoded_nil (eh : Byte → Bool) : decoded eh [] = ([], none) := by
  rw [decoded]

theorem decoded_cons (eh : Byte → Bool) (c : Byte) (rest : List Byte) :
    decoded eh (c :: rest) =
      if eh c then (c :: (decoded eh rest).1, (decoded eh rest).2)
      else if c = chr '%' then
        match rest with
        | hi :: lo :: rest => ((chHex hi <<< 4 ||| chHex lo) :: (decoded eh rest).1, (decoded eh rest).2)
        | _ => ([], some .EBADMSG)
      else ([], some .EINVAL) := by
  conv_lhs => unfold decoded

theorem decoded_char {eh : Byte → Bool} {c : Byte} (accepted : eh c = true) (rest : List Byte) :
    decoded eh (c :: rest) = (c :: (decoded eh rest).1, (decoded eh rest).2) := by
  rw [decoded_cons, if_pos accepted]

theorem decoded_escape {eh : Byte → Bool} (percent : eh (chr '%') = false) (hi lo : Byte) (rest : List Byte) :
    decoded eh (chr '%' :: hi :: lo :: rest) =
      ((chHex hi <<< 4 ||| chHex lo) :: (decoded eh rest).1, (decoded eh rest).2) := by
  rw [decoded_cons, if_neg (by simp [percent]), if_pos rfl]

theorem unescapeFrom_decoded (eh : Byte → Bool) {l : Nat} (two : 2 ≤ l) (i : Nat) (s : List Byte)
    (at_i : i + s.length = l) : unescapeFrom eh l i s = decoded eh s := by
  fun_induction decoded eh s generalizing i with
  | case1 => rfl
  | case2 c rest accepted ih =>
    simp only [List.length_cons] at at_i
    unfold unescapeFrom
    rw [if_pos accepted, ih (i + 1) (by omega)]
  | case3 hi lo rest refused ih =>
    simp only [List.length_cons] at at_i
    have inside : i < lessTwo l := by
      rw [lessTwo, if_neg (by omega)]
      omega
    rw [unescapeFrom, if_neg refused, if_pos rfl, if_pos inside, ih (i + 3) (by omega)]
  | case4 rest short refused =>
    simp only [List.length_cons] at at_i
    have few : rest.length < 2 := by
      match rest, short with
      | [], _ => simp
      | [_], _ => simp
      | hi :: lo :: rest, short => exact absurd rfl (short hi lo rest)
    have cut : ¬ i < lessTwo l := by
      rw [lessTwo, if_neg (by omega)]
      omega
    unfold unescapeFrom
    rw [if_neg refused, if_pos rfl, if_neg cut]
  | case5 c rest refused other =>
    unfold unescapeFrom
    rw [if_neg refused, if_neg other]

theorem compUnescape_eq {eh : Byte → Bool} {s : List Byte} (lone : s ≠ [chr '%']) : compUnescape eh s = decoded eh s := by
  match s with
  | [] => rfl
  | [c] =>
    have other : c ≠ chr '%' := fun eq => lone (by rw [eq])
    unfold compUnescape unescapeFrom
    rw [decoded_cons, if_neg other, if_neg other]
    rfl
  | c :: d :: rest => exact unescapeFrom_decoded eh (by simp) 0 _ (by simp)

theorem decoded_inside (eh : Byte → Bool) (s : List Byte) : (decoded eh s).2 ≠ some .outside := by
  fun_induction decoded eh s with simp_all

theorem decoded_cut {eh : Byte → Bool} (percent : eh (chr '%') = false) {front back : List Byte} (units : Units eh front)
    (few : back.length < 2) : (decoded eh (front ++ chr '%' :: back)).2 = some .EBADMSG := by
  induction units with
  | nil =>
    match back, few with
    | [], _ => simp [decoded_cons, percent]
    | [_], _ => simp [decoded_cons, percent]
  | char accepted _ ih => rw [List.cons_append, decoded_char accepted, ih]
  | escape _ ih => rw [List.cons_append, List.cons_append, List.cons_append, decoded_escape percent, ih]

theorem readsInside_iff (comp : UriComp) (s : List Byte) : ReadsInside comp s ↔ s ≠ [chr '%'] := by
  constructor
  · rintro ⟨inside, -⟩ rfl
    apply inside
    rw [UriComp.unescape_eq]
    unfold compUnescape unescapeFrom
    rw [comp.handler_percent]
    rfl
  · intro lone
    rw [ReadsInside, UriComp.unescape_eq, compUnescape_eq lone]
    refine ⟨decoded_inside _ s, fun front back split units few => ?_⟩
    rw [split, decoded_cut comp.handler_percent units few]
    rfl

theorem itoaUpper_one {digits n : Nat} (small : n < 16) : itoaUpper (digits + 1) n = [hexDigitUpper n] := by
  rw [itoaUpper, if_pos small]

theorem itoaUpper_more {digits n : Nat} (large : 16 ≤ n) :
    itoaUpper (digits + 1) n = itoaUpper digits (n / 16) ++ [hexDigitUpper (n % 16)] := by
  rw [itoaUpper, if_neg (by omega)]

/-- The two digits of a byte. -/
def twoDigits (c : Byte) : List Byte := [hexDigitUpper (c.toNat / 16), hexDigitUpper (c.toNat % 16)]

theorem hexPadded_byte {n : BitVec 32} {c : Byte} (value : n.toNat = c.toNat) : hexPadded n = twoDigits c := by
  have byte := c.isLt
  rw [hexPadded, value, twoDigits]
  by_cases small : c.toNat < 16
  · rw [itoaUpper_one small, Nat.div_eq_of_lt small, Nat.mod_eq_of_lt small]
    rfl
  · rw [itoaUpper_more (by omega), itoaUpper_one (by omega)]
    rfl

/-- The sign of a character fills six digits. -/
theorem hexPadded_signed {n : BitVec 32} {c : Byte} (value : n.toNat = 0xFFFFFF00 + c.toNat) :
    hexPadded n = ascii "FFFFFF" ++ twoDigits c := by
  have byte := c.isLt
  have sign : itoaUpper 6 0xFFFFFF = ascii "FFFFFF" := by decide
  have high : (0xFFFFFF00 + c.toNat) / 16 / 16 = 0xFFFFFF := by omega
  have tens : (0xFFFFFF00 + c.toNat) / 16 % 16 = c.toNat / 16 := by omega
  have ones : (0xFFFFFF00 + c.toNat) % 16 = c.toNat % 16 := by omega
  have digits : itoaUpper 8 (0xFFFFFF00 + c.toNat) = ascii "FFFFFF" ++ twoDigits c := by
    rw [itoaUpper_more (by omega), itoaUpper_more (by omega), high, tens, ones, sign, twoDigits, List.append_assoc]
    rfl
  rw [hexPadded, value, digits]
  rfl

theorem signExtend_toNat (c : Byte) : (c.signExtend 32).toNat = c.toNat + if 0x80 ≤ c then 0xFFFFFF00 else 0 := by
  have byte := c.isLt
  have wide : (c.setWidth 32).toNat = c.toNat := by
    rw [BitVec.toNat_setWidth]
    omega
  have sign : c.msb = decide (0x80 ≤ c) := BitVec.msb_eq_decide c
  rw [BitVec.toNat_signExtend, wide, sign]
  simp

theorem promoted_low {signed : Bool} {c : Byte} (low : signed = false ∨ c < 0x80) :
    (promoted signed c).toNat = c.toNat := by
  have byte := c.isLt
  cases signed with
  | false =>
    rw [promoted, if_neg (by simp), BitVec.toNat_setWidth]
    omega
  | true =>
    have low : ¬ 0x80 ≤ c := by
      have : c < 0x80 := by simpa using low
      bv_omega
    rw [promoted, if_pos rfl, signExtend_toNat, if_neg low, Nat.add_zero]

theorem promoted_high {c : Byte} (high : 0x80 ≤ c) : (promoted true c).toNat = 0xFFFFFF00 + c.toNat := by
  rw [promoted, if_pos rfl, signExtend_toNat, if_pos high, Nat.add_comm]

theorem twoDigits_read (c : Byte) :
    chHex (hexDigitUpper (c.toNat / 16)) <<< 4 ||| chHex (hexDigitUpper (c.toNat % 16)) = c := by
  revert c
  decide +kernel

theorem hexDigitUpper_alnum {v : Nat} (digit : v < 16) : Uric.isalnum (hexDigitUpper v) = true := by
  revert v
  decide

/-- What the escape of a character comes back as. -/
def comesBack (signed : Bool) (eh : Byte → Bool) (c : Byte) : List Byte :=
  if eh c = false ∧ signed = true ∧ 0x80 ≤ c then 0xFF :: ascii "FFFF" ++ twoDigits c else [c]

theorem decoded_alnums {comp : UriComp} {run : List Byte} (alnum : ∀ c ∈ run, Uric.isalnum c = true) (rest : List Byte) :
    decoded comp.handler (run ++ rest) = (run ++ (decoded comp.handler rest).1, (decoded comp.handler rest).2) := by
  induction run with
  | nil => rfl
  | cons c run ih =>
    rw [List.cons_append, decoded_char (comp.handler_alnum (alnum c (by simp))), ih fun d member => alnum d (by simp [member])]
    rfl

theorem twoDigits_alnum (c : Byte) : ∀ d ∈ twoDigits c, Uric.isalnum d = true := by
  have byte := c.isLt
  intro d member
  rcases List.mem_cons.mp member with rfl | member
  · exact hexDigitUpper_alnum (by omega)
  · rw [List.mem_singleton.mp member]
    exact hexDigitUpper_alnum (by omega)

theorem decoded_compEscape (signed : Bool) (comp : UriComp) (s : List Byte) :
    decoded comp.handler (compEscape signed comp.handler s) = (s.flatMap (comesBack signed comp.handler), none) := by
  induction s with
  | nil => simp [compEscape]
  | cons c s ih =>
    rw [compEscape, List.flatMap_cons, List.flatMap_cons, ← compEscape]
    by_cases accepted : comp.handler c = true
    · rw [if_pos accepted, comesBack, if_neg (by simp [accepted]), List.cons_append, decoded_char accepted, List.nil_append, ih]
      rfl
    rw [if_neg accepted, comesBack]
    by_cases signs : signed = true ∧ 0x80 ≤ c
    · obtain ⟨rfl, high⟩ := signs
      have sign : ∀ d ∈ ascii "FFFF", Uric.isalnum d = true := by decide
      have tail : ∀ d ∈ ascii "FFFF" ++ twoDigits c, Uric.isalnum d = true := fun d member =>
        (List.mem_append.mp member).elim (sign d) (twoDigits_alnum c d)
      have text : chr '%' :: hexPadded (promoted true c) ++ compEscape true comp.handler s =
          chr '%' :: chr 'F' :: chr 'F' :: ((ascii "FFFF" ++ twoDigits c) ++ compEscape true comp.handler s) := by
        rw [hexPadded_signed (promoted_high high)]
        rfl
      rw [if_pos ⟨by simpa using accepted, rfl, high⟩, text, decoded_escape comp.handler_percent, decoded_alnums tail, ih]
      rfl
    · have low : signed = false ∨ c < 0x80 := by
        cases signed with
        | false => exact .inl rfl
        | true =>
          have : ¬ 0x80 ≤ c := fun high => signs ⟨rfl, high⟩
          exact .inr (by bv_omega)
      rw [if_neg fun all => signs all.2, hexPadded_byte (promoted_low low), twoDigits, List.cons_append, List.cons_append,
        List.cons_append, decoded_escape comp.handler_percent, twoDigits_read, List.nil_append, ih]
      rfl

theorem flatMap_comesBack_length (signed : Bool) (eh : Byte → Bool) (s : List Byte) :
    s.length ≤ (s.flatMap (comesBack signed eh)).length := by
  induction s with
  | nil => simp
  | cons c s ih =>
    have one : 1 ≤ (comesBack signed eh c).length := by
      unfold comesBack
      split <;> simp
    rw [List.flatMap_cons, List.length_append, List.length_cons]
    omega

theorem flatMap_comesBack (signed : Bool) (comp : UriComp) (s : List Byte) :
    s.flatMap (comesBack signed comp.handler) = s ↔ signed = false ∨ ∀ c ∈ s, c < 0x80 := by
  constructor
  · intro kept
    by_contra negative
    simp only [not_or, Bool.not_eq_false, not_forall, exists_prop] at negative
    obtain ⟨rfl, c, member, high⟩ := negative
    have high : 0x80 ≤ c := by bv_omega
    obtain ⟨front, back, rfl⟩ := List.append_of_mem member
    have long : (comesBack true comp.handler c).length = 7 := by
      rw [comesBack, if_pos ⟨comp.handler_high high, rfl, high⟩]
      rfl
    have lengths := congrArg List.length kept
    rw [List.flatMap_append, List.flatMap_cons, List.length_append, List.length_append, long, List.length_append,
      List.length_cons] at lengths
    have fronts := flatMap_comesBack_length true comp.handler front
    have backs := flatMap_comesBack_length true comp.handler back
    omega
  · intro low
    have same : ∀ c ∈ s, comesBack signed comp.handler c = [c] := by
      intro c member
      rw [comesBack, if_neg]
      rintro ⟨-, rfl, high⟩
      have := low.resolve_left (by simp) c member
      bv_omega
    induction s with
    | nil => rfl
    | cons c s ih =>
      rw [List.flatMap_cons, same c (by simp), ih (low.imp_right fun all d member => all d (by simp [member]))
        fun d member => same d (by simp [member])]
      rfl

theorem compEscape_lone (signed : Bool) (comp : UriComp) (s : List Byte) :
    compEscape signed comp.handler s ≠ [chr '%'] := by
  intro lone
  have round := congrArg Prod.snd (decoded_compEscape signed comp s)
  have cut := decoded_cut comp.handler_percent Units.nil (show ([] : List Byte).length < 2 by simp)
  rw [lone] at round
  cases round.symm.trans cut

/-- Escaping and unescaping give a text back, and nothing behind it is read, where no character is negative and the text is
    not a lone percent sign. -/
theorem roundTrip_iff (signed : Bool) (comp : UriComp) (s : List Byte) :
    (comp.unescape (comp.escape signed s) = (s, none) ∧ ReadsInside comp s) ↔
      (signed = false ∨ ∀ c ∈ s, c < 0x80) ∧ s ≠ [chr '%'] := by
  rw [readsInside_iff, comp.escape_eq, comp.unescape_eq, compUnescape_eq (compEscape_lone signed comp s),
    decoded_compEscape, Prod.mk.injEq, flatMap_comesBack, and_iff_left rfl]

/-- `E9` comes back as seven bytes, and behind a lone percent sign two bytes are read that are not there. -/
theorem high_and_lone : uriUserUnescape (uriUserEscape true [0xE9]) = (0xFF :: ascii "FFFFE9", none) ∧
    (uriUserUnescape [chr '%']).2 = some .outside := by
  decide +kernel

end Baresip.Re
