import Baresip.Re.Mbuf

set_option linter.dupNamespace false

namespace Baresip.Re

def ascii (s : String) : List Byte := s.toList.map fun c => BitVec.ofNat 8 c.toNat

def chr (c : Char) : Byte := BitVec.ofNat 8 c.toNat

/-- The bytes of a literal, without decoding its UTF-8. -/
theorem ascii_ofList (cs : List Char) : ascii (String.ofList cs) = cs.map chr := by
  rw [ascii, String.toList_ofList]
  rfl

def tolower (c : Byte) : Byte := if 0x41 ≤ c ∧ c ≤ 0x5a then c + 0x20 else c

structure Pl where
  off : Nat
  val : List Byte
  deriving DecidableEq, Repr

def Pl.strcmp (pl : Pl) (str : List Byte) : Bool := pl.val == str

def Pl.strcasecmp (pl : Pl) (str : List Byte) : Bool := pl.val.map tolower == str.map tolower

/-- The value of a decimal number, and 0 when some byte is not a digit. -/
def Pl.u32 (pl : Pl) : BitVec 32 :=
  if pl.val.all fun c => 0x30 ≤ c && c ≤ 0x39 then
    pl.val.foldl (fun v c => v * 10 + (c - 0x30).setWidth 32) 0
  else 0

structure Chr where
  min : Byte
  max : Byte
  deriving DecidableEq, Repr

def exprMatch (chrv : List Chr) (c : Byte) (neg : Bool) : Bool :=
  let found := chrv.any fun r => r.min ≤ c && c ≤ r.max
  if neg then !found else found

def chrvMax : Nat := 64

/-- How a pattern stops short of a match: the text is tried again from its next byte, or not at all. -/
inductive Mismatch
  | again
  | stop (err : Errno)
  deriving DecidableEq, Repr

/-- Where the loop over the pattern is. `range` holds the lower end of a range whose upper end has not been
    read, `p` the text from the current position, and `off` that position. -/
structure Regex where
  eesc : Bool
  fm : Bool
  ec : Bool
  neg : Bool
  qesc : Bool
  range : Option Byte
  chrv : List Chr
  off : Nat
  p : List Byte
  captures : List Pl
  deriving DecidableEq, Repr

namespace Regex

def start (off : Nat) (p : List Byte) : Regex := ⟨false, false, false, false, false, none, [], off, p, []⟩

def uint32Max : Nat := 4294967295

/-- How many times the class matches, inside quotes regardless of the class when it is quote aware. -/
def scan (chrv : List Chr) (neg qesc : Bool) : Nat → Bool → Bool → List Byte → Nat
  | _, _, _, [] => 0
  | room, quote, esc, c :: p =>
    if room = 0 then 0
    else if qesc && esc then scan chrv neg qesc (room - 1) quote false p + 1
    else if qesc && c == chr '\\' then scan chrv neg qesc (room - 1) quote true p + 1
    else if qesc && c == chr '"' then scan chrv neg qesc (room - 1) (!quote) false p + 1
    else if qesc && quote then scan chrv neg qesc (room - 1) quote false p + 1
    else if exprMatch chrv (tolower c) neg then scan chrv neg qesc (room - 1) quote false p + 1
    else 0

def quantifier (c : Byte) : Option (Nat × Nat) :=
  if c = chr '*' then some (0, uint32Max)
  else if c = chr '+' then some (1, uint32Max)
  else if chr '1' ≤ c ∧ c ≤ chr '9' then some ((c - chr '0').toNat, (c - chr '0').toNat)
  else none

def stripQuotes (pl : Pl) : Pl :=
  if 1 < pl.val.length ∧ pl.val.head? = some (chr '"') ∧ pl.val.getLast? = some (chr '"') then
    ⟨pl.off + 1, pl.val.tail.dropLast⟩
  else pl

def capture (r : Regex) (nmin nmax : Nat) : Except Mismatch Regex :=
  let n := scan r.chrv r.neg r.qesc nmax false false r.p
  let lpl : Pl := ⟨r.off, r.p.take n⟩
  let pl := if r.qesc then stripQuotes lpl else lpl
  if pl.val.length < nmin ∨ nmax < pl.val.length then .error .again
  else
    .ok { r with
      fm := false, eesc := false, off := r.off + n, p := r.p.drop n, captures := r.captures ++ [pl] }

/-- The label `chr` of the source. -/
def addChr (r : Regex) (c : Byte) : Except Mismatch Regex :=
  let upper := tolower c
  let lower := r.range.getD upper
  let chrv := r.chrv ++ [⟨lower, upper⟩]
  if chrvMax < chrv.length then .error (.stop .EINVAL) else .ok { r with range := none, chrv := chrv }

def classStep (r : Regex) (c : Byte) : Except Mismatch Regex :=
  if r.eesc then addChr { r with eesc := false } c
  else if c = chr ']' then .ok { r with ec := true }
  else if c = chr '~' ∧ r.chrv = [] then .ok { r with qesc := true, neg := true }
  else if c = chr '^' ∧ r.chrv = [] then .ok { r with neg := true }
  else if c = chr '-' ∧ r.range = none then
    match r.chrv.getLast? with
    | none => addChr r c
    | some last => .ok { r with range := some last.min, chrv := r.chrv.dropLast }
  else addChr r c

def literal (r : Regex) (c : Byte) : Except Mismatch Regex :=
  match r.p with
  | [] => .error (.stop .ENOENT)
  | x :: p =>
    if tolower c ≠ tolower x then .error .again
    else .ok { r with eesc := false, off := r.off + 1, p := p }

def step (r : Regex) (c : Byte) : Except Mismatch Regex :=
  if c = chr '\\' ∧ r.eesc = false then .ok { r with eesc := true }
  else if r.fm = false then
    if c = chr '[' ∧ r.eesc = false then
      .ok { r with chrv := [], fm := true, ec := false, neg := false, range := none, qesc := false }
    else literal r c
  else if r.ec then
    match quantifier c with
    | none => .error (.stop .EINVAL)
    | some (nmin, nmax) => capture r nmin nmax
  else classStep r c

def run (r : Regex) : List Byte → Except Mismatch (List Pl)
  | [] => if r.fm then .error (.stop .EINVAL) else .ok r.captures
  | c :: expr =>
    match step r c with
    | .error e => .error e
    | .ok r => run r expr

theorem run_nil (r : Regex) : r.run [] = if r.fm then .error (.stop .EINVAL) else .ok r.captures := rfl

theorem run_cons (r : Regex) (c : Byte) (expr : List Byte) :
    r.run (c :: expr) = match step r c with
      | .error e => .error e
      | .ok r => r.run expr := rfl

end Regex

def reRegexFrom (expr : List Byte) : Nat → List Byte → Except Errno (List Pl)
  | _, [] => if expr = [] then .ok [] else .error .ENOENT
  | off, c :: p =>
    match (Regex.start off (c :: p)).run expr with
    | .ok captures => .ok captures
    | .error (.stop e) => .error e
    | .error .again => reRegexFrom expr (off + 1) p

theorem reRegexFrom_nil (expr : List Byte) (off : Nat) :
    reRegexFrom expr off [] = if expr = [] then .ok [] else .error .ENOENT := rfl

theorem reRegexFrom_cons (expr : List Byte) (off : Nat) (c : Byte) (p : List Byte) :
    reRegexFrom expr off (c :: p) = match (Regex.start off (c :: p)).run expr with
      | .ok captures => .ok captures
      | .error (.stop e) => .error e
      | .error .again => reRegexFrom expr (off + 1) p := rfl

def reRegex (text expr : List Byte) : Except Errno (List Pl) := reRegexFrom expr 0 text

/-- How many of the caller's arguments one attempt reads, which is one for each quantifier it comes to. -/
def Regex.arguments (r : Regex) : List Byte → Nat
  | [] => 0
  | c :: expr =>
    let read := if r.fm ∧ r.ec ∧ ¬ (c = chr '\\' ∧ r.eesc = false) then 1 else 0
    match step r c with
    | .error _ => read
    | .ok r => read + arguments r expr

theorem Regex.arguments_cons (r : Regex) (c : Byte) (expr : List Byte) :
    r.arguments (c :: expr) = match step r c with
      | .error _ => if r.fm ∧ r.ec ∧ ¬ (c = chr '\\' ∧ r.eesc = false) then 1 else 0
      | .ok r' => (if r.fm ∧ r.ec ∧ ¬ (c = chr '\\' ∧ r.eesc = false) then 1 else 0) + r'.arguments expr := rfl

/-- The most arguments that an attempt of the search reads, the failed ones included. -/
def argumentsFrom (expr : List Byte) : Nat → List Byte → Nat
  | _, [] => 0
  | off, c :: p =>
    let read := (Regex.start off (c :: p)).arguments expr
    match (Regex.start off (c :: p)).run expr with
    | .error .again => max read (argumentsFrom expr (off + 1) p)
    | _ => read

example : reRegex (ascii "foo 42 bar") (ascii "[0-9]+") = .ok [⟨4, ascii "42"⟩] := by decide

end Baresip.Re
