import Baresip.Library.Calls
import Baresip.Re.Runs
import Baresip.Re.Sa
import Baresip.Re.Uric
import Mathlib.Data.Nat.Digits.Lemmas

set_option linter.dupNamespace false

namespace Baresip.Re.Print

open Library

abbrev Text := List Byte

/-- An error code; `0` is success. -/
abbrev Err := BitVec 32

def ENOMEM : Err := 12

def EINVAL : Err := 22

/-- What is printed is a sequence of calls to the print handler. -/
abbrev Printing := Calls Text Err Err

def nothing : Printing := .done 0

def send (piece : Text) : Printing := .call piece .done

/-- `err |= c; err |= d;`, which goes on after an error. -/
def also (c d : Printing) : Printing := c.bind fun e => d.bind fun e' => .done (e ||| e')

/-- `while (pad-- > sz) err |= vph(&pch, 1, arg);`, with what the loop leaves of `pad`. -/
def fill (pch : Byte) (sz : Nat) : Nat → Calls Text Err (Err × Nat)
  | 0 => .done (0, sizeValues - 1)
  | pad + 1 =>
    if pad + 1 > sz then
      .call [pch] fun e => (fill pch sz pad).bind fun (e', left) => .done (e ||| e', left)
    else .done (0, pad)

def strLen (p : Option Text) : Nat := (p.getD []).length

@[simp] theorem strLen_some (p : Text) : strLen (some p) = p.length := rfl

def writePadded (p : Option Text) (pad : Nat) (pch : Byte) (plr : Bool) (prfx : Option Text) : Printing :=
  let sz := strLen p
  let pad := pad - min pad (strLen prfx)
  also (if pch = chr '0' then prfx.elim nothing send else nothing)
    ((if plr then .done (0, pad) else fill pch sz pad).bind fun (err, pad) =>
      also (.done err)
        (also (if pch ≠ chr '0' then prfx.elim nothing send else nothing)
          (also (if sz ≠ 0 then p.elim nothing send else nothing)
            (if plr then (fill pch sz pad).bind fun (err, _) => .done err else nothing))))

def NUM_SIZE : Nat := 64

def itoaDigit (uc : Bool) (c : Nat) : Byte :=
  if c < 10 then chr '0' + BitVec.ofNat 8 c else chr (if uc then 'A' else 'a') + BitVec.ofNat 8 (c - 10)

/-- The digits come from the last one on; the count is of the bytes in front of the terminator in the buffer. -/
def itoaLoop (base : Nat) (uc : Bool) : Nat → Nat → Text → Text
  | 0, _, p => p
  | room + 1, n, p =>
    let p := itoaDigit uc (n - n / base * base) :: p
    if n / base ≠ 0 then itoaLoop base uc room (n / base) p else p

def localItoa (n base : Nat) (uc : Bool) : Text := itoaLoop base uc (NUM_SIZE - 1) n []

/-- The number as it is read, with its first digit first. -/
def numeral (base : Nat) (uc : Bool) (n : Nat) : Text :=
  if n = 0 then [itoaDigit uc 0] else (Nat.digits base n).reverse.map (itoaDigit uc)

theorem itoaLoop_eq {base room n : Nat} (large : 1 < base) (uc : Bool) (some_ : 0 < n) (fits : n < base ^ room) (p : Text) :
    itoaLoop base uc room n p = (Nat.digits base n).reverse.map (itoaDigit uc) ++ p := by
  induction room generalizing n p with
  | zero =>
    rw [Nat.pow_zero] at fits
    omega
  | succ room ih =>
    have last : n - n / base * base = n % base := by
      rw [Nat.mod_eq_sub, Nat.mul_comm]
    rw [itoaLoop, Nat.digits_def' large some_, last, List.reverse_cons, List.map_append, List.append_assoc]
    by_cases more : n / base ≠ 0
    · have rest : n / base < base ^ room := by
        apply Nat.div_lt_of_lt_mul
        rw [Nat.pow_succ, Nat.mul_comm] at fits
        exact fits
      rw [if_pos more, ih (Nat.pos_of_ne_zero more) rest]
      rfl
    · rw [if_neg more, not_not.mp more, Nat.digits_zero]
      rfl

theorem localItoa_eq {base n : Nat} (large : 1 < base) (fits : n < base ^ (NUM_SIZE - 1)) (uc : Bool) :
    localItoa n base uc = numeral base uc n := by
  unfold localItoa numeral
  by_cases zero : n = 0
  · rw [zero, if_pos rfl]
    simp [itoaLoop, NUM_SIZE]
  · rw [if_neg zero, itoaLoop_eq large uc (Nat.pos_of_ne_zero zero) fits, List.append_nil]

theorem localItoa_byte (v : Byte) (uc : Bool) : (localItoa v.toNat 16 uc).length ≤ 2 := by
  have small : v.toNat < 16 ^ 2 := v.isLt
  rw [localItoa_eq (by decide) (Nat.lt_trans small (by decide)), numeral]
  split
  · simp
  · rw [List.length_map, List.length_reverse, Nat.digits_length_le_iff (by decide)]
    exact small

/-- What comes from the system: the messages of `strerror_r`, the addresses of `inet_ntop`, and whether it has IPv6. -/
structure Host where
  strError : BitVec 32 → Text
  saNtop : Sa → Option Text
  inet6 : Bool

/-- A print handler as `re_printf_h` is documented: its result is `0` only when the print handler took everything. -/
structure Routine where
  calls : Printing
  reports : calls.Reports (· ≠ 0)

inductive Arg
  | int (v : BitVec 32)
  | long (v : BitVec 32)
  | longLong (v : BitVec 64)
  | size (v : BitVec 32)
  | ptr (p : BitVec 32)
  | str (p : Option Text)
  /-- A pointer and the length of what it points to. -/
  | buf (p : Option Text)
  | pl (pl : Option (Option Text))
  | sa (sa : Option Sa)
  | handler (ph : Option Routine)
  /-- A format with its own argument list, see `formatArg`. -/
  | format (inner : Option Routine)

structure Spec where
  plr : Bool
  pad : Nat
  pch : Byte
  lenmod : Nat

def LENMOD_LONG : Nat := 1

def LENMOD_SIZE : Nat := 42

def Spec.init : Spec := ⟨false, 0, chr ' ', 0⟩

/-- What a conversion has read. -/
inductive Conversion
  | char (ch : Byte)
  | text (p : Option Text)
  | number (num : Text) (prfx : Option Text)
  | hex (bytes : Text) (uc : Bool)
  | addrPort (inet6 : Bool) (addr num : Text)
  | routine (ph : Routine)
  | nothing

def hexDigits (uc : Bool) : Text → Printing
  | [] => nothing
  | v :: bytes => also (writePadded (some (localItoa v.toNat 16 uc)) 2 (chr '0') false none) (hexDigits uc bytes)

def Conversion.calls (sp : Spec) : Conversion → Printing
  | char ch => send [ch]
  | text p => writePadded p sp.pad (chr ' ') sp.plr none
  | number num prfx => writePadded (some num) sp.pad (if sp.plr then chr ' ' else sp.pch) sp.plr prfx
  | hex bytes uc =>
    let pch := if sp.plr then chr ' ' else sp.pch
    (if sp.plr then .done (0, sp.pad) else fill pch (bytes.length * 2) sp.pad).bind fun (err, pad) =>
      also (.done err)
        (also (hexDigits uc bytes)
          (if sp.plr then (fill pch (bytes.length * 2) pad).bind fun (err, _) => .done err else Print.nothing))
  | addrPort inet6 addr num =>
    also (if inet6 then send [chr '['] else Print.nothing)
      (also (writePadded (some addr) sp.pad (chr ' ') sp.plr none)
        (also (if inet6 then send [chr ']'] else Print.nothing)
          (also (send [chr ':'])
            (writePadded (some num) sp.pad (if sp.plr then chr ' ' else sp.pch) sp.plr none))))
  | routine ph => ph.calls
  | nothing => Print.nothing

/-- `va_arg` for `%d` and `%i`, by the length modifier. -/
def signedArg (lenmod : Nat) : List Arg → Option (Int × List Arg)
  | .int v :: ap => if lenmod = 0 then some (v.toInt, ap) else none
  | .long v :: ap => if lenmod = LENMOD_LONG then some (v.toInt, ap) else none
  | .size v :: ap => if lenmod = LENMOD_SIZE then some (v.toInt, ap) else none
  | .longLong v :: ap =>
    if lenmod ≠ 0 ∧ lenmod ≠ LENMOD_LONG ∧ lenmod ≠ LENMOD_SIZE then some (v.toInt, ap) else none
  | _ => none

/-- `va_arg` for `%u`, `%x` and `%X`. -/
def unsignedArg (lenmod : Nat) : List Arg → Option (Nat × List Arg)
  | .int v :: ap => if lenmod = 0 then some (v.toNat, ap) else none
  | .long v :: ap => if lenmod = LENMOD_LONG then some (v.toNat, ap) else none
  | .size v :: ap => if lenmod = LENMOD_SIZE then some (v.toNat, ap) else none
  | .longLong v :: ap =>
    if lenmod ≠ 0 ∧ lenmod ≠ LENMOD_LONG ∧ lenmod ≠ LENMOD_SIZE then some (v.toNat, ap) else none
  | _ => none

/-- A character behind `%` adds to the specification or ends it. -/
inductive Turn
  | flag (sp : Spec)
  | print (conv : Conversion) (ap : List Arg)

def unsignedTurn (lenmod base : Nat) (uc : Bool) (ap : List Arg) : Option Turn :=
  (unsignedArg lenmod ap).map fun (n, ap) => .print (.number (localItoa n base uc) none) ap

def hexTurn (uc : Bool) : List Arg → Option Turn
  | .buf p :: ap => some (.print (.hex (p.getD []) uc) ap)
  | _ => none

def isInet6 : Sa → Bool
  | .inet6 _ _ => true
  | _ => false

/-- The switch of `re_vhprintf`, without the floating point; `none` where the next argument is not what `va_arg` takes. -/
def directive (host : Host) (sp : Spec) (c : Byte) (ap : List Arg) : Option Turn :=
  match Char.ofNat c.toNat, ap with
  | '-', _ => some (.flag { sp with plr := true })
  | '.', _ => some (.flag { sp with pad := 0 })
  | '%', ap => some (.print (.char (chr '%')) ap)
  | 'b', .buf p :: ap => some (.print (.text p) ap)
  | 'b', _ => none
  | 'c', .int v :: ap => some (.print (.text (some [v.setWidth 8])) ap)
  | 'c', _ => none
  | 'd', ap | 'i', ap => (signedArg sp.lenmod ap).map fun (sn, ap) =>
      .print (.number (localItoa sn.natAbs 10 false) (if sn < 0 then some (ascii "-") else none)) ap
  | 'f', _ | 'F', _ => none
  | 'H', .handler ph :: ap => some (.print (ph.elim .nothing .routine) ap)
  | 'H', _ => none
  | 'l', _ => some (.flag { sp with lenmod := sp.lenmod + 1 })
  | 'm', .int v :: ap => some (.print (.text (some (host.strError v))) ap)
  | 'm', _ => none
  | 'p', .ptr p :: ap => some (.print (if p ≠ 0 then .number (localItoa p.toNat 16 false) (some (ascii "0x"))
      else .text (some (ascii "(nil)"))) ap)
  | 'p', _ => none
  | 'r', .pl pl :: ap => some (.print (.text pl.join) ap)
  | 'r', _ => none
  | 's', .str p :: ap => some (.print (.text p) ap)
  | 's', _ => none
  | 'X', ap => unsignedTurn sp.lenmod 16 true ap
  | 'x', ap => unsignedTurn sp.lenmod 16 false ap
  | 'u', ap => unsignedTurn sp.lenmod 10 false ap
  | 'v', .format inner :: ap => some (.print (inner.elim .nothing .routine) ap)
  | 'v', _ => none
  | 'W', ap => hexTurn true ap
  | 'w', ap => hexTurn false ap
  | 'z', _ => some (.flag { sp with lenmod := LENMOD_SIZE })
  | 'j', .sa sa :: ap => some (.print (sa.elim .nothing fun sa => .text (some ((host.saNtop sa).getD (ascii "?")))) ap)
  | 'j', _ => none
  | 'J', .sa sa :: ap => some (.print (sa.elim .nothing fun sa =>
      match host.saNtop sa with
      | none => .text (some (ascii "?"))
      | some addr => .addrPort (host.inet6 && isInet6 sa) addr (localItoa sa.port.toNat 10 false)) ap)
  | 'J', _ => none
  | _, ap =>
    if chr '0' ≤ c ∧ c ≤ chr '9' then
      if sp.pad = 0 ∧ c = chr '0' then some (.flag { sp with pch := chr '0' })
      else some (.flag { sp with pad := (sp.pad * 10 + (c - chr '0').toNat) % sizeValues })
    else some (.print (.char (chr '?')) ap)

/-- The text between the directives so far, or the directive so far. -/
inductive Mode
  | run (p0 : Text)
  | fm (sp : Spec)

/-- The loop of `re_vhprintf`, which ends with the first error. -/
def vhprintf (host : Host) : Text → Mode → List Arg → Calls Text Err (Option Err)
  | [], .run p0, _ => if p0 = [] then .done (some 0) else .call p0 fun err => .done (some err)
  | [], .fm _, _ => .done (some 0)
  | c :: p, .run p0, ap =>
    if c ≠ chr '%' then vhprintf host p (.run (p0 ++ [c])) ap
    else if p0 = [] then vhprintf host p (.fm Spec.init) ap
    else .call p0 fun err => if err = 0 then vhprintf host p (.fm Spec.init) ap else .done (some err)
  | c :: p, .fm sp, ap =>
    match directive host sp c ap with
    | none => .done none
    | some (.flag sp) => vhprintf host p (.fm sp) ap
    | some (.print conv ap) =>
      (conv.calls sp).bind fun err => if err = 0 then vhprintf host p (.run []) ap else .done (some err)

def reVhprintf (host : Host) (fmt : Option Text) (ap : List Arg) : Calls Text Err (Option Err) :=
  fmt.elim (.done (some EINVAL)) fun fmt => vhprintf host fmt (.run []) ap

/-! The format as its fields. -/

inductive Field
  | literal (run : Text)
  | conversion (sp : Spec) (conv : Conversion)

def literals (run : Text) : List Field := if run = [] then [] else [.literal run]

def fieldsFrom (host : Host) : Text → Mode → List Arg → Option (List Field)
  | [], .run p0, _ => some (literals p0)
  | [], .fm _, _ => some []
  | c :: p, .run p0, ap =>
    if c ≠ chr '%' then fieldsFrom host p (.run (p0 ++ [c])) ap
    else (fieldsFrom host p (.fm Spec.init) ap).map (literals p0 ++ ·)
  | c :: p, .fm sp, ap =>
    match directive host sp c ap with
    | none => none
    | some (.flag sp) => fieldsFrom host p (.fm sp) ap
    | some (.print conv ap) => (fieldsFrom host p (.run []) ap).map (.conversion sp conv :: ·)

/-- The fields of a format whose directives find the arguments they take. -/
def fieldsOf (host : Host) (fmt : Text) (ap : List Arg) : Option (List Field) := fieldsFrom host fmt (.run []) ap

def Field.calls : Field → Printing
  | literal run => send run
  | conversion sp conv => conv.calls sp

/-- One field after the other, up to the first error. -/
def inTurn : List Field → Printing
  | [] => nothing
  | field :: fields => field.calls.bind fun err => if err = 0 then inTurn fields else .done err

theorem inTurn_literals (run : Text) (fields : List Field) : inTurn (literals run ++ fields) =
    if run = [] then inTurn fields else .call run fun err => if err = 0 then inTurn fields else .done err := by
  unfold literals
  split <;> rfl

theorem vhprintf_eq {host : Host} {p : Text} {mode : Mode} {ap : List Arg} {fields : List Field}
    (known : fieldsFrom host p mode ap = some fields) :
    vhprintf host p mode ap = (inTurn fields).bind fun err => .done (some err) := by
  induction p generalizing mode ap fields with
  | nil =>
    cases mode with
    | run p0 =>
      obtain rfl := Option.some.inj known
      rw [← List.append_nil (literals p0), inTurn_literals, vhprintf]
      split
      · rfl
      · simp only [Calls.call_bind, inTurn]
        congr
        funext err
        split
        · rename_i success
          rw [success]
          rfl
        · rfl
    | fm sp =>
      obtain rfl := Option.some.inj known
      rfl
  | cons c p ih =>
    cases mode with
    | run p0 =>
      rw [fieldsFrom] at known
      rw [vhprintf]
      by_cases text : c ≠ chr '%'
      · rw [if_pos text] at known ⊢
        exact ih known
      · rw [if_neg text] at known ⊢
        obtain ⟨rest, found, rfl⟩ := Option.map_eq_some_iff.mp known
        rw [inTurn_literals, ih found]
        split
        · rfl
        · rw [Calls.call_bind]
          congr
          funext err
          split <;> rfl
    | fm sp =>
      rw [fieldsFrom] at known
      rw [vhprintf]
      cases turn : directive host sp c ap with
      | none => simp [turn] at known
      | some turn' =>
        simp only [turn] at known ⊢
        cases turn' with
        | flag sp => exact ih known
        | print conv ap =>
          obtain ⟨rest, found, rfl⟩ := Option.map_eq_some_iff.mp known
          simp only [inTurn, Field.calls, Calls.bind_assoc]
          congr
          funext err
          split
          · exact ih found
          · rfl

/-! What the fields print. -/

/-- All the pieces, whatever is answered. -/
def sendAll : List Text → Printing
  | [] => nothing
  | piece :: rest => also (send piece) (sendAll rest)

theorem nothing_also (c : Printing) : also nothing c = c := by
  simp [also, nothing]

theorem also_assoc (c d f : Printing) : also (also c d) f = also c (also d f) := by
  simp only [also, Calls.bind_assoc, Calls.done_bind, BitVec.or_assoc]

theorem sendAll_append (ps qs : List Text) : sendAll (ps ++ qs) = also (sendAll ps) (sendAll qs) := by
  induction ps with
  | nil => exact (nothing_also _).symm
  | cons piece ps ih =>
    rw [List.cons_append, sendAll, sendAll, ih, also_assoc]

theorem sendAll_single (piece : Text) : sendAll [piece] = send piece := by
  simp [sendAll, also, send, nothing]

theorem sendAll_option (p : Option Text) : p.elim nothing send = sendAll p.toList := by
  cases p with
  | none => rfl
  | some piece => exact (sendAll_single piece).symm

theorem fill_bind (pch : Byte) (sz pad : Nat) (f : Err → Printing) :
    ((fill pch sz pad).bind fun (err, _) => f err) = (sendAll (List.replicate (pad - sz) [pch])).bind f := by
  induction pad generalizing f with
  | zero =>
    rw [Nat.zero_sub]
    rfl
  | succ pad ih =>
    rw [fill]
    by_cases more : pad + 1 > sz
    · rw [if_pos more, show pad + 1 - sz = pad - sz + 1 by omega, List.replicate_succ, sendAll]
      simp only [Calls.call_bind, Calls.bind_assoc, Calls.done_bind, also, send]
      congr
      funext e
      exact ih fun e' => f (e ||| e')
    · rw [if_neg more, show pad + 1 - sz = 0 by omega]
      rfl

/-- What a field shows, and how wide it is at least. -/
structure Padded where
  pad : Nat
  pch : Byte
  plr : Bool
  prfx : Option Text
  body : List Text

namespace Padded

def rendering (f : Padded) : Text := f.prfx.getD [] ++ f.body.flatten

def padding (f : Padded) : List Text := List.replicate (f.pad - f.rendering.length) [f.pch]

def pieces (f : Padded) : List Text :=
  (if f.pch = chr '0' then f.prfx.toList else []) ++ ((if f.plr then [] else f.padding) ++
    ((if f.pch ≠ chr '0' then f.prfx.toList else []) ++ (f.body ++ if f.plr then f.padding else [])))

def text (f : Padded) : Text := f.pieces.flatten

theorem flatten_toList (p : Option Text) : p.toList.flatten = p.getD [] := by
  cases p <;> simp

theorem text_length (f : Padded) : f.text.length = max f.pad f.rendering.length := by
  have padding : f.padding.flatten.length = f.pad - f.rendering.length := by
    simp [Padded.padding]
  have rendering : f.rendering.length = f.prfx.toList.flatten.length + f.body.flatten.length := by
    rw [Padded.rendering, List.length_append, flatten_toList]
  by_cases zero : f.pch = chr '0' <;> cases side : f.plr <;>
    simp only [text, pieces, zero, side, if_true, if_false, ne_eq, not_true_eq_false, not_false_eq_true, List.nil_append,
      List.append_nil, List.flatten_append, List.length_append, Bool.false_eq_true] <;> omega

end Padded

def bodyOf (p : Option Text) : List Text := if strLen p ≠ 0 then p.toList else []

theorem bodyOf_length (p : Option Text) : (bodyOf p).flatten.length = strLen p := by
  unfold bodyOf
  split
  · rw [Padded.flatten_toList]
    rfl
  · simp_all

/-- The padding is printed on one side of the rest. -/
theorem fill_sides (pch : Byte) (sz pad : Nat) (plr : Bool) (c : Printing) :
    ((if plr then .done (0, pad) else fill pch sz pad).bind fun (err, pad) => also (.done err) (also c
      (if plr then (fill pch sz pad).bind fun (err, _) => .done err else nothing))) =
    also (sendAll (if plr then [] else List.replicate (pad - sz) [pch]))
      (also c (sendAll (if plr then List.replicate (pad - sz) [pch] else []))) := by
  cases plr with
  | false => exact fill_bind pch sz pad fun err => also (.done err) (also c nothing)
  | true =>
    have all : ((fill pch sz pad).bind fun (err, _) => .done err) = sendAll (List.replicate (pad - sz) [pch]) := by
      rw [fill_bind, Calls.bind_done]
    simp only [if_true, Calls.done_bind, all]
    rfl

theorem writePadded_eq (p : Option Text) (pad : Nat) (pch : Byte) (plr : Bool) (prfx : Option Text) :
    writePadded p pad pch plr prfx = sendAll (Padded.pieces ⟨pad, pch, plr, prfx, bodyOf p⟩) := by
  have size : pad - min pad (strLen prfx) - strLen p = pad - (strLen prfx + strLen p) := by omega
  have rendering : (Padded.rendering ⟨pad, pch, plr, prfx, bodyOf p⟩).length = strLen prfx + strLen p := by
    rw [Padded.rendering, List.length_append, bodyOf_length]
    rfl
  have when_ (b : Prop) [Decidable b] (ps : List Text) :
      sendAll (if b then ps else []) = if b then sendAll ps else nothing := by
    split <;> rfl
  have body : sendAll (bodyOf p) = if strLen p ≠ 0 then p.elim nothing send else nothing := by
    rw [bodyOf, when_, sendAll_option]
  have sides := fill_sides pch (strLen p) (pad - min pad (strLen prfx)) plr
    (also (if pch ≠ chr '0' then prfx.elim nothing send else nothing) (sendAll (bodyOf p)))
  simp only [also_assoc, size, when_, body] at sides
  simp only [Padded.pieces, Padded.padding, rendering, sendAll_append, when_, body, ← sendAll_option]
  exact congrArg (also _) sides

def hexPieces (uc : Bool) (v : Byte) : List Text :=
  Padded.pieces ⟨2, chr '0', false, none, bodyOf (some (localItoa v.toNat 16 uc))⟩

/-- The fields of one conversion; a print handler of its own has none. -/
def Conversion.segments (sp : Spec) : Conversion → List Padded
  | char ch => [⟨0, chr ' ', false, none, [[ch]]⟩]
  | text p => [⟨sp.pad, chr ' ', sp.plr, none, bodyOf p⟩]
  | number num prfx => [⟨sp.pad, if sp.plr then chr ' ' else sp.pch, sp.plr, prfx, bodyOf (some num)⟩]
  | hex bytes uc => [⟨sp.pad, if sp.plr then chr ' ' else sp.pch, sp.plr, none, bytes.flatMap (hexPieces uc)⟩]
  | addrPort inet6 addr num =>
    (if inet6 then [⟨0, chr ' ', false, none, [[chr '[']]⟩] else []) ++
      (⟨sp.pad, chr ' ', sp.plr, none, bodyOf (some addr)⟩ ::
        ((if inet6 then [⟨0, chr ' ', false, none, [[chr ']']]⟩] else []) ++
          [⟨0, chr ' ', false, none, [[chr ':']]⟩,
            ⟨sp.pad, if sp.plr then chr ' ' else sp.pch, sp.plr, none, bodyOf (some num)⟩]))
  | routine _ => []
  | nothing => []

def Conversion.pieces (sp : Spec) (conv : Conversion) : List Text := (conv.segments sp).flatMap Padded.pieces

theorem hexDigits_eq (uc : Bool) (bytes : Text) : hexDigits uc bytes = sendAll (bytes.flatMap (hexPieces uc)) := by
  induction bytes with
  | nil => rfl
  | cons v bytes ih =>
    rw [hexDigits, ih, writePadded_eq, List.flatMap_cons, sendAll_append]
    rfl

theorem hexPieces_length (uc : Bool) (v : Byte) : (hexPieces uc v).flatten.length = 2 := by
  have digits := localItoa_byte v uc
  have width := Padded.text_length ⟨2, chr '0', false, none, bodyOf (some (localItoa v.toNat 16 uc))⟩
  rw [Padded.rendering, List.length_append, bodyOf_length] at width
  rw [hexPieces, ← Padded.text, width]
  exact Nat.max_eq_left (by simpa [strLen] using digits)

theorem hexPieces_all (uc : Bool) (bytes : Text) : (bytes.flatMap (hexPieces uc)).flatten.length = bytes.length * 2 := by
  induction bytes with
  | nil => rfl
  | cons v bytes ih =>
    rw [List.flatMap_cons, List.flatten_append, List.length_append, ih, hexPieces_length, List.length_cons]
    omega

theorem bare_pieces (ch : Byte) : Padded.pieces ⟨0, chr ' ', false, none, [[ch]]⟩ = [[ch]] := by
  simp [Padded.pieces, Padded.padding]

theorem Conversion.calls_eq (sp : Spec) (conv : Conversion) :
    conv.calls sp = match conv with
      | routine ph => ph.calls
      | _ => sendAll (conv.pieces sp) := by
  cases conv with
  | char ch =>
    show send [ch] = _
    simp only [pieces, segments, List.flatMap_cons, List.flatMap_nil, bare_pieces, List.append_nil, sendAll_single]
  | text p =>
    show writePadded _ _ _ _ _ = _
    simp only [pieces, segments, List.flatMap_cons, List.flatMap_nil, List.append_nil, writePadded_eq]
  | number num prfx =>
    show writePadded _ _ _ _ _ = _
    simp only [pieces, segments, List.flatMap_cons, List.flatMap_nil, List.append_nil, writePadded_eq]
  | hex bytes uc =>
    have width (pad : Nat) (pch : Byte) (plr : Bool) :
        (Padded.rendering ⟨pad, pch, plr, none, bytes.flatMap (hexPieces uc)⟩).length = bytes.length * 2 :=
      hexPieces_all uc bytes
    simp only [pieces, segments, List.flatMap_cons, List.flatMap_nil, List.append_nil, calls, hexDigits_eq]
    simp only [fill_sides, Padded.pieces, Padded.padding, width, sendAll_append, Option.toList_none, ite_self,
      List.nil_append]
  | addrPort inet6 addr num =>
    show also _ _ = _
    cases inet6 <;>
      simp [pieces, segments, writePadded_eq, bare_pieces, sendAll_append, sendAll, nothing_also]
  | routine ph => rfl
  | nothing => rfl

@[simp] theorem sendAll_outcome (ps : List Text) : (sendAll ps).outcome = 0 := by
  induction ps with
  | nil => rfl
  | cons piece ps ih => simp [sendAll, also, send, Calls.outcome, ih]

@[simp] theorem sendAll_text (ps : List Text) : (sendAll ps).text = ps.flatten := by
  induction ps with
  | nil => rfl
  | cons piece ps ih => simp [sendAll, also, send, ih]

/-- What is printed for the field, when no error comes up. -/
def Field.text : Field → Text
  | literal run => run
  | conversion _ (.routine ph) => ph.calls.text
  | conversion sp conv => (conv.segments sp).flatMap Padded.text

theorem Field.calls_text (field : Field) : field.calls.text = field.text := by
  cases field with
  | literal run => simp [calls, send, text]
  | conversion sp conv =>
    have shown : (conv.pieces sp).flatten = (conv.segments sp).flatMap Padded.text := by
      rw [Conversion.pieces, List.flatMap_def, List.flatten_flatten, List.map_map, List.flatMap_def]
      rfl
    rw [calls, Conversion.calls_eq]
    cases conv with
    | routine ph => rfl
    | _ =>
      dsimp only
      rw [sendAll_text, shown]
      rfl

theorem inTurn_text {fields : List Field} (success : (inTurn fields).outcome = 0) :
    (inTurn fields).text = fields.flatMap Field.text := by
  induction fields with
  | nil => rfl
  | cons field fields ih =>
    rw [inTurn, Calls.outcome_bind] at success
    rw [inTurn, Calls.text_bind, Field.calls_text, List.flatMap_cons]
    split at success
    · rename_i first
      rw [if_pos first, ih success]
    · rename_i first
      exact absurd success first

/-! An error is not lost. -/

theorem send_reports (piece : Text) : (send piece).Reports (· ≠ 0) := ⟨trivial, fun _ wrong => wrong⟩

theorem also_reports {c d : Printing} (first : c.Reports (· ≠ 0)) (second : d.Reports (· ≠ 0)) :
    (also c d).Reports (· ≠ 0) := by
  have keeps (e e' : Err) (wrong : e ≠ 0 ∨ e' ≠ 0) : e ||| e' ≠ 0 := by
    intro none_
    obtain ⟨left, right⟩ := BitVec.or_eq_zero_iff.mp none_
    exact wrong.elim (· left) (· right)
  apply first.bind
  · intro e wrong
    apply d.bind_fails
    intro e'
    exact keeps e e' (.inl wrong)
  · intro e
    exact second.bind (fun e' wrong => keeps e e' (.inr wrong)) fun _ => trivial

theorem sendAll_reports (ps : List Text) : (sendAll ps).Reports (· ≠ 0) := by
  induction ps with
  | nil => trivial
  | cons piece ps ih => exact also_reports (send_reports piece) ih

theorem Field.calls_reports (field : Field) : field.calls.Reports (· ≠ 0) := by
  cases field with
  | literal run => exact send_reports run
  | conversion sp conv =>
    rw [calls, Conversion.calls_eq]
    cases conv with
    | routine ph => exact ph.reports
    | _ => exact sendAll_reports _

theorem inTurn_reports (fields : List Field) : (inTurn fields).Reports (· ≠ 0) := by
  induction fields with
  | nil => trivial
  | cons field fields ih =>
    apply field.calls_reports.bind
    · intro err wrong
      rw [if_neg wrong]
      exact wrong
    · intro err
      split
      · exact ih
      · trivial

/-- `%v`: the inner format runs with the same print handler. -/
def formatArg (host : Host) (fmt : Option Text) (ap : Option (List Arg)) : Option Arg :=
  match fmt, ap with
  | some fmt, some ap => (fieldsOf host fmt ap).map fun fields => .format (some ⟨inTurn fields, inTurn_reports fields⟩)
  | _, _ => some (.format none)

end Baresip.Re.Print
