import Baresip.Library.Elements
import Baresip.Re.Lookup
import Baresip.Re.UriEncode
import Baresip.Re.SdpSession

set_option linter.dupNamespace false

namespace Baresip.Re.Ucmp

open Library (strung strung_nil strung_cons strung_append strung_head strung_unstrung unstrung unstrung_without suffix_strung)
open Lookup (printed Starts starts_cons name_matches name_differs)

/-- How a walk over parameters or headers ends early: with an error code, or with a value that was never set. -/
inductive Fault
  | err (e : Errno)
  | undefined
  deriving DecidableEq, Repr

/-- The comparison of two pointers that differ, by `strncasecmp`, which goes no further than a NUL. -/
def plCasecmp (pl1 pl2 : List Byte) : Bool :=
  pl1.length == pl2.length && (cstr pl1).map tolower == (cstr pl2).map tolower

/-- What a search leaves in the second of its two arguments, which the pattern may not come to, or go beyond. -/
def second (pl expr : List Byte) : Except Fault (Option (List Byte)) :=
  if 2 < argumentsFrom expr 0 pl then .error .undefined
  else
    match reRegex pl expr with
    | .ok captures => .ok (captures[1]?.map Pl.val)
    | .error e => .error (.err e)

def paramHead : List Byte := ascii ";"
def paramTail : List Byte := ascii "[=]*[^;]*"
def headerHead : List Byte := ascii "[?&]1"
def headerTail : List Byte := ascii "=[^&]+"

def uriParamGet (pl pname : List Byte) : Except Fault (Option (List Byte)) :=
  second pl (cstr (printed paramHead pname paramTail))

def uriHeaderGet (pl hname : List Byte) : Except Fault (Option (List Byte)) :=
  second pl (cstr (printed headerHead hname headerTail))

def uriParamsApply (ah : List Byte → List Byte → Except Fault Unit) (plr : List Byte) : Except Fault Unit :=
  if _more : plr = [] then .ok ()
  else
    match reRegex plr (ascii ";[^;=]+[=]*[^;]*") with
    | .ok [pname, eq, pvalue] =>
      match ah pname.val pvalue.val with
      | .ok () => uriParamsApply ah (plr.drop (1 + pname.val.length + eq.val.length + pvalue.val.length))
      | .error fault => .error fault
    | .ok _ => .error .undefined
    | .error e => .error (.err e)
termination_by plr.length
decreasing_by
  have := List.length_pos_iff.mpr _more
  rw [List.length_drop]
  omega

def uriHeadersApply (ah : List Byte → List Byte → Except Fault Unit) (plr : List Byte) : Except Fault Unit :=
  if _more : plr = [] then .ok ()
  else
    match reRegex plr (ascii "[?&]1[^=]+=[^&]+") with
    | .ok [sep, hname, hvalue] =>
      match ah hname.val hvalue.val with
      | .ok () => uriHeadersApply ah (plr.drop (sep.val.length + hname.val.length + 1 + hvalue.val.length))
      | .error fault => .error fault
    | .ok _ => .error .undefined
    | .error e => .error (.err e)
termination_by plr.length
decreasing_by
  have := List.length_pos_iff.mpr _more
  rw [List.length_drop]
  omega

/-- The parameters that have to be in both URIs, or in neither. -/
def inBoth : List (List Byte) := [ascii "user", ascii "ttl", ascii "method", ascii "maddr", ascii "transport"]

def paramHandler (otherParams pname pvalue : List Byte) : Except Fault Unit :=
  match uriParamGet otherParams pname with
  | .ok otherPvalue => if plCasecmp pvalue (otherPvalue.getD []) then .ok () else .error (.err .EINVAL)
  | .error (.err _) => if pname ∈ inBoth then .error (.err .ENOENT) else .ok ()
  | .error .undefined => .error .undefined

def headerHandler (otherHeaders hname hvalue : List Byte) : Except Fault Unit :=
  match uriHeaderGet otherHeaders hname with
  | .ok (some otherHvalue) => if plCasecmp hvalue otherHvalue then .ok () else .error (.err .EINVAL)
  | .ok none => .error .undefined
  | .error fault => .error fault

/-- What `inet_pton` takes for an IPv4 address, and for an IPv6 one. -/
structure Inet where
  pton4 : List Byte → Bool
  pton6 : List Byte → Bool

/-- The family that `uri_decode` caches, of the host in a buffer of 64 bytes. -/
def Inet.af (inet : Inet) (host : List Byte) : Af :=
  let buf := cstr (host.take 63)
  if inet.pton4 buf then .inet else if inet.pton6 buf then .inet6 else .unspec

def answer : Except Fault Unit → Option Bool
  | .ok () => some true
  | .error (.err _) => some false
  | .error .undefined => none

/-- The comparison of two URIs that are not the same object. No answer stands for one that depends on an unset value. -/
def uriCmp (inet : Inet) (l r : Uri (List Byte)) : Option Bool :=
  if ¬ plCasecmp l.scheme r.scheme then some false
  else if l.user.getD [] ≠ r.user.getD [] then some false
  else if l.password.getD [] ≠ r.password.getD [] then some false
  else if ¬ plCasecmp l.host r.host then some false
  else if inet.af l.host ≠ inet.af r.host then some false
  else if l.port ≠ r.port then some false
  else
    answer do
      uriParamsApply (paramHandler r.params) l.params
      uriParamsApply (paramHandler l.params) r.params
      uriHeadersApply (headerHandler r.headers) l.headers
      uriHeadersApply (headerHandler l.headers) r.headers

/-! What a comparison is for. -/

/-- The texts differ in the case of their letters only. -/
def Alike (x y : List Byte) : Prop := x.map tolower = y.map tolower

instance (x y : List Byte) : Decidable (Alike x y) := inferInstanceAs (Decidable (_ = _))

def paramsOf (uri : Uri (List Byte)) : List (List Byte) := Library.unstrung (chr ';') uri.params

def headersOf (uri : Uri (List Byte)) : List (List Byte) := Library.unstrung (chr '&') uri.headers

def nameOf (x : List Byte) : List Byte := x.takeWhile (· ≠ chr '=')

def paramValue (x : List Byte) : List Byte := (x.dropWhile (· ≠ chr '=')).dropWhile (· = chr '=')

def headerValue (x : List Byte) : List Byte := (x.dropWhile (· ≠ chr '=')).tail

/-- What the first parameter that begins with the name makes of it. -/
def paramResult (x : List Byte) : Option (List Byte) → Except Fault Unit
  | some y => if plCasecmp (paramValue x) (paramValue y) then .ok () else .error (.err .EINVAL)
  | none => if nameOf x ∈ inBoth then .error (.err .ENOENT) else .ok ()

/-- The parts in front of the parameters agree. -/
structure Base (a b : Uri (List Byte)) : Prop where
  scheme : Alike a.scheme b.scheme
  user : a.user.getD [] = b.user.getD []
  password : a.password.getD [] = b.password.getD []
  host : Alike a.host b.host
  port : a.port = b.port

structure Same (a b : Uri (List Byte)) : Prop extends Base a b where
  params : ∀ x ∈ paramsOf a, ∀ y ∈ paramsOf b, Alike (nameOf x) (nameOf y) → Alike (paramValue x) (paramValue y)
  both : ∀ s ∈ inBoth, (∃ x ∈ paramsOf a, Alike (nameOf x) s) ↔ ∃ y ∈ paramsOf b, Alike (nameOf y) s
  headers : ∀ x ∈ headersOf a, ∃ y ∈ headersOf b, Alike (nameOf x) (nameOf y) ∧ Alike (headerValue x) (headerValue y)
  headers' : ∀ y ∈ headersOf b, ∃ x ∈ headersOf a, Alike (nameOf x) (nameOf y) ∧ Alike (headerValue x) (headerValue y)

/-- What the callers rely on for two URIs, where a copy is another object. -/
structure Compares (inet : Inet) (a b : Uri (List Byte)) : Prop where
  copy : uriCmp inet a a = some true
  symm : uriCmp inet a b = uriCmp inet b a
  exact_ : uriCmp inet a b = some true ↔ Same a b

/-! When the code compares so. -/

/-- The walks come to every element: none has an empty name, no header an empty value, and the first begins the text. -/
structure Walked (uri : Uri (List Byte)) : Prop where
  params : ∀ c ∈ uri.params.head?, c = chr ';'
  headers : ∀ c ∈ uri.headers.head?, c = chr '?'
  param : ∀ x ∈ paramsOf uri, nameOf x ≠ []
  header : ∀ x ∈ headersOf uri, nameOf x ≠ [] ∧ headerValue x ≠ []
  fits : uri.params.length ≤ Regex.uint32Max ∧ uri.headers.length ≤ Regex.uint32Max

/-- No name comes with two values. -/
structure Single (uri : Uri (List Byte)) : Prop where
  params : ∀ x ∈ paramsOf uri, ∀ y ∈ paramsOf uri, Alike (nameOf x) (nameOf y) → Alike (paramValue x) (paramValue y)
  headers : ∀ x ∈ headersOf uri, ∀ y ∈ headersOf uri,
    Alike (nameOf x) (nameOf y) → Alike (headerValue x) (headerValue y)

/-- A byte that stands for itself in a pattern. -/
def Plain (c : Byte) : Prop := c ≠ chr '\\' ∧ c ≠ chr '[' ∧ c ≠ 0

instance (c : Byte) : Decidable (Plain c) := inferInstanceAs (Decidable (_ ∧ _))

/-- The texts do not differ behind a NUL only. -/
def Settled (x y : List Byte) : Prop := plCasecmp x y = true → Alike x y

instance (x y : List Byte) : Decidable (Settled x y) := inferInstanceAs (Decidable (_ → _))

/-- The pattern for a header goes through in a text that may end behind it. -/
def Hit (hname text : List Byte) : Prop := Starts (hname ++ [chr '=']) text ∧ hname.length + 1 < text.length

instance (hname text : List Byte) : Decidable (Hit hname text) := inferInstanceAs (Decidable (_ ∧ _))

/-- What the names of one URI are looked up as in the other is what has the name there. -/
structure Finds (uri other : Uri (List Byte)) : Prop where
  paramPattern : ∀ x ∈ paramsOf uri, (∀ c ∈ nameOf x, Plain c) ∧ (nameOf x).length ≤ 117
  param : ∀ x ∈ paramsOf uri, ∀ y ∈ (paramsOf other).find? fun y => decide (Starts (nameOf x) y),
    Alike (nameOf x) (nameOf y) ∧ Settled (paramValue x) (paramValue y)
  both : ∀ x ∈ paramsOf uri, ∀ s ∈ inBoth, Alike (nameOf x) s → nameOf x = s ∨ ∃ y ∈ paramsOf other, Alike (nameOf y) s
  headerPattern : ∀ x ∈ headersOf uri, (∀ c ∈ nameOf x, Plain c) ∧ (nameOf x).length ≤ 116
  header : ∀ x ∈ headersOf uri, ∀ y ∈ (headersOf other).find? fun y => decide (Alike (nameOf x) (nameOf y)),
    Settled (headerValue x) (headerValue y)
  inner : ∀ x ∈ headersOf uri, ∀ y ∈ (headersOf other).takeWhile fun y => !decide (Alike (nameOf x) (nameOf y)),
    ∀ text, chr '?' :: text <:+ y → ¬ Hit (nameOf x) text

structure Clear (a b : Uri (List Byte)) : Prop where
  walked : Walked a
  single : Single a
  finds : Finds a a
  scheme : Settled a.scheme b.scheme
  host : Settled a.host b.host
  other : Base a b → Walked b ∧ Finds a b ∧ Finds b a

/-! The elements as texts. -/

variable {x y n p r : List Byte} {xs : List (List Byte)}

theorem name_append (x : List Byte) : nameOf x ++ x.dropWhile (· ≠ chr '=') = x := List.takeWhile_append_dropWhile

theorem name_plain : chr '=' ∉ nameOf x := by
  intro member
  exact absurd rfl (of_decide_eq_true (List.mem_takeWhile_imp (p := fun c => decide (c ≠ chr '=')) member))

theorem name_within {c : Byte} (member : c ∈ nameOf x) : c ∈ x := by
  rw [← name_append x]
  exact List.mem_append_left _ member

theorem Alike.refl (x : List Byte) : Alike x x := rfl

theorem Alike.symm (alike : Alike x y) : Alike y x := Eq.symm alike

theorem Alike.trans {z : List Byte} (alike : Alike x y) (alike' : Alike y z) : Alike x z := Eq.trans alike alike'

theorem Alike.length (alike : Alike x y) : x.length = y.length := by
  simpa using congrArg List.length alike

theorem Alike.starts (alike : Alike n (nameOf x)) : Starts n x := by
  have front : x.take n.length = nameOf x := by
    rw [alike.length]
    exact (List.prefix_iff_eq_take.mp (List.takeWhile_prefix _)).symm
  rw [Starts, front]
  exact alike.symm

/-- A run ends where the text behind it does not go on with it. -/
theorem stops_behind {f : Byte → Bool} (stops : ∀ c ∈ r.head?, f c = false) :
    ∀ c ∈ (x.dropWhile f ++ r).head?, f c = false := by
  intro c first
  have next := List.head?_dropWhile_not f x
  cases behind : x.dropWhile f with
  | nil =>
    rw [behind] at first
    exact stops c first
  | cons b q =>
    rw [behind] at first next
    obtain rfl := Option.some.inj first
    exact next

theorem equals_fixed (c : Byte) : tolower c = tolower (chr '=') ↔ c = chr '=' :=
  tolower_fixed (b := chr '=') (by decide) (by decide) c

theorem semi_fixed (c : Byte) : tolower c = tolower (chr ';') ↔ c = chr ';' :=
  tolower_fixed (b := chr ';') (by decide) (by decide) c

theorem amp_fixed (c : Byte) : tolower c = tolower (chr '&') ↔ c = chr '&' :=
  tolower_fixed (b := chr '&') (by decide) (by decide) c

/-- A text without the separator is not spelled beyond one. -/
theorem starts_append {sep : Byte} (fixed : ∀ c, tolower c = tolower sep ↔ c = sep) (without : sep ∉ n)
    (stops : ∀ c ∈ r.head?, c = sep) : Starts n (y ++ r) ↔ Starts n y := by
  induction n generalizing y with
  | nil => exact ⟨fun _ => rfl, fun _ => rfl⟩
  | cons b n ih =>
    rw [List.mem_cons, not_or] at without
    cases y with
    | cons c y => rw [List.cons_append, starts_cons, starts_cons, ih without.2]
    | nil =>
      constructor
      · intro starts
        obtain ⟨c, r, rfl⟩ := List.exists_cons_of_length_pos (Nat.lt_of_lt_of_le (Nat.succ_pos _) starts.length_le)
        have same := (starts_cons.mp starts).1
        rw [stops c rfl] at same
        exact absurd ((fixed b).mp same.symm).symm without.1
      · intro starts
        exact absurd starts.length_le (Nat.not_succ_le_zero _)

/-- Where an equals sign stands behind the name, it is the whole name. -/
theorem starts_equals (plain : chr '=' ∉ n) : Starts (n ++ [chr '=']) y ↔ Alike n (nameOf y) ∧ chr '=' ∈ y := by
  induction n generalizing y with
  | nil =>
    cases y with
    | nil => simp [Starts, Alike]
    | cons c y =>
      rw [List.nil_append, starts_cons, equals_fixed]
      by_cases equals : c = chr '='
      · simp [equals, Starts, Alike, nameOf]
      · simp [equals, Alike, nameOf]
  | cons b n ih =>
    rw [List.mem_cons, not_or] at plain
    cases y with
    | nil => simp [Starts, Alike]
    | cons c y =>
      rw [List.cons_append, starts_cons, ih plain.2]
      by_cases equals : c = chr '='
      · have other : tolower (chr '=') ≠ tolower b := by
          intro same
          exact plain.1 ((equals_fixed b).mp same.symm).symm
        simp [equals, other, Alike, nameOf]
      · simp [equals, Alike, nameOf, and_assoc, eq_comm]

/-! The patterns of the two lookups. -/

def paramItems (n : List Byte) : List Item :=
  .lit (chr ';') :: (n.map .lit ++ [.cls false false (singles (ascii "=")) 0 Regex.uint32Max,
    .cls true false (singles (ascii ";")) 0 Regex.uint32Max])

def headerItems (n : List Byte) : List Item :=
  .cls false false (singles (ascii "?&")) 1 1 :: ((n ++ [chr '=']).map .lit ++
    [.cls true false (singles (ascii "&")) 1 Regex.uint32Max])

theorem param_parses (plain : ∀ c ∈ n, Plain c) : Regex.Parses (paramHead ++ (n ++ paramTail)) (paramItems n) := by
  have equals : Regex.Opens (ascii "[=]*") false false (singles (ascii "=")) 0 Regex.uint32Max :=
    .ofList fun _ _ _ _ _ _ _ _ _ => rfl
  have value : Regex.Opens (ascii "[^;]*") true false (singles (ascii ";")) 0 Regex.uint32Max :=
    .ofList fun _ _ _ _ _ _ _ _ _ => rfl
  have behind := ((Regex.Parses.nil.cls value).cls equals).lits fun c member => ⟨(plain c member).1, (plain c member).2.1⟩
  exact behind.lit (by decide)

theorem header_parses (plain : ∀ c ∈ n, Plain c) : Regex.Parses (headerHead ++ (n ++ headerTail)) (headerItems n) := by
  have sep : Regex.Opens (ascii "[?&]1") false false (singles (ascii "?&")) 1 1 := .ofList fun _ _ _ _ _ _ _ _ _ => rfl
  have value : Regex.Opens (ascii "[^&]+") true false (singles (ascii "&")) 1 Regex.uint32Max :=
    .ofList fun _ _ _ _ _ _ _ _ _ => rfl
  have literal : ∀ c ∈ n ++ [chr '='], c ≠ chr '\\' ∧ c ≠ chr '[' := by
    intro c member
    rcases List.mem_append.mp member with inside | equals
    · exact ⟨(plain c inside).1, (plain c inside).2.1⟩
    · rw [List.mem_singleton.mp equals]
      decide
  have behind := (Regex.Parses.nil.cls value).lits literal
  have text : headerHead ++ (n ++ headerTail) = ascii "[?&]1" ++ ((n ++ [chr '=']) ++ (ascii "[^&]+" ++ [])) := by
    rw [List.append_assoc]
    rfl
  rw [text]
  exact behind.cls sep

/-- Neither pattern is cut, and no byte of the name ends it. -/
theorem printed_cstr {head tail : List Byte} (room : head.length + n.length + tail.length ≤ 127)
    (head_ : 0 ∉ head) (plain : ∀ c ∈ n, Plain c) (tail_ : 0 ∉ tail) :
    cstr (printed head n tail) = head ++ (n ++ tail) := by
  rw [printed, if_pos room, cstr, List.takeWhile_eq_self_iff]
  intro c member
  rw [bne_iff_ne]
  rintro rfl
  rcases List.mem_append.mp member with member | member
  · exact head_ member
  · rcases List.mem_append.mp member with member | member
    · exact (plain 0 member).2.2 rfl
    · exact tail_ member

theorem param_arguments (plain : ∀ c ∈ n, Plain c) (text : List Byte) :
    argumentsFrom (paramHead ++ (n ++ paramTail)) 0 text ≤ 2 := by
  have literal : ∀ c ∈ chr ';' :: n, c ≠ chr '\\' ∧ c ≠ chr '[' :=
    List.forall_mem_cons.mpr ⟨by decide, fun c member => ⟨(plain c member).1, (plain c member).2.1⟩⟩
  have value := Regex.arguments_class (b := ascii "^;") (q := chr '*') (by decide) (by decide) Regex.arguments_nil
  have equals := Regex.arguments_class (b := ascii "=") (q := chr '*') (by decide) (by decide) value
  exact argumentsFrom_le (Regex.arguments_lits literal equals) 0 text

theorem header_arguments (plain : ∀ c ∈ n, Plain c) (text : List Byte) :
    argumentsFrom (headerHead ++ (n ++ headerTail)) 0 text ≤ 2 := by
  have literal : ∀ c ∈ n ++ [chr '='], c ≠ chr '\\' ∧ c ≠ chr '[' := by
    intro c member
    rcases List.mem_append.mp member with inside | equals
    · exact ⟨(plain c inside).1, (plain c inside).2.1⟩
    · rw [List.mem_singleton.mp equals]
      decide
  have value := Regex.arguments_class (b := ascii "^&") (q := chr '+') (by decide) (by decide) Regex.arguments_nil
  have behind := Regex.arguments_lits literal value
  have sep := Regex.arguments_class (b := ascii "?&") (q := chr '1') (by decide) (by decide) behind
  rw [List.append_assoc] at sep
  exact argumentsFrom_le sep 0 text

/-! Searches. -/

theorem second_found {pl expr : List Byte} {a v : List Byte} (arguments : argumentsFrom expr 0 pl ≤ 2)
    (found : ∃ captures, reRegex pl expr = .ok captures ∧ captures.map Pl.val = [a, v]) :
    second pl expr = .ok (some v) := by
  obtain ⟨captures, found, vals⟩ := found
  have at_ : captures[1]?.map Pl.val = some v := by rw [← List.getElem?_map, vals]; rfl
  rw [second, if_neg (Nat.not_lt_of_le arguments), found]
  exact congrArg Except.ok at_

theorem second_missing {pl expr : List Byte} (arguments : argumentsFrom expr 0 pl ≤ 2)
    (missing : ∃ e, reRegex pl expr = .error e) : ∃ e, second pl expr = .error (.err e) := by
  obtain ⟨e, missing⟩ := missing
  exact ⟨e, by rw [second, if_neg (Nat.not_lt_of_le arguments), missing]⟩

/-- An attempt fails, and for good only where the text is shorter than what it looks for. -/
def Missed (items : List Item) (short : Nat) (w : List Byte) : Prop :=
  ∀ off, matchItems items off w = .error .again ∨
    (w.length ≤ short ∧ matchItems items off w = .error (.stop .ENOENT))

theorem Missed.not_ok {items : List Item} {short : Nat} {w : List Byte} (missed : Missed items short w) (off : Nat)
    (captures : List Pl) : matchItems items off w ≠ .ok captures := by
  rcases missed off with again | ⟨-, stop⟩
  · rw [again]
    exact nofun
  · rw [stop]
    exact nofun

theorem Missed.again {items : List Item} {short : Nat} {w : List Byte} (missed : Missed items short w)
    (long : short < w.length) (off : Nat) : matchItems items off w = .error .again := by
  rcases missed off with again | ⟨le, -⟩
  · exact again
  · exact absurd long (Nat.not_lt_of_le le)

/-! The lookup of a parameter. -/

theorem param_between {c : Byte} (other : c ≠ chr ';') (p : List Byte) : Missed (paramItems n) n.length (c :: p) := by
  intro off
  refine .inl ?_
  rw [paramItems, matchItems, if_pos fun same => other ((semi_fixed c).mp same.symm)]

theorem param_differs (differs : ¬ Starts n p) : Missed (paramItems n) n.length (chr ';' :: p) := by
  intro off
  rw [paramItems, matchItems_lit]
  rcases name_differs differs _ (off + 1) with again | ⟨short, stop⟩
  · exact .inl again
  · exact .inr ⟨short, stop⟩

/-- What both patterns for a parameter take behind its name. -/
theorem behind_takes (without : chr ';' ∉ y) (stops : ∀ c ∈ r.head?, c = chr ';') (fits : y.length ≤ Regex.uint32Max) :
    Takes [.cls false false (singles (ascii "=")) 0 Regex.uint32Max,
      .cls true false (singles (ascii ";")) 0 Regex.uint32Max] (y ++ r)
      [y.takeWhile (· = chr '='), y.dropWhile (· = chr '=')] := by
  have equals (c : Byte) : exprMatch (singles (ascii "=")) (tolower c) false = decide (c = chr '=') := by
    rw [exprMatch_singles (caseless_of (by decide))]
    show (false ^^ [chr '='].contains c) = _
    simp
  have semi (c : Byte) : exprMatch (singles (ascii ";")) (tolower c) true = decide (c ≠ chr ';') := by
    rw [exprMatch_singles (caseless_of (by decide))]
    show (true ^^ [chr ';'].contains c) = _
    simp
  have split := List.takeWhile_append_dropWhile (p := fun c => decide (c = chr '=')) (l := y)
  have lengths := congrArg List.length split
  rw [List.length_append] at lengths
  have value : Takes [.cls true false (singles (ascii ";")) 0 Regex.uint32Max] (y.dropWhile (· = chr '=') ++ r)
      [y.dropWhile (· = chr '=')] := by
    apply (Takes.nil r).cls (by omega) (Nat.zero_le _)
    · intro c member
      rw [semi, decide_eq_true_iff]
      rintro rfl
      exact without ((List.dropWhile_suffix _).subset member)
    · intro c first
      rw [semi, stops c first]
      decide
  have signs : ∀ c ∈ y.takeWhile (· = chr '='), exprMatch (singles (ascii "=")) (tolower c) false = true := by
    intro c member
    rw [equals]
    exact List.mem_takeWhile_imp (p := fun c => decide (c = chr '=')) member
  have ends : ∀ c ∈ (y.dropWhile (· = chr '=') ++ r).head?,
      exprMatch (singles (ascii "=")) (tolower c) false = false := by
    intro c first
    rw [equals]
    exact stops_behind (fun c first => by rw [stops c first]; decide) c first
  have both := value.cls (by omega) (Nat.zero_le _) signs ends
  rwa [← List.append_assoc, split] at both

theorem param_takes (starts : Starts n y) (without : chr ';' ∉ y) (stops : ∀ c ∈ r.head?, c = chr ';')
    (fits : y.length ≤ Regex.uint32Max) :
    Takes (paramItems n) (chr ';' :: (y ++ r))
      [(y.drop n.length).takeWhile (· = chr '='), (y.drop n.length).dropWhile (· = chr '=')] := by
  apply Takes.lit
  intro off
  rw [name_matches (by rwa [Starts, List.take_append_of_le_length starts.length_le]),
    List.drop_append_of_le_length starts.length_le]
  exact behind_takes (fun member => without (List.mem_of_mem_drop member)) stops
    (by rw [List.length_drop]; omega) (off + n.length)

/-- In a row of parameters that the name is not in front of, no attempt succeeds. -/
theorem params_missed {before : List (List Byte)} (plain : chr ';' ∉ n)
    (without : ∀ x ∈ before, chr ';' ∉ x ∧ ¬ Starts n x) (stops : ∀ c ∈ r.head?, c = chr ';') :
    ∀ w, w ≠ [] → w <:+ strung (chr ';') (chr ';') before → Missed (paramItems n) n.length (w ++ r) := by
  intro w some_ suffix
  have ends (after : List (List Byte)) : ∀ c ∈ (strung (chr ';') (chr ';') after ++ r).head?, c = chr ';' := by
    cases after with
    | nil => exact stops
    | cons x after =>
      rintro c ⟨⟩
      rfl
  rcases suffix_strung suffix some_ with ⟨front, x, after, split, rfl⟩ | ⟨front, x, after, v, split, more, inside, rfl⟩
  · have member : x ∈ before := by
      rw [split]
      exact List.mem_append_right front List.mem_cons_self
    rw [ite_self, List.cons_append, List.append_assoc]
    apply param_differs
    rw [starts_append semi_fixed plain (ends after)]
    exact (without x member).2
  · have member : x ∈ before := by
      rw [split]
      exact List.mem_append_right front List.mem_cons_self
    obtain ⟨c, q, rfl⟩ := List.exists_cons_of_ne_nil more
    apply param_between
    rintro rfl
    exact (without x member).1 (inside.subset List.mem_cons_self)

theorem uriParamGet_found (plain : ∀ c ∈ n, Plain c) (short : n.length ≤ 117) (within : chr ';' ∉ n)
    (without : ∀ x ∈ xs, chr ';' ∉ x) (fits : (strung (chr ';') (chr ';') xs).length ≤ Regex.uint32Max)
    (found : xs.find? (fun y => decide (Starts n y)) = some y) :
    uriParamGet (strung (chr ';') (chr ';') xs) n = .ok (some ((y.drop n.length).dropWhile (· = chr '='))) := by
  obtain ⟨starts, before, after, rfl, missed⟩ := List.find?_eq_some_iff_append.mp found
  rw [decide_eq_true_iff] at starts
  have row : strung (chr ';') (chr ';') (before ++ y :: after) =
      strung (chr ';') (chr ';') before ++ chr ';' :: (y ++ strung (chr ';') (chr ';') after) := by
    rw [strung_append, ite_self, strung_cons]
  rw [row] at fits ⊢
  simp only [List.length_append, List.length_cons] at fits
  rw [uriParamGet, printed_cstr (by simp [paramHead, paramTail, ascii]; omega) (by decide) plain (by decide)]
  have takes := param_takes starts (without y (by simp)) (r := strung (chr ';') (chr ';') after) strung_head (by omega)
  apply second_found (param_arguments plain _)
  apply search_found (param_parses plain) (by simp [paramHead, ascii]) (List.cons_ne_nil _ _) takes
  intro w some_ suffix off
  have missed : ∀ x ∈ before, chr ';' ∉ x ∧ ¬ Starts n x := by
    intro x member
    refine ⟨without x (List.mem_append_left _ member), ?_⟩
    simpa using missed x member
  refine (params_missed within missed ?_ w some_ suffix).again ?_ off
  · rintro c ⟨⟩
    rfl
  · have := starts.length_le
    simp only [List.length_append, List.length_cons]
    omega

theorem uriParamGet_missing (plain : ∀ c ∈ n, Plain c) (short : n.length ≤ 117) (within : chr ';' ∉ n)
    (without : ∀ x ∈ xs, chr ';' ∉ x) (missing : xs.find? (fun y => decide (Starts n y)) = none) :
    ∃ e, uriParamGet (strung (chr ';') (chr ';') xs) n = .error (.err e) := by
  have missed : ∀ x ∈ xs, chr ';' ∉ x ∧ ¬ Starts n x := by
    intro x member
    refine ⟨without x member, ?_⟩
    simpa using List.find?_eq_none.mp missing x member
  rw [uriParamGet, printed_cstr (by simp [paramHead, paramTail, ascii]; omega) (by decide) plain (by decide)]
  apply second_missing (param_arguments plain _)
  apply search_missing (param_parses plain) (by simp [paramHead, ascii])
  intro w some_ suffix
  have here := params_missed (r := []) within missed (by simp) w some_ suffix
  rw [List.append_nil] at here
  exact here.not_ok

/-! The lookup of a header. -/

theorem sep_class (c : Byte) : exprMatch (singles (ascii "?&")) (tolower c) false = decide (c = chr '?' ∨ c = chr '&') := by
  rw [exprMatch_singles (caseless_of (by decide))]
  show (false ^^ [chr '?', chr '&'].contains c) = _
  simp

theorem amp_class (c : Byte) : exprMatch (singles (ascii "&")) (tolower c) true = decide (c ≠ chr '&') := by
  rw [exprMatch_singles (caseless_of (by decide))]
  show (true ^^ [chr '&'].contains c) = _
  simp

theorem header_between {c : Byte} (other : ¬ (c = chr '?' ∨ c = chr '&')) (p : List Byte) :
    Missed (headerItems n) (n.length + 1) (c :: p) := by
  intro off
  rw [headerItems, matchItems_one, sep_class, decide_eq_false other]
  exact .inl rfl

theorem header_start {c : Byte} (sep : c = chr '?' ∨ c = chr '&') (off : Nat) (p : List Byte) :
    matchItems (headerItems n) off (c :: p) = (matchItems ((n ++ [chr '=']).map .lit ++
      [.cls true false (singles (ascii "&")) 1 Regex.uint32Max]) (off + 1) p).map (⟨off, [c]⟩ :: ·) := by
  rw [headerItems, matchItems_one, sep_class, decide_eq_true sep]
  rfl

/-- A value cannot be empty. -/
theorem value_again (stops : ∀ c ∈ r.head?, c = chr '&') (off : Nat) :
    matchItems [.cls true false (singles (ascii "&")) 1 Regex.uint32Max] off r = .error .again := by
  have none_ : classRun true (singles (ascii "&")) (r.take Regex.uint32Max) = [] := by
    cases r with
    | nil => rfl
    | cons c r =>
      have out : exprMatch (singles (ascii "&")) (tolower c) true = false := by
        rw [amp_class, stops c rfl]
        decide
      exact List.takeWhile_cons_of_neg (by rw [out]; decide)
  rw [matchItems_many, none_]
  rfl

theorem header_differs {c : Byte} (sep : c = chr '?' ∨ c = chr '&') (plain : chr '&' ∉ n)
    (stops : ∀ c ∈ r.head?, c = chr '&') (differs : ¬ Hit n y) :
    Missed (headerItems n) (n.length + 1) (c :: (y ++ r)) := by
  intro off
  have within : chr '&' ∉ n ++ [chr '='] := by
    rw [List.mem_append, not_or]
    exact ⟨plain, by decide⟩
  have long : (n ++ [chr '=']).length = n.length + 1 := List.length_append
  rw [header_start sep]
  by_cases starts : Starts (n ++ [chr '=']) (y ++ r)
  · have own := (starts_append amp_fixed within stops).mp starts
    have le := own.length_le
    have all : y.length ≤ n.length + 1 := Nat.le_of_not_lt fun more => differs ⟨own, more⟩
    have behind : (y ++ r).drop (n ++ [chr '=']).length = r := by
      rw [show (n ++ [chr '=']).length = y.length by omega, List.drop_left]
    rw [name_matches starts, behind, value_again stops]
    exact .inl rfl
  · rcases name_differs starts _ (off + 1) with again | ⟨short, stop⟩
    · rw [again]
      exact .inl rfl
    · rw [stop]
      exact .inr ⟨by rw [List.length_cons]; omega, rfl⟩

theorem header_takes {c : Byte} (sep : c = chr '?' ∨ c = chr '&') (hit : Hit n y) (without : chr '&' ∉ y)
    (stops : ∀ c ∈ r.head?, c = chr '&') (fits : y.length ≤ Regex.uint32Max) :
    Takes (headerItems n) (c :: (y ++ r)) [[c], y.drop (n.length + 1)] := by
  obtain ⟨starts, more⟩ := hit
  have long : (n ++ [chr '=']).length = n.length + 1 := List.length_append
  have lengths : (y.drop (n.length + 1)).length = y.length - (n.length + 1) := List.length_drop
  have value : Takes [.cls true false (singles (ascii "&")) 1 Regex.uint32Max] (y.drop (n.length + 1) ++ r)
      [y.drop (n.length + 1)] := by
    apply (Takes.nil r).cls (by omega) (by omega)
    · intro c member
      rw [amp_class, decide_eq_true_iff]
      rintro rfl
      exact without (List.mem_of_mem_drop member)
    · intro c first
      rw [amp_class, stops c first]
      decide
  intro off
  obtain ⟨captures, taken, vals⟩ := value (off + 1 + (n.length + 1))
  rw [header_start sep, name_matches (by rwa [Starts, List.take_append_of_le_length starts.length_le]),
    List.drop_append_of_le_length starts.length_le, long, taken]
  exact ⟨_, rfl, congrArg ([c] :: ·) vals⟩

/-- In a row of headers without a place for the name, no attempt succeeds. -/
theorem headers_missed {sep : Byte} {before : List (List Byte)} (sep_ : sep = chr '?' ∨ sep = chr '&') (plain : chr '&' ∉ n)
    (without : ∀ x ∈ before, chr '&' ∉ x ∧ ¬ Hit n x ∧ ∀ text, chr '?' :: text <:+ x → ¬ Hit n text)
    (stops : ∀ c ∈ r.head?, c = chr '&') :
    ∀ w, w ≠ [] → w <:+ strung sep (chr '&') before → Missed (headerItems n) (n.length + 1) (w ++ r) := by
  intro w some_ suffix
  have ends (after : List (List Byte)) : ∀ c ∈ (strung (chr '&') (chr '&') after ++ r).head?, c = chr '&' := by
    cases after with
    | nil => exact stops
    | cons x after =>
      rintro c ⟨⟩
      rfl
  rcases suffix_strung suffix some_ with ⟨front, x, after, split, rfl⟩ | ⟨front, x, after, v, split, more, inside, rfl⟩
  · have member : x ∈ before := by
      rw [split]
      exact List.mem_append_right front List.mem_cons_self
    rw [List.cons_append, List.append_assoc]
    refine header_differs ?_ plain (ends after) (without x member).2.1
    split_ifs
    · exact sep_
    · exact .inr rfl
  · have member : x ∈ before := by
      rw [split]
      exact List.mem_append_right front List.mem_cons_self
    obtain ⟨c, q, rfl⟩ := List.exists_cons_of_ne_nil more
    have apart : c ≠ chr '&' := by
      rintro rfl
      exact (without x member).1 (inside.subset List.mem_cons_self)
    by_cases mark : c = chr '?'
    · rw [mark] at inside
      rw [List.cons_append, List.cons_append, List.append_assoc]
      exact header_differs (.inl mark) plain (ends after) ((without x member).2.2 q inside)
    · exact header_between (not_or.mpr ⟨mark, apart⟩) _

theorem drop_name (y : List Byte) : y.drop (nameOf y).length = y.dropWhile (· ≠ chr '=') := by
  have behind := congrArg (List.drop (nameOf y).length) (name_append y)
  rw [List.drop_left] at behind
  exact behind.symm

theorem header_hit (value : headerValue y ≠ []) (plain : chr '=' ∉ n) : Hit n y ↔ Alike n (nameOf y) := by
  have more := List.length_pos_iff.mpr value
  have whole := congrArg List.length (name_append y)
  rw [headerValue, List.length_tail] at more
  rw [List.length_append] at whole
  have equals : chr '=' ∈ y := by
    obtain ⟨c, q, behind⟩ := List.exists_cons_of_length_pos (Nat.lt_of_lt_of_le more (Nat.sub_le _ 1))
    have next := List.head?_dropWhile_not (fun c => decide (c ≠ chr '=')) y
    rw [behind] at next
    have here : c = chr '=' := not_not.mp (of_decide_eq_false next)
    apply (List.dropWhile_suffix fun c => decide (c ≠ chr '=')).subset
    rw [behind, here]
    exact List.mem_cons_self
  rw [Hit, starts_equals plain]
  constructor
  · exact fun hit => hit.1.1
  · intro alike
    have := alike.length
    exact ⟨⟨alike, equals⟩, by omega⟩

theorem uriHeaderGet_found (plain : ∀ c ∈ n, Plain c) (short : n.length ≤ 116) (within : chr '&' ∉ n ∧ chr '=' ∉ n)
    (without : ∀ x ∈ xs, chr '&' ∉ x ∧ headerValue x ≠ []) (fits : (strung (chr '?') (chr '&') xs).length ≤ Regex.uint32Max)
    (inner : ∀ x ∈ xs.takeWhile fun x => !decide (Alike n (nameOf x)), ∀ text, chr '?' :: text <:+ x → ¬ Hit n text)
    (found : xs.find? (fun x => decide (Alike n (nameOf x))) = some y) :
    uriHeaderGet (strung (chr '?') (chr '&') xs) n = .ok (some (headerValue y)) := by
  obtain ⟨alike, before, after, rfl, missed⟩ := List.find?_eq_some_iff_append.mp found
  rw [decide_eq_true_iff] at alike
  have front : (before ++ y :: after).takeWhile (fun x => !decide (Alike n (nameOf x))) = before := by
    rw [List.takeWhile_append_of_pos missed, List.takeWhile_cons_of_neg (by simpa using alike), List.append_nil]
  rw [front] at inner
  have hit := (header_hit (without y (by simp)).2 within.2).mpr alike
  have value : y.drop (n.length + 1) = headerValue y := by
    rw [← List.drop_drop, alike.length, drop_name, List.drop_one, headerValue]
  have row := strung_append (chr '?') (chr '&') before (y :: after)
  rw [strung_cons] at row
  rw [row] at fits ⊢
  simp only [List.length_append, List.length_cons] at fits
  have sep : ∀ c, c = (if before = [] then chr '?' else chr '&') → c = chr '?' ∨ c = chr '&' := by
    rintro c rfl
    split_ifs
    · exact .inl rfl
    · exact .inr rfl
  have takes := header_takes (sep _ rfl) hit (without y (by simp)).1 (r := strung (chr '&') (chr '&') after) strung_head
    (by omega)
  rw [value] at takes
  rw [uriHeaderGet, printed_cstr (by simp [headerHead, headerTail, ascii]; omega) (by decide) plain (by decide)]
  apply second_found (header_arguments plain _)
  apply search_found (header_parses plain) (by simp [headerHead, ascii]) (List.cons_ne_nil _ _) takes
  intro w some_ suffix off
  have missed : ∀ x ∈ before, chr '&' ∉ x ∧ ¬ Hit n x ∧ ∀ text, chr '?' :: text <:+ x → ¬ Hit n text := by
    intro x member
    obtain ⟨apart, value⟩ := without x (List.mem_append_left _ member)
    refine ⟨apart, ?_, inner x member⟩
    rw [header_hit value within.2]
    simpa using missed x member
  by_cases none_ : before = []
  · rw [none_] at suffix
    exact absurd (List.suffix_nil.mp suffix) some_
  · rw [if_neg none_]
    refine (headers_missed (.inl rfl) within.1 missed ?_ w some_ suffix).again ?_ off
    · rintro c ⟨⟩
      rfl
    · have := hit.2
      simp only [List.length_append, List.length_cons]
      omega

theorem uriHeaderGet_missing (plain : ∀ c ∈ n, Plain c) (short : n.length ≤ 116) (within : chr '&' ∉ n ∧ chr '=' ∉ n)
    (without : ∀ x ∈ xs, chr '&' ∉ x ∧ headerValue x ≠ [])
    (inner : ∀ x ∈ xs.takeWhile fun x => !decide (Alike n (nameOf x)), ∀ text, chr '?' :: text <:+ x → ¬ Hit n text)
    (missing : xs.find? (fun x => decide (Alike n (nameOf x))) = none) :
    ∃ e, uriHeaderGet (strung (chr '?') (chr '&') xs) n = .error (.err e) := by
  have differs : ∀ x ∈ xs, ¬ Alike n (nameOf x) := by
    intro x member
    simpa using List.find?_eq_none.mp missing x member
  have front : xs.takeWhile (fun x => !decide (Alike n (nameOf x))) = xs := by
    rw [List.takeWhile_eq_self_iff]
    intro x member
    simpa using differs x member
  rw [front] at inner
  have missed : ∀ x ∈ xs, chr '&' ∉ x ∧ ¬ Hit n x ∧ ∀ text, chr '?' :: text <:+ x → ¬ Hit n text := by
    intro x member
    obtain ⟨apart, value⟩ := without x member
    refine ⟨apart, ?_, inner x member⟩
    rw [header_hit value within.2]
    exact differs x member
  rw [uriHeaderGet, printed_cstr (by simp [headerHead, headerTail, ascii]; omega) (by decide) plain (by decide)]
  apply second_missing (header_arguments plain _)
  apply search_missing (header_parses plain) (by simp [headerHead, ascii])
  intro w some_ suffix
  have here := headers_missed (r := []) (.inl rfl) within.1 missed (by simp) w some_ suffix
  rw [List.append_nil] at here
  exact here.not_ok

end Baresip.Re.Ucmp
