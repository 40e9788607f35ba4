import Baresip.Chk.Candpair
import Baresip.Re.Runs

set_option linter.dupNamespace false

namespace Baresip.Chk.Icesdp

open Re

inductive Transp
  | none | udp
  deriving DecidableEq, Repr

/-- The texts of addresses as the C library writes and reads them. -/
structure Inet where
  ntop4 : BitVec 32 → List Byte
  ntop6 : BitVec 128 → List Byte
  pton4 : List Byte → Option (BitVec 32)
  pton6 : List Byte → Option (BitVec 128)

/-- `IN6_IS_ADDR_V4MAPPED` -/
def mapped (addr : BitVec 128) : Bool := addr >>> 32 == 0xffff

namespace Inet

variable (inet : Inet)

/-- What `%j` writes. -/
def ntop : Sa → List Byte
  | .unspec => ascii "?"
  | .inet addr _ => inet.ntop4 addr
  | .inet6 addr _ => inet.ntop6 addr

def pton (addr : List Byte) : Except Errno Sa :=
  match inet.pton4 addr with
  | some a => .ok (.inet a 0)
  | none =>
    match inet.pton6 addr with
    | some a => .ok (if mapped a then .inet (a.setWidth 32) 0 else .inet6 a 0)
    | none => .error .EINVAL

/-- The buffer of `sa_set` has room for 63 bytes. -/
def saSet (addr : Pl) (port : BitVec 16) : Except Errno Sa := (inet.pton (addr.val.take 63)).map (·.setPort port)

end Inet

/-- No `type` is the value that no name has. -/
structure Cand where
  type : Option CandType
  prio : BitVec 32
  foundation : List Byte
  compid : BitVec 8
  rel : Sa
  addr : Sa
  transp : Transp
  deriving DecidableEq, Repr

def transpName : Transp → List Byte
  | .udp => ascii "UDP"
  | .none => ascii "???"

def transpResolve (transp : Pl) : Transp := if transp.strcasecmp (ascii "UDP") then .udp else .none

def type2name : Option CandType → List Byte
  | some .host => ascii "host"
  | some .srflx => ascii "srflx"
  | some .prflx => ascii "prflx"
  | some .relay => ascii "relay"
  | none => ascii "???"

def name2type (name : Pl) : Option CandType :=
  if name.strcasecmp (ascii "host") then some .host
  else if name.strcasecmp (ascii "srflx") then some .srflx
  else if name.strcasecmp (ascii "prflx") then some .prflx
  else if name.strcasecmp (ascii "relay") then some .relay
  else none

section
variable (inet : Inet)

def relEncode (rel : Sa) : List Byte :=
  (if rel.isset .addr then ascii " raddr " ++ inet.ntop rel else []) ++
    if rel.isset .port then ascii " rport " ++ decimal rel.port.toNat else []

def candEncode (cand : Cand) : List Byte :=
  cand.foundation ++ chr ' ' :: (decimal cand.compid.toNat ++ chr ' ' :: (transpName cand.transp ++
    chr ' ' :: (decimal cand.prio.toNat ++ chr ' ' :: (inet.ntop cand.addr ++ chr ' ' :: (decimal cand.addr.port.toNat ++
      (ascii " typ " ++ (type2name cand.type ++ relEncode inet cand.rel)))))))

end

def candFind (lst : List Cand) (compid : BitVec 8) (addr : Option Sa) : Option Cand :=
  lst.find? fun cand => !(compid != 0 && cand.compid != compid) && addr.all fun addr => cand.addr.cmp addr .all

/-! The patterns. -/

def blankClass : List Chr := [⟨chr ' ', chr ' '⟩]

def letterClass : List Chr := [⟨chr 'a', chr 'z'⟩]

def candExpr : List Byte := ascii "[^ ]+ [0-9]+ [^ ]+ [0-9]+ [^ ]+ [0-9]+ typ [a-z]+[^]*"

def pairExpr : List Byte := ascii " [^ ]+ [^ ]+"

def typItems : List Item :=
  [.lit (chr ' '), .lit (chr 't'), .lit (chr 'y'), .lit (chr 'p'), .lit (chr ' '),
    .cls false false letterClass 1 Regex.uint32Max, .cls true false [] 0 Regex.uint32Max]

def candItems : List Item :=
  [.cls true false blankClass 1 Regex.uint32Max, .lit (chr ' '), .cls false false digitClass 1 Regex.uint32Max,
    .lit (chr ' '), .cls true false blankClass 1 Regex.uint32Max, .lit (chr ' '),
    .cls false false digitClass 1 Regex.uint32Max, .lit (chr ' '), .cls true false blankClass 1 Regex.uint32Max,
    .lit (chr ' '), .cls false false digitClass 1 Regex.uint32Max] ++ typItems

def pairItems : List Item :=
  [.lit (chr ' '), .cls true false blankClass 1 Regex.uint32Max, .lit (chr ' '),
    .cls true false blankClass 1 Regex.uint32Max]

theorem cand_parses : Regex.Parses candExpr candItems := by
  have token : Regex.Opens (ascii "[^ ]+") true false blankClass 1 Regex.uint32Max := .ofList fun _ _ _ _ _ _ _ _ _ => rfl
  have number : Regex.Opens (ascii "[0-9]+") false false digitClass 1 Regex.uint32Max := .ofList fun _ _ _ _ _ _ _ _ _ => rfl
  have name : Regex.Opens (ascii "[a-z]+") false false letterClass 1 Regex.uint32Max := .ofList fun _ _ _ _ _ _ _ _ _ => rfl
  have extra : Regex.Opens (ascii "[^]*") true false [] 0 Regex.uint32Max := .ofList fun _ _ _ _ _ _ _ _ _ => rfl
  have typ : Regex.Parses (ascii " typ [a-z]+[^]*") typItems :=
    @Regex.Parses.lits (ascii " typ ") _ _ ((Regex.Parses.nil.cls extra).cls name) (by decide)
  exact .ofList (((((((((((typ.cls number).lit (by decide)).cls token).lit (by decide)).cls number).lit (by decide)).cls
    token).lit (by decide)).cls number).lit (by decide)).cls token)

theorem pair_parses : Regex.Parses pairExpr pairItems := by
  have token : Regex.Opens (ascii "[^ ]+") true false blankClass 1 Regex.uint32Max := .ofList fun _ _ _ _ _ _ _ _ _ => rfl
  exact .ofList ((((Regex.Parses.nil.cls token).lit (by decide)).cls token).lit (by decide))

/-- Every pair takes something from the text. -/
theorem pair_shrinks {extra : List Byte} {name value : Pl} (found : reRegex extra pairExpr = .ok [name, value]) :
    (extra.drop (value.off + value.val.length)).length < extra.length := by
  obtain ⟨before, after, rfl, more, hit, -⟩ := (reRegexFrom_ok pair_parses (by decide) 0 extra _).mp found
  obtain ⟨x, p, rfl, -, hit⟩ := matchItems_lit_ok hit
  obtain ⟨rest, captured, -, hit⟩ := matchItems_many_ok hit
  obtain ⟨y, p', -, -, hit⟩ := matchItems_lit_ok hit
  obtain ⟨rest', captured', some_, -⟩ := matchItems_many_ok hit
  rw [captured'] at captured
  have value_ := (List.cons.inj (List.cons.inj captured).2).1
  have some_ : 1 ≤ value.val.length := by
    rw [value_]
    exact some_
  simp only [List.length_drop, List.length_append, List.length_cons] at some_ ⊢
  omega

section
variable (inet : Inet)

/-- The loop over the attributes behind the type. -/
def relDecode (extra : List Byte) (rel : Sa) : Sa :=
  match _found : reRegex extra pairExpr with
  | .ok [name, value] =>
    if name.strcasecmp (ascii "raddr") then
      match inet.saSet value rel.port with
      | .ok rel => relDecode (extra.drop (value.off + value.val.length)) rel
      | .error _ => rel
    else if name.strcasecmp (ascii "rport") then
      relDecode (extra.drop (value.off + value.val.length)) (rel.setPort (value.u32.setWidth 16))
    else relDecode (extra.drop (value.off + value.val.length)) rel
  | _ => rel
termination_by extra.length
decreasing_by all_goals exact pair_shrinks _found

def candDecode (rcandl : List Cand) (val : List Byte) : Except Errno (List Cand) :=
  match reRegex val candExpr with
  | .ok [foundation, compid, transp, prio, addr, port, candType, extra] =>
    if transpResolve transp = .none then .ok rcandl
    else
      let rel := if extra.val = [] then Sa.init else relDecode inet extra.val Sa.init
      match inet.saSet addr (port.u32.setWidth 16) with
      | .error e => .error e
      | .ok caddr =>
        let cid : BitVec 8 := compid.u32.setWidth 8
        if (candFind rcandl cid (some caddr)).isSome then .ok rcandl
        else .ok (rcandl ++ [⟨name2type candType, prio.u32, foundation.val, cid, rel, caddr, .udp⟩])
  | .ok _ => .error .EINVAL
  | .error e => .error e

end

/-! Reading back what has been written. -/

/-- A token between blanks. -/
def Token (text : List Byte) : Prop := text ≠ [] ∧ chr ' ' ∉ text

instance (text : List Byte) : Decidable (Token text) := inferInstanceAs (Decidable (_ ∧ _))

def Letter (c : Byte) : Prop := 0x61 ≤ tolower c ∧ tolower c ≤ 0x7a

instance (c : Byte) : Decidable (Letter c) := inferInstanceAs (Decidable (_ ∧ _))

theorem exprMatch_letter (c : Byte) : exprMatch letterClass (tolower c) false = decide (Letter c) := by
  revert c
  decide +kernel

theorem decimal_token (n : Nat) : Token (decimal n) :=
  ⟨decimal_some n, fun blank => absurd (decimal_digits n _ blank) (by decide)⟩

theorem blankClass_iff (c : Byte) : exprMatch blankClass (tolower c) true = decide (c ≠ chr ' ') := by
  revert c
  decide +kernel

section
variable {items : List Item} {x y : List Byte} {vals : List (List Byte)} (takes : Takes items y vals)
include takes

theorem takes_token (token : Token x) (fits : x.length ≤ Regex.uint32Max) (stops : ∀ c ∈ y.head?, c = chr ' ') :
    Takes (.cls true false blankClass 1 Regex.uint32Max :: items) (x ++ y) (x :: vals) := by
  refine takes.cls fits (List.length_pos_iff.mpr token.1) (fun c member => ?_) (fun c first => ?_)
  · rw [blankClass_iff, decide_eq_true_iff]
    rintro rfl
    exact token.2 member
  · rw [blankClass_iff, decide_eq_false_iff_not, not_not]
    exact stops c first

theorem takes_decimal {n : Nat} (fits : (decimal n).length ≤ Regex.uint32Max) (stops : ∀ c ∈ y.head?, c = chr ' ') :
    Takes (.cls false false digitClass 1 Regex.uint32Max :: items) (decimal n ++ y) (decimal n :: vals) := by
  refine takes.cls fits (List.length_pos_iff.mpr (decimal_some n)) (fun c member => ?_) (fun c first => ?_)
  · rw [exprMatch_digit, decide_eq_true_iff]
    exact decimal_digits n c member
  · rw [exprMatch_digit, stops c first]
    decide

theorem takes_letters (some_ : x ≠ []) (all : ∀ c ∈ x, Letter c) (fits : x.length ≤ Regex.uint32Max)
    (stops : ∀ c ∈ y.head?, c = chr ' ') :
    Takes (.cls false false letterClass 1 Regex.uint32Max :: items) (x ++ y) (x :: vals) := by
  refine takes.cls fits (List.length_pos_iff.mpr some_) (fun c member => ?_) (fun c first => ?_)
  · rw [exprMatch_letter, decide_eq_true_iff]
    exact all c member
  · rw [exprMatch_letter, stops c first]
    decide

end

theorem takes_rest {x : List Byte} (fits : x.length ≤ Regex.uint32Max) :
    Takes [.cls true false [] 0 Regex.uint32Max] x [x] := by
  have takes : Takes [.cls true false [] 0 Regex.uint32Max] (x ++ []) [x] :=
    (Takes.nil []).cls fits (Nat.zero_le _) (fun _ _ => rfl) (by simp)
  rwa [List.append_nil] at takes

theorem cand_takes {foundation transp addr type extra : List Byte} {compid prio port : Nat}
    (foundation_ : Token foundation) (transp_ : Token transp) (addr_ : Token addr)
    (type_ : type ≠ [] ∧ ∀ c ∈ type, Letter c) (extra_ : ∀ c ∈ extra.head?, c = chr ' ')
    (fits : (foundation ++ chr ' ' :: (decimal compid ++ chr ' ' :: (transp ++ chr ' ' :: (decimal prio ++ chr ' ' ::
      (addr ++ chr ' ' :: (decimal port ++ (ascii " typ " ++ (type ++ extra)))))))).length ≤ Regex.uint32Max) :
    Takes candItems (foundation ++ chr ' ' :: (decimal compid ++ chr ' ' :: (transp ++ chr ' ' :: (decimal prio ++
        chr ' ' :: (addr ++ chr ' ' :: (decimal port ++ (ascii " typ " ++ (type ++ extra))))))))
      [foundation, decimal compid, transp, decimal prio, addr, decimal port, type, extra] := by
  have blank {y : List Byte} : ∀ c ∈ (chr ' ' :: y).head?, c = chr ' ' := by
    rintro c ⟨⟩
    rfl
  simp only [List.length_append, List.length_cons] at fits
  have typ := (takes_letters (takes_rest (x := extra) (by omega)) type_.1 type_.2 (by omega) extra_).lits (ascii " typ ")
  have port_ := takes_decimal typ (n := port) (by omega) blank
  have addr_ := takes_token (port_.lit _) addr_ (by omega) blank
  have prio_ := takes_decimal (addr_.lit _) (n := prio) (by omega) blank
  have transp_ := takes_token (prio_.lit _) transp_ (by omega) blank
  have compid_ := takes_decimal (transp_.lit _) (n := compid) (by omega) blank
  exact takes_token (compid_.lit _) foundation_ (by omega) blank

/-- The first pair of a text that begins with one. -/
theorem pair_found {name value rest : List Byte} (name_ : Token name) (value_ : Token value)
    (rest_ : ∀ c ∈ rest.head?, c = chr ' ') (fits : name.length + value.length ≤ Regex.uint32Max) :
    reRegex (chr ' ' :: (name ++ chr ' ' :: (value ++ rest))) pairExpr =
      .ok [⟨0 + 1, name⟩, ⟨0 + 1 + name.length + 1, value⟩] := by
  apply reRegex_front pair_parses (by decide) (by simp)
  rw [pairItems, matchItems_lit, blankClass,
    matchItems_until blank_fixed (by omega) (List.length_pos_iff.mpr name_.1) name_.2 (by rintro c ⟨⟩; rfl), matchItems_lit,
    matchItems_until blank_fixed (by omega) (List.length_pos_iff.mpr value_.1) value_.2 rest_]
  rfl

/-- The loop takes the first pair of the text and goes on behind it. -/
theorem relDecode_pair (inet : Inet) {name value rest : List Byte} (name_ : Token name) (value_ : Token value)
    (rest_ : ∀ c ∈ rest.head?, c = chr ' ') (fits : name.length + value.length ≤ Regex.uint32Max) (rel : Sa) :
    relDecode inet (chr ' ' :: (name ++ chr ' ' :: (value ++ rest))) rel =
      if (⟨0 + 1, name⟩ : Pl).strcasecmp (ascii "raddr") then
        match inet.saSet ⟨0 + 1 + name.length + 1, value⟩ rel.port with
        | .ok rel => relDecode inet rest rel
        | .error _ => rel
      else if (⟨0 + 1, name⟩ : Pl).strcasecmp (ascii "rport") then
        relDecode inet rest (rel.setPort ((Pl.u32 ⟨0 + 1 + name.length + 1, value⟩).setWidth 16))
      else relDecode inet rest rel := by
  have found := pair_found name_ value_ rest_ fits
  have behind : (chr ' ' :: (name ++ chr ' ' :: (value ++ rest))).drop (0 + 1 + name.length + 1 + value.length) = rest := by
    have whole : chr ' ' :: (name ++ chr ' ' :: (value ++ rest)) =
        (chr ' ' :: (name ++ chr ' ' :: value)) ++ rest := by simp
    rw [whole]
    apply List.drop_left'
    simp only [List.length_cons, List.length_append]
    omega
  rw [relDecode]
  split
  · rename_i name' value' found'
    rw [found] at found'
    obtain ⟨rfl, rfl⟩ : _ = name' ∧ _ = value' := by simpa using found'
    dsimp only
    rw [behind]
  · rename_i none_
    exact absurd found (none_ _ _)

theorem relDecode_nil (inet : Inet) (rel : Sa) : relDecode inet [] rel = rel := by
  rw [relDecode]
  rfl

/-- What has been read where this address was written. -/
def readAddr : Sa → Sa
  | .inet6 addr port => if mapped addr then .inet (addr.setWidth 32) port else .inet6 addr port
  | sa => sa

/-- What has been read where this related address was written. -/
def readRel (rel : Sa) : Sa :=
  match rel with
  | .unspec => Sa.init
  | .inet .. => rel
  | .inet6 addr port => if addr = 0 then .inet 0 port else readAddr rel

/-- `inet_pton` reads the address from the text of `inet_ntop`, which fits into the buffers. -/
structure Inet.ReadsBack (inet : Inet) (sa : Sa) : Prop where
  token : Token (inet.ntop sa)
  fits : (inet.ntop sa).length ≤ 63
  inet4 : ∀ addr port, sa = .inet addr port → inet.pton4 (inet.ntop4 addr) = some addr
  inet6 : ∀ addr port, sa = .inet6 addr port →
    inet.pton4 (inet.ntop6 addr) = none ∧ inet.pton6 (inet.ntop6 addr) = some addr

theorem saSet_ntop {inet : Inet} {sa : Sa} (reads : inet.ReadsBack sa) (known : sa ≠ .unspec) (off : Nat)
    (port : BitVec 16) : inet.saSet ⟨off, inet.ntop sa⟩ port = .ok ((readAddr sa).setPort port) := by
  have whole := List.take_of_length_le reads.fits
  unfold Inet.saSet Inet.pton
  dsimp only
  rw [whole]
  cases sa with
  | unspec => contradiction
  | inet addr p =>
    rw [show inet.ntop (.inet addr p) = inet.ntop4 addr from rfl, reads.inet4 addr p rfl]
    rfl
  | inet6 addr p =>
    obtain ⟨other, same⟩ := reads.inet6 addr p rfl
    rw [show inet.ntop (.inet6 addr p) = inet.ntop6 addr from rfl, other]
    dsimp only
    rw [same]
    unfold readAddr
    dsimp only [Except.map]
    split_ifs <;> rfl

/-- A field of at most 32 bits comes back from its number. -/
theorem u32_decimal {w : Nat} (narrow : w ≤ 32) (b : BitVec w) (off : Nat) :
    (Pl.u32 ⟨off, decimal b.toNat⟩).setWidth w = b := by
  rw [decimal_u32, BitVec.setWidth_ofNat_of_le narrow, BitVec.ofNat_toNat, BitVec.setWidth_eq]

theorem relDecode_rport (inet : Inet) (rel : Sa) {port : BitVec 16}
    (fits : (ascii " rport " ++ decimal port.toNat).length ≤ Regex.uint32Max) :
    relDecode inet (ascii " rport " ++ decimal port.toNat) rel = rel.setPort port := by
  have text : ascii " rport " ++ decimal port.toNat =
      chr ' ' :: (ascii "rport" ++ chr ' ' :: (decimal port.toNat ++ [])) := by simp [ascii, chr]
  have short := congrArg List.length text
  simp only [List.length_cons, List.length_append] at short fits
  rw [text, relDecode_pair inet (by decide) (decimal_token _) (by simp) (by omega), if_neg (by decide),
    if_pos (by decide), relDecode_nil, u32_decimal (by decide)]

theorem relDecode_raddr {inet : Inet} {rel : Sa} (reads : inet.ReadsBack rel) (known : rel ≠ .unspec) {rest : List Byte}
    (rest_ : ∀ c ∈ rest.head?, c = chr ' ') :
    relDecode inet (ascii " raddr " ++ inet.ntop rel ++ rest) Sa.init =
      relDecode inet rest ((readAddr rel).setPort 0) := by
  have text : ascii " raddr " ++ inet.ntop rel ++ rest =
      chr ' ' :: (ascii "raddr" ++ chr ' ' :: (inet.ntop rel ++ rest)) := by simp [ascii, chr]
  have short : (ascii "raddr").length = 5 := rfl
  have fits := reads.fits
  have room : 5 + 63 ≤ Regex.uint32Max := by decide
  rw [text, relDecode_pair inet (by decide) reads.token rest_ (by omega),
    if_pos (by decide), saSet_ntop reads known]
  rfl

theorem setPort_setPort (sa : Sa) (p q : BitVec 16) : (sa.setPort p).setPort q = sa.setPort q := by
  cases sa <;> rfl

theorem readAddr_setPort (sa : Sa) : (readAddr sa).setPort sa.port = readAddr sa := by
  cases sa with
  | unspec => rfl
  | inet a p => rfl
  | inet6 a p =>
    rw [readAddr]
    split_ifs <;> rfl

theorem readAddr_port {rel : Sa} (addr : rel.isset .addr = true) : (readAddr rel).setPort rel.port = readRel rel := by
  cases rel with
  | unspec => contradiction
  | inet a p => rfl
  | inet6 a p =>
    have some_ : a ≠ 0 := by
      rintro rfl
      contradiction
    rw [readRel, if_neg some_, readAddr]
    split_ifs <;> rfl

theorem port_unset {sa : Sa} (unset : ¬ sa.isset .port = true) : sa.port = 0 := by
  cases sa with
  | unspec => rfl
  | inet a p =>
    show p = 0
    simpa [Sa.isset, SaFlag.hasAddr, SaFlag.hasPort] using unset
  | inet6 a p =>
    show p = 0
    simpa [Sa.isset, SaFlag.hasAddr, SaFlag.hasPort] using unset

theorem addr_unset {rel : Sa} (unset : ¬ rel.isset .addr = true) : Sa.init.setPort rel.port = readRel rel := by
  cases rel with
  | unspec => rfl
  | inet a p =>
    obtain rfl : a = 0 := by simpa [Sa.isset, SaFlag.hasAddr, SaFlag.hasPort] using unset
    rfl
  | inet6 a p =>
    obtain rfl : a = 0 := by simpa [Sa.isset, SaFlag.hasAddr, SaFlag.hasPort] using unset
    rfl

theorem relDecode_encode {inet : Inet} {rel : Sa} (reads : inet.ReadsBack rel)
    (fits : (relEncode inet rel).length ≤ Regex.uint32Max) :
    relDecode inet (relEncode inet rel) Sa.init = readRel rel := by
  unfold relEncode at *
  by_cases addr : rel.isset .addr = true
  · have known : rel ≠ .unspec := by
      rintro rfl
      contradiction
    rw [if_pos addr] at fits ⊢
    by_cases port : rel.isset .port = true
    · rw [if_pos port] at fits ⊢
      rw [List.length_append] at fits
      rw [relDecode_raddr reads known (by rintro c ⟨⟩; rfl), relDecode_rport inet _ (by omega), setPort_setPort,
        readAddr_port addr]
    · rw [if_neg port, relDecode_raddr reads known (by simp), relDecode_nil, ← port_unset port, readAddr_port addr]
  · rw [if_neg addr, List.nil_append] at fits ⊢
    by_cases port : rel.isset .port = true
    · rw [if_pos port] at fits ⊢
      rw [relDecode_rport inet _ fits, addr_unset addr]
    · rw [if_neg port, relDecode_nil, ← addr_unset addr, port_unset port]
      rfl

theorem relEncode_head (inet : Inet) (rel : Sa) : ∀ c ∈ (relEncode inet rel).head?, c = chr ' ' := by
  unfold relEncode
  split_ifs <;> rintro c ⟨⟩ <;> rfl

/-- A candidate of this side: one of the types, a foundation without blanks, and addresses that are read back. -/
structure Local (inet : Inet) (cand : Cand) : Prop where
  type : cand.type ≠ none
  foundation : Token cand.foundation
  addr : cand.addr ≠ .unspec ∧ inet.ReadsBack cand.addr
  rel : inet.ReadsBack cand.rel
  fits : (candEncode inet cand).length ≤ Regex.uint32Max

theorem name2type_type2name {type : Option CandType} (named : type ≠ none) (off : Nat) :
    name2type ⟨off, type2name type⟩ = type := by
  cases type with
  | none => exact absurd rfl named
  | some type => cases type <;> rfl

theorem transpResolve_transpName (transp : Transp) (off : Nat) : transpResolve ⟨off, transpName transp⟩ = transp := by
  cases transp <;> rfl

theorem type2name_letters {type : Option CandType} (named : type ≠ none) :
    type2name type ≠ [] ∧ ∀ c ∈ type2name type, Letter c := by
  cases type with
  | none => exact absurd rfl named
  | some type =>
    cases type <;>
    · rw [type2name, ascii_ofList]
      decide

/-- What has been added where this candidate was written. -/
def readCand (cand : Cand) : Cand :=
  { cand with rel := readRel cand.rel, addr := readAddr cand.addr }

theorem candDecode_encode {inet : Inet} {cand : Cand} (written : Local inet cand) (rcandl : List Cand) :
    candDecode inet rcandl (candEncode inet cand) = .ok (if cand.transp = .none ∨
      (candFind rcandl cand.compid (some (readAddr cand.addr))).isSome then rcandl else rcandl ++ [readCand cand]) := by
  have transp : Token (transpName cand.transp) := by
    cases cand.transp <;> decide
  have takes := cand_takes written.foundation transp written.addr.2.token (type2name_letters written.type)
    (relEncode_head inet cand.rel) written.fits
  obtain ⟨captures, found, same⟩ := takes.reRegex cand_parses (by decide) (by simp)
  simp only [List.map_eq_cons_iff, List.map_eq_nil_iff] at same
  obtain ⟨⟨_, _⟩, -, rfl, rfl, ⟨_, _⟩, -, rfl, rfl, ⟨_, _⟩, -, rfl, rfl, ⟨_, _⟩, -, rfl, rfl, ⟨_, _⟩, -, rfl, rfl,
    ⟨_, _⟩, -, rfl, rfl, ⟨_, _⟩, -, rfl, rfl, ⟨_, _⟩, -, rfl, rfl, rfl⟩ := same
  have fits := written.fits
  unfold candEncode at fits
  simp only [List.length_append, List.length_cons] at fits
  have rel : (if relEncode inet cand.rel = [] then Sa.init else relDecode inet (relEncode inet cand.rel) Sa.init) =
      readRel cand.rel := by
    rw [← relDecode_encode written.rel (by omega)]
    split_ifs with none_
    · rw [none_, relDecode_nil]
    · rfl
  have prio (off : Nat) : Pl.u32 ⟨off, decimal cand.prio.toNat⟩ = cand.prio := by
    rw [decimal_u32, BitVec.ofNat_toNat, BitVec.setWidth_eq]
  unfold candDecode candEncode
  rw [found]
  dsimp only
  rw [transpResolve_transpName, saSet_ntop written.addr.2 written.addr.1, u32_decimal (by decide), readAddr_setPort, rel]
  dsimp only
  rw [u32_decimal (by decide), name2type_type2name written.type, prio]
  by_cases udp : cand.transp = .none
  · rw [if_pos udp, if_pos (.inl udp)]
  · have same : ({ readCand cand with transp := .udp } : Cand) = readCand cand := by
      cases transp : cand.transp with
      | none => exact absurd transp udp
      | udp => simp [readCand, transp]
    rw [if_neg udp, ← same]
    by_cases found : (candFind rcandl cand.compid (some (readAddr cand.addr))).isSome
    · rw [if_pos found, if_pos (.inr found)]
    · rw [if_neg found, if_neg (not_or.mpr ⟨udp, found⟩)]
      rfl

/-- The related address is the same one, or neither says anything. -/
def SameRel (rel rel' : Sa) : Prop :=
  rel = rel' ∨ ((rel.isset .addr || rel.isset .port) = false ∧ (rel'.isset .addr || rel'.isset .port) = false)

structure SameCand (new cand : Cand) : Prop where
  foundation : new.foundation = cand.foundation
  compid : new.compid = cand.compid
  prio : new.prio = cand.prio
  addr : new.addr = cand.addr
  type : new.type = cand.type
  rel : SameRel new.rel cand.rel

/-- There is a candidate with this component and address. -/
def Exists (rcandl : List Cand) (cand : Cand) : Prop :=
  ∃ r ∈ rcandl, r.compid = cand.compid ∧ r.addr.cmp cand.addr .all = true

def ComesBack (inet : Inet) (rcandl : List Cand) (cand : Cand) : Prop :=
  Exists rcandl cand ∨
    ∃ new, candDecode inet rcandl (candEncode inet cand) = .ok (rcandl ++ [new]) ∧ SameCand new cand

/-- An address that no reader takes for an IPv4 one. -/
def Unmapped : Sa → Prop
  | .inet6 addr _ => mapped addr = false
  | _ => True

/-- A related address that is no mapped one, and has a port only with an IPv4 address or one that is set. -/
def RelKept : Sa → Prop
  | .inet6 addr port => mapped addr = false ∧ (addr = 0 → port = 0)
  | _ => True

theorem readAddr_iff (sa : Sa) : readAddr sa = sa ↔ Unmapped sa := by
  cases sa with
  | unspec => exact iff_of_true rfl trivial
  | inet a p => exact iff_of_true rfl trivial
  | inet6 a p =>
    unfold readAddr Unmapped
    dsimp only
    split_ifs with is
    · simp [is]
    · simp [is]

theorem unset_iff (a : BitVec 128) (p : BitVec 16) :
    ((Sa.inet6 a p).isset .addr || (Sa.inet6 a p).isset .port) = false ↔ a = 0 ∧ p = 0 := by
  simp [Sa.isset, SaFlag.hasAddr, SaFlag.hasPort]

theorem readRel_iff (rel : Sa) : SameRel (readRel rel) rel ↔ RelKept rel := by
  cases rel with
  | unspec => exact iff_of_true (.inr ⟨rfl, rfl⟩) trivial
  | inet a p => exact iff_of_true (.inl rfl) trivial
  | inet6 a p =>
    unfold SameRel RelKept
    rw [unset_iff, readRel]
    by_cases zero : a = 0
    · subst zero
      rw [if_pos rfl]
      constructor
      · rintro (same | ⟨-, -, none_⟩)
        · contradiction
        · exact ⟨by decide, fun _ => none_⟩
      · rintro ⟨-, none_⟩
        rw [none_ rfl]
        exact .inr ⟨rfl, rfl, rfl⟩
    · rw [if_neg zero, readAddr_iff]
      constructor
      · rintro (same | ⟨-, none_, -⟩)
        · exact ⟨same, fun none_ => absurd none_ zero⟩
        · exact absurd none_ zero
      · rintro ⟨same, -⟩
        exact .inl same

theorem candFind_none {rcandl : List Cand} {compid : BitVec 8} {addr : Sa} :
    (candFind rcandl compid (some addr)).isSome = true ↔
      ∃ r ∈ rcandl, (compid = 0 ∨ r.compid = compid) ∧ r.addr.cmp addr .all = true := by
  unfold candFind
  rw [List.find?_isSome]
  simp [Decidable.or_iff_not_imp_left]

theorem comesBack_iff {inet : Inet} {cand : Cand} (written : Local inet cand) (rcandl : List Cand) :
    ComesBack inet rcandl cand ↔ Exists rcandl cand ∨ (cand.transp = .udp ∧ Unmapped cand.addr ∧ RelKept cand.rel ∧
      (cand.compid = 0 → ∀ r ∈ rcandl, r.addr.cmp cand.addr .all = false)) := by
  unfold ComesBack
  rw [candDecode_encode written]
  refine or_congr_right' fun fresh => ?_
  constructor
  · rintro ⟨new, decoded, same⟩
    split_ifs at decoded with kept
    · exact absurd (congrArg List.length (Except.ok.inj decoded)) (by simp)
    · obtain ⟨transp, unmet⟩ := not_or.mp kept
      obtain rfl : readCand cand = new := by simpa using decoded
      have unmapped : readAddr cand.addr = cand.addr := same.addr
      refine ⟨?_, (readAddr_iff _).mp unmapped, (readRel_iff _).mp same.rel, fun zero r inside => ?_⟩
      · cases is : cand.transp with
        | none => contradiction
        | udp => rfl
      · rw [unmapped, candFind_none] at unmet
        by_contra met
        exact unmet ⟨r, inside, .inl zero, by simpa using met⟩
  · rintro ⟨transp, unmapped, rel, zero⟩
    rw [(readAddr_iff _).mpr unmapped]
    have unmet : ¬ (cand.transp = .none ∨ (candFind rcandl cand.compid (some cand.addr)).isSome = true) := by
      rw [transp, candFind_none]
      rintro (other | ⟨r, inside, none_ | same, met⟩)
      · contradiction
      · rw [zero none_ r inside] at met
        contradiction
      · exact fresh ⟨r, inside, same, met⟩
    rw [if_neg unmet]
    exact ⟨readCand cand, rfl, rfl, rfl, rfl, (readAddr_iff _).mpr unmapped, rfl, (readRel_iff _).mpr rel⟩

/-! The component of a received value. -/

/-- The number that the digits write, which has no bound. -/
def number (digits : List Byte) : Nat := digits.foldl (fun v c => v * 10 + (c - 0x30).toNat) 0

theorem number_fold (digits : List Byte) (n : Nat) :
    digits.foldl (fun v c => v * 10 + (c - 0x30).setWidth 32) (BitVec.ofNat 32 n) =
      BitVec.ofNat 32 (digits.foldl (fun v c => v * 10 + (c - 0x30).toNat) n) := by
  induction digits generalizing n with
  | nil => rfl
  | cons c digits ih =>
    rw [List.foldl_cons, List.foldl_cons, ← ih]
    congr 1
    apply BitVec.eq_of_toNat_eq
    simp [BitVec.toNat_add, BitVec.toNat_mul, BitVec.toNat_setWidth]

theorem u32_number {pl : Pl} (digits : ∀ c ∈ pl.val, Digit c) : pl.u32 = BitVec.ofNat 32 (number pl.val) := by
  have all : (pl.val.all fun c => 0x30 ≤ c && c ≤ 0x39) = true := by
    rw [List.all_eq_true]
    intro c member
    simpa [Digit] using digits c member
  rw [Pl.u32, if_pos all]
  exact number_fold pl.val 0

def writtenCompid (val : List Byte) : Option Nat :=
  match reRegex val candExpr with
  | .ok (_ :: compid :: _) => some (number compid.val)
  | _ => none

/-- What is stored has the component that was written, or nothing is. -/
def KeepsCompid (inet : Inet) (rcandl : List Cand) (val : List Byte) : Prop :=
  ∀ rcandl', candDecode inet rcandl val = .ok rcandl' →
    rcandl' = rcandl ∨ ∃ new, rcandl' = rcandl ++ [new] ∧ writtenCompid val = some new.compid.toNat

/-- The value is a candidate with UDP whose address is readable and that finds none of its component and address. -/
def Accepts (inet : Inet) (rcandl : List Cand) (val : List Byte) : Prop :=
  ∃ foundation compid transp prio addr port candType extra caddr,
    reRegex val candExpr = .ok [foundation, compid, transp, prio, addr, port, candType, extra] ∧
      transpResolve transp ≠ .none ∧ inet.saSet addr (port.u32.setWidth 16) = .ok caddr ∧
      ¬ (candFind rcandl (compid.u32.setWidth 8) (some caddr)).isSome = true

theorem compid_digits {val : List Byte} {foundation compid : Pl} {rest : List Pl}
    (found : reRegex val candExpr = .ok (foundation :: compid :: rest)) : ∀ c ∈ compid.val, Digit c := by
  obtain ⟨before, after, -, -, hit, -⟩ := (reRegexFrom_ok cand_parses (by decide) 0 val _).mp found
  obtain ⟨rest1, captured, -, hit⟩ := matchItems_many_ok hit
  obtain ⟨x, p, -, -, hit⟩ := matchItems_lit_ok hit
  obtain ⟨rest2, captured', -, -⟩ := matchItems_many_ok hit
  rw [captured'] at captured
  have same := (List.cons.inj (List.cons.inj captured).2).1
  intro c member
  rw [same] at member
  have inside := classRun_all c member
  rwa [exprMatch_digit, decide_eq_true_iff] at inside

theorem stored_iff {val : List Byte} {foundation compid : Pl} {rest : List Pl}
    (found : reRegex val candExpr = .ok (foundation :: compid :: rest)) :
    writtenCompid val = some (compid.u32.setWidth 8).toNat ↔ ∀ n, writtenCompid val = some n → n < 256 := by
  have written : writtenCompid val = some (number compid.val) := by
    rw [writtenCompid, found]
  rw [written, u32_number (compid_digits found), BitVec.setWidth_ofNat_of_le (by decide), BitVec.toNat_ofNat]
  simp only [Option.some.injEq, forall_eq']
  omega

theorem keepsCompid_iff (inet : Inet) (rcandl : List Cand) (val : List Byte) :
    KeepsCompid inet rcandl val ↔ (Accepts inet rcandl val → ∀ n, writtenCompid val = some n → n < 256) := by
  constructor
  · rintro keeps ⟨foundation, compid, transp, prio, addr, port, candType, extra, caddr, found, udp, reads, unmet⟩
    have decoded : candDecode inet rcandl val = .ok (rcandl ++
        [⟨name2type candType, prio.u32, foundation.val, compid.u32.setWidth 8,
          if extra.val = [] then Sa.init else relDecode inet extra.val Sa.init, caddr, .udp⟩]) := by
      rw [candDecode, found]
      dsimp only
      rw [if_neg udp, reads]
      dsimp only
      rw [if_neg unmet]
    rcases keeps _ decoded with same | ⟨new, same, written⟩
    · exact absurd (congrArg List.length same) (by simp)
    · obtain rfl := List.singleton_inj.mp (List.append_cancel_left same)
      exact (stored_iff found).mp written
  · intro small rcandl' decoded
    unfold candDecode at decoded
    split at decoded
    · rename_i foundation compid transp prio addr port candType extra found
      dsimp only at decoded
      generalize (if extra.val = [] then Sa.init else relDecode inet extra.val Sa.init) = rel at decoded
      split_ifs at decoded with other
      · exact .inl (Except.ok.inj decoded).symm
      · split at decoded
        · contradiction
        · rename_i caddr reads
          split_ifs at decoded with met
          · exact .inl (Except.ok.inj decoded).symm
          · obtain rfl := Except.ok.inj decoded
            have accepts : Accepts inet rcandl val :=
              ⟨_, _, _, _, _, _, _, _, caddr, found, other, reads, met⟩
            exact .inr ⟨_, rfl, (stored_iff found).mpr (small accepts)⟩
    · contradiction
    · contradiction

/-- A candidate comes back if and only if it goes with UDP, neither of its addresses is taken for another one, and no
component 0 meets a candidate of another component; a component is kept if and only if it is below 256. -/
theorem candidate_iff {inet : Inet} {cand : Cand} (written : Local inet cand) (rcandl : List Cand) (val : List Byte) :
    (ComesBack inet rcandl cand ↔ Exists rcandl cand ∨ (cand.transp = .udp ∧ Unmapped cand.addr ∧ RelKept cand.rel ∧
      (cand.compid = 0 → ∀ r ∈ rcandl, r.addr.cmp cand.addr .all = false))) ∧
    (KeepsCompid inet rcandl val ↔ (Accepts inet rcandl val → ∀ n, writtenCompid val = some n → n < 256)) :=
  ⟨comesBack_iff written rcandl, keepsCompid_iff inet rcandl val⟩

/-- The texts of one address of either family. -/
def oneInet : Inet where
  ntop4 _ := ascii "192.0.2.1"
  ntop6 _ := ascii "2001:db8::1"
  pton4 text := if text = ascii "192.0.2.1" then some 0xc0000201 else none
  pton6 text := if text = ascii "2001:db8::1" then some 0x20010db8000000000000000000000001 else none

def srflxCand : Cand where
  type := some .srflx
  prio := 1694498815
  foundation := ascii "4e3a1b2c"
  compid := 2
  rel := .inet6 0x20010db8000000000000000000000001 5004
  addr := .inet6 0x20010db8000000000000000000000001 9
  transp := .udp

theorem srflxCand_local : Local oneInet srflxCand where
  type := by decide
  foundation := by decide
  addr := ⟨by decide, by decide, by decide, by rintro _ _ ⟨⟩, by rintro _ _ ⟨⟩; decide⟩
  rel := ⟨by decide, by decide, by rintro _ _ ⟨⟩, by rintro _ _ ⟨⟩; decide⟩
  fits := by decide +kernel

theorem candidate_iff_srflx : ComesBack oneInet [] srflxCand :=
  (candidate_iff srflxCand_local [] []).1.mpr (.inr ⟨rfl, show mapped _ = false by decide, ⟨by decide, by decide⟩, by simp⟩)

/-- Component 257 is stored as component 1. -/
theorem component_257 : ¬ KeepsCompid oneInet [] (ascii "1 257 UDP 1 192.0.2.1 9 typ host") := by
  intro keeps
  have decoded : candDecode oneInet [] (ascii "1 257 UDP 1 192.0.2.1 9 typ host") =
      .ok [⟨some .host, 1, ascii "1", 1, Sa.init, .inet 0xc0000201 9, .udp⟩] := by
    rw [ascii_ofList, ascii_ofList]
    decide +kernel
  rcases keeps _ decoded with none_ | ⟨new, same, written⟩
  · cases none_
  · obtain rfl := List.singleton_inj.mp same
    exact absurd written (by decide +kernel)

end Baresip.Chk.Icesdp
