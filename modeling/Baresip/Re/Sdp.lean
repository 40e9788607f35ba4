import Baresip.Re.Mbuf
import Baresip.Re.Sa

set_option linter.dupNamespace false

namespace Baresip.Re

def rtpDynptStart : Int := 96

/-- Whether `str_casecmp` returns 0; a null pointer is equal to itself only. -/
def strCaseEq (s1 s2 : Option String) : Bool :=
  match s1, s2 with
  | none, none => true
  | some a, some b => a.toList.map Char.toLower == b.toList.map Char.toLower
  | _, _ => false

def atoiDigits : List Char → Nat → Nat
  | [], v => v
  | c :: cs, v => if c.isDigit then atoiDigits cs (v * 10 + (c.toNat - '0'.toNat)) else v

def atoi (s : String) : Int :=
  match s.toList.dropWhile Char.isWhitespace with
  | '-' :: cs => - (atoiDigits cs 0 : Int)
  | '+' :: cs => atoiDigits cs 0
  | cs => atoiDigits cs 0

structure SdpFormat (δ : Type) where
  id : Option String
  params : Option String
  rparams : Option String
  name : Option String
  cmph : Option (Option String → Option String → Option δ → Bool)
  data : Option δ
  ref : Bool
  sup : Bool
  pt : Int
  srate : BitVec 32
  ch : BitVec 8

variable {δ : Type}

def sdpFormatCmp (fmt1 fmt2 : SdpFormat δ) : Bool :=
  if fmt1.pt < rtpDynptStart ∧ fmt2.pt < rtpDynptStart then
    match fmt1.id, fmt2.id with
    | some a, some b => a == b
    | _, _ => false
  else
    strCaseEq fmt1.name fmt2.name && fmt1.srate == fmt2.srate && fmt1.ch == fmt2.ch &&
      (match fmt1.cmph with
        | none => true
        | some cmph => cmph fmt1.params fmt2.params fmt1.data) &&
      match fmt2.cmph with
        | none => true
        | some cmph => cmph fmt2.params fmt1.params fmt2.data

inductive SdpDir
  | inactive | recvonly | sendonly | sendrecv
  deriving DecidableEq, Repr

def SdpDir.recv : SdpDir → Bool
  | recvonly => true
  | sendrecv => true
  | _ => false

/-- A media line. The remote address is always an IPv4 or an IPv6 address, if only of zeros. -/
structure SdpMedia (δ : Type) where
  lfmtl : List (SdpFormat δ)
  rfmtl : List (SdpFormat δ)
  rattrl : List (String × List Byte)
  raddr : Sa
  raddrRtcp : Sa
  ldir : SdpDir
  rdir : SdpDir
  disabled : Bool
  known : raddr ≠ .unspec

/-- The directions are bit sets; only sending and receiving both ways gives both bits. -/
def sdpMediaSendrecv (m : SdpMedia δ) : Bool := m.ldir == .sendrecv && m.rdir == .sendrecv

def sdpMediaRattr (m : SdpMedia δ) (name : String) : Option (List Byte) :=
  (m.rattrl.find? fun attr => attr.1 == name).map (·.2)

/-- An address of the rtcp attribute, its port at the address of the media, or the port after that of the
    media. -/
def sdpMediaRaddrRtcp (m : SdpMedia δ) : Sa :=
  if m.raddrRtcp.isset .all then m.raddrRtcp
  else if m.raddrRtcp.isset .port then m.raddr.setPort m.raddrRtcp.port
  else m.raddr.setPort (if m.raddr.port = 0 then 0 else m.raddr.port + 1)

def updateFirst {α : Type} (p : α → Bool) (f : α → α) : List α → List α
  | [] => []
  | a :: l => if p a then f a :: l else a :: updateFirst p f l

def alignFormat (offer : Bool) (lfmtl : List (SdpFormat δ)) (rfmt : SdpFormat δ) :
    List (SdpFormat δ) × SdpFormat δ :=
  match lfmtl.find? (sdpFormatCmp · rfmt) with
  | none => (lfmtl, { rfmt with sup := false })
  | some lfmt =>
    let aligned := { rfmt with sup := true, data := lfmt.data, ref := lfmt.ref }
    let matched := { lfmt with rparams := rfmt.params, sup := true }
    if offer then
      (lfmtl.eraseP (sdpFormatCmp · rfmt) ++
        [{ matched with id := rfmt.id, pt := atoi (rfmt.id.getD "") }], aligned)
    else (updateFirst (sdpFormatCmp · rfmt) (fun _ => matched) lfmtl, aligned)

def alignRemote (offer : Bool) : List (SdpFormat δ) → List (SdpFormat δ) →
    List (SdpFormat δ) × List (SdpFormat δ)
  | lfmtl, [] => (lfmtl, [])
  | lfmtl, rfmt :: rfmtl =>
    let (lfmtl, aligned) := alignFormat offer lfmtl rfmt
    let (lfmtl, rest) := alignRemote offer lfmtl rfmtl
    (lfmtl, aligned :: rest)

/-- An offer also moves the local formats that nobody asked for behind the others; the loop goes
    through them from the tail. -/
def sdpMediaAlignFormats (m : SdpMedia δ) (offer : Bool) : SdpMedia δ :=
  if m.disabled || m.raddr.port == 0 then m
  else
    let fresh := m.lfmtl.map fun lfmt => { lfmt with rparams := none, sup := false }
    let (lfmtl, rfmtl) := alignRemote offer fresh m.rfmtl
    let lfmtl := if offer then lfmtl.filter (·.sup) ++ (lfmtl.filter (!·.sup)).reverse else lfmtl
    { m with lfmtl := lfmtl, rfmtl := rfmtl }

def sdpMediaRformat (m : SdpMedia δ) (name : Option String) : Option (SdpFormat δ) :=
  if m.raddr.port == 0 then none
  else m.rfmtl.find? fun fmt => fmt.sup && (name.isNone || strCaseEq name fmt.name)

def SdpFormat.described (fmt : SdpFormat δ) :
    Option String × Option String × Option String × Int × BitVec 32 × BitVec 8 :=
  (fmt.id, fmt.params, fmt.name, fmt.pt, fmt.srate, fmt.ch)

theorem alignRemote_described (offer : Bool) (lfmtl rfmtl : List (SdpFormat δ)) :
    (alignRemote offer lfmtl rfmtl).2.map SdpFormat.described = rfmtl.map SdpFormat.described := by
  induction rfmtl generalizing lfmtl with
  | nil => rfl
  | cons rfmt rfmtl ih =>
    have same : (alignFormat offer lfmtl rfmt).2.described = rfmt.described := by
      unfold alignFormat
      cases lfmtl.find? (sdpFormatCmp · rfmt) with
      | none => rfl
      | some lfmt =>
        simp only
        split <;> rfl
    simp only [alignRemote, List.map_cons, same, ih]

theorem alignFormats_described (m : SdpMedia δ) (offer : Bool) :
    (sdpMediaAlignFormats m offer).rfmtl.map SdpFormat.described = m.rfmtl.map SdpFormat.described := by
  unfold sdpMediaAlignFormats
  split
  · rfl
  · exact alignRemote_described offer _ _

end Baresip.Re
