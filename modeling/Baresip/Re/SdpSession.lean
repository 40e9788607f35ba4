import Baresip.Re.Regex
import Baresip.Re.Sdp
import Mathlib.Data.List.TakeWhile

set_option linter.dupNamespace false

namespace Baresip.Re

inductive SdpBandwidth
  | ct | as | rs | rr | tias
  deriving DecidableEq, Repr

def sdpBandwidths : List SdpBandwidth := [.ct, .as, .rs, .rr, .tias]

def sdpBandwidthName : SdpBandwidth → List Byte
  | .ct => ascii "CT"
  | .as => ascii "AS"
  | .rs => ascii "RS"
  | .rr => ascii "RR"
  | .tias => ascii "TIAS"

def noBandwidth : SdpBandwidth → BitVec 32 := fun _ => -1

/-- What a zero terminated copy of some bytes holds. -/
def cstr (val : List Byte) : List Byte := val.takeWhile (· != 0)

theorem cstr_whole {val : List Byte} (plain : 0 ∉ val) : cstr val = val := by
  rw [cstr, List.takeWhile_eq_self_iff]
  intro c member
  rw [bne_iff_ne]
  rintro rfl
  exact plain member

def ofBytes (val : List Byte) : String := String.ofList (val.map fun c => Char.ofNat c.toNat)

/-- A media line as a session holds it. -/
structure SdpMline (δ : Type) extends SdpMedia δ where
  name : List Byte
  proto : List Byte
  laddr : Sa
  laddrRtcp : Sa
  lattrl : List (String × List Byte)
  lbwv : SdpBandwidth → BitVec 32
  rbwv : SdpBandwidth → BitVec 32

structure SdpSession (δ : Type) where
  lmedial : List (SdpMline δ)
  medial : List (SdpMline δ)
  lattrl : List (String × List Byte)
  rattrl : List (String × List Byte)
  laddr : Sa
  raddr : Sa
  lbwv : SdpBandwidth → BitVec 32
  rbwv : SdpBandwidth → BitVec 32
  id : BitVec 32
  ver : BitVec 32
  rdir : SdpDir
  known : raddr ≠ .unspec

variable {δ : Type}

theorem Sa.init_known : Sa.init ≠ .unspec := nofun

theorem SdpMline.raddr_known (m : SdpMline δ) : m.raddr ≠ .unspec := m.known

theorem Sa.setPort_known {sa : Sa} (known : sa ≠ .unspec) (port : BitVec 16) : sa.setPort port ≠ .unspec := by
  cases sa with
  | unspec => contradiction
  | inet addr p => exact nofun
  | inet6 addr p => exact nofun

def mediaAlloc (name proto : List Byte) : SdpMline δ where
  lfmtl := []
  rfmtl := []
  rattrl := []
  raddr := .init
  raddrRtcp := .init
  ldir := .sendrecv
  rdir := .sendrecv
  disabled := false
  known := Sa.init_known
  name := name
  proto := proto
  laddr := .init
  laddrRtcp := .init
  lattrl := []
  lbwv := noBandwidth
  rbwv := noBandwidth

def sdpSessionRreset (sess : SdpSession δ) : SdpSession δ :=
  { sess with raddr := .init, rattrl := [], rdir := .sendrecv, rbwv := noBandwidth, known := Sa.init_known }

def sdpMediaRreset (m : SdpMline δ) : SdpMline δ :=
  { m with
    raddr := .init, raddrRtcp := .init, rfmtl := [], rattrl := [], rdir := .sendrecv, rbwv := noBandwidth
    known := Sa.init_known }

def SdpMline.named (name proto : List Byte) (m : SdpMline δ) : Bool := name == m.name && proto == m.proto

def sdpMediaFind (sess : SdpSession δ) (name proto : Pl) : Option (SdpMline δ) :=
  sess.lmedial.find? (·.named name.val proto.val)

/-- A media line of the peer's that has no local counterpart. -/
def sdpMediaRadd (name proto : Pl) : SdpMline δ := { mediaAlloc (cstr name.val) (cstr proto.val) with disabled := true }

def sdpFormatRadd (m : SdpMline δ) (id : Pl) : SdpMline δ :=
  let id := ofBytes (cstr id.val)
  { m with rfmtl := m.rfmtl ++ [⟨some id, none, none, none, none, none, false, false, atoi id, 0, 0⟩] }

/-- `f` changes the first format of that id. -/
def sdpFormatUpdate (rfmtl : List (SdpFormat δ)) (id : Pl) (f : SdpFormat δ → SdpFormat δ) : List (SdpFormat δ) :=
  updateFirst (fun fmt => fmt.id == some (ofBytes id.val)) f rfmtl

end Baresip.Re
