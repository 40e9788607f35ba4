import Mathlib.Tactic.Common

set_option linter.dupNamespace false

namespace Baresip.Re

/-- A socket address; `unspec` stands for every family other than IPv4 and IPv6. -/
inductive Sa
  | unspec
  | inet (addr : BitVec 32) (port : BitVec 16)
  | inet6 (addr : BitVec 128) (port : BitVec 16)
  deriving DecidableEq, Repr

inductive SaFlag
  | addr | port | all
  deriving DecidableEq, Repr

def SaFlag.hasAddr : SaFlag → Bool
  | port => false
  | _ => true

def SaFlag.hasPort : SaFlag → Bool
  | addr => false
  | _ => true

namespace Sa

def init : Sa := inet 0 0

def port : Sa → BitVec 16
  | unspec => 0
  | inet _ port => port
  | inet6 _ port => port

def setPort : Sa → BitVec 16 → Sa
  | unspec, _ => unspec
  | inet addr _, port => inet addr port
  | inet6 addr _, port => inet6 addr port

def isset (sa : Sa) (flag : SaFlag) : Bool :=
  match sa with
  | unspec => false
  | inet addr port => !(flag.hasAddr && addr == 0) && !(flag.hasPort && port == 0)
  | inet6 addr port => !(flag.hasAddr && addr == 0) && !(flag.hasPort && port == 0)

/-- The comparison of two addresses that are not the same object. -/
def cmp (l r : Sa) (flag : SaFlag) : Bool :=
  match l, r with
  | inet a p, inet b q => !(flag.hasAddr && a != b) && !(flag.hasPort && p != q)
  | inet6 a p, inet6 b q => !(flag.hasAddr && a != b) && !(flag.hasPort && p != q)
  | _, _ => false

theorem cmp_self {sa : Sa} (known : sa ≠ unspec) (flag : SaFlag) : sa.cmp sa flag = true := by
  cases sa with
  | unspec => contradiction
  | inet addr port => simp [cmp]
  | inet6 addr port => simp [cmp]

end Sa

end Baresip.Re
