import Baresip.Re.SdpSession
import Baresip.Re.Uri

set_option linter.dupNamespace false

namespace Baresip.Sip.Dialog

open Re

/-- An allocation, named by a number that no other allocation gets. -/
structure Buffer where
  id : Nat
  bytes : List Byte
  deriving DecidableEq, Repr

structure Slice where
  buf : Nat
  off : Nat
  len : Nat
  deriving DecidableEq, Repr

def Buffer.slice (b : Buffer) (pl : Pl) : Slice := ⟨b.id, pl.off, pl.val.length⟩

/-- A SIP dialog. `pos` is the position in `mb`, whose Contact is to go in at `cpos`. -/
structure SipDialog where
  route : Uri Slice
  mb : Buffer
  pos : Nat
  callid : List Byte
  ltag : List Byte
  rtag : Option (List Byte)
  uri : Buffer
  lseq : BitVec 32
  rseq : BitVec 32
  cpos : Nat
  deriving DecidableEq, Repr

structure SipMsg where
  req : Bool
  contacts : List (List Byte)
  recordRoutes : List (List Byte)
  callid : Option (List Byte)
  from_ : List Byte
  fromTag : Option (List Byte)
  to_ : List Byte
  toTag : Option (List Byte)
  cseq : BitVec 32
  tag : BitVec 64
  deriving DecidableEq, Repr

/-- Which allocations of an operation succeed; `print` are those of the printing into `mb`. -/
structure Mem where
  dlg : Bool
  uri : Bool
  callid : Bool
  ltag : Bool
  rtag : Bool
  mb : Bool
  print : Bool
  deriving DecidableEq, Repr

def require (holds : Bool) (err : Errno) : Except Errno Unit := if holds then .ok () else .error err

def plStrdup (mem : Bool) : Option (List Byte) → Except Errno (List Byte)
  | none => .error .EINVAL
  | some val => if mem then .ok val else .error .ENOMEM

def x64 (val : BitVec 64) : List Byte :=
  (List.range 16).map fun i => (ascii "0123456789abcdef").getD ((val >>> (60 - 4 * i)).toNat % 16) 0

def routeOffset : Nat := 7

def crlf : List Byte := ascii "\r\n"

/-- The route of a dialog, from its first Route header or else from its URI. -/
def routeFrom (mb uri : Buffer) (rend : Nat) : Except Errno (Uri Slice) :=
  if rend ≠ 0 then
    (sipAddrDecode ⟨routeOffset, (mb.bytes.drop routeOffset).take (rend - routeOffset)⟩).map fun addr =>
      addr.uri.map mb.slice
  else (uriDecode ⟨0, cstr uri.bytes⟩).map fun uri' => uri'.map uri.slice

structure AllocArgs where
  uri : List Byte
  toUri : List Byte
  fromName : Option (List Byte)
  fromUri : List Byte
  routev : List (List Byte)
  callid : BitVec 64
  ltag : BitVec 64
  lseq : BitVec 16
  deriving DecidableEq, Repr

namespace AllocArgs

def route (uri : List Byte) : List Byte := ascii "Route: <" ++ uri ++ ascii ";lr>" ++ crlf

def routes (args : AllocArgs) : List Byte := args.routev.flatMap route

def rend (args : AllocArgs) : Nat :=
  match args.routev with
  | [] => 0
  | uri :: _ => (route uri).length - 2

def toHdr (args : AllocArgs) : List Byte := ascii "To: <" ++ args.toUri ++ ascii ">" ++ crlf

def fromHdr (args : AllocArgs) : List Byte :=
  let name := match args.fromName with
    | none => []
    | some name => ascii "\"" ++ name ++ ascii "\" "
  ascii "From: " ++ name ++ ascii "<" ++ args.fromUri ++ ascii ">;tag=" ++ x64 args.ltag ++ crlf

end AllocArgs

def sipDialogAlloc (mem : Mem) (args : AllocArgs) : Except Errno SipDialog := do
  require mem.dlg .ENOMEM
  let uri ← plStrdup mem.uri (some args.uri)
  require mem.callid .ENOMEM
  require mem.ltag .ENOMEM
  require mem.mb .ENOMEM
  require mem.print .ENOMEM
  let uri : Buffer := ⟨0, uri⟩
  let mb : Buffer := ⟨1, args.routes ++ args.toHdr ++ args.fromHdr⟩
  let route ← routeFrom mb uri args.rend
  return {
    route := route, mb := mb, pos := 0, callid := x64 args.callid, ltag := x64 args.ltag, rtag := none, uri := uri
    lseq := args.lseq.setWidth 32, rseq := 0, cpos := args.routes.length + args.toHdr.length }

namespace SipMsg

/-- The Record-Route headers in the order in which they are applied. -/
def routev (msg : SipMsg) (fwd : Bool) : List (List Byte) :=
  if fwd then msg.recordRoutes else msg.recordRoutes.reverse

def routes (msg : SipMsg) (fwd : Bool) : List Byte :=
  (msg.routev fwd).flatMap fun val => ascii "Route: " ++ val ++ crlf

def rend (msg : SipMsg) (fwd : Bool) : Nat :=
  match msg.routev fwd with
  | [] => 0
  | val :: _ => routeOffset + val.length

def contactAddr (msg : SipMsg) : Except Errno SipAddr :=
  match msg.contacts with
  | [] => .error .EBADMSG
  | contact :: _ =>
    match sipAddrDecode ⟨0, contact⟩ with
    | .ok addr => .ok addr
    | .error _ => .error .EBADMSG

end SipMsg

def sipDialogAccept (mem : Mem) (lseq : BitVec 16) (msg : SipMsg) : Except Errno SipDialog := do
  require msg.req .EINVAL
  require msg.callid.isSome .EBADMSG
  let addr ← msg.contactAddr
  require mem.dlg .ENOMEM
  let uri ← plStrdup mem.uri (some addr.auri.val)
  let callid ← plStrdup mem.callid msg.callid
  require mem.ltag .ENOMEM
  let rtag ← plStrdup mem.rtag msg.fromTag
  require mem.mb .ENOMEM
  require mem.print .ENOMEM
  let uri : Buffer := ⟨0, uri⟩
  let mb : Buffer := ⟨1, msg.routes true ++ ascii "To: " ++ msg.from_ ++ crlf ++
    ascii "From: " ++ msg.to_ ++ ascii ";tag=" ++ x64 msg.tag ++ crlf⟩
  let route ← routeFrom mb uri (msg.rend true)
  return {
    route := route, mb := mb, pos := 0, callid := callid, ltag := x64 msg.tag, rtag := some rtag, uri := uri
    lseq := lseq.setWidth 32, rseq := msg.cseq, cpos := 0 }

/-- The URI and the tag that `sip_dialog_create` takes from a message. -/
def createFrom (mem : Mem) (dlg : SipDialog) (msg : SipMsg) : Except Errno (List Byte × List Byte) := do
  require (dlg.rtag.isNone && dlg.cpos != 0) .EINVAL
  let addr ← msg.contactAddr
  require mem.mb .ENOMEM
  let uri ← plStrdup mem.uri (some addr.auri.val)
  let rtag ← plStrdup mem.rtag (if msg.req then msg.fromTag else msg.toTag)
  return (uri, rtag)

def sipDialogCreate (mem : Mem) (next : Nat) (dlg : SipDialog) (msg : SipMsg) : Except Errno Unit × SipDialog :=
  match createFrom mem dlg msg with
  | .error e => (.error e, dlg)
  | .ok (uri, rtag) =>
    let uri : Buffer := ⟨next, uri⟩
    let mb : Buffer := ⟨next + 1, msg.routes msg.req ++
      ascii "To: " ++ (if msg.req then msg.from_ else msg.to_) ++ crlf ++ dlg.mb.bytes.drop dlg.cpos⟩
    let dlg := { dlg with pos := 0 }
    if mem.print = false then (.error .ENOMEM, dlg)
    else
      match routeFrom mb uri (msg.rend msg.req) with
      | .error e => (.error e, dlg)
      | .ok route =>
        (.ok (), { dlg with
          route := route, mb := mb, rtag := some rtag, uri := uri
          rseq := if msg.req then msg.cseq else 0, cpos := 0 })

/-- The URI that `sip_dialog_update` takes from a message. -/
def updateFrom (mem : Mem) (msg : SipMsg) : Except Errno (List Byte) := do
  let addr ← msg.contactAddr
  plStrdup mem.uri (some addr.auri.val)

def sipDialogUpdate (mem : Mem) (next : Nat) (dlg : SipDialog) (msg : SipMsg) : Except Errno Unit × SipDialog :=
  match updateFrom mem msg with
  | .error e => (.error e, dlg)
  | .ok uri =>
    let uri : Buffer := ⟨next, uri⟩
    -- the pointers `route.scheme.p` and `uri` are the same
    if dlg.route.scheme.buf = dlg.uri.id ∧ dlg.route.scheme.off = 0 then
      match uriDecode ⟨0, cstr uri.bytes⟩ with
      | .error e => (.error e, dlg)
      | .ok tmp => (.ok (), { dlg with route := tmp.map uri.slice, uri := uri })
    else (.ok (), { dlg with uri := uri })

def sipDialogRoute (dlg : SipDialog) : Uri Slice := dlg.route

/-- What opens a dialog. -/
inductive Start
  | alloc (mem : Mem) (args : AllocArgs)
  | accept (mem : Mem) (lseq : BitVec 16) (msg : SipMsg)
  deriving DecidableEq, Repr

def Start.run : Start → Except Errno SipDialog
  | .alloc mem args => sipDialogAlloc mem args
  | .accept mem lseq msg => sipDialogAccept mem lseq msg

inductive Op
  | create (mem : Mem) (msg : SipMsg)
  | update (mem : Mem) (msg : SipMsg)
  deriving DecidableEq, Repr

/-- A dialog and the next number of an allocation. -/
structure State where
  dlg : SipDialog
  next : Nat
  deriving DecidableEq, Repr

def State.apply (s : State) : Op → Except Errno Unit × SipDialog
  | .create mem msg => sipDialogCreate mem s.next s.dlg msg
  | .update mem msg => sipDialogUpdate mem s.next s.dlg msg

def State.step (s : State) (op : Op) : State := ⟨(s.apply op).2, s.next + 2⟩

def State.first (dlg : SipDialog) : State := ⟨dlg, 2⟩

end Baresip.Sip.Dialog
