import Baresip.Turn.Framing
import Mathlib.Logic.Function.Basic

set_option linter.dupNamespace false

namespace Baresip.Stun.Client

open Re Library Turn

structure StunConf where
  rto : BitVec 32
  rc : BitVec 32
  rm : BitVec 32
  deriving DecidableEq, Repr

inductive Err
  | EINVAL | ENOMEM | ENOENT | EBADMSG | EPROTO | ETIMEDOUT | ECONNABORTED
  | io (errno : Nat)
  deriving DecidableEq, Repr

/-- The datagram of a request, and whom its result is reported to. -/
structure Asked where
  dst : Sa
  mb : List Byte
  resph : Option Nat
  arg : Nat
  deriving DecidableEq, Repr

/-- A transaction over UDP: `mb` are the bytes from `pos` on, `tmr` is the time at which the timer expires, `ctp` the
    address at which the owner keeps the transaction. -/
structure Ctrans where
  asked : Asked
  tid : BitVec 96
  met : BitVec 16
  key : Option (List Byte)
  ctp : Option Nat
  txc : BitVec 32
  ival : BitVec 32
  tmr : Nat
  deriving DecidableEq, Repr

/-- What a response handler is called with. -/
structure Result where
  err : Option Err
  scode : BitVec 16
  reason : Option (List Byte)
  msg : Option StunMsg
  deriving DecidableEq, Repr

/-- What completes a transaction; a timer with the time at which it expired. -/
inductive Cause
  | response | closed
  | sendFailed (due : Nat)
  | timedOut (due : Nat)
  deriving DecidableEq, Repr

/-- A transmission has the time at which it was due. A transaction dangles that is gone when a close goes on with it. -/
inductive Event
  | requested (ct : Nat) (asked : Asked)
  | sent (ct : Nat) (dst : Sa) (mb : List Byte) (due time : Nat)
  | completed (ct : Nat) (resph : Option Nat) (arg : Nat) (cause : Cause) (result : Result) (time : Nat)
  | released (ct : Nat)
  | dangling (ct : Nat)
  deriving DecidableEq, Repr

/-- The transactions by their addresses, the list of those that run, what the owners keep, for each `stun_ctrans_close`
    that has not returned the element that its loop goes on with, the time, and what has happened so far, the last
    event first. -/
structure Stack where
  transs : Nat → Ctrans
  ctl : List Nat
  owners : Nat → Option Nat
  closing : List (Option Nat)
  count : Nat
  now : Nat
  events : List Event

/-- The arguments of `stun_ctrans_request`, and what the calls in it return. -/
structure Request where
  ctp : Option Nat
  dst : Option Sa
  mb : Option (List Byte)
  tid : BitVec 96
  met : BitVec 16
  key : Option (List Byte)
  resph : Option Nat
  arg : Nat
  zalloc : Bool
  keyAlloc : Bool
  listen : Option Nat
  sent : Option Nat
  deriving DecidableEq, Repr

def matchHandler (msg : StunMsg) (ct : Ctrans) : Bool :=
  if ct.met ≠ stunMethod msg.hdr.type then false
  else if ct.tid ≠ msg.hdr.tid then false
  else true

def errCode (errcode : Attr) : BitVec 16 × List Byte :=
  match errcode.v with
  | .errCode code reason => (code, reason)
  | _ => (0, [])

/-- `"OK"` -/
def reasonOk : List Byte := [0x4f, 0x4b]

section
variable (hmacSha1 : List Byte → List Byte → List Byte) (cfg : StunConf)

/-- The integrity is not checked of a response that asks for credentials, and not without a key. -/
def chkMi (ct : Ctrans) (msg : StunMsg) (code : BitVec 16) : Option Err :=
  if code = 401 ∨ code = 438 then none
  else
    match ct.key with
    | none => none
    | some key =>
      match msgChkMi hmacSha1 msg key with
      | .ok () => none
      | .error .EPROTO => some .EPROTO
      | .error _ => some .EBADMSG

namespace Stack

variable (s : Stack)

/-- What the owner keeps of a transaction that is completed is cleared. -/
def disowned (ct : Nat) : Nat → Option Nat :=
  match (s.transs ct).ctp with
  | none => s.owners
  | some ctp => Function.update s.owners ctp none

def completed (ct : Nat) (cause : Cause) (result : Result) : Stack :=
  { s with ctl := s.ctl.erase ct
           owners := s.disowned ct
           events := .completed ct (s.transs ct).asked.resph (s.transs ct).asked.arg cause result s.now :: s.events }

/-- The branch of `timeout_handler` that transmits the request again. -/
def retransmitted (ct : Nat) : Stack :=
  let t := s.transs ct
  let txc := t.txc + 1
  let ival := if cfg.rc ≤ txc then cfg.rto * cfg.rm else t.ival * 2
  { s with transs := Function.update s.transs ct { t with txc := txc, ival := ival, tmr := s.now + ival.toNat }
           events := .sent ct t.asked.dst t.asked.mb t.tmr s.now :: s.events }

/-- `timeout_handler`; `err` is the error of `udp_send`. -/
def timeoutHandler (ct : Nat) (err : Option Nat) : Stack :=
  let due := (s.transs ct).tmr
  if cfg.rc ≤ (s.transs ct).txc then s.completed ct (.timedOut due) ⟨some .ETIMEDOUT, 0, none, none⟩
  else
    match err with
    | some err => s.completed ct (.sendFailed due) ⟨some (.io err), 0, none, none⟩
    | none => s.retransmitted cfg ct

/-- `stun_ctrans_recv` of a response, with the error that its lack of an error code is. -/
def respond (msg : StunMsg) (ua : List (BitVec 16)) (herr : Option Err) (ec : BitVec 16 × List Byte) : Option Err × Stack :=
  match s.ctl.find? fun ct => matchHandler msg (s.transs ct) with
  | none => (some .ENOENT, s)
  | some ct =>
    match chkMi hmacSha1 (s.transs ct) msg ec.1 with
    | some err => (some err, s)
    | none =>
      let herr := if herr.isNone ∧ ua.length > 0 then some .EPROTO else herr
      (none, s.completed ct .response ⟨herr, ec.1, some ec.2, some msg⟩)

/-- The error of `stun_ctrans_recv`, and the state behind it. -/
def ctransRecv (msg : StunMsg) (ua : List (BitVec 16)) : Option Err × Stack :=
  if stunClass msg.hdr.type = STUN_CLASS_ERROR_RESP then
    match msg.attr .ERR_CODE with
    | none => s.respond hmacSha1 msg ua (some .EPROTO) (0, reasonOk)
    | some errcode => s.respond hmacSha1 msg ua none (errCode errcode)
  else if stunClass msg.hdr.type = STUN_CLASS_SUCCESS_RESP then s.respond hmacSha1 msg ua none (0, reasonOk)
  else (none, s)

/-- The end of `stun_ctrans_request` over UDP, with the request transmitted. -/
def begun (r : Request) (dst : Sa) (mb : List Byte) : Stack :=
  let ct := s.count
  let asked : Asked := ⟨dst, mb, r.resph, r.arg⟩
  { s with transs := Function.update s.transs ct
             { asked := asked, tid := r.tid, met := r.met, key := r.key, ctp := r.ctp, txc := 1, ival := cfg.rto
               tmr := s.now + cfg.rto.toNat }
           ctl := s.ctl ++ [ct]
           owners := match r.ctp with
             | none => s.owners
             | some ctp => Function.update s.owners ctp (some ct)
           count := s.count + 1
           events := .sent ct dst mb s.now s.now :: .requested ct asked :: s.events }

/-- `stun_ctrans_request` over UDP. A transaction that fails is released again. -/
def ctransRequest (r : Request) : Option Err × Stack :=
  match r.mb with
  | none => (some .EINVAL, s)
  | some mb =>
    if ¬ r.zalloc then (some .ENOMEM, s)
    else if r.key.isSome ∧ ¬ r.keyAlloc then (some .ENOMEM, s)
    else
      match r.dst with
      | none => (some .EINVAL, s)
      | some dst =>
        match r.listen, r.sent with
        | some err, _ => (some (.io err), s)
        | none, some err => (some (.io err), s)
        | none, none => (none, s.begun cfg r dst mb)

/-- The owner releases what it keeps at an address, and keeps nothing there. -/
def release (ctp : Nat) : Stack :=
  match s.owners ctp with
  | none => s
  | some ct =>
    { s with ctl := s.ctl.erase ct
             owners := Function.update s.owners ctp none
             events := .released ct :: s.events }

/-- `stun_ctrans_close` up to the loop of `list_apply`. -/
def ctransClose : Stack := { s with closing := s.ctl.head? :: s.closing }

/-- One round of that loop: the next element is saved, then `close_handler` is called. -/
def closeNext : Stack :=
  match s.closing with
  | [] => s
  | none :: closing => { s with closing := closing }
  | some ct :: closing =>
    if ct ∈ s.ctl then
      { s with closing := s.ctl[s.ctl.idxOf ct + 1]? :: closing }.completed ct .closed ⟨some .ECONNABORTED, 0, none, none⟩
    else { s with closing := closing, events := .dangling ct :: s.events }

end Stack

/-- What the network, the timers, the owners and their handlers do; the loop of a close may be interrupted by any of it. A
    timer is handled `late` milliseconds after it expired, or later when the clock has passed that. -/
inductive Action
  | clock (now : Nat)
  | request (r : Request)
  | recv (msg : StunMsg) (ua : List (BitVec 16))
  | timeout (ct late : Nat) (err : Option Nat)
  | release (ctp : Nat)
  | close
  | closeNext
  deriving DecidableEq, Repr

def step (s : Stack) : Action → Stack
  | .clock now => { s with now := max s.now now }
  | .request r => (s.ctransRequest cfg r).2
  | .recv msg ua => (s.ctransRecv hmacSha1 msg ua).2
  | .timeout ct late err =>
    if ct ∈ s.ctl then { s with now := max s.now ((s.transs ct).tmr + late) }.timeoutHandler cfg ct err else s
  | .release ctp => s.release ctp
  | .close => s.ctransClose
  | .closeNext => s.closeNext

end

def init : Stack :=
  { transs := fun _ => ⟨⟨.unspec, [], none, 0⟩, 0, 0, none, none, 0, 0, 0⟩
    ctl := []
    owners := fun _ => none
    closing := []
    count := 0
    now := 0
    events := [] }

end Baresip.Stun.Client
