import Baresip.Call.Transfer
import Baresip.Re.Sa

set_option linter.dupNamespace false

namespace Baresip.Mnat

open Re
open Call (CallState)

inductive MnatModule
  | stun | turn
  deriving DecidableEq, Repr

/-- The RTP component of a media line, whose names in the modules end in 1, and the RTCP component,
    whose names end in 2. -/
inductive Comp
  | rtp | rtcp
  deriving DecidableEq, Repr

def Comp.other : Comp → Comp
  | rtp => rtcp
  | rtcp => rtp

inductive Client
  | keepalive (curmap : Sa)
  | turnc
  deriving DecidableEq, Repr

structure Component where
  sock : Bool
  addr : Sa
  client : Option Client
  laddr : Option Sa
  deriving DecidableEq, Repr

structure Media where
  rtp : Component
  rtcp : Component
  deriving DecidableEq, Repr

def Media.comp (m : Media) : Comp → Component
  | .rtp => m.rtp
  | .rtcp => m.rtcp

def Media.set (m : Media) (c : Comp) (component : Component) : Media :=
  match c with
  | .rtp => { m with rtp := component }
  | .rtcp => { m with rtcp := component }

structure Sess where
  mod : MnatModule
  srv : Sa
  dnsq : Bool
  medial : List Media
  mediac : Int
  deriving DecidableEq, Repr

inductive CallOut
  | closed | modify | sendInvite | incoming
  deriving DecidableEq, Repr

/-- A call with its media NAT session. `estabs` logs the calls of the establish handler; a call that is
    closed takes its session with it. -/
structure Call where
  mnats : Sess
  mnatWait : Bool
  state : CallState
  closed : Bool
  estabs : List (Nat × Nat)
  out : List CallOut
  deriving DecidableEq, Repr

def Call.close (call : Call) : Call := { call with closed := true, out := call.out ++ [.closed] }

/-- The first success lets the call go on; each later one is followed by a re-INVITE. -/
def Call.established (call : Call) : Call :=
  if !call.mnatWait then { call with out := call.out ++ [.modify] }
  else
    { call with
      mnatWait := false
      out := match call.state with
        | .outgoing => call.out ++ [.sendInvite]
        | .incoming => call.out ++ [.incoming]
        | _ => call.out }

def mnatHandler (call : Call) (err scode : Nat) : Call :=
  let call := { call with estabs := call.estabs ++ [(err, scode)] }
  if err ≠ 0 ∨ scode ≠ 0 then call.close else call.established

def Call.setMedia (call : Call) (i : Nat) (m : Media) : Call :=
  { call with mnats := { call.mnats with medial := call.mnats.medial.set i m } }

def Call.countDown (call : Call) : Call :=
  { call with mnats := { call.mnats with mediac := call.mnats.mediac - 1 } }

def obtained (call : Call) (i : Nat) (m : Media) (c : Comp) (addr : Sa) : Call :=
  let m := m.set c { m.comp c with laddr := some addr, addr := addr }
  let call := call.setMedia i m
  if (m.comp c.other).client.isSome && !(m.comp c.other).addr.isset .all then call
  else
    let call := call.countDown
    if call.mnats.mediac ≠ 0 then call
    else mnatHandler call 0 0

def mappedHandler (c : Comp) (call : Call) (i : Nat) (m : Media) (err : Nat) (mapAddr : Sa) : Call :=
  if err = 0 then obtained call i m c mapAddr else mnatHandler call err 0

def mappedHandler1 := mappedHandler .rtp
def mappedHandler2 := mappedHandler .rtcp

def turnHandler (c : Comp) (call : Call) (i : Nat) (m : Media) (err scode : Nat) (relayAddr : Sa) : Call :=
  if err = 0 ∧ scode = 0 then obtained call i m c relayAddr else mnatHandler call err scode

def turnHandler1 := turnHandler .rtp
def turnHandler2 := turnHandler .rtcp

def keepaliveMah : Comp → Call → Nat → Media → Nat → Sa → Call
  | .rtp => mappedHandler1
  | .rtcp => mappedHandler2

def turncTh : Comp → Call → Nat → Media → Nat → Nat → Sa → Call
  | .rtp => turnHandler1
  | .rtcp => turnHandler2

/-- A binding response, or the failure of its transaction. `attr` is the XOR-MAPPED-ADDRESS attribute, or
    else MAPPED-ADDRESS. -/
structure StunResponse where
  err : Nat
  scode : Nat
  attr : Option Sa
  deriving DecidableEq, Repr

def enoent : Nat := 2

def Media.setCurmap (m : Media) (c : Comp) (curmap : Sa) : Media :=
  m.set c { m.comp c with client := some (.keepalive curmap) }

def stunResponseHandler (call : Call) (i : Nat) (m : Media) (c : Comp) (curmap : Sa) (r : StunResponse) :
    Call :=
  if r.err ≠ 0 ∨ r.scode ≠ 0 then
    let m := m.setCurmap c .init
    let call := call.setMedia i m
    if r.err ≠ 0 then keepaliveMah c call i m r.err .unspec else call
  else
    match r.attr with
    | none => keepaliveMah c call i m enoent .unspec
    | some addr =>
      if curmap.cmp addr .all then call
      else
        let m := m.setCurmap c addr
        keepaliveMah c (call.setMedia i m) i m 0 addr

def stunTimeout (call : Call) (i : Nat) (m : Media) (c : Comp) (err : Nat) : Call :=
  if err = 0 then call else keepaliveMah c call i m err .unspec

def Client.start : MnatModule → Client
  | .stun => .keepalive .unspec
  | .turn => .turnc

def Component.start (mod : MnatModule) (component : Component) (err : Nat) : Component :=
  if component.sock ∧ err = 0 then { component with client := some (.start mod) } else component

abbrev AllocErrs := Nat × Nat

def mediaStart (mod : MnatModule) (m : Media) (errs : AllocErrs) : Nat × Media :=
  let err1 := if m.rtp.sock then errs.1 else 0
  let err2 := if m.rtcp.sock then errs.2 else 0
  (err1 ||| err2, ⟨m.rtp.start mod err1, m.rtcp.start mod err2⟩)

def mediaStartAll (mod : MnatModule) : List Media → List AllocErrs → Nat × List Media
  | [], _ => (0, [])
  | m :: medial, errs =>
    let (err, m) := mediaStart mod m (errs.headD (0, 0))
    if err ≠ 0 then (err, m :: medial)
    else
      let (err, medial) := mediaStartAll mod medial errs.tail
      (err, m :: medial)

def dnsHandler (call : Call) (err : Nat) (srv : Sa) (errs : List AllocErrs) : Call :=
  if err ≠ 0 then mnatHandler call err 0
  else
    let (err, medial) := mediaStartAll call.mnats.mod call.mnats.medial errs
    let call := { call with mnats := { call.mnats with srv := srv, medial := medial } }
    if err ≠ 0 then mnatHandler call err 0 else call

def sessionAlloc (mod : MnatModule) (numeric : Option Sa) : Sess :=
  match numeric with
  | none => ⟨mod, .unspec, true, [], 0⟩
  | some srv => ⟨mod, srv, false, [], 0⟩

def mediaAlloc (sess : Sess) (sock1 sock2 : Bool) (errs : AllocErrs) : Nat × Sess :=
  let m : Media := ⟨⟨sock1, .unspec, none, none⟩, ⟨sock2, .unspec, none, none⟩⟩
  let (err, m) := if sess.srv.isset .all then mediaStart sess.mod m errs else (0, m)
  if err ≠ 0 then (err, sess)
  else (0, { sess with medial := sess.medial ++ [m], mediac := sess.mediac + 1 })

/-- A line of the call: whether it has a socket for RTCP of its own, and what starting it would give. -/
structure Line where
  rtcpSock : Bool
  errs : AllocErrs
  deriving DecidableEq, Repr

def streamAlloc (sess : Sess) : List Line → Nat × Sess
  | [] => (0, sess)
  | line :: lines =>
    let (err, sess) := mediaAlloc sess true line.rtcpSock line.errs
    if err ≠ 0 then (err, sess) else streamAlloc sess lines

/-- A call with its streams, in the state it has when its session first reports. A call that could not be
    allocated is gone. -/
def callAlloc (mod : MnatModule) (numeric : Option Sa) (state : CallState) (lines : List Line) : Call :=
  let (err, sess) := streamAlloc (sessionAlloc mod numeric) lines
  ⟨sess, true, state, err ≠ 0, [], []⟩

inductive Action
  | dns (err : Nat) (srv : Sa) (errs : List AllocErrs)
  | stun (i : Nat) (c : Comp) (response : StunResponse)
  | timeout (i : Nat) (c : Comp) (err : Nat)
  | turn (i : Nat) (c : Comp) (err scode : Nat) (relayAddr : Sa)
  deriving DecidableEq, Repr

def report (call : Call) : Action → Call
  | .dns err srv errs =>
    if call.mnats.dnsq then
      dnsHandler { call with mnats := { call.mnats with dnsq := false } } err srv errs
    else call
  | .stun i c response =>
    match call.mnats.medial[i]? with
    | none => call
    | some m =>
      match (m.comp c).client with
      | some (.keepalive curmap) => stunResponseHandler call i m c curmap response
      | _ => call
  | .timeout i c err =>
    match call.mnats.medial[i]? with
    | none => call
    | some m =>
      match (m.comp c).client with
      | some (.keepalive _) => stunTimeout call i m c err
      | _ => call
  | .turn i c err scode relayAddr =>
    match call.mnats.medial[i]? with
    | none => call
    | some m =>
      match (m.comp c).client with
      | some .turnc => turncTh c call i m err scode relayAddr
      | _ => call

def step (call : Call) (a : Action) : Call := if call.closed then call else report call a

end Baresip.Mnat
