import Baresip.Library.Runs
import Baresip.Re.Mbuf
import Baresip.Re.Sa
import Mathlib.Data.Option.Basic

set_option linter.dupNamespace false

namespace Baresip.Turn

open Re Library

structure LoopState where
  failc : Nat
  lastScode : Nat
  deriving DecidableEq, Repr

def LoopState.reset : LoopState := ⟨0, 0⟩

def FAILC_MAX : Nat := 16

/-- `turnc_request_loops`: whether the responses go in circles, and the state with this one counted. -/
def requestLoops (ls : LoopState) (scode : Nat) : Bool × LoopState :=
  if scode = 0 then (false, ⟨0, scode⟩)
  else if scode = 300 then (decide (ls.failc + 1 ≥ FAILC_MAX), ⟨ls.failc + 1, scode⟩)
  else (decide (ls.lastScode = scode ∨ ls.failc + 1 ≥ FAILC_MAX), ⟨ls.failc + 1, scode⟩)

theorem requestLoops_success (ls : LoopState) : requestLoops ls 0 = (false, ⟨0, 0⟩) := rfl

/-- A failure that does not loop is one of at most fifteen in a row. -/
theorem requestLoops_counts {ls : LoopState} {scode : Nat} (failure : scode ≠ 0)
    (goes : (requestLoops ls scode).1 = false) :
    (requestLoops ls scode).2.failc = ls.failc + 1 ∧ ls.failc + 1 < FAILC_MAX := by
  unfold requestLoops at goes ⊢
  rw [if_neg failure] at goes ⊢
  split_ifs at goes ⊢ with redirect
  · exact ⟨rfl, Nat.lt_of_not_le (of_decide_eq_false goes)⟩
  · exact ⟨rfl, Nat.lt_of_not_le (not_or.mp (of_decide_eq_false goes)).2⟩

inductive Proto
  | udp | tcp
  deriving DecidableEq, Repr

inductive Method
  | allocate | refresh
  deriving DecidableEq, Repr

/-- What `stun_msg_attr` finds in a response. -/
structure Reply where
  xorMappedAddr : Option Sa
  xorRelayAddr : Option Sa
  lifetime : Option (BitVec 32)
  altServer : Option Sa
  realm : Option (List Byte)
  nonce : Option (List Byte)
  deriving DecidableEq, Repr

structure Turnc where
  ls : LoopState
  ct : Option Method
  username : List Byte
  password : List Byte
  psrv : Sa
  srv : Sa
  proto : Proto
  lifetime : BitVec 32
  tmr : Option Nat
  md5Hash : List Byte
  nonce : Option (List Byte)
  realm : Option (List Byte)
  allocated : Bool
  deriving DecidableEq, Repr

structure Request where
  method : Method
  dst : Sa
  key : Option (List Byte)
  lifetime : BitVec 32
  reqTransport : Option Nat
  username : Option (List Byte)
  realm : Option (List Byte)
  nonce : Option (List Byte)
  deriving DecidableEq, Repr

inductive Event
  | began
  | requested (request : Request) (time : Nat)
  | answered (err : Option Errno) (scode : Nat)
  | granted (lifetime : BitVec 32) (time : Nat)
  | handled (attempt : Method) (err : Option Errno) (scode : Nat) (relay mapped : Option Sa)
  deriving DecidableEq, Repr

/-- A TURN client, the time in milliseconds, and what has happened so far, the last event first. -/
structure Client where
  turnc : Turnc
  now : Nat
  events : List Event
  deriving DecidableEq, Repr

/-- The delay in milliseconds, computed on 32 bits. -/
def refreshDelay (lifetime : BitVec 32) : BitVec 32 := lifetime * 1000 * 3 / 4

namespace Client

variable (md5 : List Byte → List Byte) (c : Client) (attempt : Method) (err : Option Errno) (scode : Nat) (msg : Reply)
  (sent : Option Errno)

def handler (relay mapped : Option Sa) : Client :=
  { c with events := .handled attempt err scode relay mapped :: c.events }

def request (request : Request) : Client :=
  { c with turnc.ct := if sent.isNone then some request.method else none
           events := .requested request c.now :: c.events }

/-- `IPPROTO_UDP` -/
def ipprotoUdp : Nat := 17

/-- `sent` is the error of `stun_request`. -/
def allocateRequest : Client :=
  c.request sent
    { method := .allocate
      dst := c.turnc.srv
      key := if c.turnc.realm.isSome then some c.turnc.md5Hash else none
      lifetime := c.turnc.lifetime
      reqTransport := some ipprotoUdp
      username := if c.turnc.realm.isSome then some c.turnc.username else none
      realm := c.turnc.realm
      nonce := c.turnc.nonce }

def refreshRequest (lifetime : BitVec 32) (resetLs : Bool) : Client :=
  let c := if resetLs then { c with turnc.ls := LoopState.reset } else c
  c.request sent
    { method := .refresh
      dst := c.turnc.srv
      key := if c.turnc.realm.isSome then some c.turnc.md5Hash else none
      lifetime := lifetime
      reqTransport := none
      username := if c.turnc.realm.isSome then some c.turnc.username else none
      realm := c.turnc.realm
      nonce := c.turnc.nonce }

/-- `turnc_keygen`; without both attributes it fails and changes nothing. -/
def keygen : Option Client :=
  match msg.realm, msg.nonce with
  | some realm, some nonce =>
    some { c with turnc.realm := some realm
                  turnc.nonce := some nonce
                  turnc.md5Hash := md5 (c.turnc.username ++ [58#8] ++ realm ++ [58#8] ++ c.turnc.password) }
  | _, _ => none

def refreshTimer : Client :=
  { c with turnc.tmr := some (c.now + (refreshDelay c.turnc.lifetime).toNat)
           events := .granted c.turnc.lifetime c.now :: c.events }

def setLifetime : Client := { c with turnc.lifetime := msg.lifetime.getD c.turnc.lifetime }

/-- The handler is told that the request sent again has failed. -/
def orHandler : Client := if sent.isNone then c else c.handler attempt sent scode none none

def allocateRespHandler : Client :=
  if err.isSome then c.handler .allocate err scode none none
  else
    let loops := (requestLoops c.turnc.ls scode).1
    let c := { c with turnc.ls := (requestLoops c.turnc.ls scode).2 }
    if loops then c.handler .allocate none scode none none
    else if scode = 0 then
      if msg.xorRelayAddr.isNone ∨ msg.xorMappedAddr.isNone then
        c.handler .allocate (some .EPROTO) scode msg.xorRelayAddr msg.xorMappedAddr
      else
        let c := { c.setLifetime msg with turnc.allocated := true }
        c.refreshTimer.handler .allocate none scode msg.xorRelayAddr msg.xorMappedAddr
    else if scode = 300 then
      if c.turnc.proto = .tcp then c.handler .allocate none scode none none
      else
        match msg.altServer with
        | none => c.handler .allocate none scode none none
        | some alt =>
          let c := { c with turnc.psrv := c.turnc.srv, turnc.srv := alt }
          (c.allocateRequest sent).orHandler .allocate scode sent
    else if scode = 401 ∨ scode = 438 then
      match c.keygen md5 msg with
      | none => c.handler .allocate (some .EPROTO) scode none none
      | some c => (c.allocateRequest sent).orHandler .allocate scode sent
    else c.handler .allocate none scode none none

def refreshRespHandler : Client :=
  if err.isSome then c.handler .refresh err scode none none
  else
    let loops := (requestLoops c.turnc.ls scode).1
    let c := { c with turnc.ls := (requestLoops c.turnc.ls scode).2 }
    if loops then c.handler .refresh none scode none none
    else if scode = 0 then (c.setLifetime msg).refreshTimer
    else if scode = 401 ∨ scode = 438 then
      match c.keygen md5 msg with
      | none => c.handler .refresh (some .EPROTO) scode none none
      | some c => (c.refreshRequest sent c.turnc.lifetime false).orHandler .refresh scode sent
    else c.handler .refresh none scode none none

/-- The refresh timer has run out. -/
def timeout : Client :=
  let c := c.refreshRequest sent c.turnc.lifetime true
  if sent.isNone then c else c.handler .refresh sent 0 none none

end Client

inductive Action
  | response (elapsed : Nat) (err : Option Errno) (scode : Nat) (msg : Reply) (sent : Option Errno)
  | expiry (sent : Option Errno)

/-- A response to the pending request, before its handler is called. -/
def taken (c : Client) (elapsed : Nat) (err : Option Errno) (scode : Nat) : Client :=
  ⟨{ c.turnc with ct := none }, c.now + elapsed, .answered err scode :: c.events⟩

/-- The refresh timer, before its handler is called. -/
def expired (c : Client) (due : Nat) : Client := ⟨{ c.turnc with tmr := none }, due, .began :: c.events⟩

def step (md5 : List Byte → List Byte) (c : Client) : Action → Client
  | .response elapsed err scode msg sent =>
    match c.turnc.ct with
    | none => c
    | some .allocate => (taken c elapsed err scode).allocateRespHandler md5 err scode msg sent
    | some .refresh => (taken c elapsed err scode).refreshRespHandler md5 err scode msg sent
  | .expiry sent =>
    match c.turnc.tmr with
    | none => c
    | some due => (expired c due).timeout sent

/-- `turnc_alloc` whose first request could be sent. -/
def alloc (proto : Proto) (srv : Sa) (username password : List Byte) (lifetime : BitVec 32) : Client :=
  Client.allocateRequest
    ⟨{ ls := LoopState.reset, ct := none, username := username, password := password, psrv := srv, srv := srv,
        proto := proto, lifetime := lifetime, tmr := none, md5Hash := List.replicate 16 0, nonce := none,
        realm := none, allocated := false }, 0, []⟩ none

end Baresip.Turn
