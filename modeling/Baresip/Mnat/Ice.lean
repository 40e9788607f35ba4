import Baresip.Library.Countdown
import Baresip.Re.Sa

set_option linter.dupNamespace false

namespace Baresip.Ice

open Re

inductive IceMode
  | full | lite
  deriving DecidableEq, Repr

/-- The gathering of a media line: the requests that are out, and whether its handler is still to be called. -/
structure Icem where
  nstun : Nat
  gh : Bool
  deriving DecidableEq, Repr

/-- `gathered` is not in the source: it records that gathering has been reported without error. -/
structure MnatMedia where
  addr1 : Sa
  addr2 : Sa
  sock1 : Bool
  sock2 : Bool
  complete : Bool
  icem : Icem
  gathered : Bool
  deriving DecidableEq, Repr

structure MnatSess where
  mode : IceMode
  srv : Sa
  dnsq : Bool
  medial : List MnatMedia
  mediac : Int
  sendReinvite : Bool
  started : Bool
  deriving DecidableEq, Repr

/-- A call with its ICE session. `estabs` logs the calls of the establish handler, and `least` is the least
    value that the counter of pending media lines has had. -/
structure Call where
  mnats : MnatSess
  least : Int
  estabs : List (Nat × Nat)
  closed : Bool
  deriving DecidableEq, Repr

/-- The addresses of the two components, for those that have one. -/
abbrev Addrs := Option Sa × Option Sa

def estabh (call : Call) (err scode : Nat) : Call :=
  { call with
    estabs := call.estabs ++ [(err, scode)]
    closed := call.closed || decide (err ≠ 0 ∨ scode ≠ 0) }

def Call.setMedia (call : Call) (i : Nat) (m : MnatMedia) : Call :=
  { call with mnats := { call.mnats with medial := call.mnats.medial.set i m } }

def Call.setMediac (call : Call) (mediac : Int) : Call :=
  { call with mnats := { call.mnats with mediac := mediac }, least := min call.least mediac }

def refreshLaddr (m : MnatMedia) (addrs : Addrs) : Bool × MnatMedia :=
  let (changed, m) :=
    match addrs.1 with
    | some addr1 => if m.sock1 then (!m.addr1.cmp addr1 .all, { m with addr1 := addr1 }) else (false, m)
    | none => (false, m)
  match addrs.2 with
  | some addr2 => if m.sock2 then (changed || !m.addr2.cmp addr2 .all, { m with addr2 := addr2 }) else (changed, m)
  | none => (changed, m)

/-- `addrs` are the default candidates. -/
def gatherHandler (call : Call) (i : Nat) (m : MnatMedia) (err scode : Nat) (addrs : Addrs) : Call :=
  if err ≠ 0 ∨ scode ≠ 0 then estabh (call.setMedia i m) err scode
  else
    let m := { (refreshLaddr m addrs).2 with gathered := true }
    let call := (call.setMedia i m).setMediac (call.mnats.mediac - 1)
    if call.mnats.mediac ≠ 0 then call else estabh call 0 0

def callGatherHandler (call : Call) (i : Nat) (m : MnatMedia) (err scode : Nat) (addrs : Addrs) : Call :=
  if m.icem.nstun ≠ 0 ∨ m.icem.gh = false then call.setMedia i m
  else gatherHandler call i { m with icem := { m.icem with gh := false } } err scode addrs

/-- How a media line starts: what sending the requests of its two components gives, and its default
    candidates at that time. -/
structure Start where
  errs : Nat × Nat
  addrs : Addrs
  deriving DecidableEq, Repr

def startGathering (m : MnatMedia) (errs : Nat × Nat) : Nat × MnatMedia :=
  let err1 := if m.sock1 then errs.1 else 0
  let err2 := if m.sock2 then errs.2 else 0
  let sent := (if m.sock1 ∧ err1 = 0 then 1 else 0) + if m.sock2 ∧ err2 = 0 then 1 else 0
  (err1 ||| err2, { m with icem := { m.icem with nstun := m.icem.nstun + sent } })

def mediaStart (call : Call) (i : Nat) (m : MnatMedia) (start : Start) : Nat × Call :=
  match call.mnats.mode with
  | .full =>
    let (err, m) := startGathering m start.errs
    (err, call.setMedia i m)
  | .lite => (0, gatherHandler call i m 0 0 start.addrs)

def mediaStartAll (call : Call) (starts : Nat → Start) : List Nat → Nat × Call
  | [] => (0, call)
  | i :: rest =>
    match call.mnats.medial[i]? with
    | none => (0, call)
    | some m =>
      let (err, call) := mediaStart call i m (starts i)
      if err ≠ 0 then (err, call) else mediaStartAll call starts rest

def dnsHandler (call : Call) (err : Nat) (srv : Sa) (starts : Nat → Start) : Call :=
  if err ≠ 0 then estabh call err 0
  else
    let call := { call with mnats := { call.mnats with srv := srv } }
    let (err, call) := mediaStartAll call starts (List.range call.mnats.medial.length)
    if err ≠ 0 then estabh call err 0 else call

/-- A server that is given by a number is resolved here, while the session has no media lines. -/
def sessionAlloc (mode : IceMode) (numeric : Option Sa) : Call :=
  let call : Call := ⟨⟨mode, .unspec, numeric.isNone, [], 0, false, false⟩, 0, [], false⟩
  match numeric with
  | none => call
  | some srv => dnsHandler call 0 srv fun _ => ⟨(0, 0), none, none⟩

structure Line where
  rtcpSock : Bool
  start : Start
  deriving DecidableEq, Repr

def MnatMedia.alloc (rtcpSock : Bool) : MnatMedia :=
  ⟨.unspec, .unspec, true, rtcpSock, false, ⟨0, true⟩, false⟩

def Call.append (call : Call) (m : MnatMedia) : Call :=
  { call with mnats := { call.mnats with medial := call.mnats.medial ++ [m] } }

def mediaAlloc (call : Call) (line : Line) : Nat × Call :=
  let m := MnatMedia.alloc line.rtcpSock
  let i := call.mnats.medial.length
  let call := call.append m
  let (err, call) := if call.mnats.srv.isset .all then mediaStart call i m line.start else (0, call)
  if err ≠ 0 then
    (err, { call with mnats := { call.mnats with medial := call.mnats.medial.dropLast } })
  else (0, call.setMediac (call.mnats.mediac + 1))

def streamAlloc (call : Call) : List Line → Nat × Call
  | [] => (0, call)
  | line :: lines =>
    let (err, call) := mediaAlloc call line
    if err ≠ 0 then (err, call) else streamAlloc call lines

/-- A call whose streams could not be allocated is gone. -/
def callAlloc (mode : IceMode) (numeric : Option Sa) (lines : List Line) : Call :=
  let (err, call) := streamAlloc (sessionAlloc mode numeric) lines
  { call with closed := call.closed || decide (err ≠ 0) }

/-- A response to a request of a media line leads to a further request of the same component, or is the end
    of the one that it answers. -/
inductive Response
  | again
  | finished (err scode : Nat) (addrs : Addrs)
  deriving DecidableEq, Repr

inductive Action
  | dns (err : Nat) (srv : Sa) (starts : Nat → Start)
  | response (i : Nat) (r : Response)

def respond (call : Call) (i : Nat) (m : MnatMedia) : Response → Call
  | .again => call
  | .finished err scode addrs =>
    callGatherHandler call i { m with icem := { m.icem with nstun := m.icem.nstun - 1 } } err scode addrs

def report (call : Call) : Action → Call
  | .dns err srv starts =>
    if call.mnats.dnsq then dnsHandler { call with mnats := { call.mnats with dnsq := false } } err srv starts
    else call
  | .response i r =>
    match call.mnats.medial[i]? with
    | none => call
    | some m => if m.icem.nstun = 0 then call else respond call i m r

def step (call : Call) (a : Action) : Call := if call.closed then call else report call a

/-- The end of the connectivity checks of a media line. `addrs` are the local addresses of the selected
    pairs, and `update` is whether the agent is the controlling one. -/
structure Conncheck where
  i : Nat
  err : Nat
  update : Bool
  addrs : Addrs
  deriving DecidableEq, Repr

def conncheckHandler (call : Call) (c : Conncheck) (m : MnatMedia) : Call :=
  let (waits, call) :=
    if c.err ≠ 0 then (false, call)
    else
      let (changed, m) := refreshLaddr { m with complete := true } c.addrs
      let call := call.setMedia c.i m
      let call := { call with mnats := { call.mnats with sendReinvite := call.mnats.sendReinvite || changed } }
      (call.mnats.medial.any fun mx => !mx.complete, call)
  if waits then call
  else if call.mnats.sendReinvite && c.update then
    let call := estabh call 0 0
    { call with mnats := { call.mnats with sendReinvite := false } }
  else call

def conncheck (call : Call) (c : Conncheck) : Call :=
  match call.mnats.medial[c.i]? with
  | none => call
  | some m => conncheckHandler call c m

/-- The first start. `hasMedia` is whether a media line carries media in both descriptions. -/
def iceStart (call : Call) (hasMedia : Nat → Bool) : Call :=
  { call with
    mnats :=
      { call.mnats with
        medial := call.mnats.medial.mapIdx fun i m => { m with complete := !hasMedia i }
        started := true } }

/-- The media lines whose connectivity checks are started. -/
def checking (call : Call) (hasMedia : Nat → Bool) : List Nat :=
  if call.closed = false ∧ call.mnats.mode = .full then
    (List.range call.mnats.medial.length).filter fun i => hasMedia i
  else []

end Baresip.Ice
