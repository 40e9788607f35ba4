import Baresip.Sip.Loopstate

set_option linter.dupNamespace false

namespace Baresip.Reg

open Re Sip

abbrev Seconds := BitVec 32

def defaultExpires : Seconds := 3600

/-- What the request layer and the owner see of a registration. `sent` is the interval that the send handler
    writes when the outstanding request goes out, which may be long after `request`. -/
inductive Out
  | resph (err : Option Errno) (scode : Option Nat)
  | request (expires : Seconds) (err : Option Errno)
  | sent (expires : Seconds)
  | answered (scode : Nat)
  | completed
  | released
  | freed
  deriving DecidableEq, Repr

/-- `req` is that a request is outstanding, `ka` that a keep-alive runs, `resph` that the handler is still
    the owner's, and `owned` that the owner has not released its reference. -/
structure Sipreg where
  ls : Loopstate
  tmr : Option Seconds
  ka : Bool
  req : Bool
  resph : Bool
  expires : Seconds
  failc : Seconds
  wait : Seconds
  registered : Bool
  terminated : Bool
  regid : Bool
  nrefs : Nat
  owned : Bool
  log : List Out
  deriving DecidableEq, Repr

/-- A Contact header: whether its address is the one of the registration, and its expires parameter. -/
structure Contact where
  own : Bool
  expires : Option Seconds
  deriving DecidableEq, Repr

structure Msg where
  scode : Nat
  contacts : List Contact
  expires : Option Seconds
  minExpires : Option Seconds
  outbound : Bool
  keepalive : Bool
  auth : Auth
  deriving DecidableEq, Repr

inductive Response
  | err (err : Errno)
  | msg (msg : Msg)
  deriving DecidableEq, Repr

def Response.final : Response → Bool
  | .err _ => true
  | .msg m => decide (200 ≤ m.scode)

def minimum (a b : Seconds) : Seconds := if a < b then a else b

def failwait (failc : Seconds) (rand : BitVec 16) : Seconds :=
  minimum 1800 (30 * (1 <<< (minimum failc 6).toNat)) * (500 + rand.setWidth 32 % 501)

namespace Sipreg

def say (s : Sipreg) (out : Out) : Sipreg := { s with log := s.log ++ [out] }

def callResph (s : Sipreg) (err : Option Errno) (scode : Option Nat) : Sipreg :=
  if s.resph then s.say (.resph err scode) else s

/-- `res` is what `sip_drequestf` returns. -/
def request (s : Sipreg) (resetLs : Bool) (res : Option Errno) : Sipreg :=
  let s := if s.terminated then { s with expires := 0 } else s
  let s := if resetLs then { s with ls := .reset } else s
  { s with req := s.req || res.isNone }.say (.request s.expires res)

def free (s : Sipreg) : Sipreg := { s with ka := false }

def destructor (s : Sipreg) (res : Option Errno) : Sipreg :=
  let s := { s with tmr := none }
  if s.terminated then s.free
  else
    let s := { s with resph := false, terminated := true }
    if s.req then { s with nrefs := s.nrefs + 1 }
    else if s.registered then
      let s := s.request true res
      if res.isNone then { s with nrefs := s.nrefs + 1 } else s.free
    else s.free

/-- `mem_deref`; the destructor may have taken a new reference. -/
def memDeref (s : Sipreg) (res : Option Errno) : Sipreg :=
  let s := { s with nrefs := s.nrefs - 1 }
  if s.nrefs > 0 then s
  else
    let s := s.destructor res
    if s.nrefs > 0 then s else s.say .freed

def tmrHandler (s : Sipreg) (rand : BitVec 16) (res : Option Errno) : Sipreg :=
  let s := s.request true res
  if res.isSome then
    { s with failc := s.failc + 1, tmr := some (failwait (s.failc + 1) rand) }.callResph res none
  else s

def keepaliveHandler (s : Sipreg) (err : Errno) (rand : BitVec 16) : Sipreg :=
  if s.req || s.terminated then s
  else { s with failc := s.failc + 1, tmr := some (failwait (s.failc + 1) rand) }.callResph (some err) none

def startOutbound (s : Sipreg) (msg : Msg) : Sipreg :=
  if msg.outbound then { s with ka := msg.keepalive } else s

/-- The interval that the first Contact of our own is given. -/
def contactWait (msg : Msg) (wait : Seconds) : Seconds :=
  match msg.contacts.find? Contact.own with
  | some contact => contact.expires.getD (msg.expires.getD defaultExpires)
  | none => wait

/-- The end of `response_handler`, from its label `out` on. -/
def finish (s : Sipreg) (err : Option Errno) (scode : Option Nat) (res : Option Errno) : Sipreg :=
  if s.expires = 0 then s.memDeref res
  else if s.terminated then
    if !s.registered then s.memDeref res
    else
      let s := s.request true res
      if res.isSome then s.memDeref res else s
  else { s with tmr := some s.wait }.callResph err scode

def again (s : Sipreg) (scode : Nat) (res : Option Errno) : Sipreg :=
  let s := s.request false res
  if res.isNone then s else { s with failc := s.failc + 1 }.finish res (some scode) res

def refused (s : Sipreg) (err : Option Errno) (scode : Nat) (res : Option Errno) : Sipreg :=
  { s with failc := s.failc + 1 }.finish err (some scode) res

def failure (s : Sipreg) (msg : Msg) (res : Option Errno) : Sipreg :=
  if s.terminated && !s.registered then s.finish none (some msg.scode) res
  else if msg.scode = 401 ∨ msg.scode = 407 then
    match msg.auth with
    | .authenticated => s.again msg.scode res
    | .eauth => s.refused none msg.scode res
    | .failed err => s.refused (some err) msg.scode res
  else if msg.scode = 423 then
    match msg.minExpires with
    | some minexp =>
      if minexp = 0 ∨ s.expires = 0 then s.refused none msg.scode res
      else { s with expires := minexp }.again msg.scode res
    | none => s.refused none msg.scode res
  else s.refused none msg.scode res

def success (s : Sipreg) (msg : Msg) (res : Option Errno) : Sipreg :=
  let s := { s with registered := true, wait := contactWait msg s.expires * 900, failc := 0 }
  let s := if s.regid && !s.terminated && !s.ka then s.startOutbound msg else s
  s.finish none (some msg.scode) res

def responseHandler (s : Sipreg) (response : Response) (rand : BitVec 16) (res : Option Errno) : Sipreg :=
  let s := { s with wait := failwait (s.failc + 1) rand }
  match response with
  | .err err => { s with failc := s.failc + 1 }.finish (some err) none res
  | .msg msg =>
    let (loops, ls) := requestLoops s.ls msg.scode
    let s := { s with ls := ls }
    if loops then { s with failc := s.failc + 1 }.finish none (some msg.scode) res
    else if msg.scode < 200 then s
    else if msg.scode < 300 then s.success msg res
    else s.failure msg res

end Sipreg

/-- `sipreg_register`, once the dialog and the headers are allocated. -/
def sipregRegister (expires : Seconds) (regid : Bool) (res : Option Errno) : Except Errno Sipreg :=
  if expires = 0 then .error .EINVAL
  else
    let s : Sipreg := ⟨.reset, none, false, false, true, expires, 0, 0, false, false, regid, 1, true, []⟩
    match res with
    | some err => .error err
    | none => .ok (s.request true none)

inductive Event
  | response (response : Response) (rand : BitVec 16) (res : Option Errno)
  | timer (rand : BitVec 16) (res : Option Errno)
  | keepalive (err : Errno) (rand : BitVec 16)
  | transmit
  | release (res : Option Errno)
  deriving DecidableEq, Repr

def Event.final : Event → Bool
  | .response r _ _ => r.final
  | _ => false

def answer (s : Sipreg) : Response → Sipreg
  | .err _ => s
  | .msg msg => s.say (.answered msg.scode)

/-- The request layer clears `req` before it hands over a final response; a timer and a keep-alive are gone
    when their handlers run. Without its source, an event does not happen. -/
def step (s : Sipreg) : Event → Sipreg
  | .response response rand res =>
    if s.req then
      let s := answer s response
      if response.final then ({ s with req := false }.say .completed).responseHandler response rand res
      else s.responseHandler response rand res
    else s
  | .timer rand res => if s.tmr.isSome then { s with tmr := none }.tmrHandler rand res else s
  | .keepalive err rand => if s.ka then { s with ka := false }.keepaliveHandler err rand else s
  | .transmit => if s.req then s.say (.sent s.expires) else s
  | .release res => if s.owned then ({ s with owned := false }.say .released).memDeref res else s

def run (s : Sipreg) (events : List Event) : Sipreg := events.foldl step s

end Baresip.Reg
