import Mathlib.Logic.Function.Basic
import Mathlib.Tactic.Common

set_option linter.dupNamespace false

namespace Baresip.Re

structure SipLoopstate where
  failc : Nat
  lastScode : Nat
  deriving DecidableEq, Repr

def SipLoopstate.reset : SipLoopstate := ⟨0, 0⟩

def sipRequestLoops (ls : SipLoopstate) (scode : Nat) : Bool × SipLoopstate :=
  if scode < 200 then (false, ls)
  else if scode < 300 then (false, ⟨0, scode⟩)
  else
    let failc := ls.failc + 1
    let repeated := 400 ≤ scode && scode != 401 && scode != 407 && scode != 491 && ls.lastScode == scode
    (repeated || 16 ≤ failc, ⟨failc, scode⟩)

inductive SipeventSubst
  | pending | active | terminated
  deriving DecidableEq, Repr

inductive SipeventReason
  | deactivated | timeout | noresource | unknown
  deriving DecidableEq, Repr

inductive CloseHandler
  | internal | sipnotCloseHandler
  deriving DecidableEq, Repr

/-- The notifier of a subscription. `req` and `timer` tell whether a request is out and the timer runs, and
    `mb` is the status that its body reports. -/
structure Sipnot where
  nrefs : Nat
  ls : SipLoopstate
  timer : Bool
  req : Bool
  mb : Option Nat
  closeh : CloseHandler
  arg : Nat
  expires : Nat
  retryAfter : Nat
  substate : SipeventSubst
  reason : SipeventReason
  notifyPending : Bool
  subscribed : Bool
  terminated : Bool
  termsent : Bool
  deriving DecidableEq, Repr

/-- The bounds that the call gives for the expiry, which are all the same. -/
def referExpires : Nat := 60

def Sipnot.refresh (not : Sipnot) (expires : Nat) : Sipnot :=
  { not with expires := min expires referExpires, timer := true }

def Sipnot.accept (arg : Nat) (expires : Option Nat) : Sipnot :=
  Sipnot.refresh
    { nrefs := 1
      ls := .reset
      timer := false
      req := false
      mb := none
      closeh := .sipnotCloseHandler
      arg := arg
      expires := 0
      retryAfter := 0
      substate := .pending
      reason := .deactivated
      notifyPending := false
      subscribed := true
      terminated := false
      termsent := false } (expires.getD referExpires)

end Baresip.Re

namespace Baresip.Call

open Re

inductive CallState
  | idle | incoming | outgoing | ringing | early | established | terminated
  deriving DecidableEq, Repr

structure CallObj where
  not : Option Nat
  state : CallState
  deriving DecidableEq, Repr

/-- A NOTIFY that was sent: for which notifier, whether its subscription state is terminated, and the status
    in its body. With `again` it answers a challenge to one that told of the end already. -/
structure Notify where
  sipnot : Nat
  terminated : Bool
  scode : Option Nat
  again : Bool
  deriving DecidableEq, Repr

/-- The calls and the notifiers that were not destroyed. `attempts` counts the requests that were tried, and
    `dangling` tells whether a destroyed call was used. -/
structure World where
  calls : Nat → Option CallObj
  ncalls : Nat
  nots : Nat → Option Sipnot
  nnots : Nat
  attempts : Nat
  sent : List Notify
  dangling : Bool

namespace World

def setCall (w : World) (c : Nat) (call : Option CallObj) : World :=
  { w with calls := Function.update w.calls c call }

def setNot (w : World) (n : Nat) (not : Option Sipnot) : World :=
  { w with nots := Function.update w.nots n not }

end World

-- Whether each request that is tried can be sent.
variable (sendOk : Nat → Bool)

def notifyRequest (w : World) (n : Nat) (not : Sipnot) (resetLs : Bool) : Bool × World :=
  let again := !resetLs && not.termsent
  let not := { not with
    ls := if resetLs then .reset else not.ls
    termsent := not.termsent || not.terminated
    notifyPending := false }
  let w' := { w with attempts := w.attempts + 1 }
  if sendOk w.attempts then
    (true, { w'.setNot n (some { not with req := true }) with
      sent := w.sent ++ [⟨n, not.terminated, not.mb, again⟩] })
  else (false, w'.setNot n (some not))

def refNot (w : World) (n : Nat) : World :=
  w.setNot n ((w.nots n).map fun not => { not with nrefs := not.nrefs + 1 })

/-- `terminate`, which tells whether the notifier has taken a reference to itself. -/
def terminate (w : World) (n : Nat) (not : Sipnot) (reason : SipeventReason) : Bool × World :=
  let not := { not with terminated := true, reason := reason, closeh := .internal }
  if not.req then (true, refNot (w.setNot n (some not)) n)
  else if not.subscribed then
    let (sent, w) := notifyRequest sendOk w n not true
    if sent then (true, refNot w n) else (false, w)
  else (false, w.setNot n (some not))

/-- `mem_deref` of a notifier, with its destructor. -/
def derefNot (w : World) (n : Nat) : World :=
  match w.nots n with
  | none => w
  | some not =>
    if 1 < not.nrefs then w.setNot n (some { not with nrefs := not.nrefs - 1 })
    else if not.terminated then w.setNot n none
    else
      let (kept, w) := terminate sendOk w n { not with nrefs := 0, timer := false } .deactivated
      if kept then w else w.setNot n none

def derefCallNot (w : World) (c : Nat) : World :=
  match w.calls c with
  | none => { w with dangling := true }
  | some call =>
    match call.not with
    | none => w
    | some n => (derefNot sendOk w n).setCall c (some { call with not := none })

def sipnotTerminate (w : World) (n : Nat) (not : Sipnot) (reason : SipeventReason) : World :=
  let (_, w) := terminate sendOk w n { not with timer := false } reason
  match not.closeh with
  | .internal => w
  | .sipnotCloseHandler => derefCallNot sendOk w not.arg

def tmrHandler (w : World) (n : Nat) : World :=
  match w.nots n with
  | none => w
  | some not =>
    if !not.timer then w
    else
      let not := { not with timer := false }
      if not.terminated then w.setNot n (some not) else sipnotTerminate sendOk w n not .timeout

inductive Response
  | failed (timedOut : Bool)
  | status (scode : Nat) (auth : Bool)
  deriving DecidableEq, Repr

/-- The label `out` of the response handler. -/
def responseOut (w : World) (n : Nat) (not : Sipnot) : World :=
  if not.termsent then derefNot sendOk (w.setNot n (some not)) n
  else if not.terminated then
    if !not.subscribed then derefNot sendOk (w.setNot n (some not)) n
    else
      let (sent, w) := notifyRequest sendOk w n not true
      if sent then w else derefNot sendOk w n
  else if !not.subscribed then sipnotTerminate sendOk w n not .unknown
  else if not.notifyPending then (notifyRequest sendOk w n not true).2
  else w.setNot n (some not)

def challenge (scode : Nat) : Bool := scode == 401 || scode == 407

/-- A final response ends the request before the handler is called. -/
def responseHandler (w : World) (n : Nat) (not : Sipnot) (r : Response) : World :=
  match r with
  | .failed timedOut =>
    responseOut sendOk w n { not with req := false, subscribed := not.subscribed && !timedOut }
  | .status scode auth =>
    if scode < 200 then w
    else
      let (loops, ls) := sipRequestLoops not.ls scode
      let not := { not with req := false, ls := ls }
      if loops then responseOut sendOk w n { not with subscribed := false }
      else if scode < 300 then responseOut sendOk w n not
      else if challenge scode && auth then
        let (sent, w) := notifyRequest sendOk w n not false
        if sent then w
        else
          match w.nots n with
          | none => w
          | some not => responseOut sendOk w n { not with subscribed := false }
      else responseOut sendOk w n { not with subscribed := false }

def sipnotNotify (w : World) (n : Nat) (not : Sipnot) : World :=
  if not.expires = 0 then w.setNot n (some not)
  else if not.req then w.setNot n (some { not with notifyPending := true })
  else (notifyRequest sendOk w n not true).2

def sipeventNotify (w : World) (n : Nat) (scode : Nat) (state : SipeventSubst) : World :=
  match w.nots n with
  | none => w
  | some not =>
    if not.terminated then w
    else
      let not := { not with mb := some scode }
      match state with
      | .terminated =>
        (terminate sendOk w n { not with timer := false, retryAfter := 0 } .noresource).2
      | _ => sipnotNotify sendOk w n { not with substate := state }

/-- A SUBSCRIBE that refreshes the subscription. `rseqValid` tells whether its sequence number is in
    order. -/
def subscribeHandler (w : World) (n : Nat) (expires : Option Nat) (rseqValid : Bool) : World :=
  match w.nots n with
  | none => w
  | some not =>
    let expires := expires.getD referExpires
    if not.terminated then w
    else if 0 < expires ∧ expires < referExpires then w
    else if !rseqValid then w
    else sipnotNotify sendOk w n (not.refresh expires)

def callNotifySipfrag (w : World) (c : Nat) (scode : Nat) : World :=
  match (w.calls c).bind (·.not) with
  | none => w
  | some n =>
    if 200 ≤ scode then derefCallNot sendOk (sipeventNotify sendOk w n scode .terminated) c
    else sipeventNotify sendOk w n scode .active

/-- `mem_deref` of a call, to which nothing else refers, with its destructor. -/
def destroyCall (w : World) (c : Nat) : World :=
  match (w.calls c).bind (·.not) with
  | none => w.setCall c none
  | some n => (derefNot sendOk w n).setCall c none

def newCall (w : World) (not : Option Nat) (state : CallState) : World :=
  { w.setCall w.ncalls (some ⟨not, state⟩) with ncalls := w.ncalls + 1 }

def sipeventAccept (w : World) (c : Nat) (expires : Option Nat) : World :=
  { w.setNot w.nnots (some (.accept c expires)) with nnots := w.nnots + 1 }

/-- The event `CALL_EVENT_TRANSFER` of the user agent: the new call has a share in the notifier of the old
    one. `alloc` and `connect` tell whether it can be allocated and connected. -/
def transfer (w : World) (c : Nat) (alloc connect : Bool) : World :=
  if !alloc then callNotifySipfrag sendOk w c 500
  else
    let not := (w.calls c).bind (·.not)
    let call2 := w.ncalls
    let w := newCall (not.elim w (refNot w)) not .outgoing
    if connect then w else destroyCall sendOk (callNotifySipfrag sendOk w c 500) call2

structure Refer where
  target : Bool
  accepted : Bool
  expires : Option Nat
  alloc : Bool
  connect : Bool
  deriving DecidableEq, Repr

def sipsessReferHandler (w : World) (c : Nat) (refer : Refer) : World :=
  if !refer.target then w
  else
    let w := derefCallNot sendOk w c
    if !refer.accepted then w
    else
      let n := w.nnots
      let w := sipeventAccept w c refer.expires
      let w := w.setCall c ((w.calls c).map fun call => { call with not := some n })
      transfer sendOk (callNotifySipfrag sendOk w c 100) c refer.alloc refer.connect

def sipsessProgrHandler (w : World) (c : Nat) (scode : Nat) : World :=
  w.setCall c ((w.calls c).map fun call =>
    if scode = 180 then { call with state := .ringing }
    else if scode = 183 then { call with state := .early }
    else call)

def sipsessEstabHandler (w : World) (c : Nat) (call : CallObj) : World :=
  if call.state = .established then w
  else callNotifySipfrag sendOk (w.setCall c (some { call with state := .established })) c 200

inductive CloseReason
  | err
  | msg (scode : Nat)
  | none
  deriving DecidableEq, Repr

def CloseReason.scode : CloseReason → Option Nat
  | err => some 500
  | msg scode => some scode
  | none => Option.none

def sipsessCloseHandler (w : World) (c : Nat) (reason : CloseReason) : World :=
  match reason.scode with
  | none => destroyCall sendOk w c
  | some scode => destroyCall sendOk (callNotifySipfrag sendOk w c scode) c

inductive Action
  | newCall (state : CallState)
  | refer (c : Nat) (refer : Refer)
  | progress (c : Nat) (scode : Nat)
  | established (c : Nat)
  | closed (c : Nat) (reason : CloseReason)
  | hangup (c : Nat)
  | timer (n : Nat)
  | response (n : Nat) (r : Response)
  | subscribe (n : Nat) (expires : Option Nat) (rseqValid : Bool)
  deriving DecidableEq, Repr

/-- Calls and notifiers that are gone have no events, and neither have requests that are not out. -/
def step (w : World) : Action → World
  | .newCall state => newCall w none state
  | .refer c refer => if (w.calls c).isSome then sipsessReferHandler sendOk w c refer else w
  | .progress c scode => sipsessProgrHandler w c scode
  | .established c =>
    match w.calls c with
    | none => w
    | some call => sipsessEstabHandler sendOk w c call
  | .closed c reason => if (w.calls c).isSome then sipsessCloseHandler sendOk w c reason else w
  | .hangup c => if (w.calls c).isSome then destroyCall sendOk w c else w
  | .timer n => tmrHandler sendOk w n
  | .response n r =>
    match w.nots n with
    | none => w
    | some not => if not.req then responseHandler sendOk w n not r else w
  | .subscribe n expires rseqValid => subscribeHandler sendOk w n expires rseqValid

def initial : World := ⟨fun _ => none, 0, fun _ => none, 0, 0, [], false⟩

end Baresip.Call
