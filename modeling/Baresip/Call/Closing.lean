import Baresip.Call.Transfer
import Baresip.Library.Ownership

set_option linter.dupNamespace false

namespace Baresip.Call.Closing

open Library

/-- `arg` is the call that the handlers have as their argument; none for the internal ones. -/
structure Sess where
  arg : Option Nat
  terminated : Nat
  established : Bool
  peerterm : Bool
  req : Bool
  replyl : Bool
  requestl : Bool
  nrefs : Nat
  deriving DecidableEq, Repr

structure Sub where
  arg : Option Nat
  terminated : Bool
  termwait : Bool
  termconf : Bool
  req : Bool
  expires : Bool
  subscribed : Bool
  nrefs : Nat
  deriving DecidableEq, Repr

/-- A media NAT session, which calls its handler from its media and its DNS query as long as it exists. -/
structure MnatSess where
  arg : Nat
  deriving DecidableEq, Repr

/-- `running` tells whether there are devices that may fail. -/
structure Audio where
  arg : Nat
  running : Bool
  deriving DecidableEq, Repr

structure CallObj where
  state : CallState
  sess : Option Nat
  sub : Option Nat
  audio : Option Nat
  mnats : Option Nat
  mnatWait : Bool
  deriving DecidableEq, Repr

/-- The objects by their addresses, which are not given out twice, the calls whose `tmr_inv` runs, those that
    `CALL_EVENT_CLOSED` has been delivered for, the last one first, and whether a destroyed object has been used. -/
structure World where
  calls : Nat → Option CallObj
  sesss : Nat → Option Sess
  subs : Nat → Option Sub
  mnatSesss : Nat → Option MnatSess
  audios : Nat → Option Audio
  next : Nat
  timers : List Nat
  closed : List Nat
  misused : Bool

/-- Whether the requests that end a session and a subscription can be sent. -/
structure Net where
  bye : Bool
  unsubscribe : Bool
  deriving DecidableEq, Repr

namespace Sess

def wait (sess : Sess) : Bool := sess.req || sess.replyl || sess.requestl

/-- `termwait`; each kind of transaction that is pending has a reference. -/
def termwait (sess : Sess) : Sess :=
  { sess with terminated := 1, arg := none
              nrefs := sess.nrefs + sess.req.toNat + sess.replyl.toNat + sess.requestl.toNat }

/-- `terminate`, which tells whether the session waits for the response to its BYE. -/
def terminate (sess : Sess) (bye : Bool) : Bool × Sess :=
  if !sess.established || sess.peerterm then (false, { sess with terminated := 2 })
  else if sess.req || !bye then (false, { sess with terminated := 2 })
  else (true, { sess with terminated := 2, req := true, nrefs := sess.nrefs + 1 })

/-- The destructor; none when the session is freed. -/
def destruct (sess : Sess) (bye : Bool) : Option Sess :=
  if sess.terminated = 0 ∧ sess.wait then some sess.termwait
  else if sess.terminated = 0 ∨ sess.terminated = 1 then
    let (kept, sess) := (if sess.terminated = 0 then sess.termwait else sess).terminate bye
    if kept then some sess else none
  else none

/-- `mem_deref` -/
def deref (sess : Sess) (bye : Bool) : Option Sess :=
  if 1 < sess.nrefs then some { sess with nrefs := sess.nrefs - 1 } else { sess with nrefs := 0 }.destruct bye

end Sess

namespace Sub

/-- `terminate`, which tells whether the subscription waits for something. -/
def terminate (sub : Sub) (unsubscribe : Bool) : Bool × Sub :=
  let sub := { sub with terminated := true, arg := none }
  if sub.termwait || sub.req then (true, { sub with nrefs := sub.nrefs + 1 })
  else if sub.expires && sub.subscribed && unsubscribe then
    (true, { sub with expires := false, req := true, nrefs := sub.nrefs + 1 })
  else (false, sub)

def destruct (sub : Sub) (unsubscribe : Bool) : Option Sub :=
  if sub.terminated then none
  else
    let (kept, sub) := sub.terminate unsubscribe
    if kept then some sub else none

/-- `mem_deref` -/
def deref (sub : Sub) (unsubscribe : Bool) : Option Sub :=
  if 1 < sub.nrefs then some { sub with nrefs := sub.nrefs - 1 } else { sub with nrefs := 0 }.destruct unsubscribe

/-- The substate of a NOTIFY is noted. -/
def noted (sub : Sub) (terminated : Bool) : Sub :=
  if terminated then { sub with subscribed := false, termconf := true }
  else { sub with subscribed := sub.subscribed || !sub.termconf }

end Sub

namespace World

variable (net : Net) (w : World)

def setCall (c : Nat) (call : Option CallObj) : World := { w with calls := Function.update w.calls c call }
def setSess (s : Nat) (sess : Option Sess) : World := { w with sesss := Function.update w.sesss s sess }
def setSub (n : Nat) (sub : Option Sub) : World := { w with subs := Function.update w.subs n sub }

/-- A call is used. -/
def check (c : Nat) : World := { w with misused := w.misused || (w.calls c).isNone }

def derefSess (s : Option Nat) : World :=
  { w with sesss := modify w.sesss s fun sess => sess.deref net.bye
           misused := w.misused || dangles w.sesss s }

def derefSub (n : Option Nat) : World :=
  { w with subs := modify w.subs n fun sub => sub.deref net.unsubscribe
           misused := w.misused || dangles w.subs n }

def derefMnatSess (m : Option Nat) : World :=
  { w with mnatSesss := modify w.mnatSesss m fun _ => none
           misused := w.misused || dangles w.mnatSesss m }

def derefAudio (a : Option Nat) : World :=
  { w with audios := modify w.audios a fun _ => none
           misused := w.misused || dangles w.audios a }

def audioStop (a : Option Nat) : World :=
  { w with audios := modify w.audios a fun audio => some { audio with running := false }
           misused := w.misused || dangles w.audios a }

/-- `audio_start`; `start` tells whether there is a codec and the devices start. -/
def audioStart (a : Option Nat) (start : Bool) : World :=
  { w with audios := modify w.audios a fun audio => some { audio with running := audio.running || start }
           misused := w.misused || dangles w.audios a }

def tmrCancel (c : Nat) : World := { w with timers := w.timers.erase c }

def callStreamStop (c : Nat) : World :=
  ((w.check c).audioStop ((w.calls c).bind CallObj.audio)).tmrCancel c

def callStreamStart (c : Nat) (start active : Bool) : World :=
  let w := (w.check c).audioStart ((w.calls c).bind CallObj.audio) start
  if active then w.tmrCancel c else w

/-- `mem_deref` of a call, to which nothing else refers, with its destructor. -/
def derefCall (c : Nat) : World :=
  let call := w.calls c
  let w := (w.callStreamStop c).derefSess net (call.bind CallObj.sess)
  let w := (w.derefAudio (call.bind CallObj.audio)).derefMnatSess (call.bind CallObj.mnats)
  (w.derefSub net (call.bind CallObj.sub)).setCall c none

/-- `CALL_EVENT_CLOSED`, which makes the user agent release the call. -/
def closedEvent (c : Nat) : World := ({ w with closed := c :: w.closed }.check c).derefCall net c

def inviteTimeout (c : Nat) : World := (w.check c).closedEvent net c

def audioErrorHandler (c : Nat) : World := ((w.check c).callStreamStop c).closedEvent net c

def sipsessCloseHandler (c : Nat) : World := ((w.check c).callStreamStop c).closedEvent net c

/-- `sipsess_terminate`, whose close handler is called when the session has been terminated. -/
def sipsessTerminate (s : Nat) (sess : Sess) : World :=
  if sess.terminated ≠ 0 then w.setSess s (some sess)
  else
    let w := w.setSess s (some (if sess.wait then sess.termwait else (sess.termwait.terminate net.bye).2))
    match sess.arg with
    | none => w
    | some c => w.sipsessCloseHandler net c

/-- `sc` is the status of the body, if it is well formed. -/
def sipsubNotifyHandler (c : Nat) (sc : Option Nat) : World :=
  match sc with
  | none => w
  | some sc =>
    if sc ≥ 300 then w
    else if sc ≥ 200 then w.closedEvent net c
    else w

def sipsubCloseHandler (c : Nat) : World :=
  let call := w.calls c
  ((w.check c).derefSub net (call.bind CallObj.sub)).setCall c (call.map fun call => { call with sub := none })

def sipsubTerminate (n : Nat) (sub : Sub) : World :=
  let w := w.setSub n (some (sub.terminate net.unsubscribe).2)
  match sub.arg with
  | none => w
  | some c => w.sipsubCloseHandler net c

/-- The end of `notify_handler` for the substate `terminated`. -/
def subscriptionEnds (n : Nat) : World :=
  match w.subs n with
  | none => { w with misused := true }
  | some sub =>
    if !sub.terminated then w.sipsubTerminate net n { sub with termwait := false }
    else if sub.termwait then (w.setSub n (some { sub with termwait := false })).derefSub net (some n)
    else w

/-- `notify_handler` of a subscription, which has a reference while its handler runs and is left alone when that was the
    last one. -/
def notifyHandler (n : Nat) (sub : Sub) (terminated : Bool) (sc : Option Nat) : World :=
  let w := w.setSub n (some { sub.noted terminated with nrefs := sub.nrefs + 1 })
  let w :=
    match sub.arg with
    | none => w
    | some c => w.sipsubNotifyHandler net c sc
  let nrefs := (w.subs n).map Sub.nrefs
  let w := w.derefSub net (some n)
  if nrefs = some 1 then w
  else if terminated then w.subscriptionEnds net n
  else w

/-- A new session whose handlers have the call as their argument; `req` for a request of its own. -/
def newSess (c : Nat) (call : CallObj) (req : Bool) : World :=
  { (w.setSess w.next (some ⟨some c, 0, false, false, req, false, false, 1⟩)).setCall c
      (some { call with sess := some w.next }) with next := w.next + 1 }

/-- `send_invite`; `ok` tells whether `sipsess_connect` succeeds. -/
def sendInvite (c : Nat) (call : CallObj) (ok : Bool) : World :=
  if ok then w.newSess c call true else w.setCall c (some call)

/-- `mnat_handler`. The event `CALL_EVENT_INCOMING` may start the streams. -/
def mnatHandler (c : Nat) (failed ok start : Bool) : World :=
  match w.calls c with
  | none => { w with misused := true }
  | some call =>
    if failed then w.closedEvent net c
    else if !call.mnatWait then w
    else
      let call := { call with mnatWait := false }
      match call.state with
      | .outgoing => w.sendInvite c call ok
      | .incoming => (w.setCall c (some call)).callStreamStart c start false
      | _ => w.setCall c (some call)

/-- Where `call_alloc` fails. -/
inductive Stage
  | sdp | mnat | audio | video
  deriving DecidableEq, Repr

def newCall : World :=
  { w.setCall w.next (some ⟨.idle, none, none, none, none, false⟩) with next := w.next + 1 }

def newMnatSess (c : Nat) : World :=
  { w.setCall c ((w.calls c).map fun call => { call with mnats := some w.next }) with
    mnatSesss := Function.update w.mnatSesss w.next (some ⟨c⟩), next := w.next + 1 }

def newAudio (c : Nat) : World :=
  { w.setCall c ((w.calls c).map fun call => { call with audio := some w.next, mnatWait := true }) with
    audios := Function.update w.audios w.next (some ⟨c, false⟩), next := w.next + 1 }

/-- `call_alloc`, and whether it has succeeded; a call that has not is released. The address is the next one. -/
def callAlloc (mnat : Bool) (err : Option Stage) : Bool × World :=
  let c := w.next
  let w := w.newCall
  if err = some .sdp ∨ mnat ∧ err = some .mnat then (false, w.derefCall net c)
  else
    let w := if mnat then w.newMnatSess c else w
    if err = some .audio then (false, w.derefCall net c)
    else
      let w := w.newAudio c
      if err = some .video then (false, w.derefCall net c) else (true, w)

/-- `call_alloc` and `call_connect`, and the release of a call that they fail for. With a media NAT the INVITE is not sent
    yet. -/
def connect (mnat : Bool) (err : Option Stage) (ok : Bool) : World :=
  let c := w.next
  let (allocated, w) := w.callAlloc net mnat err
  if !allocated then w
  else if !ok then w.derefCall net c
  else
    match w.calls c with
    | none => { w with misused := true }
    | some call =>
      let call := { call with state := .outgoing }
      if mnat then w.setCall c (some call) else w.sendInvite c call true

/-- `call_alloc` and `call_accept`, and the release of a call that they fail for. The event `CALL_EVENT_INCOMING` may start
    the streams. -/
def accept (mnat : Bool) (err : Option Stage) (ok start : Bool) : World :=
  let c := w.next
  let (allocated, w) := w.callAlloc net mnat err
  if !allocated then w
  else if !ok then w.derefCall net c
  else
    match w.calls c with
    | none => { w with misused := true }
    | some call =>
      let w := { w.newSess c { call with state := .incoming } false with timers := c :: w.timers }
      if mnat then w else w.callStreamStart c start false

/-- `handle_options`, which releases its call at once. -/
def options (err : Option Stage) : World :=
  let (allocated, w') := w.callAlloc net false err
  if allocated then w'.derefCall net w.next else w'

/-- `call_hangup`, which leaves the session of an incoming call to the destructor, and then the release. -/
def hangup (c : Nat) : World :=
  match w.calls c with
  | none => w
  | some call =>
    let w :=
      if call.state = .incoming then w
      else (w.derefSess net call.sess).setCall c (some { call with sess := none })
    (w.callStreamStop c).derefCall net c

/-- `call_transfer`; `ok` tells whether `sipevent_drefer` succeeds. -/
def transfer (c : Nat) (ok : Bool) : World :=
  match w.calls c with
  | none => w
  | some call =>
    let w := w.derefSub net call.sub
    if ok then
      { (w.setSub w.next (some ⟨some c, false, false, false, true, true, false, 1⟩)).setCall c
          (some { call with sub := some w.next }) with next := w.next + 1 }
    else w.setCall c (some { call with sub := none })

def sipsessProgrHandler (c scode : Nat) (start : Bool) : World :=
  match w.calls c with
  | none => { w with misused := true }
  | some call =>
    if scode ≤ 100 then w
    else
      let state := if scode = 180 then .ringing else if scode = 183 then .early else call.state
      ((w.setCall c (some { call with state := state })).callStreamStop c).callStreamStart c start false

def sipsessEstabHandler (c : Nat) (start : Bool) : World :=
  match w.calls c with
  | none => { w with misused := true }
  | some call =>
    if call.state = .established then w
    else (w.setCall c (some { call with state := .established })).callStreamStart c start true

end World

/-- What a session calls its handlers for; a REFER makes the user agent connect another call. -/
inductive SessEvent
  | offer | answer | info
  | progr (scode : Nat) (start : Bool)
  | estab (start : Bool)
  | refer (mnat : Bool) (err : Option World.Stage) (ok : Bool)
  deriving DecidableEq, Repr

def World.sessHandler (net : Net) (w : World) (c : Nat) : SessEvent → World
  | .offer | .answer | .info => w.check c
  | .progr scode start => w.sipsessProgrHandler c scode start
  | .estab start => w.sipsessEstabHandler c start
  | .refer mnat err ok => (w.check c).connect net mnat err ok

inductive Action
  | connect (mnat : Bool) (err : Option World.Stage) (ok : Bool)
  | accept (mnat : Bool) (err : Option World.Stage) (ok start : Bool)
  | options (err : Option World.Stage)
  | hangup (c : Nat)
  | transfer (c : Nat) (ok : Bool)
  | inviteTimeout (c : Nat)
  | mnat (m : Nat) (failed ok start : Bool)
  | audioError (a : Nat)
  | sessClosed (s : Nat) (established peerterm : Bool)
  | sessEvent (s : Nat) (event : SessEvent)
  | sessPending (s : Nat) (established req replyl requestl : Bool)
  | sessDone (s : Nat)
  | notify (n : Nat) (terminated : Bool) (sc : Option Nat)
  | subClosed (n : Nat) (termwait subscribed : Bool)
  | subPending (n : Nat) (termwait req expires subscribed : Bool)
  | subDone (n : Nat)
  deriving DecidableEq, Repr

/-- What is gone has no events. Sessions and subscriptions that have been terminated are released by what they wait for. -/
def step (w : World) : Net × Action → World
  | (net, .connect mnat err ok) => w.connect net mnat err ok
  | (net, .accept mnat err ok start) => w.accept net mnat err ok start
  | (net, .options err) => w.options net err
  | (net, .hangup c) => w.hangup net c
  | (net, .transfer c ok) => w.transfer net c ok
  | (net, .inviteTimeout c) => if c ∈ w.timers then (w.tmrCancel c).inviteTimeout net c else w
  | (net, .mnat m failed ok start) =>
    match w.mnatSesss m with
    | none => w
    | some sess => w.mnatHandler net sess.arg failed ok start
  | (net, .audioError a) =>
    match w.audios a with
    | none => w
    | some audio => if audio.running then w.audioErrorHandler net audio.arg else w
  | (net, .sessClosed s established peerterm) =>
    match w.sesss s with
    | none => w
    | some sess =>
      w.sipsessTerminate net s
        { sess with established := sess.established || established, peerterm := sess.peerterm || peerterm }
  | (net, .sessEvent s event) =>
    match (w.sesss s).bind Sess.arg with
    | none => w
    | some c => w.sessHandler net c event
  | (_, .sessPending s established req replyl requestl) =>
    match w.sesss s with
    | none => w
    | some sess =>
      w.setSess s (some { sess with established := established, req := req, replyl := replyl, requestl := requestl })
  | (net, .sessDone s) => if (w.sesss s).any fun sess => sess.terminated ≠ 0 then w.derefSess net (some s) else w
  | (net, .notify n terminated sc) =>
    match w.subs n with
    | none => w
    | some sub => w.notifyHandler net n sub terminated sc
  | (net, .subClosed n termwait subscribed) =>
    match w.subs n with
    | none => w
    | some sub =>
      if sub.terminated then w else w.sipsubTerminate net n { sub with termwait := termwait, subscribed := subscribed }
  | (_, .subPending n termwait req expires subscribed) =>
    match w.subs n with
    | none => w
    | some sub =>
      w.setSub n (some { sub with termwait := termwait, req := req, expires := expires, subscribed := subscribed })
  | (net, .subDone n) => if (w.subs n).any Sub.terminated then w.derefSub net (some n) else w

def init : World := ⟨fun _ => none, fun _ => none, fun _ => none, fun _ => none, fun _ => none, 0, [], [], false⟩

end Baresip.Call.Closing
