import Baresip.Sip.Loopstate

set_option linter.dupNamespace false

namespace Baresip.Sess

open Re Sip

abbrev Desc := List Byte

/-- Which handler the response to an outstanding INVITE goes to. -/
inductive Invite
  | invite | reinvite
  deriving DecidableEq, Repr

structure Reply where
  seq : BitVec 32
  awaitingAnswer : Bool
  deriving DecidableEq, Repr

/-- What is under way: `req` an INVITE of our own, `tmr` the delay of the next one in milliseconds, `replyl`
    the 2xx responses without an ACK, `st` the INVITE that is not answered yet. -/
structure Exchanges where
  req : Option Invite
  tmr : Option Nat
  replyl : List Reply
  st : Bool
  deriving DecidableEq, Repr

inductive CloseErr
  | err (err : Errno)
  | ECONNRESET
  deriving DecidableEq, Repr

/-- What the peer and the owner see of a session. An INVITE and a 2xx are kept with what was under way when
    they were sent; `offer` is that the 2xx carries an offer. `modified` is a modification that was put off. -/
inductive Out
  | invite (desc : Option Desc) (err : Option Errno) (during : Exchanges)
  | accept (scode : Nat) (desc : Option Desc) (offer : Bool) (during : Exchanges)
  | reply (scode : Nat)
  | ack (desc : Option Desc)
  | offered (err : Option Errno)
  | answered (err : Option Errno)
  | modified (desc : Option Desc)
  | progress
  | established
  | closed (err : Option CloseErr) (scode : Option Nat)
  deriving DecidableEq, Repr

/-- An INVITE or an ACK of the peer; `body` is that it has one. -/
structure InMsg where
  seq : BitVec 32
  body : Bool
  deriving DecidableEq, Repr

structure Sipsess extends Exchanges where
  ls : Loopstate
  msg : Option InMsg
  desc : Option Desc
  owner : Bool
  sentOffer : Bool
  awaitingAnswer : Bool
  modifyPending : Bool
  established : Bool
  terminated : Bool
  log : List Out
  deriving DecidableEq, Repr

structure Response where
  scode : Nat
  retryAfter : Option (BitVec 32)
  deriving DecidableEq, Repr

/-- What the other layers return to a handler: `dialog` is `sip_dialog_create` or `sip_dialog_update`, `left`
    that a failed reply leaves the transaction to the session. -/
structure Results where
  dialog : Option Errno
  auth : Auth
  offer : Except Errno (Option Desc)
  answer : Option Errno
  ack : Option Errno
  request : Option Errno
  reply : Option Errno
  left : Bool

def errOf {V : Type} : Except Errno V → Option Errno
  | .ok _ => none
  | .error err => some err

/-- The description that `offerh` has set. -/
def descOf : Except Errno (Option Desc) → Option Desc
  | .ok desc => desc
  | .error _ => none

/-- `sipsess_reply_ack` looks from the newest reply on, and takes the one it finds out of the list. -/
def replyAck (seq : BitVec 32) : List Reply → Option (Reply × List Reply)
  | [] => none
  | reply :: replyl =>
    match replyAck seq replyl with
    | some (found, rest) => some (found, reply :: rest)
    | none => if seq = reply.seq then some (reply, replyl) else none

namespace Sipsess

def say (s : Sipsess) (out : Out) : Sipsess := { s with log := s.log ++ [out] }

def termwait (s : Sipsess) : Sipsess :=
  let s := if s.st then s.say (.reply 486) else s
  { s with terminated := true, tmr := none, st := false }

def terminate (s : Sipsess) (err : Option CloseErr) (scode : Option Nat) : Sipsess :=
  s.termwait.say (.closed err scode)

def invite (s : Sipsess) (res : Option Errno) : Sipsess :=
  let out := Out.invite s.desc res s.toExchanges
  { s with sentOffer := s.desc.isSome, modifyPending := false,
           req := if res.isNone then some .invite else s.req }.say out

def reinvite (s : Sipsess) (resetLs : Bool) (res : Option Errno) : Sipsess × Option Errno :=
  if s.req.isSome then (s, some .EPROTO)
  else
    let out := Out.invite s.desc res s.toExchanges
    ({ s with sentOffer := s.desc.isSome, modifyPending := false, ls := if resetLs then .reset else s.ls,
              req := if res.isNone then some .reinvite else s.req }.say out, res)

def reply2xx (s : Sipsess) (msg : InMsg) (scode : Nat) (desc : Option Desc) (res : Option Errno) : Sipsess :=
  if res.isSome then { s with st := false }
  else
    let awaits := !msg.body && desc.isSome
    { s with st := false, replyl := s.replyl ++ [Reply.mk msg.seq awaits],
             awaitingAnswer := s.awaitingAnswer || awaits }.say (.accept scode desc awaits s.toExchanges)

def modify (s : Sipsess) (desc : Option Desc) (res : Option Errno) : Sipsess × Option Errno :=
  if s.st || s.terminated then (s, some .EINVAL)
  else
    let s := { s with desc := desc }
    if s.req.isSome || s.tmr.isSome || !s.replyl.isEmpty then ({ s with modifyPending := true }.say (.modified desc), none)
    else s.reinvite true res

/-- A 2xx response to the INVITE of `sipsess_connect`. -/
def inviteSuccess (s : Sipsess) (scode : Nat) (r : Results) : Sipsess :=
  if r.dialog.isSome then s.terminate (r.dialog.map .err) (some scode)
  else
    let (s, err, desc) :=
      if s.sentOffer then (s.say (.answered r.answer), r.answer, none)
      else ({ s with modifyPending := false }.say (.offered (errOf r.offer)), errOf r.offer, descOf r.offer)
    let s := { s.say (.ack desc) with established := true }
    let err := err.or r.ack
    if err.isSome then s.terminate (err.map .err) (some scode)
    else
      let s := if s.modifyPending then (s.reinvite true r.request).1 else { s with desc := none }
      s.say .established

/-- The INVITE is sent again, after a redirection or with credentials. -/
def inviteAgain (s : Sipsess) (scode : Nat) (r : Results) : Sipsess :=
  let s := s.invite r.request
  if r.request.isSome then s.terminate (r.request.map .err) (some scode) else s

def inviteRespHandler (s : Sipsess) (err : Option Errno) (msg : Response) (r : Results) : Sipsess :=
  let (loops, ls) := if err.isSome then (false, s.ls) else requestLoops s.ls msg.scode
  let s := { s with ls := ls }
  if err.isSome then s.terminate (err.map .err) none
  else if loops then s.terminate none (some msg.scode)
  else if msg.scode < 200 then s.say .progress
  else if msg.scode < 300 then s.inviteSuccess msg.scode r
  else if msg.scode < 400 then
    if r.dialog.isSome then s.terminate (r.dialog.map .err) (some msg.scode)
    else s.inviteAgain msg.scode r
  else if msg.scode = 401 ∨ msg.scode = 407 then
    match r.auth with
    | .authenticated => s.inviteAgain msg.scode r
    | .eauth => s.terminate none (some msg.scode)
    | .failed err => s.terminate (some (.err err)) (some msg.scode)
  else s.terminate none (some msg.scode)

/-- The end of `reinvite_resp_handler`, from its label `out` on. -/
def finish (s : Sipsess) (err : Option Errno) (res : Option Errno) : Sipsess :=
  if err = some .ETIMEDOUT then s.terminate (some (.err .ETIMEDOUT)) none
  else if s.modifyPending then (s.reinvite true res).1
  else { s with desc := none }

def reinviteSuccess (s : Sipsess) (r : Results) : Sipsess :=
  let (s, desc) :=
    if s.sentOffer then (s.say (.answered r.answer), none)
    else ({ s with modifyPending := false }.say (.offered (errOf r.offer)), descOf r.offer)
  (s.say (.ack desc)).finish none r.request

def reinviteFailure (s : Sipsess) (msg : Response) (r : Results) : Sipsess :=
  if msg.scode = 401 ∨ msg.scode = 407 then
    match r.auth with
    | .authenticated =>
      let (s, err) := s.reinvite false r.request
      if err.isSome then s.finish err r.request else s
    | .eauth => s.finish none r.request
    | .failed err => s.finish (some err) r.request
  else if msg.scode = 408 ∨ msg.scode = 481 then s.terminate none (some msg.scode)
  else if msg.scode = 491 then { s with tmr := some (if s.owner then 3000 else 1000) }
  else if msg.scode = 500 then
    match msg.retryAfter with
    | none => s.finish none r.request
    | some delay => { s with tmr := some (delay * 1000).toNat }
  else s.finish none r.request

def reinviteRespHandler (s : Sipsess) (err : Option Errno) (msg : Response) (r : Results) : Sipsess :=
  let (loops, ls) := if err.isSome then (false, s.ls) else requestLoops s.ls msg.scode
  let s := { s with ls := ls }
  if err.isSome then s.finish err r.request
  else if loops then s.finish none r.request
  else if msg.scode < 200 then s
  else if msg.scode < 300 then s.reinviteSuccess r
  else s.reinviteFailure msg r

def ackHandler (s : Sipsess) (seq : BitVec 32) (r : Results) : Sipsess :=
  match replyAck seq s.replyl with
  | none => s
  | some (reply, replyl) =>
    let s := { s with replyl := replyl }
    let (s, err) :=
      if reply.awaitingAnswer then ({ s with awaitingAnswer := false }.say (.answered r.answer), r.answer) else (s, none)
    let s := if s.modifyPending && s.replyl.isEmpty then (s.reinvite true r.request).1 else s
    if s.established then s
    else
      let s := { s with msg := none, established := true }
      if err.isSome then s.terminate (err.map .err) none else s.say .established

def reinviteHandler (s : Sipsess) (msg : InMsg) (rseqValid : Bool) (r : Results) : Sipsess :=
  if !rseqValid then s.say (.reply 500)
  else if s.st || s.awaitingAnswer then s.say (.reply 500)
  else if s.req.isSome then s.say (.reply 491)
  else
    match r.offer with
    | .error _ => s.say (.reply 488)
    | .ok desc =>
      let s := (s.say (.offered none)).reply2xx msg 200 desc r.reply
      { s with desc := none, modifyPending := false, tmr := none }

/-- The timer of the reply at this place. -/
def replyTimeout (s : Sipsess) (n : Nat) : Sipsess :=
  if s.replyl.length ≤ n then s
  else
    let s := { s with replyl := s.replyl.eraseIdx n }
    if !s.replyl.isEmpty then s
    else { s with established := true }.terminate (some (.err .ETIMEDOUT)) none

/-- What a reply that is not a 2xx leaves of the transaction. -/
def treply (s : Sipsess) (scode : Nat) (r : Results) : Sipsess :=
  if r.reply.isSome then { s with st := r.left } else { s with st := decide (scode < 200) }.say (.reply scode)

def progress (s : Sipsess) (scode : Nat) (r : Results) : Sipsess × Option Errno :=
  if !s.st || s.msg.isNone || decide (scode < 101 ∨ scode > 199) then (s, some .EINVAL)
  else (s.treply scode r, r.reply)

def answer (s : Sipsess) (scode : Nat) (desc : Option Desc) (r : Results) : Sipsess × Option Errno :=
  match s.msg with
  | none => (s, some .EINVAL)
  | some msg =>
    if !s.st || decide (scode < 200 ∨ scode > 299) then (s, some .EINVAL)
    else (s.reply2xx msg scode desc r.reply, r.reply)

def reject (s : Sipsess) (scode : Nat) (r : Results) : Sipsess × Option Errno :=
  if !s.st || s.msg.isNone || decide (scode < 300) then (s, some .EINVAL)
  else (s.treply scode r, r.reply)

def byeHandler (s : Sipsess) (rseqValid : Bool) : Sipsess :=
  if !rseqValid then s.say (.reply 500)
  else
    let s := s.say (.reply 200)
    let s := if s.st then { s with st := false }.say (.reply 487) else s
    s.terminate (some .ECONNRESET) none

def cancelHandler (s : Sipsess) : Sipsess :=
  ({ s with st := false }.say (.reply 487)).terminate (some .ECONNRESET) none

end Sipsess

def sipsessConnect (desc : Option Desc) (r : Results) : Except Errno Sipsess :=
  let s : Sipsess := ⟨⟨none, none, [], false⟩, .reset, none, desc, true, false, false, false, false, false, []⟩
  match r.request with
  | some err => .error err
  | none => .ok (s.invite none)

def sipsessAccept (msg : InMsg) (scode : Nat) (desc : Option Desc) (r : Results) : Except Errno Sipsess :=
  if scode < 101 ∨ scode > 299 then .error .EINVAL
  else
    let s : Sipsess := ⟨⟨none, none, [], true⟩, .reset, some msg, none, false, false, false, false, false, false, []⟩
    match r.reply with
    | some err => .error err
    | none => .ok (if scode ≥ 200 then s.reply2xx msg scode desc none else s.treply scode r)

inductive Start
  | connect (desc : Option Desc) (r : Results)
  | accept (msg : InMsg) (scode : Nat) (desc : Option Desc) (r : Results)

def start : Start → Except Errno Sipsess
  | .connect desc r => sipsessConnect desc r
  | .accept msg scode desc r => sipsessAccept msg scode desc r

/-- `hangup` is that the owner releases the session. A response is one to the outstanding INVITE. -/
inductive Event
  | response (err : Option Errno) (msg : Response) (r : Results)
  | timer (r : Results)
  | modify (desc : Option Desc) (r : Results)
  | progress (scode : Nat) (r : Results)
  | answer (scode : Nat) (desc : Option Desc) (r : Results)
  | reject (scode : Nat) (r : Results)
  | hangup
  | ack (seq : BitVec 32) (r : Results)
  | reinvite (msg : InMsg) (rseqValid : Bool) (r : Results)
  | replyTimeout (n : Nat)
  | bye (rseqValid : Bool)
  | cancel

/-- The request layer takes back `req` before it reports a final outcome. -/
def Sipsess.response (s : Sipsess) (err : Option Errno) (msg : Response) (r : Results) : Sipsess :=
  let final := err.isSome || decide (200 ≤ msg.scode)
  match s.req with
  | none => s
  | some .invite => { s with req := if final then none else s.req }.inviteRespHandler err msg r
  | some .reinvite => { s with req := if final then none else s.req }.reinviteRespHandler err msg r

/-- The handlers test `terminated` where they would go on; here a terminated session does nothing, since it
    stays terminated and takes no part in an exchange. -/
def step (s : Sipsess) (event : Event) : Sipsess :=
  if s.terminated then s
  else
    match event with
    | .response err msg r => s.response err msg r
    | .timer r => if s.tmr.isSome then ({ s with tmr := none }.reinvite true r.request).1 else s
    | .modify desc r => (s.modify desc r.request).1
    | .progress scode r => (s.progress scode r).1
    | .answer scode desc r => (s.answer scode desc r).1
    | .reject scode r => (s.reject scode r).1
    | .hangup => s.termwait
    | .ack seq r => s.ackHandler seq r
    | .reinvite msg rseqValid r => s.reinviteHandler msg rseqValid r
    | .replyTimeout n => s.replyTimeout n
    | .bye rseqValid => s.byeHandler rseqValid
    | .cancel => if s.st then s.cancelHandler else s

def run (s : Sipsess) (events : List Event) : Sipsess := events.foldl step s

end Baresip.Sess
