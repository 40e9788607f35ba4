import Baresip.Sip.Strans

set_option linter.dupNamespace false

namespace Baresip.Sip.Client

open Re

inductive Transp
  | udp | tcp | tls
  deriving DecidableEq, Repr

inductive RequestErr
  | errno (err : Errno)
  | EPROTONOSUPPORT
  | EDESTADDRREQ
  | ECONNABORTED
  deriving DecidableEq, Repr

/-- An SRV record; `cached` are the addresses that came along for its target. -/
structure Srv (A : Type) where
  port : BitVec 16
  cached : List A
  deriving DecidableEq, Repr

/-- A NAPTR record; `srvl` are the SRV records that came along for its replacement. -/
structure Naptr (A : Type) where
  service : Option Transp
  srvl : List (Srv A)
  deriving DecidableEq, Repr

inductive Query
  | naptr | srv | addr
  deriving DecidableEq, Repr

inductive CtransState
  | trying | calling | proceeding | completed
  deriving DecidableEq, Repr

structure Ctrans where
  state : CtransState
  invite : Bool
  reliable : Bool
  txc : Nat
  tmr : Option Nat
  tmre : Option Nat
  deriving DecidableEq, Repr

/-- What is seen of a request. `received` is a response that a transaction passes to the request, `completed`
    the end of the request, whether or not the owner is still told of it. -/
inductive Out (A : Type)
  | transmitted (id : Nat) (tp : Transp) (addr : A) (port : BitVec 16)
  | retransmitted (id : Nat)
  | ack (id : Nat)
  | cancel (id : Nat) (err : Option RequestErr)
  | received (id : Nat) (scode : Nat)
  | canceled
  | released
  | resph (err : Option RequestErr) (scode : Option Nat)
  | completed
  deriving DecidableEq, Repr

/-- A stateful request with its client transactions, one for each destination it was handed to. `owned` is that
    the owner has a pointer to it. -/
structure SipRequest (A : Type) where
  invite : Bool
  ct : Option Nat
  ctrans : Nat → Option Ctrans
  next : Nat
  addrl : List A
  srvl : List (Srv A)
  dnsq : Option Query
  dnsq2 : Bool
  tp : Transp
  tpSelected : Bool
  port : BitVec 16
  canceled : Bool
  provrecv : Bool
  resph : Bool
  owned : Bool
  completed : Bool
  log : List (Out A)

/-- What the other layers return during one event: `send` to the attempts to transmit in their order, `query`
    and `query2` to the DNS queries of `dnsq` and `dnsq2`, `resend` to a retransmission. -/
structure Env where
  send : Nat → Option RequestErr
  query : Option RequestErr
  query2 : Option RequestErr
  resend : Option RequestErr
  cancel : Option RequestErr

structure Config where
  supported : Transp → Bool
  supported4 : Transp → Bool
  supported6 : Transp → Bool

def transpNext (cfg : Config) : Option Transp → Option Transp
  | none => [.udp, .tcp, .tls].find? cfg.supported
  | some .udp => [.tcp, .tls].find? cfg.supported
  | some .tcp => [.tls].find? cfg.supported
  | some .tls => none

def transpPort (tp : Transp) (port : BitVec 16) : BitVec 16 :=
  if port ≠ 0 then port
  else
    match tp with
    | .udp | .tcp => 5060
    | .tls => 5061

def Transp.reliable : Transp → Bool
  | .udp => false
  | _ => true

section
variable {A : Type}

namespace SipRequest

def say (r : SipRequest A) (out : Out A) : SipRequest A := { r with log := r.log ++ [out] }

def setCtrans (r : SipRequest A) (id : Nat) (c : Option Ctrans) : SipRequest A :=
  { r with ctrans := fun k => if k = id then c else r.ctrans k }

/-- The transaction that `sip_ctrans_request` allocates. -/
def allocCtrans (r : SipRequest A) : Ctrans :=
  ⟨if r.invite then .calling else .trying, r.invite, r.tp.reliable, 0, some (64 * t1),
    if r.tp.reliable then none else some t1⟩

def request (r : SipRequest A) (env : Env) (n : Nat) (addr : A) (port : BitVec 16) :
    SipRequest A × Option RequestErr :=
  let r := { r with provrecv := false }
  match env.send n with
  | some err => (r, some err)
  | none =>
    (({ r with ct := some r.next, next := r.next + 1 }.setCtrans r.next (some r.allocCtrans)).say
      (.transmitted r.next r.tp addr port), none)

def addrLookup (r : SipRequest A) (cfg : Config) (env : Env) : SipRequest A × Option RequestErr :=
  if cfg.supported4 r.tp ∧ env.query.isSome then (r, env.query)
  else
    let r := if cfg.supported4 r.tp then { r with dnsq := some .addr } else r
    if cfg.supported6 r.tp ∧ env.query2.isSome then (r, env.query2)
    else
      let r := if cfg.supported6 r.tp then { r with dnsq2 := true } else r
      if r.dnsq.isNone && !r.dnsq2 then (r, some .EPROTONOSUPPORT) else (r, none)

/-- The addresses at hand one after the other; `next` goes on when none of them is left. -/
def requestAddrs (env : Env) (srvl : List (Srv A)) (next : Nat → SipRequest A → SipRequest A × Option RequestErr) :
    List A → Nat → SipRequest A → SipRequest A × Option RequestErr
  | [], n, r => next n r
  | addr :: addrl, n, r =>
    let (r, err) := { r with addrl := addrl }.request env n addr r.port
    if err.isSome && (!addrl.isEmpty || !srvl.isEmpty) then requestAddrs env srvl next addrl (n + 1) r
    else (r, err)

def requestSrvs (cfg : Config) (env : Env) : List (Srv A) → Nat → SipRequest A → SipRequest A × Option RequestErr
  | [], _, r => (r, some (.errno .ENOENT))
  | srv :: srvl, n, r =>
    let r := { r with port := srv.port, srvl := srvl }
    if srv.cached.isEmpty then r.addrLookup cfg env
    else requestAddrs env srvl (requestSrvs cfg env srvl) srv.cached n r

def requestNext (r : SipRequest A) (cfg : Config) (env : Env) : SipRequest A × Option RequestErr :=
  requestAddrs env r.srvl (requestSrvs cfg env r.srvl) r.addrl 0 r

/-- `terminate`, with the `mem_deref` of the request that follows it everywhere. -/
def terminate (r : SipRequest A) (err : Option RequestErr) (scode : Option Nat) : SipRequest A :=
  let r := { r with owned := false }
  let r := if r.resph then r.say (.resph err scode) else r
  { r with resph := false, completed := true, addrl := [], srvl := [], dnsq := none, dnsq2 := false }.say .completed

def ctransCancel (r : SipRequest A) (env : Env) : SipRequest A :=
  match r.ct with
  | none => r
  | some id =>
    match r.ctrans id with
    | none => r
    | some c =>
      if !c.invite then r
      else if c.state = .proceeding then
        (r.setCtrans id (some { c with tmr := some (64 * t1) })).say (.cancel id env.cancel)
      else r

/-- A 1xx response. -/
def provisional (r : SipRequest A) (env : Env) (scode : Nat) : SipRequest A :=
  let r :=
    if r.provrecv then r
    else
      let r := { r with provrecv := true }
      if r.canceled then r.ctransCancel env else r
  if r.resph then r.say (.resph none (some scode)) else r

/-- An error of the transaction, or its final response. -/
def outcome (r : SipRequest A) (cfg : Config) (env : Env) (err : Option RequestErr) (scode : Option Nat) :
    SipRequest A :=
  let r := { r with ct := none }
  if !r.canceled && (err.isSome || scode == some 503) && (!r.addrl.isEmpty || !r.srvl.isEmpty) then
    let (r, err) := r.requestNext cfg env
    if err.isNone then r else r.terminate err scode
  else r.terminate err scode

/-- `response_handler` of a request, for a response. -/
def pass (r : SipRequest A) (cfg : Config) (env : Env) (id scode : Nat) : SipRequest A :=
  let r := r.say (.received id scode)
  if scode < 200 then r.provisional env scode else r.outcome cfg env none (some scode)

/-- A transaction that ends here is taken out of the table, or goes to COMPLETED with its timer, before the
    request is told; the source does so after it, and nothing looks at it in between. -/
def inviteResponse (r : SipRequest A) (cfg : Config) (env : Env) (id : Nat) (c : Ctrans) (scode : Nat) :
    SipRequest A :=
  if c.state = .calling ∨ c.state = .proceeding then
    let c := if c.state = .calling then { c with tmr := none, tmre := none } else c
    if scode < 200 then (r.setCtrans id (some { c with state := .proceeding })).pass cfg env id scode
    else if scode < 300 then (r.setCtrans id none).pass cfg env id scode
    else
      let kept := if c.reliable then none else some { c with state := .completed, tmr := some 32000 }
      ((r.setCtrans id kept).say (.ack id)).pass cfg env id scode
  else if c.state = .completed then
    if scode < 300 then r else r.say (.ack id)
  else r

/-- A response to another request than an INVITE. -/
def otherResponse (r : SipRequest A) (cfg : Config) (env : Env) (id : Nat) (c : Ctrans) (scode : Nat) :
    SipRequest A :=
  if c.state = .trying ∨ c.state = .proceeding then
    if scode < 200 then (r.setCtrans id (some { c with state := .proceeding })).pass cfg env id scode
    else
      let kept := if c.reliable then none else some { c with state := .completed, tmr := some t4, tmre := none }
      (r.setCtrans id kept).pass cfg env id scode
  else r

/-- `terminate` of a transaction, with the `mem_deref` that follows it. -/
def endCtrans (r : SipRequest A) (cfg : Config) (env : Env) (id : Nat) (c : Ctrans) (err : RequestErr) :
    SipRequest A :=
  let r := r.setCtrans id none
  if c.state = .completed then r else r.outcome cfg env (some err) none

def retransmitHandler (r : SipRequest A) (cfg : Config) (env : Env) (id : Nat) (c : Ctrans) : SipRequest A :=
  let c := { c with txc := c.txc + 1, tmre := none }
  if c.state = .completed then r.setCtrans id (some c)
  else
    let timeout :=
      if c.state = .trying then min (t1 * 2 ^ c.txc) t2 else if c.state = .calling then t1 * 2 ^ c.txc else t2
    let c := { c with tmre := some timeout }
    let r := r.setCtrans id (some c)
    match env.resend with
    | none => r.say (.retransmitted id)
    | some err => r.endCtrans cfg env id c err

def fail (r : SipRequest A) (err : Option RequestErr) : SipRequest A := r.terminate err none

/-- The end of a DNS handler: an error ends the request. -/
def orFail (res : SipRequest A × Option RequestErr) : SipRequest A :=
  if res.2.isSome then res.1.fail res.2 else res.1

def srvLookup (r : SipRequest A) (env : Env) : SipRequest A × Option RequestErr :=
  if env.query.isSome then (r, env.query) else ({ r with dnsq := some .srv }, none)

def naptrHandler (r : SipRequest A) (cfg : Config) (env : Env) (rrs : List (Naptr A)) : SipRequest A :=
  match rrs.find? fun rr => rr.service.any cfg.supported with
  | none => orFail (r.srvLookup env)
  | some rr =>
    let r := { r with tp := rr.service.getD r.tp, tpSelected := true, srvl := r.srvl ++ rr.srvl }
    if r.srvl.isEmpty then orFail (r.srvLookup env) else orFail (r.requestNext cfg env)

def srvHandler (r : SipRequest A) (cfg : Config) (env : Env) (ansl : List (Srv A)) : SipRequest A :=
  let r := { r with srvl := r.srvl ++ ansl }
  if !r.srvl.isEmpty then orFail (r.requestNext cfg env)
  else if r.tpSelected then orFail ({ r with port := transpPort r.tp 0 }.addrLookup cfg env)
  else
    match transpNext cfg (some r.tp) with
    | some tp => orFail ({ r with tp := tp }.srvLookup env)
    | none =>
      match transpNext cfg none with
      | none => r.fail (some .EPROTONOSUPPORT)
      | some tp => orFail ({ r with tp := tp, port := transpPort tp 0 }.addrLookup cfg env)

def addrHandler (r : SipRequest A) (cfg : Config) (env : Env) (err : Option RequestErr) (ansl : List A) :
    SipRequest A :=
  let r := { r with addrl := r.addrl ++ ansl }
  if r.dnsq.isSome || r.dnsq2 then r
  else if r.addrl.isEmpty && r.srvl.isEmpty then r.fail (some (err.getD .EDESTADDRREQ))
  else orFail (r.requestNext cfg env)

/-- `sip_request_cancel`. -/
def cancel (r : SipRequest A) (env : Env) : SipRequest A :=
  if r.canceled then r
  else
    let r := { r with canceled := true }.say .canceled
    if !r.provrecv then r else r.ctransCancel env

/-- `mem_deref` by the owner before the request has completed. -/
def release (r : SipRequest A) (env : Env) : SipRequest A :=
  ({ r with owned := false, resph := false }.say .released).cancel env

def closeHandler (r : SipRequest A) : SipRequest A :=
  let r := { r with ctrans := fun k => if r.ct = some k then none else r.ctrans k, ct := none }
  r.terminate (some .ECONNABORTED) none

end SipRequest

/-- The route that a request is started with: its transport parameter (`some none` for an unknown one), its
    host when that is an address, and its port. -/
structure Route (A : Type) where
  transp : Option (Option Transp)
  numeric : Option A
  port : BitVec 16
  deriving DecidableEq, Repr

def sipRequest (cfg : Config) (env : Env) (invite : Bool) (route : Route A) : Except RequestErr (SipRequest A) :=
  let selected := if route.transp.isSome then (route.transp.join).filter cfg.supported else transpNext cfg none
  match selected with
  | none => .error .EPROTONOSUPPORT
  | some tp =>
    let r : SipRequest A := ⟨invite, none, fun _ => none, 0, [], [], none, false, tp, route.transp.isSome, 0,
      false, false, true, false, false, []⟩
    let (r, err) :=
      match route.numeric with
      | some addr => r.request env 0 addr (transpPort tp route.port)
      | none =>
        if route.port ≠ 0 then { r with port := transpPort tp route.port }.addrLookup cfg env
        else if r.tpSelected then r.srvLookup env
        else if env.query.isSome then (r, env.query)
        else ({ r with dnsq := some .naptr }, none)
    err.elim (.ok { r with owned := true }) .error

inductive Event (A : Type)
  | naptr (rrs : List (Naptr A)) (env : Env)
  | srv (ansl : List (Srv A)) (env : Env)
  | addr (second : Bool) (err : Option RequestErr) (ansl : List A) (env : Env)
  | response (id scode : Nat) (env : Env)
  | timer (id : Nat) (env : Env)
  | retransmit (id : Nat) (env : Env)
  | transport (id : Nat) (err : RequestErr) (env : Env)
  | cancel (env : Env)
  | release (env : Env)
  | close

def response (cfg : Config) (env : Env) (r : SipRequest A) (id scode : Nat) (c : Ctrans) : SipRequest A :=
  if c.invite then r.inviteResponse cfg env id c scode else r.otherResponse cfg env id c scode

def onCtrans (r : SipRequest A) (id : Nat) (f : Ctrans → SipRequest A) : SipRequest A :=
  (r.ctrans id).elim r f

def step (cfg : Config) (r : SipRequest A) : Event A → SipRequest A
  | .naptr rrs env => if r.dnsq = some .naptr then { r with dnsq := none }.naptrHandler cfg env rrs else r
  | .srv ansl env => if r.dnsq = some .srv then { r with dnsq := none }.srvHandler cfg env ansl else r
  | .addr false err ansl env =>
    if r.dnsq = some .addr then { r with dnsq := none }.addrHandler cfg env err ansl else r
  | .addr true err ansl env => if r.dnsq2 then { r with dnsq2 := false }.addrHandler cfg env err ansl else r
  | .response id scode env => onCtrans r id (response cfg env r id scode)
  | .timer id env =>
    onCtrans r id fun c => if c.tmr.isSome then r.endCtrans cfg env id c (.errno .ETIMEDOUT) else r
  | .retransmit id env => onCtrans r id fun c => if c.tmre.isSome then r.retransmitHandler cfg env id c else r
  | .transport id err env => onCtrans r id fun c => r.endCtrans cfg env id c err
  | .cancel env => if r.owned then r.cancel env else r
  | .release env => if r.owned then r.release env else r
  | .close => if r.completed then r else r.closeHandler

def run (cfg : Config) (r : SipRequest A) (events : List (Event A)) : SipRequest A := events.foldl (step cfg) r

end

end Baresip.Sip.Client
