import Baresip.Turn.Client

set_option linter.dupNamespace false

namespace Baresip.Turn

open Re Library

def CHAN_LIFETIME : Nat := 600
def CHAN_REFRESH : Nat := 250
def CHAN_NUMB_MIN : BitVec 16 := 0x4000
def CHAN_NUMB_MAX : BitVec 16 := 0x7fff

/-- `ct` says that a ChannelBind request is pending, `ch` that the channel's handler is still to be called. -/
structure Chan where
  ls : LoopState
  nr : BitVec 16
  peer : Sa
  tmr : Option Nat
  ct : Bool
  ch : Bool
  deriving DecidableEq, Repr

structure ChanbindRequest where
  dst : Sa
  key : Option (List Byte)
  channelNumber : BitVec 16
  xorPeerAddr : Sa
  username : Option (List Byte)
  realm : Option (List Byte)
  nonce : Option (List Byte)
  deriving DecidableEq, Repr

/-- How a payload leaves. -/
inductive Sending
  | channelData (nr : BitVec 16)
  | indication
  | noHeadroom
  deriving DecidableEq, Repr

inductive TurnErr
  | ERANGE | EAFNOSUPPORT
  | errno (err : Errno)
  deriving DecidableEq, Repr

inductive ChanEvent
  | requested (request : ChanbindRequest)
  | confirmed (nr : BitVec 16) (peer : Sa) (time : Nat)
  | established (nr : BitVec 16)
  | handled (err : Option TurnErr) (scode : Nat)
  | sent (peer : Sa) (sending : Sending) (time : Nat)
  deriving DecidableEq, Repr

/-- The channels of a client in the order in which they were added, which is the order of the entries of each of the
    two tables. -/
structure Channels where
  turnc : Turnc
  chans : List Chan
  nr : BitVec 16
  now : Nat
  events : List ChanEvent
  deriving DecidableEq, Repr

def CHAN_HDR_SIZE : Nat := 4

/-- `stun_indlen` -/
def stunIndlen : Sa → Nat
  | .unspec => 20 + 4 * 2
  | .inet _ _ => 20 + 4 * 2 + 8
  | .inet6 _ _ => 20 + 4 * 2 + 20

namespace Channels

variable (md5 : List Byte → List Byte) (c : Channels)

/-- `turnc_chan_find_numb` -/
def findNumb (nr : BitVec 16) : Option Chan := c.chans.find? fun chan => chan.nr == nr

/-- `turnc_chan_find_peer` -/
def findPeer (peer : Sa) : Option Chan := c.chans.find? fun chan => chan.peer.cmp peer .all

def change (nr : BitVec 16) (f : Chan → Chan) : Channels :=
  { c with chans := c.chans.map fun chan => if chan.nr = nr then f chan else chan }

def log (event : ChanEvent) : Channels := { c with events := event :: c.events }

def handler (err : Option TurnErr) (scode : Nat) : Channels := c.log (.handled err scode)

/-- The error of `stun_request`, which cannot encode an address of an unknown family; `sent` is the error of sending. -/
def requestErr (peer : Sa) (sent : Option Errno) : Option TurnErr :=
  if peer = .unspec then some .EAFNOSUPPORT else sent.map .errno

def chanbindMsg (nr : BitVec 16) (peer : Sa) : ChanbindRequest where
  dst := c.turnc.srv
  key := if c.turnc.realm.isSome then some c.turnc.md5Hash else none
  channelNumber := nr
  xorPeerAddr := peer
  username := if c.turnc.realm.isSome then some c.turnc.username else none
  realm := c.turnc.realm
  nonce := c.turnc.nonce

/-- `err` is what `stun_request` returns. -/
def chanbindRequest (nr : BitVec 16) (peer : Sa) (resetLs : Bool) (err : Option TurnErr) : Channels :=
  let c := c.change nr fun chan => { chan with ls := if resetLs then LoopState.reset else chan.ls, ct := err.isNone }
  if err.isNone then c.log (.requested (c.chanbindMsg nr peer)) else c

/-- `turnc_keygen` -/
def keygen (msg : Reply) : Option Channels :=
  match msg.realm, msg.nonce with
  | some realm, some nonce =>
    some { c with turnc.realm := some realm
                  turnc.nonce := some nonce
                  turnc.md5Hash := md5 (c.turnc.username ++ [58#8] ++ realm ++ [58#8] ++ c.turnc.password) }
  | _, _ => none

/-- A channel whose binding is confirmed. -/
def confirm (nr : BitVec 16) (peer : Sa) : Channels :=
  (c.log (.confirmed nr peer c.now)).change nr fun chan =>
    { chan with tmr := some (c.now + CHAN_REFRESH * 1000), ch := false }

/-- `chanbind_resp_handler` of a channel whose request was pending. -/
def chanbindRespHandler (chan : Chan) (err : Option Errno) (scode : Nat) (msg : Reply) (sent : Option Errno) :
    Channels :=
  if err.isSome then c.handler (err.map .errno) scode
  else
    let loops := (requestLoops chan.ls scode).1
    let c := c.change chan.nr fun other => { other with ls := (requestLoops chan.ls scode).2 }
    if loops then c.handler none scode
    else if scode = 0 then
      let c := c.confirm chan.nr chan.peer
      if chan.ch then c.log (.established chan.nr) else c
    else if scode = 401 ∨ scode = 438 then
      match c.keygen md5 msg with
      | none => c.handler (some (.errno .EPROTO)) scode
      | some c =>
        let err := requestErr chan.peer sent
        let c := c.chanbindRequest chan.nr chan.peer false err
        if err.isSome then c.handler err scode else c
    else c.handler none scode

/-- `timeout` of a channel -/
def timeout (chan : Chan) (sent : Option Errno) : Channels :=
  let err := requestErr chan.peer sent
  let c := c.chanbindRequest chan.nr chan.peer true err
  if err.isSome then c.handler err 0 else c

/-- `turnc_add_chan`, with the error that it returns. -/
def addChan (peer : Sa) (ch : Bool) (sent : Option Errno) : Option TurnErr × Channels :=
  if c.nr ≥ CHAN_NUMB_MAX then (some .ERANGE, c)
  else if (c.findPeer peer).isSome then (none, c)
  else
    let chan : Chan := { ls := LoopState.reset, nr := c.nr, peer := peer, tmr := none, ct := false, ch := ch }
    let added := { c with nr := c.nr + 1, chans := c.chans ++ [chan] }
    let err := requestErr peer sent
    if err.isSome then (err, { c with nr := c.nr + 1 })
    else (none, added.chanbindRequest c.nr peer true err)

/-- Which framing `turnc_send` and `udp_send_handler` choose for a payload with `pos` bytes of headroom. -/
def sending (dst : Sa) (pos : Nat) : Sending :=
  match c.findPeer dst with
  | some chan => if pos < CHAN_HDR_SIZE then .noHeadroom else .channelData chan.nr
  | none => if pos < stunIndlen dst then .noHeadroom else .indication

end Channels

/-- `client` is any other request of the client, which changes its server or its credentials. -/
inductive ChanAction
  | addChan (peer : Sa) (ch : Bool) (sent : Option Errno)
  | response (nr : BitVec 16) (err : Option Errno) (scode : Nat) (msg : Reply) (sent : Option Errno)
  | expiry (nr : BitVec 16) (sent : Option Errno)
  | send (peer : Sa) (pos : Nat)
  | elapse (ms : Nat)
  | client (turnc : Turnc)

namespace Channels

/-- The response to a channel's pending request. -/
def response (md5 : List Byte → List Byte) (c : Channels) (nr : BitVec 16) (err : Option Errno) (scode : Nat)
    (msg : Reply) (sent : Option Errno) : Channels :=
  match c.findNumb nr with
  | none => c
  | some chan =>
    if chan.ct then
      (c.change nr fun other => { other with ct := false }).chanbindRespHandler md5 chan err scode msg sent
    else c

/-- The refresh timer of a channel that is due. -/
def expiry (c : Channels) (nr : BitVec 16) (sent : Option Errno) : Channels :=
  match c.findNumb nr with
  | none => c
  | some chan =>
    if chan.tmr.any (· ≤ c.now) then (c.change nr fun other => { other with tmr := none }).timeout chan sent else c

def step (md5 : List Byte → List Byte) (c : Channels) : ChanAction → Channels
  | .addChan peer ch sent => (c.addChan peer ch sent).2
  | .response nr err scode msg sent => c.response md5 nr err scode msg sent
  | .expiry nr sent => c.expiry nr sent
  | .send peer pos => c.log (.sent peer (c.sending peer pos) c.now)
  | .elapse ms => { c with now := c.now + ms }
  | .client turnc => { c with turnc := turnc }

/-- `turnc_chan_hash_alloc` -/
def alloc (turnc : Turnc) : Channels := ⟨turnc, [], CHAN_NUMB_MIN, 0, []⟩

end Channels

end Baresip.Turn
