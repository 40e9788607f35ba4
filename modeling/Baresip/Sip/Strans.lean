import Baresip.Re.Regex
import Mathlib.Algebra.Ring.Nat

set_option linter.dupNamespace false

namespace Baresip.Sip

open Re

def t1 : Nat := 500
def t2 : Nat := 4000
def t4 : Nat := 5000

def ACK : List Byte := ascii "ACK"
def CANCEL : List Byte := ascii "CANCEL"
def INVITE : List Byte := ascii "INVITE"

/-- What a server transaction reads of a request; `reliable` is that of its transport. -/
structure Request where
  met : List Byte
  ruri : List Byte
  branch : List Byte
  sentby : List Byte
  callid : List Byte
  fromTag : List Byte
  toTag : List Byte
  cseqMet : List Byte
  cseqNum : BitVec 32
  reliable : Bool
  deriving DecidableEq, Repr

inductive StransState
  | trying | proceeding | accepted | completed | confirmed
  deriving DecidableEq, Repr

/-- `owned` is that the upper layer still has its pointer; `replies` are the responses it has sent. -/
structure Strans (A : Type) where
  id : Nat
  msg : Request
  mb : List Byte
  dst : Option A
  state : StransState
  txc : Nat
  invite : Bool
  tmr : Option Nat
  tmrg : Option Nat
  owned : Bool
  replies : List (Nat × List Byte)
  deriving DecidableEq, Repr

/-- The transactions, the oldest first. Both hash tables keep this order in their buckets, and what is looked
    up in one has the same branch, or the same Call-ID, as the one it is compared with. -/
structure Transactions (A : Type) where
  strans : List (Strans A)
  next : Nat
  deriving DecidableEq, Repr

inductive Sent (A : Type)
  | passed (msg : Request)
  | response (id : Nat) (dst : Option A) (mb : List Byte)
  | reply (scode : Nat)
  | cancelled (id : Nat)
  deriving DecidableEq, Repr

def stransCmp (msg1 msg2 : Request) : Bool := msg1.branch == msg2.branch && msg1.sentby == msg2.sentby

def cmpHandler (msg1 msg2 : Request) : Bool := stransCmp msg1 msg2 && msg1.cseqMet == msg2.cseqMet

def cmpAckHandler (msg1 msg2 : Request) : Bool := stransCmp msg1 msg2 && msg1.cseqMet == INVITE

def cmpCancelHandler (msg1 msg2 : Request) : Bool := stransCmp msg1 msg2 && !(msg1.cseqMet == CANCEL)

def cmpMergeHandler (msg1 msg2 : Request) : Bool :=
  msg1.cseqMet == msg2.cseqMet && msg1.cseqNum == msg2.cseqNum && msg1.callid == msg2.callid &&
    msg1.fromTag == msg2.fromTag && msg1.ruri == msg2.ruri

section
variable {A : Type}

namespace Transactions

def find (s : Transactions A) (cmp : Request → Request → Bool) (msg : Request) : Option (Strans A) :=
  s.strans.find? fun st => cmp st.msg msg

def modify (s : Transactions A) (id : Nat) (f : Strans A → Strans A) : Transactions A :=
  { s with strans := s.strans.map fun st => if st.id = id then f st else st }

/-- `mem_deref` of a transaction, which also stops its timers. -/
def remove (s : Transactions A) (id : Nat) : Transactions A :=
  { s with strans := s.strans.filter fun st => st.id ≠ id }

end Transactions

def ackHandler (s : Transactions A) (msg : Request) : Transactions A × Bool :=
  match s.find cmpAckHandler msg with
  | none => (s, false)
  | some st =>
    match st.state with
    | .accepted => (s, false)
    | .completed =>
      if st.msg.reliable then (s.remove st.id, true)
      else (s.modify st.id fun st => { st with tmr := some t4, tmrg := none, state := .confirmed }, true)
    | _ => (s, true)

def cancelHandler (s : Transactions A) (msg : Request) : List (Sent A) × Bool :=
  match s.find cmpCancelHandler msg with
  | none => ([], false)
  | some st =>
    match st.state with
    | .trying | .proceeding => ([.reply 200, .cancelled st.id], true)
    | _ => ([.reply 200], true)

def requestHandler (s : Transactions A) (msg : Request) : Transactions A × List (Sent A) × Bool :=
  if msg.met = ACK then
    let (s, handled) := ackHandler s msg
    (s, [], handled)
  else
    match s.find cmpHandler msg with
    | some st =>
      match st.state with
      | .proceeding | .completed => (s, [.response st.id st.dst st.mb], true)
      | _ => (s, [], true)
    | none =>
      if msg.toTag = [] ∧ (s.find cmpMergeHandler msg).isSome then (s, [.reply 482], true)
      else if msg.met = CANCEL then
        let (sent, handled) := cancelHandler s msg
        (s, sent, handled)
      else (s, [], false)

def stransAlloc (s : Transactions A) (msg : Request) : Transactions A :=
  { strans := s.strans ++ [⟨s.next, msg, [], none, .trying, 0, decide (msg.met = INVITE), none, none, true, []⟩]
    next := s.next + 1 }

/-- `sip_strans_reply` on a transaction of the upper layer: what is left of it once `sip_send` returned `err`. -/
def stransReply (st : Strans A) (dst : A) (scode : Nat) (mb : List Byte) (err : Option Errno) :
    Option (Strans A) :=
  let st := { st with mb := mb, dst := some dst, owned := decide (scode < 200),
                      replies := st.replies ++ [(scode, mb)] }
  if err.isSome then none
  else if st.invite then
    if scode < 200 then some { st with state := .proceeding }
    else if scode < 300 then some { st with tmr := some (64 * t1), state := .accepted }
    else some { st with tmr := some (64 * t1), state := .completed,
                        tmrg := if st.msg.reliable then st.tmrg else some t1 }
  else if scode < 200 then some { st with state := .proceeding }
  else if !st.msg.reliable then some { st with tmr := some (64 * t1), state := .completed }
  else none

def retransmitHandler (st : Strans A) : Strans A :=
  { st with txc := st.txc + 1, tmrg := some (min (t1 * 2 ^ (st.txc + 1)) t2) }

/-- `take` is that the upper layer opens a transaction for the request when it is passed on to it; it opens none
    for an ACK, to which it does not reply. -/
inductive StransEvent (A : Type)
  | request (msg : Request) (take : Bool)
  | reply (id : Nat) (dst : A) (scode : Nat) (mb : List Byte) (err : Option Errno)
  | timer (id : Nat)
  | retransmit (id : Nat)
  | release (id : Nat)
  deriving DecidableEq, Repr

def Transactions.has (s : Transactions A) (id : Nat) (p : Strans A → Bool) : Option (Strans A) :=
  s.strans.find? fun st => decide (st.id = id) && p st

def stransStep (s : Transactions A) : StransEvent A → Transactions A × List (Sent A)
  | .request msg take =>
    let (s, sent, handled) := requestHandler s msg
    if handled then (s, sent)
    else (if take = true ∧ msg.met ≠ ACK then stransAlloc s msg else s, sent ++ [.passed msg])
  | .reply id dst scode mb err =>
    match s.has id Strans.owned with
    | none => (s, [])
    | some st =>
      match stransReply st dst scode mb err with
      | some st' => (s.modify id fun _ => st', [.response id (some dst) mb])
      | none => (s.remove id, [.response id (some dst) mb])
  | .timer id =>
    match s.has id fun st => st.tmr.isSome with
    | none => (s, [])
    | some _ => (s.remove id, [])
  | .retransmit id =>
    match s.has id fun st => st.tmrg.isSome with
    | none => (s, [])
    | some st => (s.modify id retransmitHandler, [.response id st.dst st.mb])
  | .release id =>
    match s.has id Strans.owned with
    | none => (s, [])
    | some _ => (s.remove id, [])

def stransRun (events : List (StransEvent A)) : Transactions A :=
  events.foldl (fun s event => (stransStep s event).1) ⟨[], 0⟩

end

end Baresip.Sip
