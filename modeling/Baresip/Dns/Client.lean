import Baresip.Dns.Framer
import Baresip.Re.Sa

set_option linter.dupNamespace false

namespace Baresip.Dns

open Re Library

def DNS_HEADER_SIZE : Nat := 12
def DNS_RCODE_OK : Nat := 0
def DNS_RCODE_SRV_FAIL : Nat := 2
def DNS_QTYPE_AXFR : BitVec 16 := 0x00fc
def NTX_MAX : Nat := 20
def SRVC_MAX : Nat := 32

structure Dnshdr where
  id : BitVec 16
  qr : Bool
  opcode : BitVec 4
  aa : Bool
  tc : Bool
  rd : Bool
  ra : Bool
  z : BitVec 3
  rcode : BitVec 4
  nq : BitVec 16
  nans : BitVec 16
  nauth : BitVec 16
  nadd : BitVec 16
  deriving DecidableEq, Repr

def Dnshdr.flags (hdr : Dnshdr) : BitVec 16 :=
  (BitVec.ofBool hdr.qr ++ hdr.opcode ++ BitVec.ofBool hdr.aa ++ BitVec.ofBool hdr.tc ++ BitVec.ofBool hdr.rd ++
    BitVec.ofBool hdr.ra ++ hdr.z ++ hdr.rcode)

def dnsHdrEncode (hdr : Dnshdr) (mb : Mbuf) : Mbuf :=
  (((((mb.writeMem (putBe 2 hdr.id.toNat)).writeMem (putBe 2 hdr.flags.toNat)).writeMem (putBe 2 hdr.nq.toNat)).writeMem
    (putBe 2 hdr.nans.toNat)).writeMem (putBe 2 hdr.nauth.toNat)).writeMem (putBe 2 hdr.nadd.toNat)

def dnsHdrDecode (mb : Mbuf) : Except Errno (Dnshdr × Mbuf) :=
  if mb.getLeft < DNS_HEADER_SIZE then .error .EINVAL
  else
    let (id, mb) := numDecode 2 mb
    let (flags, mb) := numDecode 2 mb
    let (nq, mb) := numDecode 2 mb
    let (nans, mb) := numDecode 2 mb
    let (nauth, mb) := numDecode 2 mb
    let (nadd, mb) := numDecode 2 mb
    let flags : BitVec 16 := .ofNat 16 flags
    .ok (⟨.ofNat 16 id, flags.getLsbD 15, flags.extractLsb' 11 4, flags.getLsbD 10, flags.getLsbD 9, flags.getLsbD 8,
      flags.getLsbD 7, flags.extractLsb' 4 3, flags.extractLsb' 0 4, .ofNat 16 nq, .ofNat 16 nans, .ofNat 16 nauth,
      .ofNat 16 nadd⟩, mb)

/-- The errors of the decoders and of the client, and those of a socket. -/
inductive DnsErr
  | errno (err : Errno)
  | ECONNREFUSED
  | socket (code : Nat)
  deriving DecidableEq, Repr

inductive Proto
  | udp | tcp
  deriving DecidableEq, Repr

/-- The answers, the authorities and the additional records of a reply. -/
structure RrLists where
  ansl : List Dnsrr
  authl : List Dnsrr
  addl : List Dnsrr
  deriving DecidableEq, Repr

/-- A query that has been allocated. `own` are the servers of its owner, and without them it uses those of the client;
    `tmr` is which handler its timer has, `qh` that its handler has not been called, and `qp` that the owner has a pointer
    to it. -/
structure DnsQuery where
  ref : Nat
  own : Option (List Sa)
  ntx : Nat
  id : BitVec 16
  opcode : BitVec 4
  type : BitVec 16
  dnsclass : BitVec 16
  name : List Byte
  tmr : Option Proto
  qh : Bool
  qp : Bool
  rrlv : RrLists
  deriving DecidableEq, Repr

/-- A connection to a server; `conn` is that it has not been closed. -/
structure Tcpconn where
  ref : Nat
  srv : Sa
  conn : Bool
  connected : Bool
  flen : BitVec 16
  mb : Mbuf
  deriving DecidableEq, Repr

/-- Who sends a query: `query`, whose caller may want a pointer to it, or a handler for a query that has been started. -/
inductive Sender
  | query (qp : Bool)
  | handler
  deriving DecidableEq, Repr

/-- Where a function stands that has called another one or is in its loop: `tcpconn_close` with the queries of a
    connection, `send_tcp` and `send_udp` in front of the next server, and who called them with what they returned.
    `tries` is how many servers `send_udp` has tried. -/
inductive Frame
  | close (tc : Nat) (err : Option DnsErr)
  | sendTcp (q : Nat) (err : Option DnsErr) (sender : Sender)
  | sendUdp (q tries : Nat) (err : Option DnsErr) (sender : Sender)
  | sent (proto : Proto) (q tries : Nat) (err : Option DnsErr) (sender : Sender)
  deriving DecidableEq, Repr

/-- What the owner of a query sees of it, with the expiries of its timer. `refused` is that `query` returned an
    error. -/
inductive Out
  | called (q : Nat) (err : Option DnsErr) (reply : Option (Dnshdr × RrLists))
  | cancelled (q : Nat)
  | refused (q : Nat) (err : DnsErr)
  | released (q : Nat)
  | expired (q : Nat)
  deriving DecidableEq, Repr

/-- The client. `links` are the queries of the connections, in the order in which they were added. -/
structure Dnsc where
  srvv : List Sa
  queries : List DnsQuery
  tcpconns : List Tcpconn
  links : List (Nat × Nat)
  stack : List Frame
  nextQuery : Nat
  nextTcpconn : Nat
  log : List Out
  deriving DecidableEq, Repr

namespace Dnsc

def emit (s : Dnsc) (out : Out) : Dnsc := { s with log := s.log ++ [out] }

def query? (s : Dnsc) (q : Nat) : Option DnsQuery := s.queries.find? fun x => x.ref = q

def tcpconn? (s : Dnsc) (tc : Nat) : Option Tcpconn := s.tcpconns.find? fun x => x.ref = tc

def updateQuery (s : Dnsc) (q : Nat) (f : DnsQuery → DnsQuery) : Dnsc :=
  { s with queries := s.queries.map fun x => if x.ref = q then f x else x }

def updateTcpconn (s : Dnsc) (tc : Nat) (f : Tcpconn → Tcpconn) : Dnsc :=
  { s with tcpconns := s.tcpconns.map fun x => if x.ref = tc then f x else x }

def unlink (s : Dnsc) (q : Nat) : Dnsc := { s with links := s.links.filter fun link => link.2 ≠ q }

def push (s : Dnsc) (frame : Frame) : Dnsc := { s with stack := frame :: s.stack }

/-- `q->srvv` and `q->srvc`. -/
def servers (s : Dnsc) (x : DnsQuery) : List Sa := x.own.getD s.srvv

end Dnsc

def DnsQuery.startTmr (x : DnsQuery) (proto : Proto) : DnsQuery := { x with tmr := some proto }

def queryAbort (s : Dnsc) (q : Nat) : Dnsc := (s.unlink q).updateQuery q fun x => { x with tmr := none }

/-- The last reference to a query is given up. -/
def queryDestructor (s : Dnsc) (q : Nat) : Dnsc :=
  let s := queryAbort s q
  { s with queries := s.queries.filter fun x => x.ref ≠ q }.emit (.released q)

def queryHandler (s : Dnsc) (q : Nat) (err : Option DnsErr) (reply : Option (Dnshdr × RrLists)) : Dnsc :=
  let called :=
    match s.query? q with
    | some x => if x.qh then s.emit (.called q err reply) else s
    | none => s
  queryAbort (called.updateQuery q fun x => { x with qh := false, qp := false }) q

/-- `query_handler` and `mem_deref`, which always come together. -/
def finish (s : Dnsc) (q : Nat) (err : Option DnsErr) (reply : Option (Dnshdr × RrLists)) : Dnsc :=
  queryDestructor (queryHandler s q err reply) q

def tolowers (name : List Byte) : List Byte := name.map tolower

def queryCmpHandler (hdr : Dnshdr) (name : List Byte) (type dnsclass : BitVec 16) (x : DnsQuery) : Bool :=
  x.id = hdr.id && x.opcode = hdr.opcode && x.type = type && x.dnsclass = dnsclass && tolowers x.name = tolowers name

def RrErr.err : RrErr → DnsErr
  | EINVAL | outside => .errno .EINVAL
  | EBADMSG => .errno .EBADMSG

/-- The records of a section are appended to those that earlier replies had in it. -/
def rrsDecode : Nat → Mbuf → List Dnsrr → Except DnsErr (List Dnsrr × Mbuf)
  | 0, mb, rrs => .ok (rrs, mb)
  | n + 1, mb, rrs =>
    match rrDecode 0 mb with
    | .error e => .error e.err
    | .ok (rr, mb) => rrsDecode n mb (rrs ++ [rr])

def sectionsDecode (hdr : Dnshdr) (mb : Mbuf) (rrlv : RrLists) : Except DnsErr RrLists :=
  match rrsDecode hdr.nans.toNat mb rrlv.ansl with
  | .error e => .error e
  | .ok (ansl, mb) =>
    match rrsDecode hdr.nauth.toNat mb rrlv.authl with
    | .error e => .error e
    | .ok (authl, mb) =>
      match rrsDecode hdr.nadd.toNat mb rrlv.addl with
      | .error e => .error e
      | .ok (addl, _) => .ok ⟨ansl, authl, addl⟩

/-- Whether a zone transfer still waits for the reply with the SOA record at its end. -/
def waitsForSoa (x : DnsQuery) (hdr : Dnshdr) (rrlv : RrLists) : Bool :=
  x.type = DNS_QTYPE_AXFR && hdr.rcode.toNat = DNS_RCODE_OK && 0 < hdr.nans.toNat &&
    match rrlv.ansl.getLast? with
    | none => true
    | some rrt => rrt.rdata.type ≠ DnsType.SOA.code || rrlv.ansl.length = 1

/-- What a reply is for the client. -/
inductive Verdict
  | unknown (err : DnsErr)
  | nextServer (q : Nat)
  | malformed (q : Nat) (err : DnsErr)
  | more (q : Nat) (rrlv : RrLists)
  | answer (q : Nat) (hdr : Dnshdr) (rrlv : RrLists)

def replyVerdict (s : Dnsc) (msg : List Byte) : Verdict :=
  match dnsHdrDecode ⟨msg, 0, msg.length⟩ with
  | .error _ => .unknown (.errno .EBADMSG)
  | .ok (hdr, mb) =>
    if !hdr.qr then .unknown (.errno .EBADMSG)
    else
      match nameDecode 0 mb with
      | .error e => .unknown e.err
      | .ok (name, mb) =>
        if mb.getLeft < 4 then .unknown (.errno .EBADMSG)
        else
          let (type, mb) := numDecode 2 mb
          let (dnsclass, mb) := numDecode 2 mb
          match s.queries.find? (queryCmpHandler hdr name (.ofNat 16 type) (.ofNat 16 dnsclass)) with
          | none => .unknown (.errno .ENOENT)
          | some x =>
            if hdr.rcode.toNat = DNS_RCODE_SRV_FAIL ∧ x.ntx < (s.servers x).length then .nextServer x.ref
            else
              match sectionsDecode hdr mb x.rrlv with
              | .error e => .malformed x.ref e
              | .ok rrlv => if waitsForSoa x hdr rrlv then .more x.ref rrlv else .answer x.ref hdr rrlv

def replyRecv (s : Dnsc) (msg : List Byte) : Option DnsErr × Dnsc :=
  match replyVerdict s msg with
  | .unknown err => (some err, s)
  | .nextServer q =>
    -- without a connection the timer makes the next UDP server be tried at once
    let linked := s.links.any fun link => link.2 = q
    (some (.errno .EPROTO), if linked then s else s.updateQuery q fun x => x.startTmr .udp)
  | .malformed q err => (some err, finish s q (some err) none)
  | .more q rrlv => (none, s.updateQuery q fun x => { x with rrlv := rrlv })
  | .answer q hdr rrlv => (none, finish s q none (some (hdr, rrlv)))

/-- The connection is not used again, and its queries are handed to the next servers. -/
def tcpconnClose (s : Dnsc) (tc : Nat) (err : Option DnsErr) : Dnsc :=
  (s.updateTcpconn tc fun x => { x with conn := false }).push (.close tc err)

def tcpconnCmpHandler (srv : Sa) (x : Tcpconn) : Bool := x.conn && x.srv.cmp srv .all

/-- The next query of a connection that is closed, and the connection itself once it has none. -/
def closeNext (s : Dnsc) (tc : Nat) (err : Option DnsErr) : Dnsc :=
  match s.links.find? fun link => link.1 = tc with
  | none => { s with tcpconns := s.tcpconns.filter (fun x => x.ref ≠ tc), stack := s.stack.tail }
  | some (_, q) =>
    let s := s.unlink q
    match s.query? q with
    | none => s
    | some x =>
      if (s.servers x).length ≤ x.ntx then s.push (.sent .tcp q 0 (some (err.getD .ECONNREFUSED)) .handler)
      else s.push (.sendTcp q none .handler)

/-- One turn of the loop of `send_tcp`. `result` is what connecting or sending returns. An error of an earlier server
    is kept when the connection to the next one is still being established. -/
def sendTcpNext (s : Dnsc) (q : Nat) (err : Option DnsErr) (sender : Sender) (result : Option DnsErr) : Dnsc :=
  let below := { s with stack := s.stack.tail }
  match s.query? q with
  | none => below
  | some x =>
    match (s.servers x)[x.ntx]? with
    | none => below.push (.sent .tcp q 0 err sender)
    | some srv =>
      let below := below.updateQuery q fun x => { x with ntx := x.ntx + 1 }
      match s.tcpconns.find? (tcpconnCmpHandler srv) with
      | none =>
        match result with
        | some e => below.push (.sendTcp q (some e) sender)
        | none =>
          let tc : Tcpconn := ⟨s.nextTcpconn, srv, true, false, 0, Mbuf.alloc 1500⟩
          { below with
            tcpconns := below.tcpconns ++ [tc]
            links := below.links ++ [(tc.ref, q)]
            nextTcpconn := tc.ref + 1 }.push (.sent .tcp q 0 none sender)
      | some tc =>
        let linked := { below with links := below.links ++ [(tc.ref, q)] }
        if tc.connected then
          match result with
          | some e => tcpconnClose (below.push (.sendTcp q (some e) sender)) tc.ref (some e)
          | none => linked.push (.sent .tcp q 0 none sender)
        else linked.push (.sent .tcp q 0 err sender)

/-- One turn of the loop of `send_udp`. -/
def sendUdpNext (s : Dnsc) (q tries : Nat) (err : Option DnsErr) (sender : Sender) (result : Option DnsErr) : Dnsc :=
  let below := { s with stack := s.stack.tail }
  match s.query? q with
  | none => below
  | some x =>
    if tries < (s.servers x).length then
      let below := below.updateQuery q fun x => { x with ntx := x.ntx + 1 }
      match result with
      | some e => below.push (.sendUdp q (tries + 1) (some e) sender)
      | none => below.push (.sent .udp q (tries + 1) none sender)
    else below.push (.sent .udp q tries err sender)

/-- What `query` and the handlers do with what a sending function returned. The timer of a query is started by `query`,
    and again whenever it is sent over UDP. -/
def sentNext (s : Dnsc) (proto : Proto) (q : Nat) (err : Option DnsErr) (sender : Sender) : Dnsc :=
  let below := { s with stack := s.stack.tail }
  match err, sender with
  | some e, .query _ => (queryDestructor below q).emit (.refused q e)
  | some e, .handler => finish below q (some e) none
  | none, .query qp => below.updateQuery q fun x => { x.startTmr proto with qp := qp }
  | none, .handler => if proto = .udp then below.updateQuery q fun x => x.startTmr .udp else below

/-- The function that was called last goes on. -/
def goOn (s : Dnsc) (result : Option DnsErr) : Dnsc :=
  match s.stack with
  | [] => s
  | .close tc err :: _ => closeNext s tc err
  | .sendTcp q err sender :: _ => sendTcpNext s q err sender result
  | .sendUdp q tries err sender :: _ => sendUdpNext s q tries err sender result
  | .sent proto q _ err sender :: _ => sentNext s proto q err sender

structure QueryArgs where
  opcode : BitVec 4
  name : List Byte
  type : BitVec 16
  dnsclass : BitVec 16
  ansRr : Option Dnsrr
  proto : Proto
  own : Option (List Sa)
  aa : Bool
  rd : Bool
  qp : Bool

def queryProto (args : QueryArgs) : Proto := if args.type = DNS_QTYPE_AXFR then .tcp else args.proto

/-- The message of a query, whose first two bytes are its length when it is sent over TCP. -/
def queryEncode (args : QueryArgs) (id : BitVec 16) : Except Errno Mbuf :=
  let hdr : Dnshdr := ⟨id, false, args.opcode, args.aa, false, args.rd, false, 0, 0, 1,
    if args.ansRr.isSome then 1 else 0, 0, 0⟩
  let tcp := queryProto args = .tcp
  let mb := dnsHdrEncode hdr (if tcp then (Mbuf.alloc 0).advance 2 else Mbuf.alloc 0)
  let (err, s) := dnameEncode 0 false args.name ⟨mb, none⟩
  match err with
  | some e => .error e
  | none =>
    let mb := (s.mb.writeMem (putBe 2 args.type.toNat)).writeMem (putBe 2 args.dnsclass.toNat)
    let (err, s) :=
      match args.ansRr with
      | none => (false, (⟨mb, none⟩ : EncodeSt))
      | some rr => rrEncode 0 rr 0 ⟨mb, none⟩
    if err then .error .EINVAL
    else .ok (if tcp then (s.mb.setPos 0).writeMem (putBe 2 (s.mb.endPos - 2)) else s.mb)

/-- `query` up to where it sends the message; `id` is the random number. -/
def query (s : Dnsc) (args : QueryArgs) (id : BitVec 16) : Dnsc :=
  if args.own.getD s.srvv = [] then s
  else
    let q := s.nextQuery
    let x : DnsQuery := ⟨q, args.own, 0, id, args.opcode, args.type, args.dnsclass, args.name, none, false, false,
      ⟨[], [], []⟩⟩
    let s := { s with queries := s.queries ++ [x], nextQuery := q + 1 }
    match queryEncode args id with
    | .error e => (queryDestructor s q).emit (.refused q (.errno e))
    | .ok _ =>
      let s := s.updateQuery q fun x => { x with qh := true }
      match queryProto args with
      | .tcp => s.push (.sendTcp q none (.query args.qp))
      | .udp => s.push (.sendUdp q 0 (some (.errno .ETIMEDOUT)) (.query args.qp))

/-- `tcp_timeout_handler` and `udp_timeout_handler`. -/
def queryTimeout (s : Dnsc) (x : DnsQuery) : Proto → Dnsc
  | .tcp => finish (s.emit (.expired x.ref)) x.ref (some (.errno .ETIMEDOUT)) none
  | .udp =>
    let s := (s.emit (.expired x.ref)).updateQuery x.ref fun x => { x with tmr := none }
    if NTX_MAX ≤ x.ntx then finish s x.ref (some (.errno .ETIMEDOUT)) none
    else s.push (.sendUdp x.ref 0 (some (.errno .ETIMEDOUT)) .handler)

/-- The queries of a connection are sent once it is established; `results` is what sending them returns. -/
def tcpEstabHandler (s : Dnsc) (tc : Nat) (results : List (Option DnsErr)) : Dnsc :=
  let ql := s.links.filter fun link => link.1 = tc
  match (results.take ql.length).findSome? id with
  | some err => tcpconnClose s tc (some err)
  | none => s.updateTcpconn tc fun x => { x with connected := true }

def tcpRecv (s : Dnsc) (x : Tcpconn) (segment : List Byte) : Dnsc :=
  match tcpRecvHandler replyRecv ⟨x.flen, x.mb, s, []⟩ (received segment) with
  | none => s
  | some (tc, err) =>
    let s := tc.dnsc.updateTcpconn x.ref fun x => { x with flen := tc.flen, mb := tc.mb }
    match err with
    | none => s
    | some err => tcpconnClose s x.ref (some err)

inductive Action
  | query (args : QueryArgs) (id : BitVec 16)
  | goOn (result : Option DnsErr)
  | udpRecv (msg : List Byte)
  | tcpRecv (tc : Nat) (segment : List Byte)
  | tcpEstab (tc : Nat) (results : List (Option DnsErr))
  | tcpClose (tc : Nat) (err : Option DnsErr)
  | tcpTimeout (tc : Nat)
  | queryTimeout (q : Nat)
  | cancel (q : Nat)
  | srvSet (srvv : List Sa)

/-- A connection that has not been closed. -/
def Dnsc.live? (s : Dnsc) (tc : Nat) : Option Tcpconn := (s.tcpconn? tc).filter (·.conn)

/-- What happens while no function of the client is running. -/
def event (s : Dnsc) : Action → Dnsc
  | .query args id => query s args id
  | .goOn _ => s
  | .udpRecv msg => (replyRecv s msg).2
  | .tcpRecv tc segment =>
    match s.live? tc with
    | none => s
    | some x => if x.connected then tcpRecv s x segment else s
  | .tcpEstab tc results =>
    match s.live? tc with
    | none => s
    | some x => if x.connected then s else tcpEstabHandler s tc results
  | .tcpClose tc err =>
    match s.live? tc with
    | none => s
    | some _ => tcpconnClose s tc err
  | .tcpTimeout tc =>
    match s.live? tc with
    | none => s
    | some _ => tcpconnClose s tc (some (.errno .ETIMEDOUT))
  | .queryTimeout q =>
    match s.query? q with
    | none => s
    | some x =>
      match x.tmr with
      | none => s
      | some proto => queryTimeout s x proto
  | .cancel q =>
    match s.query? q with
    | none => s
    | some x => if x.qp then (queryDestructor s q).emit (.cancelled q) else s
  | .srvSet srvv => { s with srvv := srvv.take SRVC_MAX }

def step (s : Dnsc) : Action → Dnsc
  | .goOn result => goOn s result
  | a => if s.stack = [] then event s a else s

def initial (srvv : List Sa) : Dnsc := ⟨srvv, [], [], [], [], 0, 0, []⟩

end Baresip.Dns
