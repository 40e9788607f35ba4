import Baresip.Re.Uri

set_option linter.dupNamespace false

namespace Baresip.Sip.Message

open Re

/-- `enum sip_hdrid`: a hash of twelve bits, or `SIP_HDR_NONE`. -/
abbrev HdrId := Option (BitVec 12)

namespace HdrId

def accept : HdrId := some 3186
def acceptContact : HdrId := some 232
def acceptEncoding : HdrId := some 708
def acceptLanguage : HdrId := some 2867
def acceptResourcePriority : HdrId := some 1848
def alertInfo : HdrId := some 274
def allow : HdrId := some 2429
def allowEvents : HdrId := some 66
def authenticationInfo : HdrId := some 3144
def callId : HdrId := some 3095
def callInfo : HdrId := some 586
def contact : HdrId := some 229
def contentEncoding : HdrId := some 580
def contentLanguage : HdrId := some 3371
def contentLength : HdrId := some 3861
def contentType : HdrId := some 809
def cseq : HdrId := some 746
def errorInfo : HdrId := some 21
def event : HdrId := some 3286
def expires : HdrId := some 1983
def from_ : HdrId := some 1963
def historyInfo : HdrId := some 2582
def identity : HdrId := some 2362
def identityInfo : HdrId := some 980
def inReplyTo : HdrId := some 1577
def maxForwards : HdrId := some 3549
def pAssertedIdentity : HdrId := some 1233
def pAssociatedUri : HdrId := some 900
def pEarlyMedia : HdrId := some 2622
def pMediaAuthorization : HdrId := some 1035
def pPreferredIdentity : HdrId := some 1263
def pRefusedUriList : HdrId := some 1047
def pVisitedNetworkId : HdrId := some 3867
def path : HdrId := some 2741
def permissionMissing : HdrId := some 1409
def proxyRequire : HdrId := some 3562
def reason : HdrId := some 3732
def recordRoute : HdrId := some 278
def referTo : HdrId := some 1521
def referredBy : HdrId := some 3456
def rejectContact : HdrId := some 285
def requestDisposition : HdrId := some 3715
def require : HdrId := some 3905
def resourcePriority : HdrId := some 1643
def route : HdrId := some 661
def securityClient : HdrId := some 1358
def securityServer : HdrId := some 811
def securityVerify : HdrId := some 519
def serviceRoute : HdrId := some 1655
def sessionExpires : HdrId := some 1979
def subject : HdrId := some 1043
def supported : HdrId := some 119
def to_ : HdrId := some 1449
def triggerConsent : HdrId := some 3180
def unsupported : HdrId := some 982
def via : HdrId := some 3961
def warning : HdrId := some 2108

/-- What the letters of the compact form stand for. -/
def compact : List (Char × HdrId) :=
  [('a', acceptContact), ('b', referredBy), ('c', contentType), ('d', requestDisposition), ('e', contentEncoding),
    ('f', from_), ('i', callId), ('j', rejectContact), ('k', supported), ('l', contentLength), ('m', contact),
    ('n', identityInfo), ('o', event), ('r', referTo), ('s', subject), ('t', to_), ('u', allowEvents), ('v', via),
    ('x', sessionExpires), ('y', identity)]

/-- The headers that `hdr_comma_separated` accepts. -/
def commaSeparated : List HdrId :=
  [accept, acceptContact, acceptEncoding, acceptLanguage, acceptResourcePriority, alertInfo, allow, allowEvents,
    authenticationInfo, callInfo, contact, contentEncoding, contentLanguage, errorInfo, historyInfo, inReplyTo,
    pAssertedIdentity, pAssociatedUri, pEarlyMedia, pMediaAuthorization, pPreferredIdentity, pRefusedUriList,
    pVisitedNetworkId, path, permissionMissing, proxyRequire, reason, recordRoute, rejectContact,
    requestDisposition, require, resourcePriority, route, securityClient, securityServer, securityVerify,
    serviceRoute, supported, triggerConsent, unsupported, via, warning]

end HdrId

def hashJoaatCi (str : List Byte) : BitVec 32 :=
  let hash := str.foldl (fun hash c =>
    let hash := hash + (tolower c).setWidth 32
    let hash := hash + (hash <<< 10)
    hash ^^^ (hash >>> 6)) 0
  let hash := hash + (hash <<< 3)
  let hash := hash ^^^ (hash >>> 11)
  hash + (hash <<< 15)

def hdrHash : List Byte → HdrId
  | [] => none
  | [c] => ((HdrId.compact.find? fun entry => chr entry.1 = tolower c).map (·.2)).getD none
  | c :: c' :: name =>
    if (c = chr 'x' ∨ c = chr 'X') ∧ c' = chr '-' then none
    else some ((hashJoaatCi (c :: c' :: name)).setWidth 12)

def hdrCommaSeparated (id : HdrId) : Bool := HdrId.commaSeparated.contains id

structure SipHdr where
  name : List Byte
  val : List Byte
  id : HdrId
  deriving DecidableEq, Repr

inductive SipTransp
  | udp | tcp | tls
  deriving DecidableEq, Repr

structure SipVia where
  sentby : List Byte
  params : List Byte
  branch : List Byte
  val : List Byte
  tp : Option SipTransp
  deriving DecidableEq, Repr

structure SipTaddr where
  addr : SipAddr
  tag : Option (List Byte)
  val : List Byte
  deriving DecidableEq, Repr

structure SipCseq where
  met : List Byte
  num : BitVec 32
  deriving DecidableEq, Repr

def sipParamDecode (params : List Byte) (name : String) : Except Errno (List Byte) :=
  match reRegex params (ascii ";[ \t\r\n]*" ++ ascii name ++ ascii "[ \t\r\n]*=[ \t\r\n]*[~ \t\r\n;]+") with
  | .ok [_, _, _, v] => .ok v.val
  | _ => .error .ENOENT

def viaTransp (transp : List Byte) : Option SipTransp :=
  if transp = ascii "TCP" then some .tcp
  else if transp = ascii "TLS" then some .tls
  else if transp = ascii "UDP" then some .udp
  else none

def viaPattern : List Byte :=
  ascii "SIP[  \t\r\n]*/[ \t\r\n]*2.0[ \t\r\n]*/[ \t\r\n]*[A-Z]+[ \t\r\n]*[^; \t\r\n]+[ \t\r\x08]*[^]*"

def sipViaDecode (val : List Byte) : Except Errno SipVia :=
  match reRegex val viaPattern with
  | .ok [_, _, _, _, transp, _, sentby, _, params] =>
    match decodeHostport sentby with
    | .error e => .error e
    | .ok _ =>
      (sipParamDecode params.val "branch").map fun branch =>
        ⟨sentby.val, params.val, branch, val, viaTransp transp.val⟩
  | .ok _ => .error .EINVAL
  | .error e => .error e

/-- A tag that the parameters do not have is that of the header before. -/
def sipTaddrDecode (old : Option SipTaddr) (val : List Byte) : Except Errno SipTaddr :=
  (sipAddrDecode ⟨0, val⟩).map fun addr =>
    let params := (addr.params.map (·.val)).getD []
    let tag := match sipParamDecode params "tag" with
      | .ok tag => some tag
      | .error _ => old.bind (·.tag)
    ⟨addr, tag, val⟩

def sipCseqDecode (val : List Byte) : Except Errno SipCseq :=
  match reRegex val (ascii "[0-9]+[ \t\r\n]+[^ \t\r\n]+") with
  | .ok [num, _, met] => .ok ⟨met.val, num.u32⟩
  | .ok _ => .error .EINVAL
  | .error e => .error e

/-- A SIP message. `hdrl` are its header lines, and `hdrht` holds the values by header; both in the order in which
    they were added. -/
structure SipMsg where
  req : Bool
  met : List Byte
  ruri : List Byte
  uri : Option (Uri Pl)
  ver : List Byte
  scode : BitVec 16
  reason : List Byte
  hdrl : List SipHdr
  hdrht : List SipHdr
  via : Option SipVia
  to_ : Option SipTaddr
  from_ : Option SipTaddr
  cseq : Option SipCseq
  callid : Option (List Byte)
  maxfwd : Option (List Byte)
  ctype : Option (List Byte)
  clen : Option (List Byte)
  expires : Option (List Byte)
  deriving DecidableEq, Repr

namespace SipMsg

/-- A message of a request line or a status line. -/
def ofLine (x y z : List Byte) : Except Errno SipMsg :=
  let msg : SipMsg := ⟨false, [], [], none, [], 0, [], [], [], none, none, none, none, none, none, none, none, none⟩
  if z = ascii "SIP/2.0" then
    match uriDecode ⟨0, y⟩ with
    | .error _ => .error .EBADMSG
    | .ok uri => .ok { msg with req := true, met := x, ruri := y, ver := z, uri := some uri }
  else
    let scode := (Pl.u32 ⟨0, y⟩).setWidth 16
    if scode = 0 then .error .EBADMSG else .ok { msg with ver := x, scode := scode, reason := z }

/-- Into the hash table goes what is atomic, into the list a whole line; but each value of a Via or a Route goes
    into both. -/
def store (msg : SipMsg) (hdr : SipHdr) (atomic line : Bool) : SipMsg :=
  let listed := if hdr.id = .via ∨ hdr.id = .route then atomic else line
  { msg with
    hdrht := if atomic then msg.hdrht ++ [hdr] else msg.hdrht
    hdrl := if listed then msg.hdrl ++ [hdr] else msg.hdrl }

/-- The common headers. -/
def parse (msg : SipMsg) (id : HdrId) (val : List Byte) (atomic : Bool) : Except Errno SipMsg :=
  if id = .via then
    if atomic = false ∨ msg.via.isSome then .ok msg
    else (sipViaDecode val).map fun via => { msg with via := some via }
  else if id = .to_ then (sipTaddrDecode msg.to_ val).map fun to_ => { msg with to_ := some to_ }
  else if id = .from_ then (sipTaddrDecode msg.from_ val).map fun from_ => { msg with from_ := some from_ }
  else if id = .callId then .ok { msg with callid := some val }
  else if id = .cseq then (sipCseqDecode val).map fun cseq => { msg with cseq := some cseq }
  else if id = .maxForwards then .ok { msg with maxfwd := some val }
  else if id = .contentType then .ok { msg with ctype := some val }
  else if id = .contentLength then .ok { msg with clen := some val }
  else if id = .expires then .ok { msg with expires := some val }
  else .ok msg

end SipMsg

def hdrAdd (msg : SipMsg) (hdr : SipHdr) (atomic line : Bool) : Except Errno SipMsg :=
  (msg.store hdr atomic line).parse hdr.id hdr.val atomic

/-- Where the loop over the header is. `seen` is the text up to here, into which `name`, `v` and `cv` point. A
    second line feed in a row ends the loop, so that the counter `lf` is a flag between its steps. -/
structure Scan where
  seen : List Byte
  name : Option Nat
  nameLen : Nat
  id : HdrId
  comsep : Bool
  quote : Bool
  v : Option Nat
  cv : Option Nat
  ws : Nat
  lf : Bool
  msg : SipMsg
  deriving DecidableEq, Repr

inductive Step
  | more (s : Scan)
  | eoh (msg : SipMsg)
  | failed (err : Errno)
  deriving DecidableEq, Repr

inductive DecodeErr
  | errno (err : Errno)
  | ENODATA
  deriving DecidableEq, Repr

namespace Scan

def start (seen : List Byte) (msg : SipMsg) : Scan :=
  ⟨seen, none, 0, none, false, false, none, none, 0, false, msg⟩

/-- The text from a pointer on, less the white space before here. -/
def value (s : Scan) : Option Nat → List Byte
  | some p => (s.seen.drop p).take (s.seen.length - p - s.ws)
  | none => []

def hdr (s : Scan) (p : Option Nat) : SipHdr := ⟨(s.seen.drop (s.name.getD 0)).take s.nameLen, s.value p, s.id⟩

def endLine (s : Scan) : Except Errno SipMsg :=
  if s.nameLen = 0 then .error .EBADMSG
  else
    match hdrAdd s.msg (s.hdr s.cv) true (s.cv == s.v) with
    | .error e => .error e
    | .ok msg => if s.cv ≠ s.v then hdrAdd msg (s.hdr s.v) false true else .ok msg

def endElement (s : Scan) : Except Errno Scan :=
  if s.nameLen = 0 then .error .EBADMSG
  else (hdrAdd s.msg (s.hdr s.cv) true false).map fun msg => { s with cv := none, msg := msg }

/-- A byte of the next line, once the line before has been added. -/
def nextLine (s : Scan) (msg : SipMsg) : Scan :=
  { s with comsep := false, name := none, cv := none, v := none, lf := false, msg := msg }

def nameChar (s : Scan) (c : Byte) : Except Errno Scan :=
  if c ≠ chr ':' then .ok { s with ws := 0 }
  else
    let len := s.seen.length - s.name.getD 0 - s.ws
    if len = 0 then .error .EBADMSG
    else
      let id := hdrHash ((s.seen.drop (s.name.getD 0)).take len)
      .ok { s with nameLen := len, id := id, comsep := hdrCommaSeparated id }

def valueChar (s : Scan) (c : Byte) : Scan :=
  let here := s.seen.length
  let s := if s.cv.isNone then { s with quote := false, cv := some here } else s
  let s := if s.v.isNone then { s with v := some here } else s
  { s with quote := if c = chr '"' then !s.quote else s.quote, ws := 0 }

/-- A byte that neither ends a line nor separates two elements. -/
def char (s : Scan) (c : Byte) : Except Errno Scan :=
  let s := if s.name.isNone then { s with name := some s.seen.length, nameLen := 0, ws := 0 } else s
  if s.nameLen = 0 then s.nameChar c else .ok (s.valueChar c)

def advance (c : Byte) : Except Errno Scan → Step
  | .ok s => .more { s with seen := s.seen ++ [c] }
  | .error e => .failed e

def step (s : Scan) (c : Byte) : Step :=
  if c = chr ' ' ∨ c = chr '\t' then .more { s with lf := false, ws := s.ws + 1, seen := s.seen ++ [c] }
  else if c = chr '\r' then .more { s with ws := s.ws + 1, seen := s.seen ++ [c] }
  else if c = chr '\n' then
    if s.lf then
      match endLine { s with ws := s.ws + 1, seen := s.seen ++ [c] } with
      | .error e => .failed e
      | .ok msg => .eoh msg
    else .more { s with ws := s.ws + 1, lf := true, seen := s.seen ++ [c] }
  else if s.lf then
    match s.endLine with
    | .error e => .failed e
    | .ok msg => advance c ((s.nextLine msg).char c)
  else if c = chr ',' ∧ s.comsep ∧ s.quote = false then advance c s.endElement
  else advance c (s.char c)

def run (s : Scan) : List Byte → Except DecodeErr (SipMsg × Nat)
  | [] => .error .ENODATA
  | c :: text =>
    match s.step c with
    | .more s => s.run text
    | .eoh msg => .ok (msg, s.seen.length + 1)
    | .failed e => .error (.errno e)

end Scan

def startlineMax : Nat := 8192

def startlinePattern : List Byte := ascii "[^ \t\r\n]+ [^ \t\r\n]+ [^\r\n]*[\r]*[\n]1"

/-- The three parts of the first line and where the line ends. -/
def startline (text : List Byte) : Option (List Byte × List Byte × List Byte × Nat) :=
  match reRegex text startlinePattern with
  | .ok [x, y, z, _, e] => if x.off = 0 then some (x.val, y.val, z.val, e.off + e.val.length) else none
  | _ => none

/-- The message and how much of the text it takes without its body. -/
def sipMsgDecode (text : List Byte) : Except DecodeErr (SipMsg × Nat) :=
  match startline text with
  | none => .error (if startlineMax < text.length then .errno .EBADMSG else .ENODATA)
  | some (x, y, z, n) =>
    match SipMsg.ofLine x y z with
    | .error e => .error (.errno e)
    | .ok msg => (Scan.start (text.take n) msg).run (text.drop n)

/-- The values of a header in the order of the message. -/
def SipMsg.values (msg : SipMsg) (id : HdrId) : List (List Byte) := (msg.hdrht.filter (·.id = id)).map (·.val)

example : hdrHash (ascii "Contact") = .contact ∧ hdrHash (ascii "v") = .via := by decide

end Baresip.Sip.Message
