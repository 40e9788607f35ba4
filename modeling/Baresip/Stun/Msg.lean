import Baresip.Library.BigEndian
import Baresip.Library.Loops
import Baresip.Re.Mbuf
import Baresip.Re.Sa

set_option linter.dupNamespace false

namespace Baresip.Stun

open Re Library

inductive StunErr
  | EINVAL | EBADMSG | EPROTO | EAFNOSUPPORT | EOVERFLOW
  deriving DecidableEq, Repr

def STUN_MAGIC_COOKIE : BitVec 32 := 0x2112a442

inductive StunAttrib
  | MAPPED_ADDR | CHANGE_REQ | USERNAME | MSG_INTEGRITY | ERR_CODE | UNKNOWN_ATTR | CHANNEL_NUMBER | LIFETIME
  | XOR_PEER_ADDR | DATA | REALM | NONCE | XOR_RELAY_ADDR | REQ_ADDR_FAMILY | EVEN_PORT | REQ_TRANSPORT | DONT_FRAGMENT
  | XOR_MAPPED_ADDR | RSV_TOKEN | PRIORITY | USE_CAND | PADDING | RESP_PORT
  | SOFTWARE | ALT_SERVER | FINGERPRINT | CONTROLLED | CONTROLLING | RESP_ORIGIN | OTHER_ADDR
  deriving DecidableEq, Repr

namespace StunAttrib

def code : StunAttrib → BitVec 16
  | MAPPED_ADDR => 0x0001
  | CHANGE_REQ => 0x0003
  | USERNAME => 0x0006
  | MSG_INTEGRITY => 0x0008
  | ERR_CODE => 0x0009
  | UNKNOWN_ATTR => 0x000a
  | CHANNEL_NUMBER => 0x000c
  | LIFETIME => 0x000d
  | XOR_PEER_ADDR => 0x0012
  | DATA => 0x0013
  | REALM => 0x0014
  | NONCE => 0x0015
  | XOR_RELAY_ADDR => 0x0016
  | REQ_ADDR_FAMILY => 0x0017
  | EVEN_PORT => 0x0018
  | REQ_TRANSPORT => 0x0019
  | DONT_FRAGMENT => 0x001a
  | XOR_MAPPED_ADDR => 0x0020
  | RSV_TOKEN => 0x0022
  | PRIORITY => 0x0024
  | USE_CAND => 0x0025
  | PADDING => 0x0026
  | RESP_PORT => 0x0027
  | SOFTWARE => 0x8022
  | ALT_SERVER => 0x8023
  | FINGERPRINT => 0x8028
  | CONTROLLED => 0x8029
  | CONTROLLING => 0x802a
  | RESP_ORIGIN => 0x802b
  | OTHER_ADDR => 0x802c

def all : List StunAttrib :=
  [MAPPED_ADDR, CHANGE_REQ, USERNAME, MSG_INTEGRITY, ERR_CODE, UNKNOWN_ATTR, CHANNEL_NUMBER, LIFETIME, XOR_PEER_ADDR,
    DATA, REALM, NONCE, XOR_RELAY_ADDR, REQ_ADDR_FAMILY, EVEN_PORT, REQ_TRANSPORT, DONT_FRAGMENT, XOR_MAPPED_ADDR,
    RSV_TOKEN, PRIORITY, USE_CAND, PADDING, RESP_PORT, SOFTWARE, ALT_SERVER, FINGERPRINT, CONTROLLED, CONTROLLING,
    RESP_ORIGIN, OTHER_ADDR]

def ofCode (type : BitVec 16) : Option StunAttrib := all.find? fun attrib => attrib.code = type

theorem ofCode_code (attrib : StunAttrib) : ofCode attrib.code = some attrib := by
  cases attrib <;> rfl

end StunAttrib

/-- How the value of an attribute is written. -/
inductive Format
  | addr (xor : Bool)
  | changeReq | str | msgIntegrity | errCode | unknownAttr | uint16 | uint32 | data | uint8 | evenPort | empty | uint64
  deriving DecidableEq, Repr

def StunAttrib.format : StunAttrib → Format
  | MAPPED_ADDR | ALT_SERVER | RESP_ORIGIN | OTHER_ADDR => .addr false
  | XOR_PEER_ADDR | XOR_RELAY_ADDR | XOR_MAPPED_ADDR => .addr true
  | CHANGE_REQ => .changeReq
  | USERNAME | REALM | NONCE | SOFTWARE => .str
  | MSG_INTEGRITY => .msgIntegrity
  | ERR_CODE => .errCode
  | UNKNOWN_ATTR => .unknownAttr
  | CHANNEL_NUMBER | RESP_PORT => .uint16
  | LIFETIME | PRIORITY | FINGERPRINT => .uint32
  | DATA | PADDING => .data
  | REQ_ADDR_FAMILY | REQ_TRANSPORT => .uint8
  | EVEN_PORT => .evenPort
  | DONT_FRAGMENT | USE_CAND => .empty
  | RSV_TOKEN | CONTROLLED | CONTROLLING => .uint64

/-- None for the types that are not known. -/
def formatOf (type : BitVec 16) : Option Format := (StunAttrib.ofCode type).map StunAttrib.format

inductive AttrValue
  | sa (sa : Sa)
  | changeReq (ip port : Bool)
  | str (str : List Byte)
  | msgIntegrity (mi : List Byte)
  | errCode (code : BitVec 16) (reason : List Byte)
  | unknownAttr (typev : List (BitVec 16))
  | uint16 (n : BitVec 16)
  | uint32 (n : BitVec 32)
  | mb (data : List Byte)
  | uint8 (n : BitVec 8)
  | evenPort (r : Bool)
  | empty
  | uint64 (n : BitVec 64)
  deriving DecidableEq, Repr

structure Attr where
  type : BitVec 16
  v : AttrValue
  deriving DecidableEq, Repr

/-- How many bytes follow `n` bytes up to a multiple of 4. -/
def padding (n : Nat) : Nat := (4 - n % 4) % 4

def rounded (n : Nat) : Nat := n + padding n

/-- How many types `typev` has room for. -/
def unknownMax : Nat := 8

/-- The numbers are read from the bytes that are left. One for which there are too few is 0. -/
def readBe (n : Nat) (left : List Byte) : Nat × List Byte :=
  if n ≤ left.length then (getBe (left.take n), left.drop n) else (0, left)

/-- The string ends at its first zero byte, which may come before the `len` bytes that are read. -/
def strDecode (len : Nat) (left : List Byte) : Except StunErr (List Byte × List Byte) :=
  if left.length < len then .error .EBADMSG else .ok ((left.take len).takeWhile (· != 0), left.drop len)

def in6XorTid (in6 : BitVec 128) (tid : BitVec 96) : BitVec 128 := in6 ^^^ (STUN_MAGIC_COOKIE ++ tid)

def xorPort (port : BitVec 16) : Option (BitVec 96) → BitVec 16
  | some _ => port ^^^ (STUN_MAGIC_COOKIE >>> 16).setWidth 16
  | none => port

def xorIn (in4 : BitVec 32) : Option (BitVec 96) → BitVec 32
  | some _ => in4 ^^^ STUN_MAGIC_COOKIE
  | none => in4

def xorIn6 (in6 : BitVec 128) : Option (BitVec 96) → BitVec 128
  | some tid => in6XorTid in6 tid
  | none => in6

/-- A transaction id is given for the addresses that are written with one. -/
def addrDecode (tid : Option (BitVec 96)) (left : List Byte) : Except StunErr (Sa × List Byte) :=
  if left.length < 4 then .error .EBADMSG
  else
    let (_, left) := readBe 1 left
    let (family, left) := readBe 1 left
    let (port, left) := readBe 2 left
    let port := xorPort (.ofNat 16 port) tid
    match family with
    | 1 =>
      if left.length < 4 then .error .EBADMSG
      else
        let (in4, left) := readBe 4 left
        .ok (.inet (xorIn (.ofNat 32 in4) tid) port, left)
    | 2 =>
      if left.length < 16 then .error .EBADMSG
      else .ok (.inet6 (xorIn6 (.ofNat 128 (getBe (left.take 16))) tid) port, left.drop 16)
    | _ => .error .EAFNOSUPPORT

def readTypes : Nat → List Byte → List (BitVec 16) × List Byte
  | 0, left => ([], left)
  | n + 1, left =>
    let (type, left) := readBe 2 left
    let (types, left) := readTypes n left
    (.ofNat 16 type :: types, left)

/-- A number of `n` bytes, after the check of the length. -/
def numDecode (valid : Bool) (n : Nat) (value : Nat → AttrValue) (left : List Byte) :
    Except StunErr (AttrValue × List Byte) :=
  if valid then
    let (number, left) := readBe n left
    .ok (value number, left)
  else .error .EBADMSG

def errCodeDecode (len : Nat) (left : List Byte) : Except StunErr (AttrValue × List Byte) :=
  if len < 4 then .error .EBADMSG
  else
    let (hundreds, left) := readBe 1 (left.drop 2)
    let (rest, left) := readBe 1 left
    match strDecode (len - 4) left with
    | .error e => .error e
    | .ok (reason, left) => .ok (.errCode (.ofNat 16 (hundreds % 8 * 100 + rest)) reason, left)

section
variable (tid : BitVec 96)

/-- The value of an attribute of length `len`, from the bytes that are left. -/
def valueDecode (format : Option Format) (len : Nat) (left : List Byte) : Except StunErr (AttrValue × List Byte) :=
  match format with
  | some (.addr xor) =>
    match addrDecode (if xor then some tid else none) left with
    | .error e => .error e
    | .ok (sa, left) => .ok (.sa sa, left)
  | some .changeReq => numDecode (len = 4) 4 (fun n => .changeReq (n.testBit 2) (n.testBit 1)) left
  | some .str =>
    match strDecode len left with
    | .error e => .error e
    | .ok (str, left) => .ok (.str str, left)
  | some .msgIntegrity =>
    if len ≠ 20 then .error .EBADMSG
    else if left.length < 20 then .error .EOVERFLOW
    else .ok (.msgIntegrity (left.take 20), left.drop 20)
  | some .errCode => errCodeDecode len left
  | some .unknownAttr =>
    let (types, left) := readTypes (len / 2) left
    .ok (.unknownAttr (types.take unknownMax), left)
  | some .uint16 => numDecode (len ≥ 2) 2 (fun n => .uint16 (.ofNat 16 n)) left
  | some .uint32 => numDecode (len = 4) 4 (fun n => .uint32 (.ofNat 32 n)) left
  | some .data => .ok (.mb (left.take len), left.drop len)
  | some .uint8 => numDecode (len ≥ 1) 1 (fun n => .uint8 (.ofNat 8 n)) left
  | some .evenPort => numDecode (len ≥ 1) 1 (fun n => .evenPort (n.testBit 7)) left
  | some .empty => if len > 0 then .error .EBADMSG else .ok (.empty, left)
  | some .uint64 => numDecode (len = 8) 8 (fun n => .uint64 (.ofNat 64 n)) left
  | none => .ok (.empty, left.drop len)

/-- The attribute, and the bytes behind it and its padding. -/
def attrDecode (left : List Byte) : Except StunErr (Attr × List Byte) :=
  if left.length < 4 then .error .EBADMSG
  else
    let (type, left) := readBe 2 left
    let (len, left) := readBe 2 left
    if left.length < len then .error .EBADMSG
    else
      match valueDecode tid (formatOf (.ofNat 16 type)) len left with
      | .error e => .error e
      | .ok (v, rest) => .ok (⟨.ofNat 16 type, v⟩, rest.drop (padding (left.length - rest.length)))

/-- What `stun_addr_encode` writes. -/
def addrBytes (addr : Sa) (tid : Option (BitVec 96)) : Option (List (List Byte)) :=
  let port := putBe 2 (xorPort addr.port tid).toNat
  match addr with
  | .inet in4 _ => some [[0], [1], port, putBe 4 (xorIn in4 tid).toNat]
  | .inet6 in6 _ => some [[0], [2], port, putBe 16 (xorIn6 in6 tid).toNat]
  | .unspec => none

/-- What is written for a value, one write after the other, or none when there is an error. -/
def valueBytes (format : Option Format) (v : AttrValue) : Option (List (List Byte)) :=
  match format, v with
  | some (.addr xor), .sa sa => addrBytes sa (if xor then some tid else none)
  | some .changeReq, .changeReq ip port => some [putBe 4 (ip.toNat <<< 2 ||| port.toNat <<< 1)]
  | some .str, .str str => some [str.takeWhile (· != 0)]
  | some .msgIntegrity, .msgIntegrity mi => some [mi.take 20]
  | some .errCode, .errCode code reason =>
    some [[0, 0], [.ofNat 8 (code.toNat / 100)], [.ofNat 8 (code.toNat % 100)], reason.takeWhile (· != 0)]
  | some .unknownAttr, .unknownAttr typev => some (typev.map fun type => putBe 2 type.toNat)
  | some .uint16, .uint16 n => some [putBe 2 n.toNat, [0, 0]]
  | some .uint32, .uint32 n => some [putBe 4 n.toNat]
  | some .data, .mb data => some [data]
  | some .uint8, .uint8 n => some [[n], [0], [0, 0]]
  | some .evenPort, .evenPort r => some [[.ofNat 8 (r.toNat <<< 7)]]
  | some .empty, .empty => some []
  | some .uint64, .uint64 n => some [putBe 8 n.toNat]
  | _, _ => none

def writeAll (mb : Mbuf) (writes : List (List Byte)) : Mbuf := writes.foldl Mbuf.writeMem mb

/-- Whether there was an error, and the buffer. -/
def attrEncode (mb : Mbuf) (type : BitVec 16) (v : AttrValue) (pad : Byte) : Bool × Mbuf :=
  let start := mb.pos + 4
  let mb := mb.advance 4
  let written := valueBytes tid (formatOf type) v
  let mb := writeAll mb (written.getD [])
  let len := mb.pos - start
  let mb := mb.setPos (start - 4)
  let mb := writeAll mb [putBe 2 type.toNat, putBe 2 len]
  let mb := mb.advance len
  (written.isNone, writeAll mb (List.replicate (padding (mb.pos - start)) [pad]))

end

def STUN_HEADER_SIZE : Nat := 20
def MI_SIZE : Nat := 24
def FP_SIZE : Nat := 8

/-- How many values `size_t` has. -/
def sizeValues : Nat := 4294967296

structure StunHdr where
  type : BitVec 16
  len : BitVec 16
  cookie : BitVec 32
  tid : BitVec 96
  deriving DecidableEq, Repr

/-- `bytes` are those of the buffer, from the start of the message to its end and whatever is behind it. -/
structure StunMsg where
  hdr : StunHdr
  attrl : List Attr
  bytes : List Byte
  deriving DecidableEq, Repr

def stunType (method : BitVec 16) (class_ : BitVec 8) : BitVec 16 :=
  (method &&& 0x0f80) <<< 2 ||| (method &&& 0x0070) <<< 1 ||| (method &&& 0x000f) <<< 0 |||
    (class_.setWidth 16 &&& 0x2) <<< 7 ||| (class_.setWidth 16 &&& 0x1) <<< 4

def hdrWrites (hdr : StunHdr) : List (List Byte) :=
  [putBe 2 (hdr.type &&& 0x3fff).toNat, putBe 2 hdr.len.toNat, putBe 4 hdr.cookie.toNat, putBe 12 hdr.tid.toNat]

def hdrEncode (mb : Mbuf) (hdr : StunHdr) : Mbuf := writeAll mb (hdrWrites hdr)

def hdrDecode (left : List Byte) : Except StunErr (StunHdr × List Byte) :=
  if left.length < STUN_HEADER_SIZE then .error .EBADMSG
  else
    let (type, left) := readBe 2 left
    let type : BitVec 16 := .ofNat 16 type
    if type &&& 0xc000 ≠ 0 then .error .EBADMSG
    else
      let (len, left) := readBe 2 left
      let len : BitVec 16 := .ofNat 16 len
      if len &&& 0x3 ≠ 0 then .error .EBADMSG
      else
        let (cookie, left) := readBe 4 left
        let (tid, left) := readBe 12 left
        if left.length < len.toNat then .error .EBADMSG
        else .ok (⟨type, len, .ofNat 32 cookie, .ofNat 96 tid⟩, left)

/-- The types that are not known and must be understood are collected as long as there is room. -/
def noteUnknown (ua : List (BitVec 16)) (attr : Attr) : List (BitVec 16) :=
  if (formatOf attr.type).isNone ∧ attr.type < 0x8000 ∧ ua.length < unknownMax then ua ++ [attr.type] else ua

structure AttrsSt where
  left : List Byte
  attrl : List Attr
  ua : List (BitVec 16)
  deriving DecidableEq, Repr

/-- The difference is taken in `size_t`. -/
def goesOn (left extra : Nat) : Bool := (left + sizeValues - extra) % sizeValues ≥ 4

def attrsBody (tid : BitVec 96) (extra : Nat) (s : AttrsSt) : AttrsSt ⊕ Except StunErr AttrsSt :=
  if goesOn s.left.length extra then
    match attrDecode tid s.left with
    | .error e => .inr (.error e)
    | .ok (attr, left) => .inl ⟨left, s.attrl ++ [attr], noteUnknown s.ua attr⟩
  else .inr (.ok s)

/-- The message and the types that are not known. None when the loop takes more steps than there are bytes. -/
def msgDecode (bytes : List Byte) : Option (Except StunErr (StunMsg × List (BitVec 16))) :=
  match hdrDecode bytes with
  | .error e => some (.error e)
  | .ok (hdr, left) =>
    (loop (attrsBody hdr.tid (left.length - hdr.len.toNat)) (left.length + 1) ⟨left, [], []⟩).map fun
      | .error e => .error e
      | .ok s => .ok (⟨hdr, s.attrl, bytes⟩, s.ua)

namespace StunMsg

def attr (msg : StunMsg) (attrib : StunAttrib) : Option Attr := msg.attrl.find? fun attr => attr.type = attrib.code

/-- The header while the integrity is checked: without the fingerprint. -/
def miHdr (msg : StunMsg) : StunHdr :=
  if (msg.attr .FINGERPRINT).isSome then { msg.hdr with len := msg.hdr.len - .ofNat 16 FP_SIZE } else msg.hdr

/-- The bytes that the header has been written to. -/
def miBytes (msg : StunMsg) : List Byte :=
  if (msg.attr .FINGERPRINT).isSome then (hdrWrites msg.miHdr).flatten ++ msg.bytes.drop STUN_HEADER_SIZE else msg.bytes

/-- How many bytes are digested, as a `size_t`. -/
def miLen (msg : StunMsg) : Nat := (STUN_HEADER_SIZE + msg.miHdr.len.toNat + sizeValues - MI_SIZE) % sizeValues

def fpLen (msg : StunMsg) : Nat := (STUN_HEADER_SIZE + msg.hdr.len.toNat + sizeValues - FP_SIZE) % sizeValues

end StunMsg

section
variable (hmacSha1 : List Byte → List Byte → List Byte) (crc32 : List Byte → BitVec 32)

def fingerprint (buf : List Byte) : BitVec 32 := crc32 buf ^^^ 0x5354554e

def msgChkMi (msg : StunMsg) (key : List Byte) : Except StunErr Unit :=
  match msg.attr .MSG_INTEGRITY with
  | none => .error .EPROTO
  | some mi =>
    if mi.v = .msgIntegrity (hmacSha1 key (msg.miBytes.take msg.miLen)) then .ok () else .error .EBADMSG

def msgChkFingerprint (msg : StunMsg) : Except StunErr Unit :=
  match msg.attr .FINGERPRINT with
  | none => .error .EPROTO
  | some fp =>
    if fp.v = .uint32 (fingerprint crc32 (msg.bytes.take msg.fpLen)) then .ok () else .error .EBADMSG

/-- The attributes one after the other, and those without a value left out. -/
def attrsEncode (tid : BitVec 96) (pad : Byte) : List (BitVec 16 × Option AttrValue) → Bool × Mbuf → Bool × Mbuf
  | [], acc => acc
  | (_, none) :: rest, acc => attrsEncode tid pad rest acc
  | (type, some v) :: rest, acc =>
    let (err, mb) := attrEncode tid acc.2 type v pad
    attrsEncode tid pad rest (acc.1 || err, mb)

/-- Whether there was an error, and the buffer. -/
def msgVencode (mb : Mbuf) (method : BitVec 16) (class_ : BitVec 8) (tid : BitVec 96)
    (ec : Option (BitVec 16 × List Byte)) (key : Option (List Byte)) (fp : Bool) (pad : Byte)
    (attrs : List (BitVec 16 × Option AttrValue)) : Bool × Mbuf :=
  let start := mb.pos
  let miSize := if key.isSome then MI_SIZE else 0
  let hdr : StunHdr := ⟨stunType method class_, 0, STUN_MAGIC_COOKIE, tid⟩
  let mb := mb.advance STUN_HEADER_SIZE
  let (err, mb) :=
    match ec with
    | some (code, reason) => attrEncode tid mb StunAttrib.ERR_CODE.code (.errCode code reason) pad
    | none => (false, mb)
  let (err, mb) := attrsEncode tid pad attrs (err, mb)
  let hdr := { hdr with len := .ofNat 16 (mb.pos - start - STUN_HEADER_SIZE + miSize) }
  let mb := hdrEncode (mb.setPos start) hdr
  let mb := mb.setPos (mb.pos + hdr.len.toNat - miSize)
  let (err, mb) :=
    match key with
    | some key =>
      let mi := hmacSha1 key (mb.setPos start).left
      let mb := mb.setPos (start + (STUN_HEADER_SIZE + hdr.len.toNat - MI_SIZE))
      let (err', mb) := attrEncode tid mb StunAttrib.MSG_INTEGRITY.code (.msgIntegrity mi) pad
      (err || err', mb)
    | none => (err, mb)
  if fp then
    let hdr := { hdr with len := .ofNat 16 (mb.pos - start - STUN_HEADER_SIZE + FP_SIZE) }
    let mb := hdrEncode (mb.setPos start) hdr
    let fprnt := fingerprint crc32 (mb.setPos start).left
    let mb := mb.setPos (start + (STUN_HEADER_SIZE + hdr.len.toNat - FP_SIZE))
    let (err', mb) := attrEncode tid mb StunAttrib.FINGERPRINT.code (.uint32 fprnt) pad
    (err || err', mb)
  else (err, mb)

end

end Baresip.Stun
