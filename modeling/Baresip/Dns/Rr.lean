import Baresip.Dns.Dname
import Baresip.Dns.Names

set_option linter.dupNamespace false

namespace Baresip.Dns

open Re Library

inductive DnsType
  | A | NS | CNAME | SOA | PTR | MX | AAAA | SRV | NAPTR
  deriving DecidableEq, Repr

namespace DnsType

def code : DnsType → BitVec 16
  | A => 0x0001
  | NS => 0x0002
  | CNAME => 0x0005
  | SOA => 0x0006
  | PTR => 0x000c
  | MX => 0x000f
  | AAAA => 0x001c
  | SRV => 0x0021
  | NAPTR => 0x0023

def all : List DnsType := [A, NS, CNAME, SOA, PTR, MX, AAAA, SRV, NAPTR]

def ofCode (type : BitVec 16) : Option DnsType := all.find? fun t => t.code = type

theorem ofCode_code (type : DnsType) : ofCode type.code = some type := by
  cases type <;> rfl

end DnsType

/-- The record data. The other types have none. -/
inductive Rdata
  | a (addr : BitVec 32)
  | ns (nsdname : List Byte)
  | cname (cname : List Byte)
  | soa (mname rname : List Byte) (serial refresh retry expire ttlmin : BitVec 32)
  | ptr (ptrdname : List Byte)
  | mx (pref : BitVec 16) (exchange : List Byte)
  | aaaa (addr : BitVec 128)
  | srv (pri weight port : BitVec 16) (target : List Byte)
  | naptr (order pref : BitVec 16) (flags services regexp replace : List Byte)
  | other (type : BitVec 16)
  deriving DecidableEq, Repr

structure Dnsrr where
  name : List Byte
  dnsclass : BitVec 16
  ttl : Int
  rdlen : BitVec 16
  rdata : Rdata
  deriving DecidableEq, Repr

def Rdata.type : Rdata → BitVec 16
  | a .. => DnsType.A.code
  | ns .. => DnsType.NS.code
  | cname .. => DnsType.CNAME.code
  | soa .. => DnsType.SOA.code
  | ptr .. => DnsType.PTR.code
  | mx .. => DnsType.MX.code
  | aaaa .. => DnsType.AAAA.code
  | srv .. => DnsType.SRV.code
  | naptr .. => DnsType.NAPTR.code
  | other type => type

/-- What is written one after the other: numbers of some bytes, names and character strings. -/
inductive Field
  | num (n v : Nat)
  | name (comp : Bool) (name : List Byte)
  | cstr (str : List Byte)
  deriving DecidableEq, Repr

/-- The writes of `dns_rr_encode` for the record data, and none for the types it does not know. -/
def Rdata.fields : Rdata → Option (List Field)
  | a addr => some [.num 4 addr.toNat]
  | ns nsdname => some [.name true nsdname]
  | cname name => some [.name true name]
  | soa mname rname serial refresh retry expire ttlmin =>
    some [.name true mname, .name true rname, .num 4 serial.toNat, .num 4 refresh.toNat, .num 4 retry.toNat,
      .num 4 expire.toNat, .num 4 ttlmin.toNat]
  | ptr ptrdname => some [.name true ptrdname]
  | mx pref exchange => some [.num 2 pref.toNat, .name true exchange]
  | aaaa addr => some [.num 16 addr.toNat]
  | srv pri weight port target =>
    some [.num 2 pri.toNat, .num 2 weight.toNat, .num 2 port.toNat, .name false target]
  | naptr order pref flags services regexp replace =>
    some [.num 2 order.toNat, .num 2 pref.toNat, .cstr flags, .cstr services, .cstr regexp, .name false replace]
  | other _ => none

/-- The length is cut to a byte, and so is what is written of the string. -/
def cstrEncode (mb : Mbuf) (str : List Byte) : Mbuf :=
  let len : Byte := .ofNat 8 str.length
  (mb.writeU8 len).writeMem (str.take len.toNat)

section
variable (start : Nat)

/-- Whether there was an error, and what has been written. -/
def fieldEncode (s : EncodeSt) : Field → Bool × EncodeSt
  | .num n v => (false, { s with mb := s.mb.writeMem (putBe n v) })
  | .name comp name =>
    let (err, s) := dnameEncode start comp name s
    (err.isSome, s)
  | .cstr str => (false, { s with mb := cstrEncode s.mb str })

/-- The writes go on behind an error. -/
def fieldsEncode : List Field → EncodeSt → Bool × EncodeSt
  | [], s => (false, s)
  | field :: fields, s =>
    let (err, s) := fieldEncode start s field
    let (err', s) := fieldsEncode fields s
    (err || err', s)

def ttlEncode (ttl ttlOffs : Int) : BitVec 32 := .ofInt 32 (if ttl > ttlOffs then ttl - ttlOffs else 0)

/-- What is written in front of the record data. -/
def headFields (rr : Dnsrr) (ttlOffs : Int) (rdlen : Nat) : List Field :=
  [.name true rr.name, .num 2 rr.rdata.type.toNat, .num 2 rr.dnsclass.toNat, .num 4 (ttlEncode rr.ttl ttlOffs).toNat,
    .num 2 rdlen]

/-- The length of the record data is written over the one of the record. -/
def rrEncode (rr : Dnsrr) (ttlOffs : Int) (s : EncodeSt) : Bool × EncodeSt :=
  let (err, s) := fieldsEncode start (headFields rr ttlOffs rr.rdlen.toNat) s
  let startRdata := s.mb.pos
  let (err', s) :=
    match rr.rdata.fields with
    | some fields => fieldsEncode start fields s
    | none => (true, s)
  let len : BitVec 16 := .ofNat 16 (s.mb.pos - startRdata)
  let mb := (s.mb.setPos (startRdata - 2)).writeMem (putBe 2 len.toNat)
  (err || err', { s with mb := mb.advance len.toNat })

end

/-- An access outside of a buffer has no result. -/
inductive RrErr
  | EINVAL | EBADMSG | outside
  deriving DecidableEq, Repr

/-- How many steps the loop of the decoder of names takes at most. -/
def dnameFuel (mb : Mbuf) : Nat := rank mb (dnameInit mb) + 1

def nameDecode (start : Nat) (mb : Mbuf) : Except RrErr (List Byte × Mbuf) :=
  match loop (dnameBody mb start) (dnameFuel mb) (dnameInit mb) with
  | some (.name name pos) => .ok (name, mb.setPos pos)
  | some (.einval _) => .error .EINVAL
  | some .outsideRead | some .outsideWrite | none => .error .outside

/-- A number that is read from too few bytes is 0. -/
def numDecode (n : Nat) (mb : Mbuf) : Nat × Mbuf :=
  if n ≤ mb.getLeft then (getBe (mb.left.take n), mb.advance n) else (0, mb)

def cstrDecode (mb : Mbuf) : Except RrErr (List Byte × Mbuf) :=
  if mb.getLeft < 1 then .error .EINVAL
  else
    let (len, mb) := numDecode 1 mb
    if mb.getLeft < len then .error .EBADMSG
    else .ok ((mb.left.take len).takeWhile (· != 0), mb.advance len)

/-- What `dns_rr_decode` does for the record data: its checks of the length of the data and of how many bytes are left,
    and its reads. -/
inductive Step
  | rdlen (n : Nat)
  | left (n : Nat)
  | num (n : Nat)
  | name
  | cstr
  deriving DecidableEq, Repr

def DnsType.steps : DnsType → List Step
  | A => [.rdlen 4, .num 4]
  | NS => [.name]
  | CNAME => [.name]
  | SOA => [.name, .name, .left 20, .num 4, .num 4, .num 4, .num 4, .num 4]
  | PTR => [.name]
  | MX => [.left 2, .num 2, .name]
  | AAAA => [.rdlen 16, .num 16]
  | SRV => [.left 6, .num 2, .num 2, .num 2, .name]
  | NAPTR => [.left 4, .num 2, .num 2, .cstr, .cstr, .cstr, .name]

/-- What has been read. -/
inductive Value
  | num (v : Nat)
  | text (str : List Byte)
  deriving DecidableEq, Repr

section
variable (start rdlen : Nat)

def stepsDecode : List Step → Mbuf → Except RrErr (List Value × Mbuf)
  | [], mb => .ok ([], mb)
  | .rdlen n :: steps, mb => if rdlen ≠ n then .error .EINVAL else stepsDecode steps mb
  | .left n :: steps, mb => if mb.getLeft < n then .error .EINVAL else stepsDecode steps mb
  | .num n :: steps, mb =>
    let (v, mb) := numDecode n mb
    match stepsDecode steps mb with
    | .error e => .error e
    | .ok (values, mb) => .ok (.num v :: values, mb)
  | .name :: steps, mb =>
    match nameDecode start mb with
    | .error e => .error e
    | .ok (name, mb) =>
      match stepsDecode steps mb with
      | .error e => .error e
      | .ok (values, mb) => .ok (.text name :: values, mb)
  | .cstr :: steps, mb =>
    match cstrDecode mb with
    | .error e => .error e
    | .ok (str, mb) =>
      match stepsDecode steps mb with
      | .error e => .error e
      | .ok (values, mb) => .ok (.text str :: values, mb)

end

/-- The fields of the record data, in the order in which they are read. -/
def Rdata.ofValues : DnsType → List Value → Option Rdata
  | .A, [.num addr] => some (.a (.ofNat 32 addr))
  | .NS, [.text nsdname] => some (.ns nsdname)
  | .CNAME, [.text name] => some (.cname name)
  | .SOA, [.text mname, .text rname, .num serial, .num refresh, .num retry, .num expire, .num ttlmin] =>
    some (.soa mname rname (.ofNat 32 serial) (.ofNat 32 refresh) (.ofNat 32 retry) (.ofNat 32 expire)
      (.ofNat 32 ttlmin))
  | .PTR, [.text ptrdname] => some (.ptr ptrdname)
  | .MX, [.num pref, .text exchange] => some (.mx (.ofNat 16 pref) exchange)
  | .AAAA, [.num addr] => some (.aaaa (.ofNat 128 addr))
  | .SRV, [.num pri, .num weight, .num port, .text target] =>
    some (.srv (.ofNat 16 pri) (.ofNat 16 weight) (.ofNat 16 port) target)
  | .NAPTR, [.num order, .num pref, .text flags, .text services, .text regexp, .text replace] =>
    some (.naptr (.ofNat 16 order) (.ofNat 16 pref) flags services regexp replace)
  | _, _ => none

structure RrHdr where
  type : BitVec 16
  dnsclass : BitVec 16
  ttl : BitVec 32
  rdlen : BitVec 16
  deriving DecidableEq, Repr

/-- The bytes of a record between its name and its data. -/
def rrHdrSize : Nat := 10

def hdrDecode (mb : Mbuf) : RrHdr × Mbuf :=
  let (type, mb) := numDecode 2 mb
  let (dnsclass, mb) := numDecode 2 mb
  let (ttl, mb) := numDecode 4 mb
  let (rdlen, mb) := numDecode 2 mb
  (⟨.ofNat 16 type, .ofNat 16 dnsclass, .ofNat 32 ttl, .ofNat 16 rdlen⟩, mb)

def rdataDecode (start : Nat) (hdr : RrHdr) (mb : Mbuf) : Except RrErr (Rdata × Mbuf) :=
  match DnsType.ofCode hdr.type with
  | none => .ok (.other hdr.type, mb.advance hdr.rdlen.toNat)
  | some type =>
    match stepsDecode start hdr.rdlen.toNat type.steps mb with
    | .error e => .error e
    | .ok (values, mb) => .ok ((Rdata.ofValues type values).getD (.other hdr.type), mb)

def rrDecode (start : Nat) (mb : Mbuf) : Except RrErr (Dnsrr × Mbuf) :=
  match nameDecode start mb with
  | .error e => .error e
  | .ok (name, mb) =>
    if mb.getLeft < rrHdrSize then .error .EINVAL
    else
      let (hdr, mb) := hdrDecode mb
      if mb.getLeft < hdr.rdlen.toNat then .error .EINVAL
      else
        match rdataDecode start hdr mb with
        | .error e => .error e
        | .ok (rdata, mb) => .ok (⟨name, hdr.dnsclass, hdr.ttl.toNat, hdr.rdlen, rdata⟩, mb)

end Baresip.Dns
