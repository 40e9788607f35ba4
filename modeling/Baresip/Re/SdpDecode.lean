import Baresip.Re.SdpSession

set_option linter.dupNamespace false

namespace Baresip.Re

/-- The C library's `inet_pton` for each family. -/
structure InetPton where
  four : List Byte → Option (BitVec 32)
  six : List Byte → Option (BitVec 128)

def noPton : InetPton := ⟨fun _ => none, fun _ => none⟩

/-- A session that is being decoded and the media line that its lines belong to. -/
structure SdpReader (δ : Type) where
  sess : SdpSession δ
  media : Option Nat

variable {δ : Type}

/-- An address that does not parse leaves the old one. -/
def saSet (pton : InetPton) (sa : Sa) (addr : Pl) (port : BitVec 16) : Sa :=
  let buf := cstr (addr.val.take 63)
  match pton.four buf, pton.six buf with
  | some a, _ => .inet a port
  | none, some a => if a >>> 32 = 0xffff then .inet (a.setWidth 32) port else .inet6 a port
  | none, none => sa

theorem saSet_known {pton : InetPton} {sa : Sa} (known : sa ≠ .unspec) (addr : Pl) (port : BitVec 16) :
    saSet pton sa addr port ≠ .unspec := by
  unfold saSet
  dsimp only
  split
  · exact nofun
  · split_ifs
    · exact nofun
    · exact nofun
  · exact known

def attrDecodeFmtp (m : SdpMline δ) (pl : Pl) : Except Errno (SdpMline δ) :=
  match reRegex pl.val (ascii "[^ ]+ [^]*") with
  | .ok [id, params] =>
    .ok { m with
      rfmtl := sdpFormatUpdate m.rfmtl id fun fmt => { fmt with params := some (ofBytes (cstr params.val)) }
      known := m.raddr_known }
  | _ => .error .EBADMSG

def attrDecodeRtcp (pton : InetPton) (m : SdpMline δ) (pl : Pl) : Except Errno (SdpMline δ) :=
  match reRegex pl.val (ascii "[0-9]+ IN IP[46]1 [^ ]+") with
  | .ok [port, _, addr] =>
    .ok { m with raddrRtcp := saSet pton m.raddrRtcp addr (port.u32.setWidth 16), known := m.raddr_known }
  | _ =>
    match reRegex pl.val (ascii "[0-9]+") with
    | .ok [port] =>
      .ok { m with raddrRtcp := m.raddrRtcp.setPort (port.u32.setWidth 16), known := m.raddr_known }
    | _ => .error .EBADMSG

def attrDecodeRtpmap (m : SdpMline δ) (pl : Pl) : Except Errno (SdpMline δ) :=
  match reRegex pl.val (ascii "[^ ]+ [^/]+/[0-9]+[/]*[^]*") with
  | .ok [id, name, srate, _, ch] =>
    .ok { m with
      rfmtl := sdpFormatUpdate m.rfmtl id fun fmt =>
        { fmt with
          name := some (ofBytes (cstr name.val)), srate := srate.u32
          ch := if ch.val = [] then 1 else ch.u32.setWidth 8 }
      known := m.raddr_known }
  | _ => .error .EBADMSG

/-- What is done to the media line, if there is one yet. -/
def SdpReader.onMedia (s : SdpReader δ) (f : SdpMline δ → Except Errno (SdpMline δ)) :
    Except Errno (SdpReader δ) :=
  match s.media with
  | none => .ok s
  | some i =>
    match s.sess.medial[i]? with
    | none => .ok s
    | some m => (f m).map fun m => { s with sess := { s.sess with medial := s.sess.medial.set i m } }

/-- What is done to the media line, or to the session before the first one. -/
def SdpReader.update (s : SdpReader δ) (media : SdpMline δ → SdpMline δ) (sess : SdpSession δ → SdpSession δ) :
    SdpReader δ :=
  match s.media with
  | none => { s with sess := sess s.sess }
  | some i => { s with sess := { s.sess with medial := s.sess.medial.modify i media } }

def SdpReader.setDir (s : SdpReader δ) (dir : SdpDir) : SdpReader δ :=
  s.update (fun m => { m with rdir := dir, known := m.raddr_known }) ({ · with rdir := dir })

def sdpAttrAdd (s : SdpReader δ) (name val : Pl) : SdpReader δ :=
  let attr := (ofBytes (cstr name.val), cstr val.val)
  s.update (fun m => { m with rattrl := m.rattrl ++ [attr], known := m.raddr_known })
    fun sess => { sess with rattrl := sess.rattrl ++ [attr] }

/-- The name of an attribute and its value, which is empty where there is none. -/
def attrSplit (pl : Pl) : Pl × Pl :=
  match reRegex pl.val (ascii "[^:]+:[^]+") with
  | .ok [name, val] => (name, val)
  | _ => (pl, ⟨0, []⟩)

def attrDecode (pton : InetPton) (s : SdpReader δ) (pl : Pl) : Except Errno (SdpReader δ) :=
  let (name, val) := attrSplit pl
  if name.strcmp (ascii "fmtp") then s.onMedia (attrDecodeFmtp · val)
  else if name.strcmp (ascii "inactive") then .ok (s.setDir .inactive)
  else if name.strcmp (ascii "recvonly") then .ok (s.setDir .sendonly)
  else if name.strcmp (ascii "rtcp") then s.onMedia (attrDecodeRtcp pton · val)
  else if name.strcmp (ascii "rtpmap") then s.onMedia (attrDecodeRtpmap · val)
  else if name.strcmp (ascii "sendonly") then .ok (s.setDir .recvonly)
  else if name.strcmp (ascii "sendrecv") then .ok (s.setDir .sendrecv)
  else .ok (sdpAttrAdd s name val)

def bandwidthDecode (s : SdpReader δ) (pl : Pl) : Except Errno (SdpReader δ) :=
  match reRegex pl.val (ascii "[^:]+:[0-9]+") with
  | .ok [type, bw] =>
    match sdpBandwidths.find? fun i => type.strcmp (sdpBandwidthName i) with
    | none => .ok s
    | some i =>
      .ok (s.update (fun m => { m with rbwv := Function.update m.rbwv i bw.u32 })
        fun sess => { sess with rbwv := Function.update sess.rbwv i bw.u32 })
  | _ => .error .EBADMSG

def connDecode (pton : InetPton) (s : SdpReader δ) (pl : Pl) : Except Errno (SdpReader δ) :=
  match reRegex pl.val (ascii "IN IP[46]1 [^ ]+") with
  | .ok [_, v] =>
    .ok (s.update
      (fun m => { m with raddr := saSet pton m.raddr v m.raddr.port, known := saSet_known m.known _ _ })
      fun sess => { sess with raddr := saSet pton sess.raddr v sess.raddr.port, known := saSet_known sess.known _ _ })
  | _ => .error .EBADMSG

def formatPattern : List Byte := ascii " [^ ]+"

def mediaFormats : Nat → SdpMline δ → List Byte → SdpMline δ
  | 0, m, _ => m
  | calls + 1, m, fmtv =>
    match reRegex fmtv formatPattern with
    | .ok [fmt] => mediaFormats calls (sdpFormatRadd m fmt) (fmtv.drop (fmt.off + fmt.val.length))
    | _ => m

def mediaRemote (sess : SdpSession δ) (m : SdpMline δ) (port fmtv : Pl) : SdpMline δ :=
  { mediaFormats (fmtv.val.length + 1) m fmtv.val with
    raddr := sess.raddr.setPort (port.u32.setWidth 16), rdir := sess.rdir
    known := Sa.setPort_known sess.known _ }

def mediaPattern : List Byte := ascii "[a-z]+ [^ ]+ [^ ]+[^]*"

/-- Where the next media line stands. -/
def SdpReader.next (s : SdpReader δ) : Nat :=
  match s.media with
  | none => 0
  | some i => i + 1

/-- The local media line that an m line takes from their list, or a new one. -/
def mediaTake (sess : SdpSession δ) (name proto : Pl) : SdpMline δ × List (SdpMline δ) :=
  match sdpMediaFind sess name proto with
  | none => (sdpMediaRadd name proto, sess.lmedial)
  | some m => (m, sess.lmedial.eraseP (·.named name.val proto.val))

def mediaDecode (s : SdpReader δ) (offer : Bool) (pl : Pl) : Except Errno (SdpReader δ) :=
  match reRegex pl.val mediaPattern with
  | .ok [name, port, proto, fmtv] =>
    match s.sess.medial[s.next]? with
    | none =>
      if !offer then .error .EPROTO
      else
        let (m, lmedial) := mediaTake s.sess name proto
        .ok ⟨{ s.sess with lmedial := lmedial, medial := s.sess.medial ++ [mediaRemote s.sess m port fmtv] },
          some s.sess.medial.length⟩
    | some m =>
      if !name.strcmp m.name then .error (if offer then .ENOTSUP else .EPROTO)
      else if !proto.strcmp m.proto then .error .ENOTSUP
      else
        .ok ⟨{ s.sess with medial := s.sess.medial.set s.next (mediaRemote s.sess m port fmtv) }, some s.next⟩
  | _ => .error .EBADMSG

def lineDecode (pton : InetPton) (offer : Bool) (s : SdpReader δ) (type : Byte) (val : List Byte) :
    Except Errno (SdpReader δ) :=
  if type = chr 'a' then attrDecode pton s ⟨0, val⟩
  else if type = chr 'b' then bandwidthDecode s ⟨0, val⟩
  else if type = chr 'c' then connDecode pton s ⟨0, val⟩
  else if type = chr 'm' then mediaDecode s offer ⟨0, val⟩
  else if type = chr 'v' then (if val = ascii "0" then .ok s else .error .ENOSYS)
  else .ok s

/-- The loop over the bytes of a message; `type` is 0 before the next line. -/
def decodeLoop {σ : Type} (line : σ → Byte → List Byte → Except Errno σ) :
    σ → Byte → List Byte → List Byte → Option Errno × σ
  | s, type, _, [] => (if type = 0 then none else some .EBADMSG, s)
  | s, type, val, c :: pl =>
    if c = chr '\r' ∨ c = chr '\n' then
      if type = 0 then decodeLoop line s 0 [] pl
      else
        match line s type val with
        | .error err => (some err, s)
        | .ok s => decodeLoop line s 0 [] pl
    else if type ≠ 0 then decodeLoop line s type (val ++ [c]) pl
    else
      match pl with
      | [] => (some .EBADMSG, s)
      | d :: pl => if d = chr '=' then decodeLoop line s c [] pl else (some .EBADMSG, s)

/-- The session without anything of the peer's, from which a message starts. -/
def SdpSession.forget (sess : SdpSession δ) : SdpSession δ :=
  { sdpSessionRreset sess with medial := sess.medial.map sdpMediaRreset }

def sdpDecode (pton : InetPton) (sess : SdpSession δ) (mb : List Byte) (offer : Bool) :
    Option Errno × SdpSession δ :=
  match decodeLoop (lineDecode pton offer) ⟨sess.forget, none⟩ 0 [] mb with
  | (some err, s) => (some err, s.sess)
  | (none, s) =>
    (none, { s.sess with medial := s.sess.medial.map fun m =>
      { m with toSdpMedia := sdpMediaAlignFormats m.toSdpMedia offer } })

/-- What each line that is taken keeps, the message keeps, even where it ends in an error. -/
theorem decodeLoop_keeps {σ : Type} {line : σ → Byte → List Byte → Except Errno σ} {P : σ → Prop}
    (keeps : ∀ s type val s', P s → line s type val = .ok s' → P s') {s : σ} (start : P s) (type : Byte)
    (val pl : List Byte) : P (decodeLoop line s type val pl).2 := by
  fun_induction decodeLoop line s type val pl with
  | case1 s type val => exact start
  | case2 s val c pl newline ih => exact ih start
  | case3 => exact start
  | case4 s type val c pl newline some_ s' taken ih => exact ih (keeps s type val s' start taken)
  | case5 s type val c pl text some_ ih => exact ih start
  | case6 => exact start
  | case7 s type val c text none_ pl ih => exact ih start
  | case8 => exact start

end Baresip.Re
