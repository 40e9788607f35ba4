import Baresip.Httpauth.Digest
import Baresip.Sip.Message

set_option linter.dupNamespace false

namespace Baresip.Sip.Auth

open Re Message Httpauth

def wwwAuthenticate : HdrId := some 2763
def proxyAuthenticate : HdrId := some 116

/-- `pl_strdup`: a string ends at its first zero byte. -/
def plStrdup (v : List Byte) : List Byte := v.takeWhile (· != 0)

structure Realm where
  realm : List Byte
  nonce : List Byte
  qop : Option (List Byte)
  opaque_ : Option (List Byte)
  user : List Byte
  pass : List Byte
  nc : BitVec 32
  hdr : HdrId
  deriving DecidableEq, Repr

structure SipAuth where
  realml : List Realm
  err : Option AuthErr
  deriving DecidableEq, Repr

/-- The handler that asks for the user and the password of a realm. -/
abbrev AuthH := List Byte → Except AuthErr (List Byte × List Byte)

def sameRealm (a b : List Byte) : Bool := a.map tolower == b.map tolower

def cmpHandler (chrealm : List Byte) (realm : Realm) : Bool :=
  if realm.nc = 1 then false else sameRealm chrealm realm.realm

/-- The first element that a handler accepts, between those before and those after it. -/
def locate {α : Type} (p : α → Bool) : List α → Option (List α × α × List α)
  | [] => none
  | x :: rest => if p x then some ([], x, rest) else (locate p rest).map fun (pre, y, post) => (x :: pre, y, post)

def ifSet (pl : Option (List Byte)) : Option (List Byte) := if isset pl then pl.map plStrdup else none

def Realm.challenged (realm : Realm) (ch : DigestChall) (id : HdrId) : Realm :=
  { realm with
    hdr := id, nc := 1, nonce := plStrdup (ch.nonce.getD []), qop := ifSet ch.qop, opaque_ := ifSet ch.opaque_ }

def stale (ch : DigestChall) : Bool := isset ch.stale && named (ch.stale.getD []) "true"

def knownAlgorithm (ch : DigestChall) : Bool := !isset ch.algorithm || named (ch.algorithm.getD []) "md5"

/-- True is a refusal, which ends the search for further headers. -/
def authHandler (authh : AuthH) (hdr : SipHdr) (auth : SipAuth) : Bool × SipAuth :=
  match httpauthDigestChallengeDecode hdr.val with
  | .error _ => (true, { auth with err := some (.errno .EBADMSG) })
  | .ok ch =>
    if knownAlgorithm ch = false then (true, { auth with err := some (.errno .ENOSYS) })
    else
      match locate (cmpHandler (ch.realm.getD [])) auth.realml with
      | none =>
        let name := plStrdup (ch.realm.getD [])
        match authh name with
        | .error err => (true, { auth with err := some err })
        | .ok (user, pass) =>
          let realm : Realm := ⟨name, [], none, none, user, pass, 0, none⟩
          (false, { auth with realml := auth.realml ++ [realm.challenged ch hdr.id] })
      | some (pre, realm, post) =>
        if stale ch = false then (true, ⟨pre ++ post, some .EAUTH⟩)
        else (false, { auth with realml := pre ++ realm.challenged ch hdr.id :: post })

/-- `sip_msg_hdr_apply` on the headers it finds. -/
def hdrApply {σ : Type} (h : SipHdr → σ → Bool × σ) : List SipHdr → σ → Bool × σ
  | [], s => (false, s)
  | hdr :: hdrs, s =>
    match h hdr s with
    | (true, s) => (true, s)
    | (false, s) => hdrApply h hdrs s

def sipMsgHdrApply {σ : Type} (msg : SipMsg) (id : HdrId) (h : SipHdr → σ → Bool × σ) (s : σ) : Bool × σ :=
  hdrApply h (msg.hdrht.filter (·.id = id)) s

def sipAuthAuthenticate (authh : AuthH) (msg : SipMsg) (auth : SipAuth) : Option AuthErr × SipAuth :=
  match sipMsgHdrApply msg wwwAuthenticate (authHandler authh) auth with
  | (true, auth) => (auth.err, auth)
  | (false, auth) =>
    match sipMsgHdrApply msg proxyAuthenticate (authHandler authh) auth with
    | (true, auth) => (auth.err, auth)
    | (false, auth) => (none, auth)

def ncText (nc : BitVec 32) : List Byte := hexDigits 8 nc.toNat

def cnonceText (cnonce : BitVec 64) : List Byte := hexDigits 16 cnonce.toNat

/-- What is hashed to HA1. -/
def a1 (user realm pass : List Byte) : List Byte := user ++ colon ++ realm ++ colon ++ pass

def mkdigest (md5 : List Byte → Md5) (realm : Realm) (met uri : List Byte) (cnonce : BitVec 64) : Md5 :=
  let ha1 := md5 (a1 realm.user realm.realm realm.pass)
  let ha2 := md5 (met ++ colon ++ uri)
  if realm.qop.isSome then
    md5 (hex ha1.bytes ++ colon ++ realm.nonce ++ colon ++ ncText realm.nc ++ colon ++ cnonceText cnonce ++
      ascii ":auth:" ++ hex ha2.bytes)
  else md5 (hex ha1.bytes ++ colon ++ realm.nonce ++ colon ++ hex ha2.bytes)

/-- The fields of an Authorization header; the nonce count is written if the challenge had a qop value. -/
structure Credentials where
  hdr : HdrId
  username : List Byte
  realm : List Byte
  nonce : List Byte
  uri : List Byte
  response : Md5
  opaque_ : Option (List Byte)
  qop : Bool
  cnonce : BitVec 64
  nc : BitVec 32
  deriving DecidableEq

def Realm.credentials (md5 : List Byte → Md5) (realm : Realm) (met uri : List Byte) (cnonce : BitVec 64) : Credentials :=
  ⟨realm.hdr, realm.user, realm.realm, realm.nonce, uri, mkdigest md5 realm met uri cnonce, realm.opaque_,
    realm.qop.isSome, cnonce, realm.nc⟩

/-- The value of the header. -/
def Credentials.value (c : Credentials) : List Byte :=
  ascii "Digest username=" ++ quoted c.username ++
    ascii ", realm=" ++ quoted c.realm ++
    ascii ", nonce=" ++ quoted c.nonce ++
    ascii ", uri=" ++ quoted c.uri ++
    ascii ", response=" ++ quoted (hex c.response.bytes) ++
    (match c.opaque_ with
      | some v => ascii ", opaque=" ++ quoted v
      | none => []) ++
    (if c.qop then
      ascii ", cnonce=" ++ quoted (cnonceText c.cnonce) ++ ascii ", qop=auth" ++ ascii ", nc=" ++ ncText c.nc
    else [])

def Credentials.text (c : Credentials) : List Byte :=
  (if c.hdr = wwwAuthenticate then ascii "Authorization: " else ascii "Proxy-Authorization: ") ++ c.value ++ ascii "\r\n"

/-- The loop over the realms, with a random number for each. -/
def encodeRealms (md5 : List Byte → Md5) (met uri : List Byte) :
    (Nat → BitVec 64) → List Realm → List Credentials × List Realm
  | _, [] => ([], [])
  | cnonces, realm :: rest =>
    let (sent, after) := encodeRealms md5 met uri (fun i => cnonces (i + 1)) rest
    if realm.hdr = wwwAuthenticate ∨ realm.hdr = proxyAuthenticate then
      (realm.credentials md5 met uri (cnonces 0) :: sent, { realm with nc := realm.nc + 1 } :: after)
    else (sent, realm :: after)

def sipAuthEncode (md5 : List Byte → Md5) (met uri : List Byte) (cnonces : Nat → BitVec 64) (auth : SipAuth) :
    List Byte × SipAuth :=
  let (sent, realml) := encodeRealms md5 met uri cnonces auth.realml
  (sent.flatMap Credentials.text, { auth with realml := realml })

def sipAuthReset (auth : SipAuth) : SipAuth := { auth with realml := [] }

variable {α : Type} {p : α → Bool} {l pre post : List α} {x : α}

theorem locate_some (found : locate p l = some (pre, x, post)) : l = pre ++ x :: post ∧ p x = true := by
  induction l generalizing pre with
  | nil => contradiction
  | cons y rest ih =>
    rw [locate] at found
    by_cases here : p y = true
    · rw [if_pos here] at found
      cases found
      exact ⟨rfl, here⟩
    · rw [if_neg here, Option.map_eq_some_iff] at found
      rcases found with ⟨⟨pre', x', post'⟩, later, same⟩
      cases same
      rcases ih later with ⟨rfl, there⟩
      exact ⟨rfl, there⟩

theorem locate_none : locate p l = none ↔ ∀ y ∈ l, p y = false := by
  induction l with
  | nil => simp [locate]
  | cons y rest ih =>
    rw [locate, List.forall_mem_cons, ← ih]
    by_cases here : p y = true
    · simp [here]
    · simp [here]

def Realm.next (realm : Realm) : Realm := { realm with nc := realm.nc + 1 }

theorem encodeRealms_cons {md5 : List Byte → Md5} {met uri : List Byte} {cnonces : Nat → BitVec 64} {realm : Realm}
    {rest : List Realm} (known : realm.hdr = wwwAuthenticate ∨ realm.hdr = proxyAuthenticate) :
    encodeRealms md5 met uri cnonces (realm :: rest) =
      (realm.credentials md5 met uri (cnonces 0) ::
          (encodeRealms md5 met uri (fun i => cnonces (i + 1)) rest).1,
        realm.next :: (encodeRealms md5 met uri (fun i => cnonces (i + 1)) rest).2) := by
  rw [encodeRealms]
  exact if_pos known

theorem hdrApply_append {σ : Type} (h : SipHdr → σ → Bool × σ) (hdrs hdrs' : List SipHdr) (s : σ) :
    hdrApply h (hdrs ++ hdrs') s =
      match hdrApply h hdrs s with
      | (true, s) => (true, s)
      | (false, s) => hdrApply h hdrs' s := by
  induction hdrs generalizing s with
  | nil => rfl
  | cons hdr hdrs ih =>
    rw [List.cons_append, hdrApply, hdrApply]
    rcases h hdr s with ⟨_ | _, s'⟩
    · exact ih s'
    · rfl

end Baresip.Sip.Auth
