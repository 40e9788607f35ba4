import Baresip.Srtp.Sdes

set_option linter.dupNamespace false

namespace Baresip.Srtp

open Re

inductive CryptoPolicy
  | rtpDefault | rtcpDefault | aesCm128HmacSha1_32 | aesCm128HmacSha1_80
  deriving DecidableEq, Repr

inductive SsrcType
  | anyInbound | anyOutbound
  deriving DecidableEq, Repr

structure Policy where
  rtp : CryptoPolicy
  rtcp : CryptoPolicy
  ssrc : SsrcType
  deriving DecidableEq, Repr

/-- The answer of `srtp_create`: its status, which is 0 on success, and what it left in the session
    pointer. -/
structure Created (Ctx : Type) where
  status : Nat
  session : Option Ctx
  deriving DecidableEq, Repr

variable {Ctx : Type}

/-- `tx` and `rx` are the answers that `srtp_tx` and `srtp_rx` were set from, of which the source keeps the
    session only. -/
structure MencSt (Ctx : Type) where
  keyTx : List Byte
  keyRx : List Byte
  tx : Created Ctx
  rx : Option (Created Ctx)
  policyTx : Policy
  policyRx : Policy
  useSrtp : Bool
  deriving DecidableEq, Repr

def srtpMasterKeyLen : Nat := 30

def keySize : Nat := 32

def setupSrtp (key : List Byte) (created : Created Ctx) : MencSt Ctx where
  keyTx := key ++ List.replicate (keySize - key.length) 0
  keyRx := List.replicate keySize 0
  tx := created
  rx := none
  policyTx := ⟨.rtpDefault, .rtcpDefault, .anyOutbound⟩
  policyRx := ⟨.rtpDefault, .rtcpDefault, .anyInbound⟩
  useSrtp := false

def suitePolicy (suite : Pl) : Option CryptoPolicy :=
  if suite.strcasecmp (ascii "AES_CM_128_HMAC_SHA1_32") then some .aesCm128HmacSha1_32
  else if suite.strcasecmp (ascii "AES_CM_128_HMAC_SHA1_80") then some .aesCm128HmacSha1_80
  else none

def Crypto.inline (c : Crypto) : Bool := c.keyMethod.strcmp (ascii "inline")

/-- The key of an attribute. After it come the rest of the attribute, its terminating zero and `beyond`. -/
def Crypto.key (c : Crypto) (value beyond : List Byte) : Except Errno (List Byte) :=
  let rest := value.drop (c.keyInfo.off + c.keyInfo.val.length)
  base64Decode c.keyInfo.val (rest ++ 0 :: beyond) keySize

/-- Decoding writes over `key_rx` from its start, and past its end when there are more than 32 bytes. -/
def overwrite (keyRx key : List Byte) : List Byte := key ++ keyRx.drop key.length

def decodeCrypto (st : MencSt Ctx) (value beyond : List Byte) (created : Created Ctx) :
    Option Errno × MencSt Ctx :=
  match sdesDecodeCrypto value with
  | .error e => (some e, st)
  | .ok c =>
    match c.key value beyond with
    | .error e => (some e, st)
    | .ok key =>
      -- a key of another length than 30 is only warned about
      let st := { st with keyRx := overwrite st.keyRx key }
      if !c.inline then (some .EINVAL, st)
      else
        match suitePolicy c.suite with
        | none => (some .ENOENT, st)
        | some policy =>
          -- so is a session that could not be created
          let st := { st with policyRx := { st.policyRx with rtp := policy }, rx := some created }
          (none, { st with useSrtp := true })

/-- The crypto attribute that the remote line has at an update, the memory after it, and what creating a
    session would give. -/
structure Offer (Ctx : Type) where
  value : Option (List Byte)
  beyond : List Byte
  created : Created Ctx
  deriving DecidableEq, Repr

def update (st : MencSt Ctx) (offer : Offer Ctx) : Option Errno × MencSt Ctx :=
  match offer.value with
  | none => (none, st)
  | some value => decodeCrypto st value offer.beyond offer.created

def afterUpdate (st : MencSt Ctx) (offer : Offer Ctx) : MencSt Ctx := (update st offer).2

end Baresip.Srtp
