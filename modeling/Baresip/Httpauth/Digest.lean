import Baresip.Re.Pattern

set_option linter.dupNamespace false

namespace Baresip.Httpauth

open Re

/-- What a challenge gives; a parameter it does not have is not set. -/
structure DigestChall where
  realm : Option (List Byte)
  nonce : Option (List Byte)
  opaque_ : Option (List Byte)
  stale : Option (List Byte)
  algorithm : Option (List Byte)
  qop : Option (List Byte)
  deriving DecidableEq, Repr

structure DigestResp where
  realm : Option (List Byte)
  nonce : Option (List Byte)
  response : Option (List Byte)
  username : Option (List Byte)
  uri : Option (List Byte)
  nc : Option (List Byte)
  cnonce : Option (List Byte)
  qop : Option (List Byte)
  deriving DecidableEq, Repr

/-- `pl_casecmp` of a parameter's name. -/
def named (name : List Byte) (param : String) : Bool := name.map tolower == (ascii param).map tolower

/-- `pl_isset` -/
def isset (pl : Option (List Byte)) : Bool := pl.any (· ≠ [])

def challengeDecode (chall : DigestChall) (name val : List Byte) : DigestChall :=
  if named name "realm" then { chall with realm := some val }
  else if named name "nonce" then { chall with nonce := some val }
  else if named name "opaque" then { chall with opaque_ := some val }
  else if named name "stale" then { chall with stale := some val }
  else if named name "algorithm" then { chall with algorithm := some val }
  else if named name "qop" then { chall with qop := some val }
  else chall

def responseDecode (resp : DigestResp) (name val : List Byte) : DigestResp :=
  if named name "realm" then { resp with realm := some val }
  else if named name "nonce" then { resp with nonce := some val }
  else if named name "response" then { resp with response := some val }
  else if named name "username" then { resp with username := some val }
  else if named name "uri" then { resp with uri := some val }
  else if named name "nc" then { resp with nc := some val }
  else if named name "cnonce" then { resp with cnonce := some val }
  else if named name "qop" then { resp with qop := some val }
  else resp

def schemePattern : List Byte := ascii "[ \t\r\n]*Digest[ \t\r\n]+"

def paramPattern : List Byte := ascii "[ \t\r\n,]+[a-z]+[ \t\r\n]*=[ \t\r\n]*[~ \t\r\n,]*"

def blank : List Chr := [⟨chr ' ', chr ' '⟩, ⟨chr '\t', chr '\t'⟩, ⟨chr '\r', chr '\r'⟩, ⟨chr '\n', chr '\n'⟩]

def blankComma : List Chr := blank ++ [⟨chr ',', chr ','⟩]

def letters : List Chr := [⟨chr 'a', chr 'z'⟩]

def paramItems : List Item :=
  [.cls false false blankComma 1 Regex.uint32Max, .cls false false letters 1 Regex.uint32Max,
    .cls false false blank 0 Regex.uint32Max, .lit (chr '='), .cls false false blank 0 Regex.uint32Max,
    .cls true true blankComma 0 Regex.uint32Max]

theorem param_parses : Regex.Parses paramPattern paramItems := by
  have sep : Regex.Opens (ascii "[ \t\r\n,]+") false false blankComma 1 Regex.uint32Max := .ofList fun _ _ _ _ _ _ _ _ _ => rfl
  have name : Regex.Opens (ascii "[a-z]+") false false letters 1 Regex.uint32Max := .ofList fun _ _ _ _ _ _ _ _ _ => rfl
  have gap : Regex.Opens (ascii "[ \t\r\n]*") false false blank 0 Regex.uint32Max := .ofList fun _ _ _ _ _ _ _ _ _ => rfl
  have val : Regex.Opens (ascii "[~ \t\r\n,]*") true true blankComma 0 Regex.uint32Max := .ofList fun _ _ _ _ _ _ _ _ _ => rfl
  have plain : chr '=' ≠ chr '\\' ∧ chr '=' ≠ chr '[' := by decide
  exact .ofList ((((((Regex.Parses.nil.cls val).cls gap).lit plain).cls gap).cls name).cls sep)

theorem stripQuotes_ends (pl : Pl) : pl.off ≤ (Regex.stripQuotes pl).off := by
  unfold Regex.stripQuotes
  split
  · exact Nat.le_succ _
  · exact Nat.le_refl _

/-- A parameter is found behind where the search starts. -/
theorem paramItems_ok {off : Nat} {p : List Byte} {captures : List Pl}
    (found : matchItems paramItems off p = .ok captures) :
    ∃ sep name gap gap' val, captures = [sep, name, gap, gap', val] ∧ off < val.off := by
  rcases matchItems_many_ok found with ⟨captures, rfl, -, found⟩
  rcases matchItems_many_ok found with ⟨captures, rfl, -, found⟩
  rcases matchItems_many_ok found with ⟨captures, rfl, -, found⟩
  rcases matchItems_lit_ok found with ⟨c, p', -, -, found⟩
  rcases matchItems_many_ok found with ⟨captures, rfl, -, found⟩
  rw [matchItems, if_pos rfl] at found
  split_ifs at found
  rw [matchItems_nil] at found
  obtain rfl := Except.ok.inj found
  refine ⟨_, _, _, _, _, rfl, Nat.lt_of_lt_of_le ?_ (stripQuotes_ends _)⟩
  dsimp only
  omega

theorem param_found {r : List Byte} {captures : List Pl} (found : reRegex r paramPattern = .ok captures) :
    ∃ sep name gap gap' val, captures = [sep, name, gap, gap', val] ∧ 0 < val.off ∧
      val.off + val.val.length ≤ r.length := by
  have inside := reRegex_inside found
  rcases (reRegexFrom_ok param_parses (by decide) 0 r captures).mp found with ⟨before, after, -, -, hit, -⟩
  rcases paramItems_ok hit with ⟨sep, name, gap, gap', val, rfl, behind⟩
  exact ⟨sep, name, gap, gap', val, rfl, Nat.zero_lt_of_lt behind, inside val (by simp)⟩

/-- The loop over the parameters. -/
def digestParams (r : List Byte) : List (List Byte × List Byte) :=
  match _found : reRegex r paramPattern with
  | .ok [_, name, _, _, val] => (name.val, val.val) :: digestParams (r.drop (val.off + val.val.length))
  | _ => []
termination_by r.length
decreasing_by
  rcases param_found _found with ⟨sep', name', gap, gap', val', same, behind, inside⟩
  simp only [List.cons.injEq, and_true] at same
  rcases same with ⟨rfl, rfl, rfl, rfl, rfl⟩
  rw [List.length_drop]
  omega

def digestDecode (hval : List Byte) : Except Errno (List (List Byte × List Byte)) :=
  match reRegex hval schemePattern with
  | .ok [start, end_] => if start.off ≠ 0 then .error .EBADMSG else .ok (digestParams (hval.drop end_.off))
  | _ => .error .EBADMSG

def httpauthDigestChallengeDecode (hval : List Byte) : Except Errno DigestChall :=
  match digestDecode hval with
  | .error e => .error e
  | .ok params =>
    let chall := params.foldl (fun chall param => challengeDecode chall param.1 param.2)
      ⟨none, none, none, none, none, none⟩
    if chall.realm.isNone ∨ chall.nonce.isNone then .error .EBADMSG else .ok chall

def httpauthDigestResponseDecode (hval : List Byte) : Except Errno DigestResp :=
  match digestDecode hval with
  | .error e => .error e
  | .ok params =>
    let resp := params.foldl (fun resp param => responseDecode resp param.1 param.2)
      ⟨none, none, none, none, none, none, none, none⟩
    if resp.realm.isNone ∨ resp.nonce.isNone ∨ resp.response.isNone ∨ resp.username.isNone ∨ resp.uri.isNone then
      .error .EBADMSG
    else .ok resp

/-- Sixteen bytes. -/
structure Md5 where
  bytes : List Byte
  size : bytes.length = 16
  deriving DecidableEq

def hexDigit (v : Nat) : Byte := if v < 10 then chr '0' + BitVec.ofNat 8 v else chr 'a' + BitVec.ofNat 8 (v - 10)

/-- The lowest `width` hexadecimal digits of a number. -/
def hexDigits : Nat → Nat → List Byte
  | 0, _ => []
  | width + 1, v => hexDigits width (v / 16) ++ [hexDigit (v % 16)]

/-- The format `%w`. -/
def hex (bytes : List Byte) : List Byte := bytes.flatMap fun v => hexDigits 2 v.toNat

def chHex (ch : Byte) : Byte :=
  if chr '0' ≤ ch ∧ ch ≤ chr '9' then ch - chr '0'
  else if chr 'A' ≤ ch ∧ ch ≤ chr 'F' then ch - chr 'A' + 10
  else if chr 'a' ≤ ch ∧ ch ≤ chr 'f' then ch - chr 'a' + 10
  else 0

def unhex : List Byte → List Byte
  | a :: b :: p => (chHex a <<< 4 + chHex b) :: unhex p
  | _ => []

def quoted (v : List Byte) : List Byte := chr '"' :: v ++ [chr '"']

def colon : List Byte := ascii ":"

inductive AuthErr
  | errno (err : Errno)
  | EAUTH
  deriving DecidableEq, Repr

/-- The digest that the response is compared with. -/
def responseDigest (md5 : List Byte → Md5) (resp : DigestResp) (method : List Byte) (ha1 : Md5) : Md5 :=
  let ha2 := md5 (method ++ colon ++ resp.uri.getD [])
  if isset resp.qop then
    md5 (hex ha1.bytes ++ colon ++ resp.nonce.getD [] ++ colon ++ resp.nc.getD [] ++ colon ++ resp.cnonce.getD [] ++
      colon ++ resp.qop.getD [] ++ colon ++ hex ha2.bytes)
  else md5 (hex ha1.bytes ++ colon ++ resp.nonce.getD [] ++ colon ++ hex ha2.bytes)

def httpauthDigestResponseAuth (md5 : List Byte → Md5) (resp : DigestResp) (method : List Byte) (ha1 : Md5) :
    Option AuthErr :=
  let response := resp.response.getD []
  if response.length ≠ 32 then some .EAUTH
  else if (responseDigest md5 resp method ha1).bytes = unhex response then none
  else some .EAUTH

end Baresip.Httpauth
