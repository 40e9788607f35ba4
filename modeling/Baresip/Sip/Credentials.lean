import Baresip.Httpauth.Params
import Baresip.Sip.Counts

set_option linter.dupNamespace false

namespace Baresip.Sip.Auth

open Re Message Httpauth Library

namespace Credentials

def params (c : Credentials) : List Param :=
  [⟨ascii "username", c.username, true⟩, ⟨ascii "realm", c.realm, true⟩, ⟨ascii "nonce", c.nonce, true⟩,
    ⟨ascii "uri", c.uri, true⟩, ⟨ascii "response", hex c.response.bytes, true⟩] ++
  (c.opaque_.toList.map fun v => ⟨ascii "opaque", v, true⟩) ++
  if c.qop then
    [⟨ascii "cnonce", cnonceText c.cnonce, true⟩, ⟨ascii "qop", ascii "auth", false⟩, ⟨ascii "nc", ncText c.nc, false⟩]
  else []

theorem value_eq (c : Credentials) : c.value = ascii "Digest" ++ paramsText (ascii " ") c.params := by
  have username : ascii "Digest username=" = ascii "Digest" ++ (ascii " " ++ (ascii "username" ++ [chr '='])) := by decide
  have realm : ascii ", realm=" = ascii ", " ++ (ascii "realm" ++ [chr '=']) := by decide
  have nonce : ascii ", nonce=" = ascii ", " ++ (ascii "nonce" ++ [chr '=']) := by decide
  have uri : ascii ", uri=" = ascii ", " ++ (ascii "uri" ++ [chr '=']) := by decide
  have response : ascii ", response=" = ascii ", " ++ (ascii "response" ++ [chr '=']) := by decide
  have opaque_ : ascii ", opaque=" = ascii ", " ++ (ascii "opaque" ++ [chr '=']) := by decide
  have cnonce : ascii ", cnonce=" = ascii ", " ++ (ascii "cnonce" ++ [chr '=']) := by decide
  have qop : ascii ", qop=auth" = ascii ", " ++ (ascii "qop" ++ ([chr '='] ++ ascii "auth")) := by decide
  have nc : ascii ", nc=" = ascii ", " ++ (ascii "nc" ++ [chr '=']) := by decide
  rcases c with ⟨_, _, _, _, _, _, _ | v, _ | _, _, _⟩ <;>
    simp only [value, params, paramsText, Param.text, Param.written, username, realm, nonce, uri, response, opaque_,
      cnonce, qop, nc, Option.toList, List.map_cons, List.map_nil, List.append_assoc, List.cons_append, List.nil_append,
      List.append_nil, if_true, if_false, Bool.false_eq_true]

/-- What the other side decodes. -/
def answer (c : Credentials) : DigestResp where
  realm := some c.realm
  nonce := some c.nonce
  response := some (hex c.response.bytes)
  username := some c.username
  uri := some c.uri
  nc := if c.qop then some (ncText c.nc) else none
  cnonce := if c.qop then some (cnonceText c.cnonce) else none
  qop := if c.qop then some (ascii "auth") else none

theorem answer_eq (c : Credentials) :
    (c.params.map fun p => (p.name, p.val)).foldl (fun resp param => responseDecode resp param.1 param.2)
      ⟨none, none, none, none, none, none, none, none⟩ = c.answer := by
  rcases c with ⟨_, _, _, _, _, _, _ | v, _ | _, _, _⟩ <;> rfl

/-- The quoted fields are complete. -/
structure Quotable (c : Credentials) : Prop where
  username : Complete c.username
  realm : Complete c.realm
  nonce : Complete c.nonce
  uri : Complete c.uri
  opaque_ : ∀ v, c.opaque_ = some v → Complete v

theorem response_complete (c : Credentials) : Complete (hex c.response.bytes) := complete_plain (hex_plain _)

theorem params_wellformed {c : Credentials} (quotable : c.Quotable) : ∀ p ∈ c.params, p.Wellformed := by
  unfold params
  intro p member
  rw [List.mem_append, List.mem_append] at member
  rcases member with (member | member) | member
  · simp only [List.mem_cons, List.not_mem_nil, or_false] at member
    rcases member with rfl | rfl | rfl | rfl | rfl
    · exact Param.quoted_wellformed (by decide) (by decide) quotable.username
    · exact Param.quoted_wellformed (by decide) (by decide) quotable.realm
    · exact Param.quoted_wellformed (by decide) (by decide) quotable.nonce
    · exact Param.quoted_wellformed (by decide) (by decide) quotable.uri
    · exact Param.quoted_wellformed (by decide) (by decide) c.response_complete
  · rcases List.mem_map.mp member with ⟨v, given, rfl⟩
    exact Param.quoted_wellformed (by decide) (by decide) (quotable.opaque_ v (by simpa using given))
  · by_cases qop : c.qop = true
    · rw [if_pos qop] at member
      simp only [List.mem_cons, List.not_mem_nil, or_false] at member
      rcases member with rfl | rfl | rfl
      · exact Param.quoted_wellformed (by decide) (by decide) (complete_plain (hexDigits_plain _ _))
      · exact Param.token_wellformed (by decide) (by decide) (by decide) (by decide)
      · have some_ : ncText c.nc ≠ [] := List.ne_nil_of_length_pos (by rw [ncText, hexDigits_length]; omega)
        exact Param.token_wellformed (by decide) (by decide) some_ hexDigits_token
    · rw [if_neg qop] at member
      contradiction

/-- A header that is not too long for the counter of the pattern matcher is decoded to what was written. -/
theorem value_decoded {c : Credentials} (quotable : c.Quotable) (fits : c.value.length ≤ Regex.uint32Max) :
    httpauthDigestResponseDecode c.value = .ok c.answer := by
  have some_ : c.params ≠ [] := by simp [params]
  have short : (paramsText (ascii " ") c.params).length ≤ Regex.uint32Max := by
    rw [value_eq, List.length_append] at fits
    omega
  unfold httpauthDigestResponseDecode
  rw [value_eq, digestDecode_text (params_wellformed quotable) some_ short]
  dsimp only
  rw [answer_eq]
  rfl

end Credentials

/-- The other side's digest is the client's. -/
theorem answer_digest (md5 : List Byte → Md5) (realm : Realm) (met uri : List Byte) (cnonce : BitVec 64) :
    responseDigest md5 (realm.credentials md5 met uri cnonce).answer met (md5 (a1 realm.user realm.realm realm.pass)) =
      mkdigest md5 realm met uri cnonce := by
  have mark : ascii ":auth:" = colon ++ (ascii "auth" ++ colon) := by decide
  have some_ : isset (some (ascii "auth")) = true := by decide
  unfold responseDigest mkdigest
  by_cases qop : realm.qop.isSome = true
  · simp only [Realm.credentials, Credentials.answer, qop, if_true, Option.getD_some, some_, mark, List.append_assoc]
  · have none_ : isset none = false := rfl
    simp only [Realm.credentials, Credentials.answer, qop, if_false, Option.getD_some, none_, Bool.false_eq_true]

theorem answer_accepted (md5 : List Byte → Md5) (realm : Realm) (met uri : List Byte) (cnonce : BitVec 64) :
    httpauthDigestResponseAuth md5 (realm.credentials md5 met uri cnonce).answer met
      (md5 (a1 realm.user realm.realm realm.pass)) = none := by
  have length : (hex (mkdigest md5 realm met uri cnonce).bytes).length = 32 := by
    rw [hex_length, (mkdigest md5 realm met uri cnonce).size]
  have same : (responseDigest md5 (realm.credentials md5 met uri cnonce).answer met
      (md5 (a1 realm.user realm.realm realm.pass))).bytes =
        unhex ((realm.credentials md5 met uri cnonce).answer.response.getD []) := by
    rw [answer_digest]
    exact (unhex_hex _).symm
  unfold httpauthDigestResponseAuth
  dsimp only
  rw [if_pos same]
  exact if_neg (not_not.mpr length)

/-- Every header that the realm's credentials are written to is decoded to them and accepted. -/
def Realm.Accepted (md5 : List Byte → Md5) (realm : Realm) : Prop :=
  ∀ met uri cnonce, Complete uri → (realm.credentials md5 met uri cnonce).value.length ≤ Regex.uint32Max →
    httpauthDigestResponseDecode (realm.credentials md5 met uri cnonce).value =
        .ok (realm.credentials md5 met uri cnonce).answer ∧
      httpauthDigestResponseAuth md5 (realm.credentials md5 met uri cnonce).answer met
        (md5 (a1 realm.user realm.realm realm.pass)) = none

structure Realm.Sound (e : Realm) : Prop where
  user : Plain e.user
  realm : Complete e.realm
  nonce : Complete e.nonce
  opaque_ : ∀ v, e.opaque_ = some v → Complete v

theorem Realm.Sound.accepted {realm : Realm} (sound : realm.Sound) (md5 : List Byte → Md5) : realm.Accepted md5 := by
  intro met uri cnonce complete fits
  have quotable : (realm.credentials md5 met uri cnonce).Quotable :=
    ⟨complete_plain sound.user, sound.realm, sound.nonce, complete, sound.opaque_⟩
  exact ⟨Credentials.value_decoded quotable fits, answer_accepted md5 realm met uri cnonce⟩

/-- The text between the quotes of a quoted string. -/
structure Text (v : List Byte) : Prop where
  complete : Complete v
  noZero : 0 ∉ v

theorem Text.strdup {v : List Byte} (text : Text v) : plStrdup v = v := by
  have all : ∀ c ∈ v, (c != 0) = true := fun c member => bne_iff_ne.mpr fun zero => text.noZero (zero ▸ member)
  have whole := @List.takeWhile_append_of_pos _ (· != 0) v [] all
  rwa [List.append_nil, List.takeWhile_nil, List.append_nil] at whole

/-- The values of a challenge were quoted strings. -/
structure Quoting (ch : DigestChall) : Prop where
  realm : Text (ch.realm.getD [])
  nonce : Text (ch.nonce.getD [])
  opaque_ : ∀ v, ch.opaque_ = some v → Text v

/-- The values of the challenges were quoted strings, and the user has neither quotes nor backslashes. -/
def Proper : Action → Prop
  | .authenticate authh msg =>
    (∀ name user pass, authh name = .ok (user, pass) → Plain user) ∧
      ∀ hdr ∈ Trace.challenges msg, ∀ ch, httpauthDigestChallengeDecode hdr.val = .ok ch → Quoting ch
  | .encode _ _ _ => True

/-- An accepted challenge leaves an entry with its realm, which may have been written in another case before,
    and its nonce and opaque value. -/
def Enters (authh : AuthH) (t : Trace) (hdr : SipHdr) : Prop :=
  (t.handle authh hdr).1 = false → ∀ ch, httpauthDigestChallengeDecode hdr.val = .ok ch →
    ∃ realm ∈ (t.handle authh hdr).2.auth.realml, sameRealm (ch.realm.getD []) realm.realm = true ∧
      (stale ch = false → realm.realm = ch.realm.getD []) ∧ realm.nonce = ch.nonce.getD [] ∧
      realm.opaque_ = (if isset ch.opaque_ then ch.opaque_ else none) ∧ realm.qop.isSome = isset ch.qop

def EntersAll (t : Trace) : Action → Prop
  | .authenticate authh msg =>
    Along (fun t hdr => (Trace.handle authh hdr t).2) (Enters authh) t (Trace.handled authh (Trace.challenges msg) t)
  | .encode _ _ _ => True

theorem ifSet_text {v : Option (List Byte)} (text : ∀ x, v = some x → Text x) :
    ifSet v = if isset v then v else none := by
  unfold ifSet
  cases v with
  | none => rfl
  | some x =>
    by_cases some_ : isset (some x) = true
    · rw [if_pos some_, if_pos some_, Option.map_some, (text x rfl).strdup]
    · rw [if_neg some_, if_neg some_]

theorem ifSet_isSome (v : Option (List Byte)) : (ifSet v).isSome = isset v := by
  unfold ifSet
  by_cases some_ : isset v = true
  · rw [if_pos some_, some_]
    cases v with
    | none => contradiction
    | some x => rfl
  · rw [if_neg some_]
    exact (Bool.eq_false_iff.mpr some_).symm

theorem challenged_sound {realm : Realm} {ch : DigestChall} (quoting : Quoting ch) (id : HdrId) (user : Plain realm.user)
    (name : Complete realm.realm) : (realm.challenged ch id).Sound where
  user := user
  realm := name
  nonce := by
    show Complete (plStrdup (ch.nonce.getD []))
    rw [quoting.nonce.strdup]
    exact quoting.nonce.complete
  opaque_ := by
    intro v given
    have kept : ifSet ch.opaque_ = some v := given
    rw [ifSet_text quoting.opaque_] at kept
    split at kept
    · exact (quoting.opaque_ v kept).complete
    · contradiction

def Trace.Sound (t : Trace) : Prop := ∀ realm ∈ t.auth.realml, realm.Sound

theorem handle_sound {t : Trace} (sound : t.Sound) {authh : AuthH} {hdr : SipHdr}
    (users : ∀ name user pass, authh name = .ok (user, pass) → Plain user)
    (quoting : ∀ ch, httpauthDigestChallengeDecode hdr.val = .ok ch → Quoting ch) :
    (t.handle authh hdr).2.Sound ∧ Enters authh t hdr := by
  unfold Enters
  have outcome := Trace.handle_outcome authh hdr t
  generalize t.handle authh hdr = result at outcome ⊢
  cases outcome with
  | failed err => exact ⟨sound, nofun⟩
  | refused pre realm post there =>
    refine ⟨fun e member => sound e ?_, nofun⟩
    rw [there, List.mem_append, List.mem_cons]
    rcases List.mem_append.mp member with member | member
    · exact .inl member
    · exact .inr (.inr member)
  | added ch user pass decoded login =>
    have quoted_ := quoting ch decoded
    have name : (Trace.firstRealm ch hdr.id user pass).realm = ch.realm.getD [] := quoted_.realm.strdup
    have new : (Trace.firstRealm ch hdr.id user pass).Sound :=
      challenged_sound quoted_ _ (users _ _ _ login) (by rw [quoted_.realm.strdup]; exact quoted_.realm.complete)
    refine ⟨fun e member => ?_, fun _ ch' decoded' => ⟨Trace.firstRealm ch hdr.id user pass, ?_, ?_⟩⟩
    · rcases List.mem_append.mp member with member | member
      · exact sound e member
      · exact List.mem_singleton.mp member ▸ new
    · exact List.mem_append_right _ List.mem_cons_self
    · obtain rfl := Except.ok.inj (decoded.symm.trans decoded')
      refine ⟨?_, fun _ => name, quoted_.nonce.strdup, ifSet_text quoted_.opaque_, ifSet_isSome _⟩
      rw [name, sameRealm]
      exact beq_self_eq_true _
  | renewed pre realm post ch there decoded old same =>
    have quoted_ := quoting ch decoded
    have before : realm.Sound := sound realm (by rw [there]; simp)
    refine ⟨fun e member => ?_, fun _ ch' decoded' => ⟨realm.challenged ch hdr.id, ?_, ?_⟩⟩
    · rcases List.mem_append.mp member with member | member
      · exact sound e (by rw [there]; exact List.mem_append_left _ member)
      · rcases List.mem_cons.mp member with rfl | member
        · exact challenged_sound quoted_ _ before.user before.realm
        · exact sound e (by rw [there]; exact List.mem_append_right _ (List.mem_cons_of_mem _ member))
    · exact List.mem_append_right _ List.mem_cons_self
    · obtain rfl := Except.ok.inj (decoded.symm.trans decoded')
      refine ⟨same, fun fresh => ?_, quoted_.nonce.strdup, ifSet_text quoted_.opaque_, ifSet_isSome _⟩
      rw [fresh] at old
      contradiction

theorem apply_sound {authh : AuthH} {hdrs : List SipHdr} {t : Trace} (sound : t.Sound)
    (users : ∀ name user pass, authh name = .ok (user, pass) → Plain user)
    (quoting : ∀ hdr ∈ hdrs, ∀ ch, httpauthDigestChallengeDecode hdr.val = .ok ch → Quoting ch) :
    (hdrApply (Trace.handle authh) hdrs t).2.Sound ∧
      Along (fun t hdr => (Trace.handle authh hdr t).2) (Enters authh) t (Trace.handled authh hdrs t) := by
  induction hdrs generalizing t with
  | nil => exact ⟨sound, along_nil⟩
  | cons hdr hdrs ih =>
    rw [List.forall_mem_cons] at quoting
    rcases handle_sound sound users quoting.1 with ⟨next, enters⟩
    have later := ih next quoting.2
    rw [hdrApply, Trace.handled, along_cons]
    rcases result : t.handle authh hdr with ⟨_ | _, t'⟩
    · rw [result] at next later
      exact ⟨later.1, enters, later.2⟩
    · rw [result] at next
      exact ⟨next, enters, along_nil⟩

theorem encodeRealms_sound (md5 : List Byte → Md5) (met uri : List Byte) (cnonces : Nat → BitVec 64)
    {realml : List Realm} (sound : ∀ realm ∈ realml, realm.Sound) :
    ∀ realm ∈ (encodeRealms md5 met uri cnonces realml).2, realm.Sound := by
  induction realml generalizing cnonces with
  | nil => exact nofun
  | cons e rest ih =>
    rw [List.forall_mem_cons] at sound
    have later := ih (fun i => cnonces (i + 1)) sound.2
    have next : e.next.Sound := ⟨sound.1.user, sound.1.realm, sound.1.nonce, sound.1.opaque_⟩
    rw [encodeRealms]
    dsimp only
    split
    · rw [List.forall_mem_cons]
      exact ⟨next, later⟩
    · rw [List.forall_mem_cons]
      exact ⟨sound.1, later⟩

theorem step_sound (md5 : List Byte → Md5) (t : Trace) (a : Action) (sound : t.Sound) (proper : Proper a) :
    (t.step md5 a).Sound ∧ EntersAll t a := by
  cases a with
  | authenticate authh msg => exact apply_sound sound proper.1 proper.2
  | encode met uri cnonces => exact ⟨encodeRealms_sound md5 met uri cnonces sound, trivial⟩

/-- In every run of challenges whose values are quoted strings, and of encodings. -/
theorem digest_round_trip (md5 : List Byte → Md5) (err : Option AuthErr) (actions : List Action)
    (proper : ∀ a ∈ actions, Proper a) :
    Throughout (Trace.step md5) (fun t => ∀ realm ∈ t.auth.realml, realm.Accepted md5) (Trace.empty err) actions ∧
      Along (Trace.step md5) EntersAll (Trace.empty err) actions := by
  have start : (Trace.empty err).Sound := nofun
  have each := @along_of_forall _ _ (Trace.step md5) (Trace.empty err) actions Proper proper
  have sound : Throughout (Trace.step md5) Trace.Sound (Trace.empty err) actions :=
    throughout_of_guarded (fun t a sound proper => (step_sound md5 t a sound proper).1) start each
  refine ⟨sound.mono fun t sound realm member => (sound realm member).accepted md5, ?_⟩
  exact along_of_guarded (fun t a sound proper => step_sound md5 t a sound proper) start each

theorem login_proper : Proper (.authenticate login unauthorized) := by
  have decoded : httpauthDigestChallengeDecode challengeHdr.val =
      .ok ⟨some (ascii "r"), some (ascii "n"), none, none, none, some (ascii "auth")⟩ := by
    unfold challengeHdr
    repeat rw [ascii_ofList]
    decide +kernel
  refine ⟨fun name user pass asked => ?_, fun hdr member ch decoded' => ?_⟩
  · obtain ⟨rfl, rfl⟩ := Prod.mk.inj (Except.ok.inj asked)
    unfold Plain
    decide
  · have only : Trace.challenges unauthorized = [challengeHdr] := by decide
    rw [only, List.mem_singleton] at member
    subst member
    obtain rfl := Except.ok.inj (decoded.symm.trans decoded')
    exact ⟨⟨by decide, by decide⟩, ⟨by decide, by decide⟩, nofun⟩

theorem digest_round_trip_register :
    Throughout (Trace.step fun _ => ⟨List.replicate 16 0, rfl⟩)
        (fun t => ∀ realm ∈ t.auth.realml, realm.Accepted fun _ => ⟨List.replicate 16 0, rfl⟩) (Trace.empty none)
        [.authenticate login unauthorized, .encode (ascii "REGISTER") (ascii "sip:h") fun _ => 0] ∧
      Along (Trace.step fun _ => ⟨List.replicate 16 0, rfl⟩) EntersAll (Trace.empty none)
        [.authenticate login unauthorized, .encode (ascii "REGISTER") (ascii "sip:h") fun _ => 0] := by
  apply digest_round_trip
  rw [List.forall_mem_cons, List.forall_mem_singleton]
  exact ⟨login_proper, trivial⟩

def zeroHdr : SipHdr := ⟨ascii "WWW-Authenticate", ascii "Digest realm=\"r\", nonce=\"a\x00b\"", wwwAuthenticate⟩

/-- A backslash at the end of the URI escapes the quote behind it; and of a nonce with a zero byte only the
    front is sent. -/
theorem uri_ends_in_backslash :
    (∃ realm ∈ (runFrom [.authenticate login unauthorized]).auth.realml,
      httpauthDigestResponseDecode
          (realm.credentials (fun _ => ⟨List.replicate 16 0, rfl⟩) (ascii "REGISTER") (ascii "sip:h\\") 0).value ≠
        .ok (realm.credentials (fun _ => ⟨List.replicate 16 0, rfl⟩) (ascii "REGISTER") (ascii "sip:h\\") 0).answer) ∧
      (httpauthDigestChallengeDecode zeroHdr.val).map (·.nonce) = .ok (some (ascii "a\x00b")) ∧
      (Trace.handle login zeroHdr (Trace.empty none)).1 = false ∧
      (Trace.handle login zeroHdr (Trace.empty none)).2.auth.realml.map (·.nonce) = [ascii "a"] := by
  unfold login unauthorized challengeHdr zeroHdr
  repeat rw [ascii_ofList]
  decide +kernel

end Baresip.Sip.Auth
