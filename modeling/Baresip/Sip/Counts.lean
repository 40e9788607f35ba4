import Baresip.Library.Runs
import Baresip.Library.Numbering
import Baresip.Sip.Auth

set_option linter.dupNamespace false

namespace Baresip.Sip.Auth

open Re Message Httpauth Library

/-- What has happened to the realms, as far as an observer of the messages sees it. -/
inductive Event
  | accepted (realm nonce : List Byte)
  | refused (realm : List Byte)
  | encoded (sent : List Credentials)

/-- An authentication state and what has happened since it was empty, the last event first. -/
structure Trace where
  auth : SipAuth
  events : List Event

inductive Action
  | authenticate (authh : AuthH) (msg : SipMsg)
  | encode (met uri : List Byte) (cnonces : Nat → BitVec 64)

def accepted : List Event → List (List Byte)
  | [] => []
  | .accepted _ nonce :: events => accepted events ++ [nonce]
  | _ :: events => accepted events

/-- The credentials in the order in which they were sent. -/
def sent : List Event → List Credentials
  | [] => []
  | .encoded cs :: events => sent events ++ cs
  | _ :: events => sent events

def encodings : List Event → Nat
  | [] => 0
  | .encoded _ :: events => encodings events + 1
  | _ :: events => encodings events

/-- How often credentials were encoded since the last challenge of a realm, if that one was accepted. -/
def usesSince (realm : List Byte) : List Event → Option Nat
  | [] => none
  | .accepted realm' _ :: events => if sameRealm realm realm' then some 0 else usesSince realm events
  | .refused realm' :: events => if sameRealm realm realm' then none else usesSince realm events
  | .encoded _ :: events => (usesSince realm events).map (· + 1)

/-- The event that a challenge is, if it concerns a realm whose credentials are known. -/
def challengeEvent (authh : AuthH) (hdr : SipHdr) (auth : SipAuth) : List Event :=
  match httpauthDigestChallengeDecode hdr.val with
  | .error _ => []
  | .ok ch =>
    if knownAlgorithm ch = false then []
    else
      match locate (cmpHandler (ch.realm.getD [])) auth.realml with
      | none =>
        match authh (plStrdup (ch.realm.getD [])) with
        | .error _ => []
        | .ok _ => [.accepted (plStrdup (ch.realm.getD [])) (plStrdup (ch.nonce.getD []))]
      | some (_, realm, _) =>
        if stale ch = false then [.refused realm.realm] else [.accepted realm.realm (plStrdup (ch.nonce.getD []))]

namespace Trace

def handle (authh : AuthH) (hdr : SipHdr) (t : Trace) : Bool × Trace :=
  ((authHandler authh hdr t.auth).1, ⟨(authHandler authh hdr t.auth).2, challengeEvent authh hdr t.auth ++ t.events⟩)

/-- The headers of a message that are challenges, in the order in which they are handled. -/
def challenges (msg : SipMsg) : List SipHdr :=
  msg.hdrht.filter (·.id = wwwAuthenticate) ++ msg.hdrht.filter (·.id = proxyAuthenticate)

variable (md5 : List Byte → Md5)

def step (t : Trace) : Action → Trace
  | .authenticate authh msg => (hdrApply (handle authh) (challenges msg) t).2
  | .encode met uri cnonces =>
    ⟨(sipAuthEncode md5 met uri cnonces t.auth).2,
      .encoded (encodeRealms md5 met uri cnonces t.auth.realml).1 :: t.events⟩

/-- The headers up to the first that is refused. -/
def handled (authh : AuthH) : List SipHdr → Trace → List SipHdr
  | [], _ => []
  | hdr :: hdrs, t => hdr :: if (t.handle authh hdr).1 then [] else handled authh hdrs (t.handle authh hdr).2

/-- What a nonce has been used with, if it was accepted once, are the counts from one on; so no nonce and count
    are used twice where no nonce is accepted twice. -/
structure Counted (t : Trace) : Prop where
  serial : ∀ nonce, (accepted t.events).count nonce ≤ 1 →
    ∃ k ≤ encodings t.events, valuesOf Credentials.nonce Credentials.nc (sent t.events) nonce = serials 32 k
  distinct : (accepted t.events).Nodup → encodings t.events < 2 ^ 32 →
    ((sent t.events).map fun c => (c.nonce, c.nc)).Nodup

/-- A challenge that is not stale is refused if its realm's last challenge was accepted and has been used since;
    and a refused challenge leaves the entries of every other realm alone. -/
structure Judges (authh : AuthH) (t : Trace) (hdr : SipHdr) : Prop where
  refuses : ∀ ch k, httpauthDigestChallengeDecode hdr.val = .ok ch → stale ch = false →
    usesSince (ch.realm.getD []) t.events = some k → k % 2 ^ 32 ≠ 0 → (t.handle authh hdr).1 = true
  leaves : (t.handle authh hdr).1 = true → ∀ realm,
    (∀ ch, httpauthDigestChallengeDecode hdr.val = .ok ch → sameRealm (ch.realm.getD []) realm = false) →
    (t.handle authh hdr).2.auth.realml.filter (fun e => sameRealm realm e.realm) =
      t.auth.realml.filter fun e => sameRealm realm e.realm

/-- The challenges of a message are judged one after the other, and it is an error if one is refused. -/
def Answers (t : Trace) : Action → Prop
  | .authenticate authh msg =>
    (t.step md5 (.authenticate authh msg)).auth = (sipAuthAuthenticate authh msg t.auth).2 ∧
      (hdrApply (handle authh) (challenges msg) t).1 = (sipAuthAuthenticate authh msg t.auth).1.isSome ∧
      Along (fun t hdr => (t.handle authh hdr).2) (Judges authh) t (handled authh (challenges msg) t)
  | .encode met uri cnonces => (t.step md5 (.encode met uri cnonces)).auth = (sipAuthEncode md5 met uri cnonces t.auth).2

/-- A realm that is challenged for the first time. -/
def firstRealm (ch : DigestChall) (id : HdrId) (user pass : List Byte) : Realm :=
  Realm.challenged ⟨plStrdup (ch.realm.getD []), [], none, none, user, pass, 0, none⟩ ch id

/-- What handling a challenge can do. -/
inductive Outcome (authh : AuthH) (hdr : SipHdr) (t : Trace) : Bool × Trace → Prop
  | failed (err : AuthErr) : Outcome authh hdr t (true, ⟨⟨t.auth.realml, some err⟩, t.events⟩)
  | refused (pre : List Realm) (realm : Realm) (post : List Realm) :
    t.auth.realml = pre ++ realm :: post →
    Outcome authh hdr t (true, ⟨⟨pre ++ post, some .EAUTH⟩, .refused realm.realm :: t.events⟩)
  | added (ch : DigestChall) (user pass : List Byte) :
    httpauthDigestChallengeDecode hdr.val = .ok ch → authh (plStrdup (ch.realm.getD [])) = .ok (user, pass) →
    Outcome authh hdr t (false, ⟨⟨t.auth.realml ++ [firstRealm ch hdr.id user pass], t.auth.err⟩,
      .accepted (plStrdup (ch.realm.getD [])) (plStrdup (ch.nonce.getD [])) :: t.events⟩)
  | renewed (pre : List Realm) (realm : Realm) (post : List Realm) (ch : DigestChall) :
    t.auth.realml = pre ++ realm :: post → httpauthDigestChallengeDecode hdr.val = .ok ch → stale ch = true →
    sameRealm (ch.realm.getD []) realm.realm = true →
    Outcome authh hdr t (false, ⟨⟨pre ++ realm.challenged ch hdr.id :: post, t.auth.err⟩,
      .accepted realm.realm (plStrdup (ch.nonce.getD [])) :: t.events⟩)

theorem cmpHandler_same {chrealm : List Byte} {realm : Realm} (chosen : cmpHandler chrealm realm = true) :
    sameRealm chrealm realm.realm = true := by
  unfold cmpHandler at chosen
  split at chosen
  · contradiction
  · exact chosen

theorem handle_outcome (authh : AuthH) (hdr : SipHdr) (t : Trace) : Outcome authh hdr t (t.handle authh hdr) := by
  unfold handle authHandler challengeEvent
  cases decoded : httpauthDigestChallengeDecode hdr.val with
  | error e => exact .failed _
  | ok ch =>
    dsimp only
    by_cases known : knownAlgorithm ch = false
    · rw [if_pos known, if_pos known]
      exact .failed _
    · rw [if_neg known, if_neg known]
      cases found : locate (cmpHandler (ch.realm.getD [])) t.auth.realml with
      | none =>
        dsimp only
        cases login : authh (plStrdup (ch.realm.getD [])) with
        | error err => exact .failed _
        | ok login' => exact .added ch login'.1 login'.2 decoded login
      | some place =>
        rcases place with ⟨pre, realm, post⟩
        rcases locate_some found with ⟨there, chosen⟩
        dsimp only
        by_cases old : stale ch = false
        · rw [if_pos old, if_pos old]
          exact .refused pre realm post there
        · rw [if_neg old, if_neg old]
          exact .renewed pre realm post ch there decoded (Bool.not_eq_false _ ▸ old) (cmpHandler_same chosen)

/-- What every challenge and every encoding keep. -/
structure Kept (t : Trace) : Prop where
  known : ∀ e ∈ t.auth.realml, e.hdr = wwwAuthenticate ∨ e.hdr = proxyAuthenticate
  used : ∀ realm k, usesSince realm t.events = some k →
    ∃ e ∈ t.auth.realml, sameRealm realm e.realm = true ∧ e.nc = BitVec.ofNat 32 (k + 1)
  tally : ∀ nonce, (accepted t.events).count nonce ≤ 1 →
    t.auth.realml.countP (fun e => e.nonce = nonce) ≤ (accepted t.events).count nonce ∧
      ∃ k ≤ encodings t.events, ((accepted t.events).count nonce = 0 → k = 0) ∧
        valuesOf Credentials.nonce Credentials.nc (sent t.events) nonce = serials 32 k ∧
        ∀ e ∈ t.auth.realml, e.nonce = nonce → e.nc = BitVec.ofNat 32 (k + 1)

variable {md5}

theorem Kept.counted {t : Trace} (kept : t.Kept) : t.Counted where
  serial := by
    intro nonce once
    rcases (kept.tally nonce once).2 with ⟨k, bound, -, values, -⟩
    exact ⟨k, bound, values⟩
  distinct := by
    intro differ few
    apply nodup_of_valuesOf
    intro nonce
    have once := List.nodup_iff_count_le_one.mp differ nonce
    rcases (kept.tally nonce once).2 with ⟨k, bound, -, values, -⟩
    rw [values]
    exact serials_nodup (Nat.lt_of_le_of_lt bound few)

/-- An accepted challenge puts its entry among some of those that were there, which are all of other realms. -/
theorem Kept.accept {t : Trace} (kept : t.Kept) {pre post : List Realm} {new : Realm} (err : Option AuthErr)
    (id : new.hdr = wwwAuthenticate ∨ new.hdr = proxyAuthenticate) (first : new.nc = 1)
    (fewer : (pre ++ post).Sublist t.auth.realml)
    (others : ∀ e ∈ t.auth.realml, e ∈ pre ++ post ∨ e.realm = new.realm) :
    Kept ⟨⟨pre ++ new :: post, err⟩, .accepted new.realm new.nonce :: t.events⟩ where
  known := by
    intro e member
    rcases List.mem_append.mp member with member | member
    · exact kept.known e (fewer.subset (List.mem_append_left _ member))
    · rcases List.mem_cons.mp member with rfl | member
      · exact id
      · exact kept.known e (fewer.subset (List.mem_append_right _ member))
  used := by
    intro realm k since
    rw [usesSince] at since
    by_cases same : sameRealm realm new.realm = true
    · rw [if_pos same] at since
      obtain rfl := Option.some.inj since
      exact ⟨new, by simp, same, first⟩
    · rw [if_neg same] at since
      rcases kept.used realm k since with ⟨e, member, there, count⟩
      rcases others e member with member | twin
      · refine ⟨e, ?_, there, count⟩
        rw [List.mem_append] at member
        rw [List.mem_append, List.mem_cons]
        tauto
      · rw [twin] at there
        exact absurd there same
  tally := by
    intro nonce once
    have counts : (pre ++ new :: post).countP (fun e => e.nonce = nonce) =
        (pre ++ post).countP (fun e => e.nonce = nonce) + if new.nonce = nonce then 1 else 0 := by
      simp only [List.countP_append, List.countP_cons, decide_eq_true_eq]
      omega
    have less := fewer.countP_le (p := fun e => e.nonce = nonce)
    have more : (accepted (.accepted new.realm new.nonce :: t.events)).count nonce =
        (accepted t.events).count nonce + if new.nonce = nonce then 1 else 0 := by
      simp [accepted, List.count_append, List.count_singleton]
    dsimp only at once ⊢
    rw [more] at once
    rw [counts, more]
    rcases kept.tally nonce (by omega) with ⟨few, k, bound, zero, values, next⟩
    refine ⟨by omega, k, bound, fun none_ => zero (by omega), values, ?_⟩
    intro e member same
    rcases List.mem_append.mp member with member | member
    · exact next e (fewer.subset (List.mem_append_left _ member)) same
    · rcases List.mem_cons.mp member with rfl | member
      · rw [if_pos same] at once
        rw [zero (by omega), first]
        rfl
      · exact next e (fewer.subset (List.mem_append_right _ member)) same

theorem Kept.refuse {t : Trace} (kept : t.Kept) {pre post : List Realm} {realm : Realm} (err : Option AuthErr)
    (there : t.auth.realml = pre ++ realm :: post) :
    Kept ⟨⟨pre ++ post, err⟩, .refused realm.realm :: t.events⟩ := by
  have fewer : (pre ++ post).Sublist t.auth.realml := by
    rw [there]
    exact (List.sublist_cons_self realm post).append_left pre
  refine ⟨fun e member => kept.known e (fewer.subset member), ?_, ?_⟩
  · intro name k since
    rw [usesSince] at since
    by_cases same : sameRealm name realm.realm = true
    · rw [if_pos same] at since
      contradiction
    · rw [if_neg same] at since
      rcases kept.used name k since with ⟨e, member, named_, count⟩
      refine ⟨e, ?_, named_, count⟩
      rw [there, List.mem_append, List.mem_cons] at member
      rw [List.mem_append]
      rcases member with member | rfl | member
      · exact .inl member
      · exact absurd named_ same
      · exact .inr member
  · intro nonce once
    rcases kept.tally nonce once with ⟨few, k, bound, zero, values, next⟩
    exact ⟨Nat.le_trans fewer.countP_le few, k, bound, zero, values, fun e member => next e (fewer.subset member)⟩

theorem Kept.handle {t : Trace} (kept : t.Kept) (authh : AuthH) {hdr : SipHdr}
    (id : hdr.id = wwwAuthenticate ∨ hdr.id = proxyAuthenticate) : (t.handle authh hdr).2.Kept := by
  have outcome := handle_outcome authh hdr t
  generalize t.handle authh hdr = result at outcome
  cases outcome with
  | failed err => exact ⟨kept.known, kept.used, kept.tally⟩
  | refused pre realm post there => exact kept.refuse _ there
  | added ch user pass decoded login =>
    apply @Kept.accept t kept t.auth.realml [] (firstRealm ch hdr.id user pass) _ id rfl
    · rw [List.append_nil]
    · intro e member
      exact .inl (List.mem_append_left _ member)
  | renewed pre realm post ch there decoded old same =>
    apply @Kept.accept t kept pre post (realm.challenged ch hdr.id) _ id rfl
    · rw [there]
      exact (List.sublist_cons_self realm post).append_left pre
    · intro e member
      rw [there, List.mem_append, List.mem_cons] at member
      rw [List.mem_append]
      rcases member with member | rfl | member
      · exact .inl (.inl member)
      · exact .inr rfl
      · exact .inl (.inr member)

theorem encodeRealms_known (met uri : List Byte) (cnonces : Nat → BitVec 64) {realml : List Realm}
    (known : ∀ e ∈ realml, e.hdr = wwwAuthenticate ∨ e.hdr = proxyAuthenticate) (nonce : List Byte) :
    (encodeRealms md5 met uri cnonces realml).2 = realml.map Realm.next ∧
      valuesOf Credentials.nonce Credentials.nc (encodeRealms md5 met uri cnonces realml).1 nonce =
        valuesOf Realm.nonce Realm.nc realml nonce := by
  induction realml generalizing cnonces with
  | nil => exact ⟨rfl, rfl⟩
  | cons e rest ih =>
    rw [List.forall_mem_cons] at known
    rcases ih (fun i => cnonces (i + 1)) known.2 with ⟨after, values⟩
    rw [encodeRealms_cons known.1]
    refine ⟨congrArg _ after, ?_⟩
    rw [← List.singleton_append, valuesOf_append, values, ← List.singleton_append (l := rest), valuesOf_append]
    congr 1
    by_cases same : e.nonce = nonce
    · simp [valuesOf, Realm.credentials, same]
    · simp [valuesOf, Realm.credentials, same]

theorem Kept.encode {t : Trace} (kept : t.Kept) (met uri : List Byte) (cnonces : Nat → BitVec 64) :
    (t.step md5 (.encode met uri cnonces)).Kept := by
  have after := (@encodeRealms_known md5 met uri cnonces _ kept.known []).1
  have realms : (t.step md5 (.encode met uri cnonces)).auth.realml = t.auth.realml.map Realm.next := after
  refine ⟨?_, ?_, ?_⟩
  · intro e member
    rw [realms, List.mem_map] at member
    rcases member with ⟨e', member, rfl⟩
    exact kept.known e' member
  · intro realm k since
    rw [show (t.step md5 (.encode met uri cnonces)).events = .encoded _ :: t.events from rfl, usesSince,
      Option.map_eq_some_iff] at since
    rcases since with ⟨k, since, rfl⟩
    rcases kept.used realm k since with ⟨e, member, same, count⟩
    refine ⟨e.next, ?_, same, ?_⟩
    · rw [realms]
      exact List.mem_map_of_mem member
    · show e.nc + 1 = _
      rw [count]
      exact (BitVec.ofNat_add (k + 1) 1).symm
  · intro nonce once
    have values := (@encodeRealms_known md5 met uri cnonces _ kept.known nonce).2
    rcases kept.tally nonce once with ⟨few, k, bound, zero, before, next⟩
    have counts : (t.auth.realml.map Realm.next).countP (fun e => e.nonce = nonce) =
        t.auth.realml.countP fun e => e.nonce = nonce := by
      rw [List.countP_map]
      rfl
    have log : valuesOf Credentials.nonce Credentials.nc (sent (t.step md5 (.encode met uri cnonces)).events) nonce =
        serials 32 k ++ valuesOf Realm.nonce Realm.nc t.auth.realml nonce := by
      rw [← before, ← values, ← valuesOf_append]
      rfl
    rw [realms, counts, log]
    refine ⟨few, ?_⟩
    have one : (t.auth.realml.filter fun e => e.nonce = nonce).length ≤ 1 := by
      rw [← List.countP_eq_length_filter]
      exact Nat.le_trans few once
    rcases entries : t.auth.realml.filter (fun e => e.nonce = nonce) with _ | ⟨e, _ | ⟨e', rest⟩⟩
    · refine ⟨k, Nat.le_succ_of_le bound, zero, by simp [valuesOf, entries], ?_⟩
      intro e member same
      rw [List.mem_map] at member
      rcases member with ⟨e, member, rfl⟩
      have there : e ∈ t.auth.realml.filter fun e => e.nonce = nonce :=
        List.mem_filter.mpr ⟨member, decide_eq_true same⟩
      rw [entries] at there
      contradiction
    · have there : e ∈ t.auth.realml.filter fun e => e.nonce = nonce := by simp [entries]
      rcases List.mem_filter.mp there with ⟨member, same⟩
      have count := next e member (by simpa using same)
      refine ⟨k + 1, Nat.succ_le_succ bound, ?_, ?_, ?_⟩
      · intro none_
        have some_ : 0 < t.auth.realml.countP fun e => e.nonce = nonce := by
          rw [List.countP_pos_iff]
          exact ⟨e, member, same⟩
        have fresh : (accepted t.events).count nonce = 0 := none_
        omega
      · simp [valuesOf, entries, serials_succ, count]
      · intro e' member' same'
        rw [List.mem_map] at member'
        rcases member' with ⟨e', member', rfl⟩
        show e'.nc + 1 = _
        rw [next e' member' same']
        exact (BitVec.ofNat_add (k + 1) 1).symm
    · rw [entries] at one
      simp at one

theorem challenges_id {msg : SipMsg} {hdr : SipHdr} (member : hdr ∈ challenges msg) :
    hdr.id = wwwAuthenticate ∨ hdr.id = proxyAuthenticate := by
  rcases List.mem_append.mp member with www | proxy
  · exact .inl (of_decide_eq_true (List.mem_filter.mp www).2)
  · exact .inr (of_decide_eq_true (List.mem_filter.mp proxy).2)

theorem Kept.apply {t : Trace} (kept : t.Kept) (authh : AuthH) {hdrs : List SipHdr}
    (ids : ∀ hdr ∈ hdrs, hdr.id = wwwAuthenticate ∨ hdr.id = proxyAuthenticate) :
    (hdrApply (Trace.handle authh) hdrs t).2.Kept := by
  induction hdrs generalizing t with
  | nil => exact kept
  | cons hdr hdrs ih =>
    rw [List.forall_mem_cons] at ids
    have next := kept.handle authh ids.1
    rw [hdrApply]
    rcases result : t.handle authh hdr with ⟨_ | _, t'⟩
    · rw [result] at next
      exact ih next ids.2
    · rw [result] at next
      exact next

theorem step_kept (t : Trace) (a : Action) (kept : t.Kept) : (t.step md5 a).Kept := by
  cases a with
  | authenticate authh msg => exact kept.apply authh fun hdr => challenges_id
  | encode met uri cnonces => exact kept.encode met uri cnonces

/-- The observer sees what the program does. -/
theorem apply_auth (authh : AuthH) (hdrs : List SipHdr) (t : Trace) :
    (hdrApply (handle authh) hdrs t).1 = (hdrApply (authHandler authh) hdrs t.auth).1 ∧
      (hdrApply (handle authh) hdrs t).2.auth = (hdrApply (authHandler authh) hdrs t.auth).2 := by
  induction hdrs generalizing t with
  | nil => exact ⟨rfl, rfl⟩
  | cons hdr hdrs ih =>
    have first : (t.handle authh hdr).1 = (authHandler authh hdr t.auth).1 := rfl
    have after : (t.handle authh hdr).2.auth = (authHandler authh hdr t.auth).2 := rfl
    rw [hdrApply, hdrApply]
    generalize t.handle authh hdr = result at first after ⊢
    generalize authHandler authh hdr t.auth = result' at first after ⊢
    rcases result with ⟨stop, t'⟩
    rcases result' with ⟨stop', auth'⟩
    obtain rfl : stop = stop' := first
    obtain rfl : t'.auth = auth' := after
    cases stop with
    | false => exact ih t'
    | true => exact ⟨rfl, rfl⟩

/-- A refusal leaves its error behind. -/
theorem apply_err (authh : AuthH) (hdrs : List SipHdr) (t : Trace)
    (refused : (hdrApply (handle authh) hdrs t).1 = true) :
    (hdrApply (handle authh) hdrs t).2.auth.err.isSome = true := by
  induction hdrs generalizing t with
  | nil => contradiction
  | cons hdr hdrs ih =>
    have outcome := handle_outcome authh hdr t
    rw [hdrApply] at refused ⊢
    generalize t.handle authh hdr = result at outcome refused ⊢
    cases outcome with
    | failed err => rfl
    | refused pre realm post there => rfl
    | added ch user pass decoded login => exact ih _ refused
    | renewed pre realm post ch there decoded old same => exact ih _ refused

theorem authenticate_apply (authh : AuthH) (msg : SipMsg) (auth : SipAuth) :
    sipAuthAuthenticate authh msg auth =
      match hdrApply (authHandler authh) (challenges msg) auth with
      | (true, auth) => (auth.err, auth)
      | (false, auth) => (none, auth) := by
  rw [challenges, hdrApply_append]
  unfold sipAuthAuthenticate sipMsgHdrApply
  rcases hdrApply (authHandler authh) (msg.hdrht.filter (·.id = wwwAuthenticate)) auth with ⟨_ | _, auth'⟩
  · rfl
  · rfl

theorem sameRealm_comm (a b : List Byte) : sameRealm a b = sameRealm b a := Bool.beq_comm

theorem sameRealm_trans {a b c : List Byte} (first : sameRealm a b = true) (second : sameRealm b c = true) :
    sameRealm a c = true := by
  rw [sameRealm, beq_iff_eq] at *
  exact first.trans second

/-- A realm in use is found by its challenge. -/
theorem used_located {t : Trace} (kept : t.Kept) {realm : List Byte} {k : Nat}
    (since : usesSince realm t.events = some k) (used : k % 2 ^ 32 ≠ 0) :
    ∃ pre e post, locate (cmpHandler realm) t.auth.realml = some (pre, e, post) := by
  rcases kept.used realm k since with ⟨e, member, same, count⟩
  cases found : locate (cmpHandler realm) t.auth.realml with
  | some place => exact ⟨place.1, place.2.1, place.2.2, rfl⟩
  | none =>
    have missed := locate_none.mp found e member
    have renewed : ¬ e.nc = 1 := by
      intro one
      have value := congrArg BitVec.toNat (count.symm.trans one)
      have unit : (1 : BitVec 32).toNat = 1 := rfl
      rw [BitVec.toNat_ofNat, unit] at value
      omega
    rw [cmpHandler, if_neg renewed, same] at missed
    contradiction

theorem judges {t : Trace} (kept : t.Kept) (authh : AuthH) (hdr : SipHdr) : t.Judges authh hdr where
  refuses := by
    intro ch k decoded fresh since used
    rcases used_located kept since used with ⟨pre, e, post, found⟩
    show (authHandler authh hdr t.auth).1 = true
    unfold authHandler
    rw [decoded]
    dsimp only
    by_cases known : knownAlgorithm ch = false
    · rw [if_pos known]
    · rw [if_neg known, found]
      dsimp only
      rw [if_pos fresh]
  leaves := by
    intro refused realm others
    show (authHandler authh hdr t.auth).2.realml.filter _ = _
    replace refused : (authHandler authh hdr t.auth).1 = true := refused
    unfold authHandler at refused ⊢
    cases decoded : httpauthDigestChallengeDecode hdr.val with
    | error e => rfl
    | ok ch =>
      have other := others ch decoded
      rw [decoded] at refused
      dsimp only at refused ⊢
      by_cases known : knownAlgorithm ch = false
      · rw [if_pos known]
      · rw [if_neg known] at refused ⊢
        cases found : locate (cmpHandler (ch.realm.getD [])) t.auth.realml with
        | none =>
          rw [found] at refused
          dsimp only at refused ⊢
          cases login : authh (plStrdup (ch.realm.getD [])) with
          | error err => rfl
          | ok login =>
            rw [login] at refused
            contradiction
        | some place =>
          rcases place with ⟨pre, e, post⟩
          rcases locate_some found with ⟨there, chosen⟩
          rw [found] at refused
          dsimp only at refused ⊢
          by_cases fresh : stale ch = false
          · rw [if_pos fresh, there]
            have twin := cmpHandler_same chosen
            have apart : ¬ sameRealm realm e.realm = true := by
              intro same
              rw [sameRealm_comm] at same
              rw [sameRealm_trans twin same] at other
              contradiction
            simp [apart]
          · rw [if_neg fresh] at refused
            contradiction

theorem along_judges {t : Trace} (kept : t.Kept) (authh : AuthH) {hdrs : List SipHdr}
    (ids : ∀ hdr ∈ hdrs, hdr.id = wwwAuthenticate ∨ hdr.id = proxyAuthenticate) :
    Along (fun t hdr => (Trace.handle authh hdr t).2) (Judges authh) t (handled authh hdrs t) := by
  induction hdrs generalizing t with
  | nil => exact along_nil
  | cons hdr hdrs ih =>
    rw [List.forall_mem_cons] at ids
    rw [handled, along_cons]
    refine ⟨judges kept authh hdr, ?_⟩
    split
    · exact along_nil
    · exact ih (kept.handle authh ids.1) ids.2

theorem step_answers (t : Trace) (a : Action) (kept : t.Kept) : t.Answers md5 a := by
  cases a with
  | encode met uri cnonces => rfl
  | authenticate authh msg =>
    rcases apply_auth authh (challenges msg) t with ⟨first, after⟩
    have error := apply_err authh (challenges msg) t
    refine ⟨?_, ?_, along_judges kept authh fun hdr => challenges_id⟩
    · show (hdrApply (handle authh) (challenges msg) t).2.auth = _
      rw [authenticate_apply, after]
      rcases hdrApply (authHandler authh) (challenges msg) t.auth with ⟨_ | _, auth'⟩ <;> rfl
    · rw [authenticate_apply]
      rw [first, after] at error
      rw [first]
      generalize hdrApply (authHandler authh) (challenges msg) t.auth = result at error
      rcases result with ⟨_ | _, auth'⟩
      · rfl
      · exact (error rfl).symm

/-- A state without realms. -/
def empty (err : Option AuthErr) : Trace := ⟨⟨[], err⟩, []⟩

theorem empty_kept (err : Option AuthErr) : (empty err).Kept :=
  ⟨nofun, nofun, fun _ _ => ⟨Nat.le_refl _, 0, Nat.le_refl _, fun _ => rfl, rfl, nofun⟩⟩

end Trace

/-- Between two resets. -/
theorem auth_runs (md5 : List Byte → Md5) (err : Option AuthErr) (actions : List Action) :
    Throughout (Trace.step md5) Trace.Counted (Trace.empty err) actions ∧
      Along (Trace.step md5) (Trace.Answers md5) (Trace.empty err) actions := by
  have start := Trace.empty_kept err
  have kept : Throughout (Trace.step md5) Trace.Kept (Trace.empty err) actions :=
    throughout_of_invariant Trace.step_kept start
  exact ⟨kept.mono fun t => Trace.Kept.counted, along_of_invariant Trace.step_kept Trace.step_answers start⟩

def challengeHdr : SipHdr :=
  ⟨ascii "WWW-Authenticate", ascii "Digest realm=\"r\", nonce=\"n\", qop=\"auth\"", wwwAuthenticate⟩

def unauthorized : SipMsg :=
  ⟨false, [], [], none, ascii "SIP/2.0", 401, ascii "Unauthorized", [challengeHdr], [challengeHdr], none, none, none, none,
    none, none, none, none, none⟩

def login : AuthH := fun _ => .ok (ascii "u", ascii "p")

def runFrom (actions : List Action) : Trace :=
  actions.foldl (Trace.step fun _ => ⟨List.replicate 16 0, rfl⟩) (Trace.empty none)

/-- A challenge that is repeated before the next request makes a second entry with the same nonce; and one that
    has been refused took its realm's entry with it, so that it is accepted when it is repeated. -/
theorem repeated_challenge :
    (sent (runFrom [.authenticate login unauthorized, .authenticate login unauthorized, .encode [] [] fun _ => 0]).events).map
        (fun c => (c.nonce, c.nc)) = [(ascii "n", 1), (ascii "n", 1)] ∧
      (Trace.handle login challengeHdr (runFrom [.authenticate login unauthorized, .encode [] [] fun _ => 0])).1 = true ∧
      (Trace.handle login challengeHdr
        (runFrom [.authenticate login unauthorized, .encode [] [] fun _ => 0, .authenticate login unauthorized])).1 = false := by
  unfold login unauthorized challengeHdr
  repeat rw [ascii_ofList]
  decide +kernel

end Baresip.Sip.Auth
