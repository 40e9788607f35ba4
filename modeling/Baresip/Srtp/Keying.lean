import Baresip.Library.Runs
import Baresip.Srtp.Srtp

set_option linter.dupNamespace false

namespace Baresip.Srtp

open Re Library

variable {Ctx : Type}

def acceptable (st : MencSt Ctx) (c : Crypto) (key : List Byte) (created : Created Ctx) : Bool :=
  c.inline && (suitePolicy c.suite).isSome && key.length == srtpMasterKeyLen && created.status == 0 &&
    st.tx.status == 0

def accepts (st : MencSt Ctx) (offer : Offer Ctx) (value : List Byte) : Bool :=
  match sdesDecodeCrypto value with
  | .error _ => false
  | .ok c =>
    match c.key value offer.beyond with
    | .error _ => false
    | .ok key => acceptable st c key offer.created

structure SameKeying (st st' : MencSt Ctx) : Prop where
  keyRx : st'.keyRx = st.keyRx
  policyRx : st'.policyRx = st.policyRx
  rx : st'.rx = st.rx
  tx : st'.tx = st.tx

def enables (st : MencSt Ctx) (offer : Offer Ctx) : Bool :=
  (afterUpdate { st with useSrtp := false } offer).useSrtp

/-- SRTP is enabled by acceptable attributes only, and any other one leaves the keying as it was. -/
structure UpdateSound (st : MencSt Ctx) (offer : Offer Ctx) : Prop where
  enabled : enables st offer = true → ∃ value, offer.value = some value ∧ accepts st offer value = true
  keeps : ∀ value, offer.value = some value → accepts st offer value = false →
    SameKeying st (afterUpdate st offer)

/-- The attribute is not taken apart, its key is not decoded, it is acceptable, or it is refused for its
    method or suite with a key that is in place already. -/
def Clean (st : MencSt Ctx) (offer : Offer Ctx) : Prop :=
  ∀ value c key, offer.value = some value → sdesDecodeCrypto value = .ok c →
    c.key value offer.beyond = .ok key →
    acceptable st c key offer.created = true ∨
      (c.inline = false ∨ suitePolicy c.suite = none) ∧ overwrite st.keyRx key = st.keyRx

theorem decodeCrypto_supported (st : MencSt Ctx) {value beyond key : List Byte} {c : Crypto}
    (created : Created Ctx) (decoded : sdesDecodeCrypto value = .ok c) (keyed : c.key value beyond = .ok key)
    (inline : c.inline = true) {policy : CryptoPolicy} (suite : suitePolicy c.suite = some policy) :
    decodeCrypto st value beyond created =
      (none, { st with
        keyRx := overwrite st.keyRx key
        policyRx := { st.policyRx with rtp := policy }
        rx := some created
        useSrtp := true }) := by
  simp [decodeCrypto, decoded, keyed, inline, suite]

theorem decodeCrypto_unsupported (st : MencSt Ctx) {value beyond key : List Byte} {c : Crypto}
    (created : Created Ctx) (decoded : sdesDecodeCrypto value = .ok c) (keyed : c.key value beyond = .ok key)
    (unsupported : c.inline = false ∨ suitePolicy c.suite = none) :
    ∃ e, decodeCrypto st value beyond created = (some e, { st with keyRx := overwrite st.keyRx key }) := by
  cases inline : c.inline with
  | false => exact ⟨.EINVAL, by simp [decodeCrypto, decoded, keyed, inline]⟩
  | true =>
    have suite := unsupported.resolve_left (by simp [inline])
    exact ⟨.ENOENT, by simp [decodeCrypto, decoded, keyed, inline, suite]⟩

inductive Outcome (offer : Offer Ctx) (value : List Byte) : Prop
  | refused (e : Errno)
      (result : ∀ st, decodeCrypto st value offer.beyond offer.created = (some e, st))
      (fails : ∀ c key, sdesDecodeCrypto value = .ok c → c.key value offer.beyond ≠ .ok key)
  | unsupported (c : Crypto) (key : List Byte) (decoded : sdesDecodeCrypto value = .ok c)
      (keyed : c.key value offer.beyond = .ok key)
      (unsupported : c.inline = false ∨ suitePolicy c.suite = none)
  | supported (c : Crypto) (key : List Byte) (policy : CryptoPolicy) (decoded : sdesDecodeCrypto value = .ok c)
      (keyed : c.key value offer.beyond = .ok key) (inline : c.inline = true)
      (suite : suitePolicy c.suite = some policy)

theorem outcome (offer : Offer Ctx) (value : List Byte) : Outcome offer value := by
  cases decoded : sdesDecodeCrypto value with
  | error e =>
    apply Outcome.refused e
    · intro st'
      simp only [decodeCrypto, decoded]
    · intro c key other
      rw [decoded] at other
      contradiction
  | ok c =>
    cases keyed : c.key value offer.beyond with
    | error e =>
      apply Outcome.refused e
      · intro st'
        simp only [decodeCrypto, decoded, keyed]
      · intro c' key same
        rw [decoded, Except.ok.injEq] at same
        rw [← same, keyed]
        nofun
    | ok key =>
      cases inline : c.inline with
      | false => exact .unsupported c key decoded keyed (.inl inline)
      | true =>
        cases suite : suitePolicy c.suite with
        | none => exact .unsupported c key decoded keyed (.inr suite)
        | some policy => exact .supported c key policy decoded keyed inline suite

theorem update_some {offer : Offer Ctx} {value : List Byte} (offered : offer.value = some value)
    (st : MencSt Ctx) : afterUpdate st offer = (decodeCrypto st value offer.beyond offer.created).2 := by
  rw [afterUpdate, update, offered]

theorem accepts_eq {st : MencSt Ctx} {offer : Offer Ctx} {value key : List Byte} {c : Crypto}
    (decoded : sdesDecodeCrypto value = .ok c) (keyed : c.key value offer.beyond = .ok key) :
    accepts st offer value = acceptable st c key offer.created := by
  simp only [accepts, decoded, keyed]

theorem not_acceptable {st : MencSt Ctx} {c : Crypto} (key : List Byte) (created : Created Ctx)
    (unsupported : c.inline = false ∨ suitePolicy c.suite = none) :
    acceptable st c key created = false := by
  cases unsupported with
  | inl method => simp [acceptable, method]
  | inr suite => simp [acceptable, suite]

theorem clean_of_sound {st : MencSt Ctx} {offer : Offer Ctx} (sound : UpdateSound st offer) :
    Clean st offer := by
  intro value c key offered decoded keyed
  cases outcome offer value with
  | refused e result fails => exact absurd keyed (fails c key decoded)
  | unsupported c' key' decoded' keyed' unsupported =>
    obtain rfl : c = c' := Except.ok.inj (decoded.symm.trans decoded')
    obtain ⟨e, result⟩ := decodeCrypto_unsupported st offer.created decoded keyed unsupported
    have keeps := sound.keeps value offered
    rw [accepts_eq decoded keyed] at keeps
    have same := (keeps (not_acceptable key offer.created unsupported)).keyRx
    rw [update_some offered, result] at same
    exact .inr ⟨unsupported, same⟩
  | supported c' key' policy decoded' keyed' inline suite =>
    obtain rfl : c = c' := Except.ok.inj (decoded.symm.trans decoded')
    have enabled : enables st offer = true := by
      rw [enables, update_some offered, decodeCrypto_supported _ _ decoded keyed inline suite]
    obtain ⟨value', offered', taken⟩ := sound.enabled enabled
    obtain rfl : value = value' := Option.some.inj (offered.symm.trans offered')
    rw [accepts_eq decoded keyed] at taken
    exact .inl taken

theorem sound_of_clean {st : MencSt Ctx} {offer : Offer Ctx} (clean : Clean st offer) :
    UpdateSound st offer := by
  constructor
  · intro enabled
    cases offered : offer.value with
    | none => simp [enables, afterUpdate, update, offered] at enabled
    | some value =>
      rw [enables, update_some offered] at enabled
      cases outcome offer value with
      | refused e result fails =>
        rw [result] at enabled
        contradiction
      | unsupported c key decoded keyed unsupported =>
        obtain ⟨e, result⟩ := decodeCrypto_unsupported { st with useSrtp := false } offer.created decoded
          keyed unsupported
        rw [result] at enabled
        contradiction
      | supported c key policy decoded keyed inline suite =>
        refine ⟨value, rfl, ?_⟩
        rw [accepts_eq decoded keyed]
        apply (clean value c key offered decoded keyed).resolve_right
        simp [inline, suite]
  · intro value offered notTaken
    rw [update_some offered]
    cases outcome offer value with
    | refused e result fails =>
      rw [result]
      exact ⟨rfl, rfl, rfl, rfl⟩
    | unsupported c key decoded keyed unsupported =>
      obtain ⟨e, result⟩ := decodeCrypto_unsupported st offer.created decoded keyed unsupported
      rw [accepts_eq decoded keyed] at notTaken
      have inPlace := (clean value c key offered decoded keyed).resolve_left (by simp [notTaken])
      rw [result]
      exact ⟨inPlace.2, rfl, rfl, rfl⟩
    | supported c key policy decoded keyed inline suite =>
      rw [accepts_eq decoded keyed] at notTaken
      have unsupported := (clean value c key offered decoded keyed).resolve_left (by simp [notTaken])
      simp [inline, suite] at unsupported

/-- The runs in which every update is sound are those that meet clean attributes only. -/
theorem updates_sound_iff (key : List Byte) (created : Created Ctx) (offers : List (Offer Ctx)) :
    Along afterUpdate UpdateSound (setupSrtp key created) offers ↔
      Along afterUpdate Clean (setupSrtp key created) offers :=
  along_congr fun _ _ => ⟨clean_of_sound, sound_of_clean⟩

theorem short_key_enables :
    ¬ Along afterUpdate UpdateSound (setupSrtp (List.replicate 30 7) ⟨0, some ()⟩)
      [⟨some (ascii "1 AES_CM_128_HMAC_SHA1_80 inline:AAAA"), [], ⟨0, some ()⟩⟩] := by
  rw [ascii_ofList]
  rintro ⟨sound, _⟩
  obtain ⟨value, offered, taken⟩ := sound.enabled (by decide +kernel)
  obtain rfl := Option.some.inj offered
  revert taken
  decide +kernel

def Keyed (st : MencSt Ctx) : Prop :=
  st.useSrtp = true → st.tx.status = 0 ∧ ∃ rx, st.rx = some rx ∧ rx.status = 0

theorem keyed_step (st : MencSt Ctx) (offer : Offer Ctx) (keyed_ : Keyed st) (clean : Clean st offer) :
    Keyed (afterUpdate st offer) := by
  cases offered : offer.value with
  | none => simpa [afterUpdate, update, offered] using keyed_
  | some value =>
    rw [update_some offered]
    cases outcome offer value with
    | refused e result fails =>
      rw [result]
      exact keyed_
    | unsupported c key decoded keyed unsupported =>
      obtain ⟨e, result⟩ := decodeCrypto_unsupported st offer.created decoded keyed unsupported
      rw [result]
      exact keyed_
    | supported c key policy decoded keyed inline suite =>
      have taken := (clean value c key offered decoded keyed).resolve_right (by simp [inline, suite])
      rw [decodeCrypto_supported st offer.created decoded keyed inline suite]
      intro _
      simp only [acceptable, Bool.and_eq_true, beq_iff_eq] at taken
      exact ⟨taken.2, offer.created, rfl, taken.1.2⟩

theorem keyed_throughout (key : List Byte) (created : Created Ctx) (offers : List (Offer Ctx))
    (clean : Along afterUpdate Clean (setupSrtp key created) offers) :
    Throughout afterUpdate Keyed (setupSrtp key created) offers :=
  throughout_of_guarded keyed_step nofun clean

end Baresip.Srtp
