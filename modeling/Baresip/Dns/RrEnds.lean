import Baresip.Dns.Rr

set_option linter.dupNamespace false

namespace Baresip.Dns

open Re Library

/-- Where the decoder of names ends: behind the first pointer, or else behind the zero byte. A pointer that is cut off by
    the end of the packet is not passed. -/
inductive NameEnds (mb : Mbuf) : Nat → Nat → Prop
  | zero {pos : Nat} (read : readAt mb pos = some 0) : NameEnds mb pos (pos + 1)
  | pointer {pos : Nat} {len : Byte} (read : readAt mb pos = some len) (masked : len &&& COMP_MASK = COMP_MASK) :
      NameEnds mb pos (behindPointer mb pos)
  | label {pos behind : Nat} {label : List Byte} (found : labelAt mb pos = some label)
      (ends : NameEnds mb (pos + 1 + label.length) behind) : NameEnds mb pos behind

/-- A number is not passed when there are too few bytes. -/
def behindNum (mb : Mbuf) (pos n : Nat) : Nat := if n ≤ mb.endPos - pos then pos + n else pos

/-- Where the record data end by their own lengths. -/
inductive DataEnds (mb : Mbuf) : List Step → Nat → Nat → Prop
  | done {pos : Nat} : DataEnds mb [] pos pos
  | rdlen {n pos behind : Nat} {steps : List Step} (ends : DataEnds mb steps pos behind) :
      DataEnds mb (.rdlen n :: steps) pos behind
  | left {n pos behind : Nat} {steps : List Step} (ends : DataEnds mb steps pos behind) :
      DataEnds mb (.left n :: steps) pos behind
  | num {n pos behind : Nat} {steps : List Step} (ends : DataEnds mb steps (behindNum mb pos n) behind) :
      DataEnds mb (.num n :: steps) pos behind
  | name {pos next behind : Nat} {steps : List Step} (name : NameEnds mb pos next)
      (ends : DataEnds mb steps next behind) : DataEnds mb (.name :: steps) pos behind
  | cstr {pos behind : Nat} {len : Byte} {steps : List Step} (read : readAt mb pos = some len)
      (ends : DataEnds mb steps (pos + 1 + len.toNat) behind) : DataEnds mb (.cstr :: steps) pos behind

/-- The data of the record whose name ends at the position end where the length of the record says. -/
def DataFit (mb : Mbuf) (behind : Nat) : Prop :=
  let hdr := (hdrDecode (mb.setPos behind)).1
  ∀ type, DnsType.ofCode hdr.type = some type →
    DataEnds mb type.steps (behind + rrHdrSize) (behind + rrHdrSize + hdr.rdlen.toNat)

section
variable {mb mb' : Mbuf} {start pos behind behind' : Nat} {name : List Byte}

theorem NameEnds.unique (ends : NameEnds mb pos behind) (ends' : NameEnds mb pos behind') : behind = behind' := by
  induction ends with
  | zero read =>
    cases ends' with
    | zero => rfl
    | pointer read' masked =>
      obtain rfl := Option.some.inj (read.symm.trans read')
      exact absurd masked zero_plain
    | label found =>
      obtain ⟨len, read', some_, -⟩ := labelAt_read found
      exact absurd (Option.some.inj (read'.symm.trans read)) some_
  | pointer read masked =>
    cases ends' with
    | zero read' =>
      obtain rfl := Option.some.inj (read'.symm.trans read)
      exact absurd masked zero_plain
    | pointer => rfl
    | label found =>
      obtain ⟨len, read', -, plain⟩ := labelAt_read found
      obtain rfl := Option.some.inj (read.symm.trans read')
      exact absurd masked plain
  | label found ends ih =>
    obtain ⟨len, read, some_, plain⟩ := labelAt_read found
    cases ends' with
    | zero read' => exact absurd (Option.some.inj (read.symm.trans read')) some_
    | pointer read' masked =>
      obtain rfl := Option.some.inj (read.symm.trans read')
      exact absurd masked plain
    | label found' ends' =>
      obtain rfl := Option.some.inj (found.symm.trans found')
      exact ih ends'

theorem DataEnds.unique {steps : List Step} (ends : DataEnds mb steps pos behind)
    (ends' : DataEnds mb steps pos behind') : behind = behind' := by
  induction ends with
  | done =>
    cases ends'
    rfl
  | rdlen ends ih =>
    cases ends' with
    | rdlen ends' => exact ih ends'
  | left ends ih =>
    cases ends' with
    | left ends' => exact ih ends'
  | num ends ih =>
    cases ends' with
    | num ends' => exact ih ends'
  | name name ends ih =>
    cases ends' with
    | name name' ends' =>
      obtain rfl := name.unique name'
      exact ih ends'
  | cstr read ends ih =>
    cases ends' with
    | cstr read' ends' =>
      obtain rfl := Option.some.inj (read.symm.trans read')
      exact ih ends'

theorem Leads.nameEnds_none {text : List Byte} {hops : Nat} (leads : Leads mb start text hops none pos)
    (ends : NameEnds mb pos behind) : NameEnds mb mb.pos behind := by
  generalize unled : none = first at leads
  induction leads with
  | here => exact ends
  | label leads found ih => exact ih (.label found ends) unled
  | pointer => contradiction

theorem Leads.nameEnds_some {text : List Byte} {hops first : Nat} (leads : Leads mb start text hops (some first) pos) :
    NameEnds mb mb.pos (behindPointer mb first) := by
  generalize led : some first = first' at leads
  induction leads with
  | here => contradiction
  | label leads found ih => exact ih led
  | pointer leads found ih =>
    rename_i text hops earlier pos target
    obtain ⟨len, read, masked⟩ := pointerAt_some found
    cases earlier with
    | none =>
      obtain rfl := Option.some.inj led
      exact leads.nameEnds_none (.pointer read masked)
    | some earlier => exact ih led

theorem Decoding.nameEnds {s : DnameSt} {first : Option Nat} (inside : mb.endPos ≤ mb.buf.length)
    (decoding : Decoding mb start s first) (ends : dnameBody mb start s = .inr (.name name pos)) :
    NameEnds mb mb.pos pos := by
  have done := dnameBody_done start inside decoding.fits
  rw [ends] at done
  cases done with
  | name name read =>
    have leads := decoding.leads
    rw [decoding.comp]
    cases first with
    | none => exact leads.nameEnds_none (.zero read)
    | some first => exact leads.nameEnds_some

theorem dnameDecode_ends (inside : mb.endPos ≤ mb.buf.length) (returns : dnameDecode mb start (.name name pos)) :
    NameEnds mb mb.pos pos := by
  have all : ∀ name' pos', DnameEnd.name name pos = .name name' pos' → NameEnds mb mb.pos pos' := by
    refine Returns.of_invariant (I := fun s => ∃ first, Decoding mb start s first)
      (Q := fun r => ∀ name' pos', r = .name name' pos' → NameEnds mb mb.pos pos') ?_ ?_
      ⟨none, dnameInit_decoding mb start⟩ returns
    · rintro s next ⟨first, decoding⟩ goes
      exact decoding.next inside goes
    · rintro s r ⟨first, decoding⟩ ends name' pos' rfl
      exact decoding.nameEnds inside ends
  exact all name pos rfl

theorem nameDecode_returns (start : Nat) (inside : mb.endPos ≤ mb.buf.length) :
    ∃ r, loop (dnameBody mb start) (dnameFuel mb) (dnameInit mb) = some r := by
  apply loop_of_invariant (I := fun s => ∃ first, Decoding mb start s first) (rank mb)
  · rintro s next ⟨first, decoding⟩ goes
    exact ⟨decoding.next inside goes, rank_next inside decoding.fits goes⟩
  · exact ⟨none, dnameInit_decoding mb start⟩
  · exact Nat.lt_succ_self _

theorem nameDecode_of (inside : mb.endPos ≤ mb.buf.length) (returns : dnameDecode mb start (.name name pos)) :
    nameDecode start mb = .ok (name, mb.setPos pos) := by
  obtain ⟨r, result⟩ := nameDecode_returns start inside
  obtain rfl := returns.unique ⟨_, result⟩
  unfold nameDecode
  rw [result]

theorem nameDecode_ends (inside : mb.endPos ≤ mb.buf.length) (decoded : nameDecode start mb = .ok (name, mb')) :
    ∃ behind, NameEnds mb mb.pos behind ∧ mb' = mb.setPos behind := by
  unfold nameDecode at decoded
  split at decoded
  · rename_i name' pos result
    cases decoded
    exact ⟨pos, dnameDecode_ends inside ⟨_, result⟩, rfl⟩
  all_goals contradiction

theorem numDecode_ends (mb : Mbuf) (n : Nat) : (numDecode n mb).2 = mb.setPos (behindNum mb mb.pos n) := by
  unfold numDecode behindNum Mbuf.getLeft
  split <;> rfl

theorem left_head (inside : mb.endPos ≤ mb.buf.length) (some_ : ¬ mb.getLeft < 1) :
    ∃ c, readAt mb mb.pos = some c ∧ numDecode 1 mb = (c.toNat, mb.advance 1) := by
  unfold Mbuf.getLeft at some_
  obtain ⟨c, read, there⟩ := readAt_inside inside (show mb.pos < mb.endPos by omega)
  refine ⟨c, read, ?_⟩
  obtain ⟨within, rfl⟩ := List.getElem?_eq_some_iff.mp there
  have width : mb.endPos - mb.pos = (mb.endPos - mb.pos - 1) + 1 := by omega
  unfold numDecode
  rw [if_pos (show 1 ≤ mb.getLeft by unfold Mbuf.getLeft; omega), Mbuf.left, Mbuf.getLeft, width,
    List.drop_eq_getElem_cons within, List.take_succ_cons, List.take_succ_cons, List.take_zero]
  simp [getBe]

theorem cstrDecode_ends {str : List Byte} (inside : mb.endPos ≤ mb.buf.length) (decoded : cstrDecode mb = .ok (str, mb')) :
    ∃ len, readAt mb mb.pos = some len ∧ mb' = mb.setPos (mb.pos + 1 + len.toNat) := by
  unfold cstrDecode at decoded
  split at decoded
  · contradiction
  · rename_i some_
    obtain ⟨len, read, first⟩ := left_head inside some_
    rw [first] at decoded
    dsimp only at decoded
    split at decoded
    · contradiction
    · cases decoded
      exact ⟨len, read, rfl⟩

theorem NameEnds.setPos {p : Nat} (ends : NameEnds (mb.setPos p) pos behind) : NameEnds mb pos behind := by
  induction ends with
  | zero read => exact .zero read
  | pointer read masked => exact .pointer read masked
  | label found _ ih => exact .label found ih

theorem stepsDecode_ends {rdlen : Nat} {steps : List Step} {values : List Value} (inside : mb.endPos ≤ mb.buf.length)
    (decoded : stepsDecode start rdlen steps (mb.setPos pos) = .ok (values, mb')) :
    ∃ behind, DataEnds mb steps pos behind ∧ mb' = mb.setPos behind := by
  induction steps generalizing pos values with
  | nil =>
    cases decoded
    exact ⟨pos, .done, rfl⟩
  | cons step steps ih =>
    have inside' : (mb.setPos pos).endPos ≤ (mb.setPos pos).buf.length := inside
    cases step with
    | rdlen n =>
      unfold stepsDecode at decoded
      split at decoded
      · contradiction
      · obtain ⟨behind, ends, same⟩ := ih decoded
        exact ⟨behind, .rdlen ends, same⟩
    | left n =>
      unfold stepsDecode at decoded
      split at decoded
      · contradiction
      · obtain ⟨behind, ends, same⟩ := ih decoded
        exact ⟨behind, .left ends, same⟩
    | num n =>
      unfold stepsDecode at decoded
      dsimp only at decoded
      split at decoded
      · contradiction
      · rename_i values' last result
        cases decoded
        rw [numDecode_ends] at result
        obtain ⟨behind, ends, same⟩ := ih result
        exact ⟨behind, .num ends, same⟩
    | name =>
      unfold stepsDecode at decoded
      split at decoded
      · contradiction
      · rename_i name next first
        split at decoded
        · contradiction
        · rename_i values' last result
          cases decoded
          obtain ⟨between, named, rfl⟩ := nameDecode_ends inside' first
          obtain ⟨behind, ends, same⟩ := ih result
          exact ⟨behind, .name named.setPos ends, same⟩
    | cstr =>
      unfold stepsDecode at decoded
      split at decoded
      · contradiction
      · rename_i str next first
        split at decoded
        · contradiction
        · rename_i values' last result
          cases decoded
          obtain ⟨len, read, rfl⟩ := cstrDecode_ends inside' first
          obtain ⟨behind, ends, same⟩ := ih result
          exact ⟨behind, .cstr read ends, same⟩

theorem hdrDecode_pos (enough : rrHdrSize ≤ mb.getLeft) : (hdrDecode mb).2 = mb.advance rrHdrSize := by
  unfold rrHdrSize Mbuf.getLeft at enough
  have pass (n : Nat) (mb : Mbuf) (fits : n ≤ mb.endPos - mb.pos) : (numDecode n mb).2 = mb.advance n := by
    rw [numDecode_ends, behindNum, if_pos fits]
    rfl
  dsimp only [hdrDecode]
  rw [pass 2 mb (by omega), pass 2 (mb.advance 2) (by simp only [Mbuf.advance]; omega),
    pass 4 _ (by simp only [Mbuf.advance]; omega), pass 2 _ (by simp only [Mbuf.advance]; omega)]
  rfl

/-- A record is passed by the length that it gives for its data exactly when the data end there by their own lengths. -/
theorem rrDecode_ends {rr : Dnsrr} (inside : mb.endPos ≤ mb.buf.length) (decoded : rrDecode start mb = .ok (rr, mb')) :
    ∃ behind, NameEnds mb mb.pos behind ∧ rr.rdlen = (hdrDecode (mb.setPos behind)).1.rdlen ∧
      (mb'.pos = behind + rrHdrSize + rr.rdlen.toNat ↔ DataFit mb behind) := by
  unfold rrDecode at decoded
  split at decoded
  · cases decoded
  · rename_i name next first
    obtain ⟨behind, named, rfl⟩ := nameDecode_ends inside first
    split at decoded
    · cases decoded
    · rename_i enough
      dsimp only at decoded
      split at decoded
      · cases decoded
      · split at decoded
        · cases decoded
        · rename_i rdata last result
          cases decoded
          refine ⟨behind, named, rfl, ?_⟩
          rw [hdrDecode_pos (Nat.not_lt.mp enough)] at result
          unfold rdataDecode at result
          unfold DataFit
          dsimp only at result ⊢
          cases known : DnsType.ofCode (hdrDecode (mb.setPos behind)).1.type with
          | none =>
            rw [known] at result
            cases result
            exact ⟨fun _ _ => nofun, fun _ => rfl⟩
          | some type =>
            rw [known] at result
            dsimp only at result
            split at result
            · cases result
            · rename_i values last' steps
              cases result
              obtain ⟨ends, dataEnds, rfl⟩ := stepsDecode_ends inside steps
              constructor
              · rintro exact_ type' ⟨⟩
                have same : ends = behind + rrHdrSize + (hdrDecode (mb.setPos behind)).1.rdlen.toNat := exact_
                rw [← same]
                exact dataEnds
              · intro fit
                exact dataEnds.unique (fit type rfl)

end

end Baresip.Dns
