import Baresip.Library.Runs
import Baresip.Stun.Ctrans

set_option linter.dupNamespace false

namespace Baresip.Stun.Client

open Re Library Turn

/-- What a transaction was asked for that has neither been completed nor released. -/
def waiting (ct : Nat) : List Event → Option Asked
  | [] => none
  | .requested ct' asked :: events => if ct' = ct then some asked else waiting ct events
  | .completed ct' .. :: events => if ct' = ct then none else waiting ct events
  | .released ct' :: events => if ct' = ct then none else waiting ct events
  | _ :: events => waiting ct events

/-- The times at which a request was transmitted, the last one first. -/
def sends (ct : Nat) : List Event → List Nat
  | [] => []
  | .sent ct' _ _ _ time :: events => if ct' = ct then time :: sends ct events else sends ct events
  | _ :: events => sends ct events

section
variable (hmacSha1 : List Byte → List Byte → List Byte) (cfg : StunConf)

/-- A further request may be transmitted, and is due as the intervals that double from `rto` say. -/
def Spaced (times : List Nat) (due time : Nat) : Prop :=
  due ≤ time ∧ times.length < cfg.rc.toNat ∧
    ∀ last ∈ times.head?, due = last + cfg.rto.toNat * 2 ^ (times.length - 1)

/-- A failure is reported when the last request has been waited for. -/
def Reported (times : List Nat) (err : Option Err) (time : Nat) : Cause → Prop
  | .timedOut due => err = some .ETIMEDOUT ∧ due ≤ time ∧ times.length = cfg.rc.toNat ∧
      ∃ last ∈ times.head?, due = last + cfg.rm.toNat * cfg.rto.toNat
  | _ => err ≠ some .ETIMEDOUT

/-- Only a transaction that waits is transmitted, completed, with its own handler, or released. -/
def Lawful : List Event → Prop
  | [] => True
  | .requested ct _ :: events => waiting ct events = none ∧ sends ct events = [] ∧ Lawful events
  | .sent ct dst mb due time :: events =>
    (∃ asked ∈ waiting ct events, dst = asked.dst ∧ mb = asked.mb) ∧ Spaced cfg (sends ct events) due time ∧ Lawful events
  | .completed ct resph arg cause result time :: events =>
    (∃ asked ∈ waiting ct events, resph = asked.resph ∧ arg = asked.arg) ∧
      Reported cfg (sends ct events) result.err time cause ∧ Lawful events
  | .released ct :: events => (waiting ct events).isSome ∧ Lawful events
  | .dangling _ :: _ => False

structure Kept (s : Stack) : Prop where
  once : s.ctl.Nodup
  running : ∀ ct, ct ∈ s.ctl ↔ (waiting ct s.events).isSome
  owned : ∀ ctp, ∀ ct ∈ s.owners ctp, ct ∈ s.ctl
  lawful : Lawful cfg s.events
  ends : ∀ ct, ∃ n, ct ∉ ((List.replicate n (Action.timeout ct 0 none)).foldl (step hmacSha1 cfg) s).ctl

/-- The code of an error response. -/
def scode (msg : StunMsg) : BitVec 16 :=
  if stunClass msg.hdr.type = STUN_CLASS_ERROR_RESP then ((msg.attr .ERR_CODE).map fun errcode => (errCode errcode).1).getD 0
  else 0

/-- A response that is not the transaction's: its method, its identifier or its integrity is not right. -/
def Rejected (ct : Ctrans) (msg : StunMsg) : Prop :=
  ct.met ≠ stunMethod msg.hdr.type ∨ ct.tid ≠ msg.hdr.tid ∨ (chkMi hmacSha1 ct msg (scode msg)).isSome

def IsResponse (msg : StunMsg) : Prop :=
  stunClass msg.hdr.type = STUN_CLASS_ERROR_RESP ∨ stunClass msg.hdr.type = STUN_CLASS_SUCCESS_RESP

instance : DecidablePred IsResponse := fun msg =>
  inferInstanceAs (Decidable (stunClass msg.hdr.type = STUN_CLASS_ERROR_RESP ∨ stunClass msg.hdr.type = STUN_CLASS_SUCCESS_RESP))

/-- A response that is not a transaction's leaves it running as it is. -/
def Ignores (s : Stack) : Action → Prop
  | .recv msg ua => ∀ ct ∈ s.ctl, Rejected hmacSha1 (s.transs ct) msg →
      ct ∈ (step hmacSha1 cfg s (.recv msg ua)).ctl ∧ (step hmacSha1 cfg s (.recv msg ua)).transs ct = s.transs ct
  | _ => True

/-- The configuration has at least one request, its intervals fit in 32 bits, and a single request is waited for as long
    as a last one. -/
structure Timed : Prop where
  requests : 1 ≤ cfg.rc.toNat
  doubles : ∀ n, n + 1 < cfg.rc.toNat → cfg.rto.toNat * 2 ^ n < 4294967296
  waits : 1 < cfg.rc.toNat → cfg.rm.toNat * cfg.rto.toNat < 4294967296
  single : cfg.rc.toNat = 1 → cfg.rm.toNat * cfg.rto.toNat = cfg.rto.toNat

/-- The transaction that a step completes or releases. -/
def taken (s : Stack) : Action → Option Nat
  | .recv msg _ => (s.ctl.find? fun ct => matchHandler msg (s.transs ct)).filter fun ct =>
      IsResponse msg ∧ chkMi hmacSha1 (s.transs ct) msg (scode msg) = none
  | .timeout ct _ err => if ct ∈ s.ctl ∧ (cfg.rc ≤ (s.transs ct).txc ∨ err.isSome) then some ct else none
  | .release ctp => s.owners ctp
  | .closeNext => s.closing.head?.join
  | _ => none

/-- What the closes go on with, but for the element that a step takes up itself. -/
def saved (s : Stack) : Action → List (Option Nat)
  | .closeNext => s.closing.tail
  | _ => s.closing

/-- No close goes on with the transaction that the step completes or releases. -/
def Undisturbed (s : Stack) (a : Action) : Prop := ∀ ct ∈ taken hmacSha1 cfg s a, some ct ∉ saved s a

end

section
variable {hmacSha1 : List Byte → List Byte → List Byte} {cfg : StunConf} {s : Stack} {ct ct' : Nat} {events : List Event}

@[simp] theorem waiting_requested {asked : Asked} : waiting ct (.requested ct' asked :: events) =
    if ct' = ct then some asked else waiting ct events := rfl

@[simp] theorem waiting_completed {resph : Option Nat} {arg time : Nat} {cause : Cause} {result : Result} :
    waiting ct (.completed ct' resph arg cause result time :: events) =
      if ct' = ct then none else waiting ct events := rfl

@[simp] theorem waiting_released : waiting ct (.released ct' :: events) =
    if ct' = ct then none else waiting ct events := rfl

@[simp] theorem waiting_sent {dst : Sa} {mb : List Byte} {due time : Nat} :
    waiting ct (.sent ct' dst mb due time :: events) = waiting ct events := rfl

@[simp] theorem sends_sent {dst : Sa} {mb : List Byte} {due time : Nat} :
    sends ct (.sent ct' dst mb due time :: events) = if ct' = ct then time :: sends ct events else sends ct events := rfl

/-- How long a transaction waits after its last transmission. -/
def interval (cfg : StunConf) (n : Nat) : Nat :=
  if n < cfg.rc.toNat then cfg.rto.toNat * 2 ^ (n - 1) else cfg.rm.toNat * cfg.rto.toNat

/-- What the transaction has transmitted so far, and when its timer expires. -/
structure Running (cfg : StunConf) (t : Ctrans) (times : List Nat) : Prop where
  counted : t.txc.toNat = times.length
  first : 1 ≤ t.txc.toNat
  last : t.txc.toNat ≤ cfg.rc.toNat
  ival : t.ival.toNat = interval cfg times.length
  expires : ∃ last ∈ times.head?, t.tmr = last + t.ival.toNat

structure Inv (cfg : StunConf) (s : Stack) : Prop where
  once : s.ctl.Nodup
  asked : ∀ ct, ct ∈ s.ctl → waiting ct s.events = some (s.transs ct).asked
  running : ∀ ct, (waiting ct s.events).isSome → ct ∈ s.ctl
  owned : ∀ ctp, ∀ ct ∈ s.owners ctp, ct ∈ s.ctl ∧ (s.transs ct).ctp = some ctp
  lawful : Lawful cfg s.events
  fresh : ∀ ct, s.count ≤ ct → waiting ct s.events = none ∧ sends ct s.events = []
  transs : ∀ ct ∈ s.ctl, Running cfg (s.transs ct) (sends ct s.events)
  saved : ∀ ct, some ct ∈ s.closing → ct ∈ s.ctl

theorem kept_other {owners : Nat → Option Nat} {ctp place : Nat} (kept : ct ∈ Function.update owners ctp none place) :
    place ≠ ctp ∧ ct ∈ owners place := by
  by_cases same : place = ctp
  · rw [same, Function.update_self] at kept
    cases kept
  · rw [Function.update_of_ne same] at kept
    exact ⟨same, kept⟩

/-- A transaction goes that nobody keeps any more and that no close goes on with. -/
theorem Inv.removed (inv : Inv cfg s) {event : Event} {owners : Nat → Option Nat}
    (settled : ∀ other, waiting other (event :: s.events) = if ct = other then none else waiting other s.events)
    (silent : ∀ other, sends other (event :: s.events) = sends other s.events)
    (lawful : Lawful cfg (event :: s.events))
    (disowned : ∀ ctp, ∀ other ∈ owners ctp, other ≠ ct ∧ other ∈ s.owners ctp)
    (unsaved : some ct ∉ s.closing) :
    Inv cfg { s with ctl := s.ctl.erase ct, owners := owners, events := event :: s.events } where
  once := inv.once.erase ct
  asked other mem := by
    rcases inv.once.mem_erase_iff.mp mem with ⟨differ, mem⟩
    rw [settled, if_neg differ.symm]
    exact inv.asked other mem
  running other waits := by
    rw [settled] at waits
    by_cases same : ct = other
    · rw [if_pos same] at waits
      cases waits
    · rw [if_neg same] at waits
      exact inv.once.mem_erase_iff.mpr ⟨Ne.symm same, inv.running other waits⟩
  owned ctp other kept := by
    rcases disowned ctp other kept with ⟨differ, kept⟩
    rcases inv.owned ctp other kept with ⟨mem, own⟩
    exact ⟨inv.once.mem_erase_iff.mpr ⟨differ, mem⟩, own⟩
  lawful := lawful
  fresh other new := by
    rw [settled, silent, (inv.fresh other new).1]
    exact ⟨ite_self _, (inv.fresh other new).2⟩
  transs other mem := by
    rw [silent]
    exact inv.transs other (List.mem_of_mem_erase mem)
  saved other kept := by
    apply inv.once.mem_erase_iff.mpr
    refine ⟨?_, inv.saved other kept⟩
    rintro rfl
    exact unsaved kept

theorem Inv.completed (inv : Inv cfg s) (mem : ct ∈ s.ctl) {cause : Cause} {result : Result}
    (reported : Reported cfg (sends ct s.events) result.err s.now cause) (unsaved : some ct ∉ s.closing) :
    Inv cfg (s.completed ct cause result) := by
  apply inv.removed
  · intro other
    exact waiting_completed
  · intro other
    rfl
  · exact ⟨⟨_, inv.asked ct mem, rfl, rfl⟩, reported, inv.lawful⟩
  · intro ctp other kept
    unfold Stack.disowned at kept
    cases own : (s.transs ct).ctp with
    | none =>
      rw [own] at kept
      refine ⟨?_, kept⟩
      rintro rfl
      rw [(inv.owned ctp other kept).2] at own
      cases own
    | some place =>
      rw [own] at kept
      rcases kept_other kept with ⟨differ, kept⟩
      refine ⟨?_, kept⟩
      rintro rfl
      rw [(inv.owned ctp other kept).2] at own
      exact differ (Option.some.inj own)
  · exact unsaved

theorem Inv.release (inv : Inv cfg s) {ctp : Nat} (unsaved : ∀ ct ∈ s.owners ctp, some ct ∉ s.closing) :
    Inv cfg (s.release ctp) := by
  unfold Stack.release
  cases keeps : s.owners ctp with
  | none => exact inv
  | some ct =>
    rcases inv.owned ctp ct keeps with ⟨mem, own⟩
    dsimp only
    apply inv.removed
    · intro other
      exact waiting_released
    · intro other
      rfl
    · exact ⟨Option.isSome_of_mem (inv.asked ct mem), inv.lawful⟩
    · intro place other kept
      rcases kept_other kept with ⟨differ, kept⟩
      refine ⟨?_, kept⟩
      rintro rfl
      have twice := (inv.owned place other kept).2
      rw [own] at twice
      exact differ (Option.some.inj twice).symm
    · exact unsaved ct keeps

theorem Inv.clock (inv : Inv cfg s) (now : Nat) : Inv cfg { s with now := now } :=
  ⟨inv.once, inv.asked, inv.running, inv.owned, inv.lawful, inv.fresh, inv.transs, inv.saved⟩

theorem Inv.closing (inv : Inv cfg s) {closing : List (Option Nat)} (saved : ∀ ct, some ct ∈ closing → ct ∈ s.ctl) :
    Inv cfg { s with closing := closing } :=
  ⟨inv.once, inv.asked, inv.running, inv.owned, inv.lawful, inv.fresh, inv.transs, saved⟩

theorem Inv.close (inv : Inv cfg s) : Inv cfg s.ctransClose := by
  apply inv.closing
  intro ct kept
  rcases List.mem_cons.mp kept with head | kept
  · exact List.mem_of_head? head.symm
  · exact inv.saved ct kept

theorem Inv.closeNext (inv : Inv cfg s) (unsaved : ∀ ct ∈ s.closing.head?.join, some ct ∉ s.closing.tail) :
    Inv cfg s.closeNext := by
  unfold Stack.closeNext
  cases rounds : s.closing with
  | nil => exact inv
  | cons next closing =>
    have saved : ∀ ct, some ct ∈ closing → ct ∈ s.ctl := fun ct kept =>
      inv.saved ct (rounds ▸ List.mem_cons_of_mem _ kept)
    cases next with
    | none => exact inv.closing saved
    | some ct =>
      have mem : ct ∈ s.ctl := inv.saved ct (rounds ▸ List.mem_cons_self)
      rw [rounds] at unsaved
      dsimp only
      rw [if_pos mem]
      have after : ∀ other, s.ctl[s.ctl.idxOf ct + 1]? = some other → other ∈ s.ctl ∧ other ≠ ct := by
        intro other found
        refine ⟨List.mem_of_getElem? found, ?_⟩
        rintro rfl
        rcases List.getElem?_eq_some_iff.mp found with ⟨inside, here⟩
        have place := inv.once.idxOf_getElem _ inside
        rw [here] at place
        exact Nat.succ_ne_self _ place.symm
      have inv' : Inv cfg { s with closing := s.ctl[s.ctl.idxOf ct + 1]? :: closing } := by
        apply inv.closing
        intro other kept
        rcases List.mem_cons.mp kept with next | kept
        · exact (after other next.symm).1
        · exact saved other kept
      apply inv'.completed mem
      · exact fun same => by cases same
      · intro kept
        rcases List.mem_cons.mp kept with next | kept
        · exact (after ct next.symm).2 rfl
        · exact unsaved ct rfl kept

theorem interval_less {n : Nat} (less : n < cfg.rc.toNat) : interval cfg n = cfg.rto.toNat * 2 ^ (n - 1) := if_pos less

theorem interval_last {n : Nat} (last : n = cfg.rc.toNat) : interval cfg n = cfg.rm.toNat * cfg.rto.toNat :=
  if_neg (Nat.not_lt.mpr (Nat.le_of_eq last.symm))

/-- The 32 bits hold the next interval. -/
theorem ival_next (timed : Timed cfg) {t : Ctrans} {n : Nat} (counted : t.txc.toNat = n + 1) (less : n + 1 < cfg.rc.toNat)
    (ival : t.ival.toNat = interval cfg (n + 1)) :
    (if cfg.rc ≤ t.txc + 1 then cfg.rto * cfg.rm else t.ival * 2).toNat = interval cfg (n + 2) := by
  have next : (t.txc + 1).toNat = n + 2 := by
    rw [BitVec.toNat_add, counted]
    exact Nat.mod_eq_of_lt (Nat.lt_of_le_of_lt less cfg.rc.isLt)
  by_cases last : cfg.rc ≤ t.txc + 1
  · have end_ : n + 2 = cfg.rc.toNat := by
      rw [BitVec.le_def, next] at last
      exact Nat.le_antisymm less last
    rw [if_pos last, interval_last end_, BitVec.toNat_mul, Nat.mul_comm]
    exact Nat.mod_eq_of_lt (timed.waits (Nat.lt_of_le_of_lt (Nat.le_add_left 1 n) less))
  · have more : n + 2 < cfg.rc.toNat := by
      rw [BitVec.le_def, next] at last
      exact Nat.not_le.mp last
    rw [if_neg last, interval_less more, BitVec.toNat_mul, ival, interval_less less]
    have doubled : cfg.rto.toNat * 2 ^ (n + 1 - 1) * (2 : BitVec 32).toNat = cfg.rto.toNat * 2 ^ (n + 2 - 1) := by
      rw [Nat.add_sub_cancel, Nat.mul_assoc]
      rfl
    rw [doubled]
    exact Nat.mod_eq_of_lt (timed.doubles (n + 1) more)

theorem Inv.retransmitted (inv : Inv cfg s) (timed : Timed cfg) (mem : ct ∈ s.ctl) (due : (s.transs ct).tmr ≤ s.now)
    (more : ¬ cfg.rc ≤ (s.transs ct).txc) : Inv cfg (s.retransmitted cfg ct) := by
  have own := inv.transs ct mem
  have less : (s.transs ct).txc.toNat < cfg.rc.toNat := by
    rw [BitVec.le_def] at more
    exact Nat.not_le.mp more
  rcases Nat.exists_eq_add_of_le' own.first with ⟨n, counted⟩
  have length : (sends ct s.events).length = n + 1 := by rw [← own.counted, counted]
  rw [counted] at less
  have ival := own.ival
  rw [length] at ival
  rcases own.expires with ⟨time, sent, expires⟩
  have others {other : Nat} (differ : other ≠ ct) : (s.retransmitted cfg ct).transs other = s.transs other :=
    Function.update_of_ne differ _ _
  have self : (s.retransmitted cfg ct).transs ct = { s.transs ct with
      txc := (s.transs ct).txc + 1
      ival := if cfg.rc ≤ (s.transs ct).txc + 1 then cfg.rto * cfg.rm else (s.transs ct).ival * 2
      tmr := s.now + (if cfg.rc ≤ (s.transs ct).txc + 1 then cfg.rto * cfg.rm else (s.transs ct).ival * 2).toNat } :=
    Function.update_self _ _ _
  have same (other : Nat) : ((s.retransmitted cfg ct).transs other).asked = (s.transs other).asked ∧
      ((s.retransmitted cfg ct).transs other).ctp = (s.transs other).ctp := by
    by_cases differ : other = ct
    · rw [differ, self]
      exact ⟨rfl, rfl⟩
    · rw [others differ]
      exact ⟨rfl, rfl⟩
  constructor
  case once => exact inv.once
  case asked =>
    intro other mem
    rw [(same other).1]
    exact inv.asked other mem
  case running => exact inv.running
  case owned =>
    intro ctp other kept
    rw [(same other).2]
    exact inv.owned ctp other kept
  case lawful =>
    refine ⟨⟨_, inv.asked ct mem, rfl, rfl⟩, ⟨due, ?_, ?_⟩, inv.lawful⟩
    · rw [length]
      exact less
    · intro last last_
      rw [Option.mem_unique last_ sent, length, expires, ival, interval_less less]
  case fresh =>
    intro other new
    have differ : ct ≠ other := by
      rintro rfl
      have none_ := (inv.fresh ct new).1
      rw [inv.asked ct mem] at none_
      cases none_
    show waiting other s.events = none ∧ sends other (.sent ct _ _ _ s.now :: s.events) = []
    rw [sends_sent, if_neg differ]
    exact inv.fresh other new
  case transs =>
    intro other mem
    show Running cfg _ (sends other (.sent ct _ _ _ s.now :: s.events))
    rw [sends_sent]
    by_cases differ : ct = other
    · rw [if_pos differ, ← differ, self]
      have next : ((s.transs ct).txc + 1).toNat = n + 2 := by
        rw [BitVec.toNat_add, counted]
        exact Nat.mod_eq_of_lt (Nat.lt_of_le_of_lt less cfg.rc.isLt)
      constructor
      case counted => rw [List.length_cons, length]; exact next
      case first => rw [next]; exact Nat.le_add_left 1 (n + 1)
      case last => rw [next]; exact less
      case ival => rw [List.length_cons, length]; exact ival_next timed counted less ival
      case expires => exact ⟨s.now, rfl, rfl⟩
    · rw [if_neg differ, others (Ne.symm differ)]
      exact inv.transs other mem
  case saved => exact inv.saved

theorem Inv.begun (inv : Inv cfg s) (timed : Timed cfg) (r : Request) (dst : Sa) (mb : List Byte) :
    Inv cfg (s.begun cfg r dst mb) := by
  have new := inv.fresh s.count (Nat.le_refl _)
  have out : s.count ∉ s.ctl := by
    intro mem
    rw [inv.asked _ mem] at new
    cases new.1
  have others {other : Nat} (differ : s.count ≠ other) : (s.begun cfg r dst mb).transs other = s.transs other ∧
      waiting other (s.begun cfg r dst mb).events = waiting other s.events ∧
        sends other (s.begun cfg r dst mb).events = sends other s.events := by
    refine ⟨Function.update_of_ne differ.symm _ _, if_neg differ, if_neg differ⟩
  have self : (s.begun cfg r dst mb).transs s.count =
      { asked := ⟨dst, mb, r.resph, r.arg⟩, tid := r.tid, met := r.met, key := r.key, ctp := r.ctp, txc := 1
        ival := cfg.rto, tmr := s.now + cfg.rto.toNat } := Function.update_self _ _ _
  have waits : waiting s.count (s.begun cfg r dst mb).events = some ⟨dst, mb, r.resph, r.arg⟩ := if_pos rfl
  have times : sends s.count (s.begun cfg r dst mb).events = [s.now] := by
    show (if s.count = s.count then s.now :: sends s.count s.events else _) = _
    rw [if_pos rfl, new.2]
  have old {other : Nat} (mem : other ∈ s.ctl) : s.count ≠ other := by
    rintro rfl
    exact out mem
  have mem_iff {other : Nat} : other ∈ (s.begun cfg r dst mb).ctl ↔ other ∈ s.ctl ∨ other = s.count := by
    show other ∈ s.ctl ++ [s.count] ↔ _
    rw [List.mem_append, List.mem_singleton]
  constructor
  case once => exact List.nodup_append.mpr ⟨inv.once, List.pairwise_singleton _ _, fun other mem other' last =>
    (List.mem_singleton.mp last) ▸ (old mem).symm⟩
  case asked =>
    intro other mem
    rcases mem_iff.mp mem with mem | rfl
    · rw [(others (old mem)).1, (others (old mem)).2.1]
      exact inv.asked other mem
    · rw [waits, self]
  case running =>
    intro other set
    apply mem_iff.mpr
    by_cases differ : s.count = other
    · exact .inr differ.symm
    · rw [(others differ).2.1] at set
      exact .inl (inv.running other set)
  case owned =>
    intro place other kept
    have place_ : other ∈ s.owners place ∨ other = s.count ∧ r.ctp = some place := by
      unfold Stack.begun at kept
      dsimp only at kept
      cases given : r.ctp with
      | none =>
        rw [given] at kept
        exact .inl kept
      | some ctp =>
        rw [given] at kept
        by_cases same : place = ctp
        · rw [same] at kept ⊢
          dsimp only at kept
          rw [Function.update_self] at kept
          exact .inr ⟨(Option.some.inj kept).symm, rfl⟩
        · dsimp only at kept
          rw [Function.update_of_ne same] at kept
          exact .inl kept
    rcases place_ with kept | ⟨rfl, given⟩
    · rcases inv.owned place other kept with ⟨mem, own⟩
      rw [(others (old mem)).1]
      exact ⟨mem_iff.mpr (.inl mem), own⟩
    · rw [self]
      exact ⟨mem_iff.mpr (.inr rfl), given⟩
  case lawful =>
    refine ⟨⟨_, if_pos rfl, rfl, rfl⟩, ⟨Nat.le_refl _, ?_, ?_⟩, new.1, new.2, inv.lawful⟩
    · show (sends s.count s.events).length < _
      rw [new.2]
      exact timed.requests
    · show ∀ last ∈ (sends s.count s.events).head?, _
      rw [new.2]
      exact fun last none_ => by cases none_
  case fresh =>
    intro other later
    have differ : s.count ≠ other := Nat.ne_of_lt later
    rw [(others differ).2.1, (others differ).2.2]
    exact inv.fresh other (Nat.le_of_lt later)
  case transs =>
    intro other mem
    rcases mem_iff.mp mem with mem | rfl
    · rw [(others (old mem)).1, (others (old mem)).2.2]
      exact inv.transs other mem
    · rw [self, times]
      constructor
      case counted => rfl
      case first => exact Nat.le_refl 1
      case last => exact timed.requests
      case ival =>
        show cfg.rto.toNat = interval cfg 1
        rcases Nat.lt_or_eq_of_le timed.requests with more | single
        · rw [interval_less more, Nat.sub_self, Nat.pow_zero, Nat.mul_one]
        · rw [interval_last single, timed.single single.symm]
      case expires => exact ⟨s.now, rfl, rfl⟩
  case saved =>
    intro other kept
    exact mem_iff.mpr (.inl (inv.saved other kept))

theorem Inv.timeout (inv : Inv cfg s) (timed : Timed cfg) (mem : ct ∈ s.ctl) (due : (s.transs ct).tmr ≤ s.now)
    {err : Option Nat} (unsaved : cfg.rc ≤ (s.transs ct).txc ∨ err.isSome → some ct ∉ s.closing) :
    Inv cfg (s.timeoutHandler cfg ct err) := by
  have own := inv.transs ct mem
  unfold Stack.timeoutHandler
  dsimp only
  by_cases last : cfg.rc ≤ (s.transs ct).txc
  · rw [if_pos last]
    have count : (sends ct s.events).length = cfg.rc.toNat := by
      rw [← own.counted]
      exact Nat.le_antisymm own.last (BitVec.le_def.mp last)
    rcases own.expires with ⟨time, sent, expires⟩
    apply inv.completed mem
    · refine ⟨rfl, due, count, time, sent, ?_⟩
      rw [expires, own.ival, interval, if_neg (Nat.not_lt.mpr (Nat.le_of_eq count.symm))]
    · exact unsaved (.inl last)
  · rw [if_neg last]
    cases err with
    | none => exact inv.retransmitted timed mem due last
    | some err =>
      apply inv.completed mem
      · exact fun same => by cases same
      · exact unsaved (.inr rfl)

variable (hmacSha1) in
theorem respond_cases (msg : StunMsg) (ua : List (BitVec 16)) (herr : Option Err) (ec : BitVec 16 × List Byte)
    (error : herr ≠ some .ETIMEDOUT) :
    (s.respond hmacSha1 msg ua herr ec).2 = s ∨ ∃ ct result,
      (s.ctl.find? fun ct => matchHandler msg (s.transs ct)) = some ct ∧ chkMi hmacSha1 (s.transs ct) msg ec.1 = none ∧
        result.err ≠ some .ETIMEDOUT ∧ (s.respond hmacSha1 msg ua herr ec).2 = s.completed ct .response result := by
  unfold Stack.respond
  cases found : s.ctl.find? fun ct => matchHandler msg (s.transs ct) with
  | none => exact .inl rfl
  | some ct =>
    cases checked : chkMi hmacSha1 (s.transs ct) msg ec.1 with
    | some err => simp [checked]
    | none =>
      right
      refine ⟨ct, ⟨if herr.isNone ∧ ua.length > 0 then some .EPROTO else herr, ec.1, some ec.2, some msg⟩, rfl, checked,
        ?_, by simp [checked]⟩
      dsimp only
      split_ifs
      · exact fun same => by cases same
      · exact error

/-- A response that completes a transaction is one of its own. -/
structure Answered (hmacSha1 : List Byte → List Byte → List Byte) (s s' : Stack) (msg : StunMsg) (ct : Nat)
    (result : Result) : Prop where
  found : (s.ctl.find? fun ct => matchHandler msg (s.transs ct)) = some ct
  response : IsResponse msg
  checked : chkMi hmacSha1 (s.transs ct) msg (scode msg) = none
  error : result.err ≠ some .ETIMEDOUT
  completed : s' = s.completed ct .response result

variable {msg : StunMsg} {result : Result} {s' : Stack}

theorem Answered.taken (answered : Answered hmacSha1 s s' msg ct result) (ua : List (BitVec 16)) :
    ct ∈ Client.taken hmacSha1 cfg s (.recv msg ua) :=
  Option.mem_filter_iff.mpr ⟨answered.found, decide_eq_true ⟨answered.response, answered.checked⟩⟩

theorem Answered.mem (answered : Answered hmacSha1 s s' msg ct result) : ct ∈ s.ctl :=
  List.mem_of_find?_eq_some answered.found

theorem Answered.accepted (answered : Answered hmacSha1 s s' msg ct result) : ¬ Rejected hmacSha1 (s.transs ct) msg := by
  have matches_ := List.find?_some answered.found
  unfold matchHandler at matches_
  rintro (method | tid | integrity)
  · simp [method] at matches_
  · simp [tid] at matches_
  · rw [answered.checked] at integrity
    cases integrity

variable (hmacSha1 cfg s) in
theorem recv_cases (msg : StunMsg) (ua : List (BitVec 16)) : step hmacSha1 cfg s (.recv msg ua) = s ∨
    ∃ ct result, Answered hmacSha1 s (step hmacSha1 cfg s (.recv msg ua)) msg ct result := by
  have goes (herr : Option Err) (reason : List Byte) (error : herr ≠ some .ETIMEDOUT) (response : IsResponse msg)
      (same : step hmacSha1 cfg s (.recv msg ua) = (s.respond hmacSha1 msg ua herr (scode msg, reason)).2) :
      step hmacSha1 cfg s (.recv msg ua) = s ∨
        ∃ ct result, Answered hmacSha1 s (step hmacSha1 cfg s (.recv msg ua)) msg ct result := by
    rw [same]
    rcases respond_cases hmacSha1 msg ua herr (scode msg, reason) error with
      ignored | ⟨ct, result, found, checked, fine, completed⟩
    · exact .inl ignored
    · exact .inr ⟨ct, result, found, response, checked, fine, completed⟩
  by_cases failed : stunClass msg.hdr.type = STUN_CLASS_ERROR_RESP
  · cases code : msg.attr .ERR_CODE with
    | none =>
      apply goes (some .EPROTO) reasonOk (fun same => by cases same) (.inl failed)
      simp [step, Stack.ctransRecv, failed, code, scode]
    | some errcode =>
      apply goes none (errCode errcode).2 (fun same => by cases same) (.inl failed)
      simp [step, Stack.ctransRecv, failed, code, scode]
  · by_cases success : stunClass msg.hdr.type = STUN_CLASS_SUCCESS_RESP
    · apply goes none reasonOk (fun same => by cases same) (.inr success)
      rw [step, Stack.ctransRecv, if_neg failed, if_pos success, scode, if_neg failed]
    · left
      rw [step, Stack.ctransRecv, if_neg failed, if_neg success]

theorem ignores (inv : Inv cfg s) (a : Action) : Ignores hmacSha1 cfg s a := by
  cases a with
  | recv msg ua =>
    intro ct mem rejected
    rcases recv_cases hmacSha1 cfg s msg ua with ignored | ⟨other, result, answered⟩
    · rw [ignored]
      exact ⟨mem, rfl⟩
    · rw [answered.completed]
      refine ⟨inv.once.mem_erase_iff.mpr ⟨?_, mem⟩, rfl⟩
      rintro rfl
      exact answered.accepted rejected
  | clock | request | timeout | release | close | closeNext => trivial

theorem ctransRequest_cases (r : Request) : (s.ctransRequest cfg r).2 = s ∨
    ∃ dst mb, (s.ctransRequest cfg r).2 = s.begun cfg r dst mb := by
  unfold Stack.ctransRequest
  cases r.mb with
  | none => exact .inl rfl
  | some mb =>
    dsimp only
    by_cases zalloc : ¬ r.zalloc
    · rw [if_pos zalloc]
      exact .inl rfl
    rw [if_neg zalloc]
    by_cases key : r.key.isSome ∧ ¬ r.keyAlloc
    · rw [if_pos key]
      exact .inl rfl
    rw [if_neg key]
    cases r.dst with
    | none => exact .inl rfl
    | some dst =>
      cases r.listen with
      | some err => exact .inl rfl
      | none =>
        cases r.sent with
        | some err => exact .inl rfl
        | none => exact .inr ⟨dst, mb, rfl⟩

theorem Inv.step (inv : Inv cfg s) (timed : Timed cfg) {a : Action} (undisturbed : Undisturbed hmacSha1 cfg s a) :
    Inv cfg (step hmacSha1 cfg s a) := by
  cases a with
  | clock now => exact inv.clock _
  | request r =>
    show Inv cfg (s.ctransRequest cfg r).2
    rcases ctransRequest_cases r with failed | ⟨dst, mb, begun⟩
    · rw [failed]
      exact inv
    · rw [begun]
      exact inv.begun timed r dst mb
  | recv msg ua =>
    rcases recv_cases hmacSha1 cfg s msg ua with ignored | ⟨ct, result, answered⟩
    · rw [ignored]
      exact inv
    · rw [answered.completed]
      exact inv.completed answered.mem answered.error (undisturbed ct (answered.taken ua))
  | timeout ct late err =>
    dsimp only [Client.step]
    by_cases mem : ct ∈ s.ctl
    · rw [if_pos mem]
      have later := inv.clock (max s.now ((s.transs ct).tmr + late))
      apply later.timeout timed mem
      · exact Nat.le_trans (Nat.le_add_right _ _) (Nat.le_max_right _ _)
      · intro spent
        exact undisturbed ct (if_pos ⟨mem, spent⟩)
    · rw [if_neg mem]
      exact inv
  | release ctp => exact inv.release undisturbed
  | close => exact inv.close
  | closeNext => exact inv.closeNext undisturbed

/-- How many transmissions the counter of a transaction has room for. -/
def rank (ct : Nat) (s : Stack) : Nat := if ct ∈ s.ctl then 4294967296 - (s.transs ct).txc.toNat else 0

/-- A transaction whose timer expires again and again is transmitted at most `rc` times, and is then completed. -/
theorem timeouts_end (once : s.ctl.Nodup) (ct : Nat) :
    ∃ n, ct ∉ ((List.replicate n (Action.timeout ct 0 none)).foldl (step hmacSha1 cfg) s).ctl := by
  have lowers (s : Stack) (once : s.ctl.Nodup) (running : ¬ ct ∉ s.ctl) :
      (Client.step hmacSha1 cfg s (.timeout ct 0 none)).ctl.Nodup ∧
        rank ct (Client.step hmacSha1 cfg s (.timeout ct 0 none)) < rank ct s := by
    have mem : ct ∈ s.ctl := not_not.mp running
    have before : rank ct s = 4294967296 - (s.transs ct).txc.toNat := if_pos mem
    rw [Client.step, if_pos mem, before]
    unfold Stack.timeoutHandler
    dsimp only
    by_cases last : cfg.rc ≤ (s.transs ct).txc
    · rw [if_pos last]
      refine ⟨once.erase ct, ?_⟩
      have after : ct ∉ s.ctl.erase ct := fun mem => (once.mem_erase_iff.mp mem).1 rfl
      apply Nat.lt_of_le_of_lt (Nat.le_of_eq (if_neg after))
      exact Nat.sub_pos_of_lt (s.transs ct).txc.isLt
    · rw [if_neg last]
      refine ⟨once, ?_⟩
      rw [BitVec.le_def] at last
      have bound := cfg.rc.isLt
      have next : ((s.transs ct).txc + 1).toNat = (s.transs ct).txc.toNat + 1 := by
        rw [BitVec.toNat_add]
        exact Nat.mod_eq_of_lt (show (s.transs ct).txc.toNat + 1 < 4294967296 by omega)
      apply Nat.lt_of_le_of_lt (Nat.le_of_eq (if_pos mem))
      show 4294967296 - (Function.update s.transs ct _ ct).txc.toNat < _
      rw [Function.update_self, next]
      omega
  exact reaches_of_rank (rank ct) (Action.timeout ct 0 none) lowers s once

theorem Inv.kept (inv : Inv cfg s) : Kept hmacSha1 cfg s where
  once := inv.once
  running ct := ⟨fun mem => Option.isSome_of_mem (inv.asked ct mem), inv.running ct⟩
  owned ctp ct kept := (inv.owned ctp ct kept).1
  lawful := inv.lawful
  ends := timeouts_end inv.once

theorem init_inv : Inv cfg init where
  once := List.nodup_nil
  asked := by simp [init]
  running := by simp [init, waiting]
  owned := by simp [init]
  lawful := trivial
  fresh ct _ := ⟨rfl, rfl⟩
  transs := by simp [init]
  saved := by simp [init]

theorem transactions_answered (timed : Timed cfg) (actions : List Action)
    (undisturbed : Along (Client.step hmacSha1 cfg) (Undisturbed hmacSha1 cfg) init actions) :
    Throughout (Client.step hmacSha1 cfg) (Kept hmacSha1 cfg) init actions ∧
      Along (Client.step hmacSha1 cfg) (Ignores hmacSha1 cfg) init actions := by
  have keeps (s : Stack) (a : Action) (inv : Inv cfg s) (guard : Undisturbed hmacSha1 cfg s a) :=
    inv.step timed guard
  constructor
  · exact (throughout_of_guarded keeps init_inv undisturbed).mono fun s inv => inv.kept
  · exact along_of_guarded (fun s a inv guard => ⟨keeps s a inv guard, ignores inv a⟩) init_inv undisturbed

end

/-- A binding request whose owner keeps the transaction at an address. -/
def binding (ctp : Nat) : Request where
  ctp := some ctp
  dst := some (.inet 0xc0000201 3478)
  mb := some [0, 1]
  tid := .ofNat 96 ctp
  met := 1
  key := none
  resph := some 1
  arg := ctp
  zalloc := true
  keyAlloc := true
  listen := none
  sent := none

theorem transactions_answered_default :
    Throughout (step (fun _ _ => []) ⟨500, 7, 16⟩) (Kept (fun _ _ => []) ⟨500, 7, 16⟩) init
      [.request (binding 0), .timeout 0 0 none, .close, .closeNext] ∧
    Along (step (fun _ _ => []) ⟨500, 7, 16⟩) (Ignores (fun _ _ => []) ⟨500, 7, 16⟩) init
      [.request (binding 0), .timeout 0 0 none, .close, .closeNext] := by
  apply transactions_answered
  · refine ⟨by decide, ?_, by decide, by decide⟩
    intro n less
    have few : n ≤ 5 := Nat.le_of_lt_succ (Nat.lt_of_succ_lt_succ less)
    have small : 500 * 2 ^ n ≤ 500 * 2 ^ 5 := Nat.mul_le_mul_left 500 (Nat.pow_le_pow_right (by decide) few)
    exact Nat.lt_of_le_of_lt small (by decide)
  · refine ⟨?_, ?_, ?_, ?_, trivial⟩ <;> intro ct taken saved
    · cases taken
    · cases saved
    · cases taken
    · cases saved

/-- A single request is not waited for as long as a last one, a request is transmitted where none is to be, and a close
    goes on with a transaction that the handler of the one before it has released. -/
theorem transactions_fail :
    ¬ Throughout (step (fun _ _ => []) ⟨500, 1, 16⟩) (Kept (fun _ _ => []) ⟨500, 1, 16⟩) init
      [.request (binding 0), .timeout 0 0 none] ∧
    ¬ Throughout (step (fun _ _ => []) ⟨500, 0, 16⟩) (Kept (fun _ _ => []) ⟨500, 0, 16⟩) init [.request (binding 0)] ∧
    ¬ Throughout (step (fun _ _ => []) ⟨500, 7, 16⟩) (Kept (fun _ _ => []) ⟨500, 7, 16⟩) init
      [.request (binding 0), .request (binding 1), .close, .closeNext, .release 1, .closeNext] := by
  refine ⟨?_, ?_, ?_⟩ <;> intro run <;> have lawful := run.last.lawful
  · rcases lawful.2.1 with ⟨_, _, _, last, sent, due⟩
    cases sent
    exact absurd due (by decide)
  · exact absurd lawful.2.1.2.1 (by decide)
  · exact lawful

end Baresip.Stun.Client
