import Baresip.Turn.Client

set_option linter.dupNamespace false

namespace Baresip.Turn

open Re Library

/-- The requests of the present attempt. -/
def requests : List Event → Nat
  | [] => 0
  | .began :: _ => 0
  | .requested _ _ :: events => requests events + 1
  | _ :: events => requests events

/-- The responses that the present attempt has had. -/
def answers : List Event → Nat
  | [] => 0
  | .began :: _ => 0
  | .answered _ _ :: events => answers events + 1
  | _ :: events => answers events

/-- How often the handler was called for the allocation. -/
def allocationHandled : List Event → Nat
  | [] => 0
  | .handled .allocate _ _ _ _ :: events => allocationHandled events + 1
  | _ :: events => allocationHandled events

/-- The lifetime that was granted since the last request, and when. -/
def lastGrant : List Event → Option (BitVec 32 × Nat)
  | [] => none
  | .granted lifetime time :: _ => some (lifetime, time)
  | .requested _ _ :: _ => none
  | _ :: events => lastGrant events

/-- Not before half of a lifetime, and not after its end. -/
def Within (grant : BitVec 32 × Nat) (time : Nat) : Prop :=
  grant.2 + 500 * grant.1.toNat ≤ time ∧ time ≤ grant.2 + 1000 * grant.1.toNat

def Timely : List Event → Prop
  | [] => True
  | .requested _ time :: events => (∀ grant ∈ lastGrant events, Within grant time) ∧ Timely events
  | _ :: events => Timely events

/-- One attempt sends a bounded number of requests, all but the last one of them answered while it runs, and the
    handler has been called for the allocation exactly when it is over. -/
structure Counted (c : Client) : Prop where
  bounded : requests c.events ≤ FAILC_MAX
  pending : c.turnc.ct.isSome → requests c.events = answers c.events + 1
  once : allocationHandled c.events = if c.turnc.ct = some .allocate then 0 else 1

/-- The refreshes were sent in time, and the one that the timer is set for will be. -/
structure InTime (c : Client) : Prop where
  sent : Timely c.events
  armed : ∀ due ∈ c.turnc.tmr, ∀ grant ∈ lastGrant c.events, Within grant due

/-- The lifetime in force after a response that starts the refresh timer. -/
def grants (c : Client) : Action → Option (BitVec 32)
  | .expiry _ => none
  | .response _ err scode msg _ =>
    if err.isSome ∨ scode ≠ 0 then none
    else
      match c.turnc.ct with
      | none => none
      | some .allocate =>
        if msg.xorRelayAddr.isNone ∨ msg.xorMappedAddr.isNone then none
        else some (msg.lifetime.getD c.turnc.lifetime)
      | some .refresh => some (msg.lifetime.getD c.turnc.lifetime)

/-- Three thousand times the lifetime fits in 32 bits. -/
def Fits (lifetime : BitVec 32) : Prop := 3000 * lifetime.toNat < 4294967296

theorem refreshDelay_toNat (lifetime : BitVec 32) :
    (refreshDelay lifetime).toNat = 3000 * lifetime.toNat % 4294967296 / 4 := by
  have quarter : refreshDelay lifetime = lifetime * 1000 * 3 / 4 := rfl
  rw [quarter, BitVec.toNat_udiv, BitVec.toNat_mul, BitVec.toNat_mul]
  show lifetime.toNat * 1000 % 4294967296 * 3 % 4294967296 / 4 = _
  omega

/-- A product that has wrapped around is always less than what half of the lifetime takes. -/
theorem within_iff (lifetime : BitVec 32) (time : Nat) :
    Within (lifetime, time) (time + (refreshDelay lifetime).toNat) ↔ Fits lifetime := by
  have small := lifetime.isLt
  unfold Within Fits
  rw [refreshDelay_toNat]
  dsimp only
  rcases Nat.eq_zero_or_pos (3000 * lifetime.toNat / 4294967296) with fits | wraps
  · omega
  · have later : ¬ 500 * lifetime.toNat ≤ 3000 * lifetime.toNat % 4294967296 / 4 := by omega
    omega

/-- What a response makes of an attempt: it is over, or goes on with another request, or that one cannot be sent,
    or the lifetime `granted` starts the refresh timer. -/
inductive Goes (c : Client) : Method → Option (BitVec 32) → Client → Prop
  | ended {attempt} {t : Turnc} {err scode relay mapped} : t.ct = none → t.tmr = c.turnc.tmr →
      Goes c attempt none ⟨t, c.now, .handled attempt err scode relay mapped :: c.events⟩
  | again {attempt} {t : Turnc} {request} : t.ct = some attempt → t.tmr = c.turnc.tmr →
      t.ls.failc = c.turnc.ls.failc + 1 → c.turnc.ls.failc + 1 < FAILC_MAX →
      Goes c attempt none ⟨t, c.now, .requested request c.now :: c.events⟩
  | failed {attempt} {t : Turnc} {request err scode} : t.ct = none → t.tmr = c.turnc.tmr →
      c.turnc.ls.failc + 1 < FAILC_MAX →
      Goes c attempt none ⟨t, c.now, .handled attempt err scode none none :: .requested request c.now :: c.events⟩
  | allocated {t : Turnc} {lifetime err scode relay mapped} : t.ct = none →
      t.tmr = some (c.now + (refreshDelay lifetime).toNat) →
      Goes c .allocate (some lifetime)
        ⟨t, c.now, .handled .allocate err scode relay mapped :: .granted lifetime c.now :: c.events⟩
  | refreshed {t : Turnc} {lifetime} : t.ct = none →
      t.tmr = some (c.now + (refreshDelay lifetime).toNat) →
      Goes c .refresh (some lifetime) ⟨t, c.now, .granted lifetime c.now :: c.events⟩

section
variable {md5 : List Byte → List Byte} {c : Client} {attempt : Method} {err : Option Errno} {scode : Nat} {msg : Reply}
  {sent : Option Errno}

theorem handler_goes (idle : c.turnc.ct = none) (err : Option Errno) (scode : Nat) (relay mapped : Option Sa) :
    Goes c attempt none (c.handler attempt err scode relay mapped) := .ended idle rfl

/-- The request sent again by a client whose counter has gone one up. -/
theorem orHandler_goes {d : Client} {request : Request} (kind : request.method = attempt)
    (tmr : d.turnc.tmr = c.turnc.tmr) (now : d.now = c.now) (events : d.events = c.events)
    (counted : d.turnc.ls.failc = c.turnc.ls.failc + 1) (few : c.turnc.ls.failc + 1 < FAILC_MAX) :
    Goes c attempt none ((d.request sent request).orHandler attempt scode sent) := by
  cases sent with
  | none =>
    have same : (d.request none request).orHandler attempt scode none =
        ⟨{ d.turnc with ct := some request.method }, c.now, .requested request c.now :: c.events⟩ := by
      rw [← now, ← events]
      rfl
    rw [same]
    exact .again (by rw [kind]) tmr counted few
  | some e =>
    have same : (d.request (some e) request).orHandler attempt scode (some e) =
        ⟨{ d.turnc with ct := none }, c.now,
          .handled attempt (some e) scode none none :: .requested request c.now :: c.events⟩ := by
      rw [← now, ← events]
      rfl
    rw [same]
    exact .failed rfl tmr few

theorem keygen_some {d : Client} (keyed : c.keygen md5 msg = some d) : ∃ realm nonce hash,
    d = { c with turnc.realm := realm, turnc.nonce := nonce, turnc.md5Hash := hash } := by
  unfold Client.keygen at keyed
  split at keyed
  · injection keyed with same
    exact ⟨_, _, _, same.symm⟩
  · contradiction

theorem allocateRespHandler_goes (idle : c.turnc.ct = none) :
    Goes c .allocate
      (if err.isSome ∨ scode ≠ 0 then none
       else if msg.xorRelayAddr.isNone ∨ msg.xorMappedAddr.isNone then none
       else some (msg.lifetime.getD c.turnc.lifetime))
      (c.allocateRespHandler md5 err scode msg sent) := by
  unfold Client.allocateRespHandler
  by_cases failed : err.isSome = true
  · rw [if_pos failed, if_pos (Or.inl failed)]
    exact handler_goes idle err scode none none
  by_cases success : scode = 0
  · have fine : ¬ (err.isSome = true ∨ scode ≠ 0) := by simp [failed, success]
    rw [if_neg failed, if_neg fine, success, requestLoops_success]
    dsimp only
    rw [if_neg Bool.false_ne_true, if_pos rfl]
    split_ifs with missing
    · exact .ended idle rfl
    · exact .allocated idle rfl
  · rw [if_neg failed, if_pos (Or.inr success)]
    dsimp only
    by_cases loops : (requestLoops c.turnc.ls scode).1 = true
    · rw [if_pos loops]
      exact .ended idle rfl
    have counted := requestLoops_counts success (Bool.not_eq_true _ ▸ loops)
    rw [if_neg loops, if_neg success]
    by_cases redirect : scode = 300
    · rw [if_pos redirect]
      split_ifs with tcp
      · exact .ended idle rfl
      split
      · exact .ended idle rfl
      · exact orHandler_goes rfl rfl rfl rfl counted.1 counted.2
    · rw [if_neg redirect]
      split_ifs with auth
      · split
        · exact .ended idle rfl
        · rename_i d keyed
          rcases keygen_some keyed with ⟨realm, nonce, hash, rfl⟩
          exact orHandler_goes rfl rfl rfl rfl counted.1 counted.2
      · exact .ended idle rfl

theorem refreshRespHandler_goes (idle : c.turnc.ct = none) :
    Goes c .refresh (if err.isSome ∨ scode ≠ 0 then none else some (msg.lifetime.getD c.turnc.lifetime))
      (c.refreshRespHandler md5 err scode msg sent) := by
  unfold Client.refreshRespHandler
  by_cases failed : err.isSome = true
  · rw [if_pos failed, if_pos (Or.inl failed)]
    exact handler_goes idle err scode none none
  by_cases success : scode = 0
  · have fine : ¬ (err.isSome = true ∨ scode ≠ 0) := by simp [failed, success]
    rw [if_neg failed, if_neg fine, success, requestLoops_success]
    exact .refreshed idle rfl
  · rw [if_neg failed, if_pos (Or.inr success)]
    dsimp only
    by_cases loops : (requestLoops c.turnc.ls scode).1 = true
    · rw [if_pos loops]
      exact .ended idle rfl
    have counted := requestLoops_counts success (Bool.not_eq_true _ ▸ loops)
    rw [if_neg loops, if_neg success]
    split_ifs with auth
    · split
      · exact .ended idle rfl
      · rename_i d keyed
        rcases keygen_some keyed with ⟨realm, nonce, hash, rfl⟩
        exact orHandler_goes rfl rfl rfl rfl counted.1 counted.2
    · exact .ended idle rfl

/-- While an attempt runs, the timer is not set, nothing has been granted since its last request, and it has counted
    the requests that were answered. -/
structure Running (c : Client) : Prop where
  counted : Counted c
  unset : c.turnc.ct.isSome → c.turnc.tmr = none
  ungranted : c.turnc.ct.isSome → lastGrant c.events = none
  failc : c.turnc.ct.isSome → requests c.events = c.turnc.ls.failc + 1

theorem idle_running {d : Client} (idle : d.turnc.ct = none) (bounded : requests d.events ≤ FAILC_MAX)
    (once : allocationHandled d.events = 1) : Running d where
  counted := ⟨bounded, by simp [idle], by simp [idle, once]⟩
  unset := by simp [idle]
  ungranted := by simp [idle]
  failc := by simp [idle]

theorem handled_once (attempt : Method) {n : Nat}
    (once : n = if some attempt = some Method.allocate then 0 else 1) (err : Option Errno) (scode : Nat)
    (relay mapped : Option Sa) {events : List Event} (rest : allocationHandled events = n) :
    allocationHandled (.handled attempt err scode relay mapped :: events) = 1 := by
  cases attempt with
  | allocate => simp [allocationHandled, rest, once]
  | refresh => simp [allocationHandled, rest, once]

theorem Running.goes {elapsed : Nat} {g : Option (BitVec 32)} {next : Client} (run : Running c)
    (pending : c.turnc.ct = some attempt) (goes : Goes (taken c elapsed err scode) attempt g next) : Running next := by
  have isPending : c.turnc.ct.isSome = true := by simp [pending]
  have one := run.failc isPending
  have answered := run.counted.pending isPending
  have bounded := run.counted.bounded
  have once := run.counted.once
  rw [pending] at once
  cases goes with
  | ended idle same => exact idle_running idle bounded (handled_once attempt once _ _ _ _ rfl)
  | again pending' same failc few =>
    have more : requests c.events + 1 ≤ FAILC_MAX := by
      rw [one]
      exact few
    exact {
      counted := ⟨more, fun _ => congrArg (· + 1) answered, by rw [pending']; exact once⟩
      unset := fun _ => same.trans (run.unset isPending)
      ungranted := fun _ => rfl
      failc := fun _ => by rw [failc]; exact congrArg (· + 1) one }
  | failed idle same few =>
    have more : requests c.events + 1 ≤ FAILC_MAX := by
      rw [one]
      exact few
    exact idle_running idle more (handled_once attempt once _ _ _ _ rfl)
  | allocated idle set => exact idle_running idle bounded (handled_once .allocate once _ _ _ _ rfl)
  | refreshed idle set => exact idle_running idle bounded once

theorem InTime.goes {elapsed : Nat} {g : Option (BitVec 32)} {next : Client} (run : Running c) (timely : InTime c)
    (pending : c.turnc.ct = some attempt) (goes : Goes (taken c elapsed err scode) attempt g next) :
    InTime next ↔ ∀ lifetime ∈ g, Fits lifetime := by
  have isPending : c.turnc.ct.isSome = true := by simp [pending]
  have unset := run.unset isPending
  have ungranted : lastGrant (taken c elapsed err scode).events = none := run.ungranted isPending
  cases goes with
  | ended idle same =>
    have off := same.trans unset
    exact iff_of_true ⟨timely.sent, by simp [off]⟩ (by simp)
  | again pending' same failc few =>
    have off := same.trans unset
    exact iff_of_true ⟨⟨by simp [ungranted], timely.sent⟩, by simp [off]⟩ (by simp)
  | failed idle same few =>
    have off := same.trans unset
    exact iff_of_true ⟨⟨by simp [ungranted], timely.sent⟩, by simp [off]⟩ (by simp)
  | @allocated t lifetime err' scode' relay mapped idle set =>
    have fits := within_iff lifetime (taken c elapsed err scode).now
    constructor
    · intro inTime
      have within := inTime.armed _ set _ rfl
      simpa using fits.mp within
    · intro all
      exact ⟨timely.sent, by simpa [set, lastGrant] using fits.mpr (by simpa using all)⟩
  | @refreshed t lifetime idle set =>
    have fits := within_iff lifetime (taken c elapsed err scode).now
    constructor
    · intro inTime
      have within := inTime.armed _ set _ rfl
      simpa using fits.mp within
    · intro all
      exact ⟨timely.sent, by simpa [set, lastGrant] using fits.mpr (by simpa using all)⟩

theorem response_goes {md5 : List Byte → List Byte} {elapsed : Nat} (pending : c.turnc.ct = some attempt) :
    Goes (taken c elapsed err scode) attempt (grants c (.response elapsed err scode msg sent))
      (step md5 c (.response elapsed err scode msg sent)) := by
  cases attempt with
  | allocate =>
    simp only [step, grants, pending]
    exact allocateRespHandler_goes rfl
  | refresh =>
    simp only [step, grants, pending]
    exact refreshRespHandler_goes rfl

/-- The first request of a refresh, sent in time if the timer was set in time. -/
theorem expiry_goes {due : Nat} (run : Running c) (set : c.turnc.tmr = some due) (sent : Option Errno) :
    Running ((expired c due).timeout sent) ∧ (InTime c → InTime ((expired c due).timeout sent)) := by
  have idle : c.turnc.ct = none := by
    by_contra pending
    have unset := run.unset (Option.isSome_iff_ne_none.mpr pending)
    simp [set] at unset
  have once : allocationHandled c.events = 1 := by
    have handled := run.counted.once
    rwa [idle, if_neg (by simp)] at handled
  have inTime (timely : InTime c) : ∀ grant ∈ lastGrant c.events, Within grant due := timely.armed due set
  cases sent with
  | none =>
    constructor
    · exact {
        counted := ⟨by show 1 ≤ 16; omega, fun _ => rfl, once⟩
        unset := fun _ => rfl
        ungranted := fun _ => rfl
        failc := fun _ => rfl }
    · intro timely
      exact ⟨⟨inTime timely, timely.sent⟩, fun _ set' => by contradiction⟩
  | some e =>
    constructor
    · exact idle_running rfl (by show 1 ≤ 16; omega) once
    · intro timely
      exact ⟨⟨inTime timely, timely.sent⟩, fun _ set' => by contradiction⟩

theorem step_running (md5 : List Byte → List Byte) (c : Client) (a : Action) (run : Running c) :
    Running (step md5 c a) := by
  cases a with
  | response elapsed err scode msg sent =>
    cases pending : c.turnc.ct with
    | none => simpa only [step, pending] using run
    | some attempt => exact run.goes pending (response_goes pending)
  | expiry sent =>
    cases set : c.turnc.tmr with
    | none => simpa only [step, set] using run
    | some due => simpa only [step, set] using (expiry_goes run set sent).1

theorem step_inTime (md5 : List Byte → List Byte) (c : Client) (a : Action) (run : Running c) (timely : InTime c) :
    InTime (step md5 c a) ↔ ∀ lifetime ∈ grants c a, Fits lifetime := by
  cases a with
  | response elapsed err scode msg sent =>
    cases pending : c.turnc.ct with
    | none =>
      have none_granted : grants c (.response elapsed err scode msg sent) = none := by simp [grants, pending]
      have same : step md5 c (.response elapsed err scode msg sent) = c := by simp only [step, pending]
      rw [none_granted, same]
      exact iff_of_true timely (by simp)
    | some attempt => exact InTime.goes run timely pending (response_goes pending)
  | expiry sent =>
    cases set : c.turnc.tmr with
    | none =>
      have same : step md5 c (.expiry sent) = c := by simp only [step, set]
      rw [same]
      exact iff_of_true timely (by simp [grants])
    | some due =>
      have same : step md5 c (.expiry sent) = (expired c due).timeout sent := by simp only [step, set]
      rw [same]
      exact iff_of_true ((expiry_goes run set sent).2 timely) (by simp [grants])

end

theorem alloc_running (proto : Proto) (srv : Sa) (username password : List Byte) (lifetime : BitVec 32) :
    Running (alloc proto srv username password lifetime) where
  counted := ⟨by show 1 ≤ 16; omega, fun _ => rfl, rfl⟩
  unset := fun _ => rfl
  ungranted := fun _ => rfl
  failc := fun _ => rfl

/-- Whatever the server answers, and whether or not a lifetime is refreshed in time. -/
theorem attempts_counted (md5 : List Byte → List Byte) (proto : Proto) (srv : Sa) (username password : List Byte)
    (lifetime : BitVec 32) (actions : List Action) :
    Throughout (step md5) Counted (alloc proto srv username password lifetime) actions :=
  (throughout_of_invariant (step_running md5) (alloc_running proto srv username password lifetime)).mono
    fun _ run => run.counted

/-- The refreshes are sent in time as long as the server grants no lifetime whose delay wraps around. -/
theorem refreshes_in_time_iff (md5 : List Byte → List Byte) (proto : Proto) (srv : Sa) (username password : List Byte)
    (lifetime : BitVec 32) (actions : List Action) :
    Throughout (step md5) (fun c => Counted c ∧ InTime c) (alloc proto srv username password lifetime) actions ↔
      Along (step md5) (fun c a => ∀ granted ∈ grants c a, Fits granted) (alloc proto srv username password lifetime)
        actions := by
  apply throughout_iff_along_of_invariant (step_running md5)
  · rintro c a run ⟨_, timely⟩
    have counted := (step_running md5 c a run).counted
    rw [and_iff_right counted]
    exact step_inTime md5 c a run timely
  · exact alloc_running proto srv username password lifetime
  · exact ⟨(alloc_running proto srv username password lifetime).counted, ⟨fun _ none_ => by contradiction, trivial⟩,
      fun _ set => by contradiction⟩

def relayed : Reply where
  xorMappedAddr := some (.inet 0x0a000001 40000)
  xorRelayAddr := some (.inet 0x0a000002 50000)
  lifetime := some 1431656
  altServer := none
  realm := none
  nonce := none

/-- A lifetime of sixteen days is refreshed after 176 ms. -/
theorem refreshed_at_once : ¬ Throughout (step id) (fun c => Counted c ∧ InTime c)
    (alloc .udp (.inet 0x0a000003 3478) [117#8] [112#8] 600) [.response 20 none 0 relayed none, .expiry none] := by
  intro all
  have within := (all.2.2.2.sent).1 (1431656, 20) rfl
  exact absurd within.1 (by decide)

end Baresip.Turn
