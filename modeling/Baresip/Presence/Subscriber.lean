import Baresip.Sipevent.Subscribe

set_option linter.dupNamespace false

namespace Baresip.Subscriber

open Library Re Reg

/-- `other` is no reason, or none that is known. -/
inductive Reason
  | deactivated | probation | rejected | timeout | giveup | noresource | other
  deriving DecidableEq, Repr

structure Substate where
  reason : Reason
  retryAfter : Option Seconds
  deriving DecidableEq, Repr

/-- How a subscription is closed: by the peer, by a response or by an error. -/
inductive Closure
  | substate (substate : Substate)
  | msg (scode : Nat)
  | err (err : Errno)
  deriving DecidableEq, Repr

/-- `tmr` is the delay of the timer that runs for the next SUBSCRIBE, `waits` the delays it was started with. -/
structure Presence where
  sub : Bool
  tmr : Option Nat
  failc : Seconds
  waits : List Wait
  deriving DecidableEq, Repr

def maximum (a b : Seconds) : Seconds := if b < a then a else b

def waitTerm (substate : Substate) : Seconds :=
  match substate.reason with
  | .deactivated => 5
  | .timeout => 5
  | .rejected => 3600
  | .noresource => 3600
  | _ =>
    match substate.retryAfter with
    | none => 300
    | some after => maximum 300 after

def waitFail (failc : Seconds) : Seconds :=
  if failc = 1 then 30 else if failc = 2 then 300 else if failc = 3 then 3600 else 86400

namespace Presence

def tmrStart (s : Presence) (wait : Seconds) : Presence :=
  { s with tmr := some (scaled wait 1000).delay, waits := s.waits ++ [scaled wait 1000] }

def notifyHandler (s : Presence) : Presence := { s with failc := 0 }

def closeHandler (s : Presence) (closure : Closure) : Presence :=
  let s := { s with sub := false }
  match closure with
  | .substate substate => s.tmrStart (waitTerm substate)
  | _ => { s with failc := s.failc + 1 }.tmrStart (waitFail (s.failc + 1))

/-- `res` is what `subscribe` returns. -/
def tmrHandler (s : Presence) (res : Option Errno) : Presence :=
  match res with
  | none => { s with sub := true }
  | some _ => { s with failc := s.failc + 1 }.tmrStart (waitFail (s.failc + 1))

end Presence

def presenceAlloc : Presence := ⟨false, some 1000, 0, []⟩

inductive Event
  | notify
  | close (closure : Closure)
  | timer (res : Option Errno)
  deriving DecidableEq, Repr

def step (s : Presence) : Event → Presence
  | .notify => if s.sub then s.notifyHandler else s
  | .close closure => if s.sub then s.closeHandler closure else s
  | .timer res => if s.tmr.isSome then { s with tmr := none }.tmrHandler res else s

/-- The seconds after which a resource is to be asked again because the peer says so. -/
def retryAfter (s : Presence) : Event → Option Seconds
  | .close (.substate substate) =>
    if s.sub = true ∧ (substate.reason = .probation ∨ substate.reason = .giveup ∨ substate.reason = .other) then
      substate.retryAfter
    else none
  | _ => none

def started (s : Presence) (ev : Event) : List Wait := (step { s with waits := [] } ev).waits

theorem waitFail_onTime (failc : Seconds) : (scaled (waitFail failc) 1000).onTime := by
  apply (scaled_onTime (by decide)).mpr
  unfold waitFail
  split_ifs <;> decide

theorem maximum_toNat (a b : Seconds) : (maximum a b).toNat = max a.toNat b.toNat := by
  unfold maximum
  split_ifs with less
  · rw [BitVec.lt_def] at less
    omega
  · rw [BitVec.lt_def] at less
    omega

theorem waitTerm_fits {substate : Substate} :
    (waitTerm substate).toNat * 1000 < 2 ^ 32 ↔
      (substate.reason = .probation ∨ substate.reason = .giveup ∨ substate.reason = .other →
        ∀ after ∈ substate.retryAfter, after.toNat * 1000 < 2 ^ 32) := by
  obtain ⟨reason, after⟩ := substate
  have longer (after : Seconds) : (maximum 300 after).toNat * 1000 < 2 ^ 32 ↔ after.toNat * 1000 < 2 ^ 32 := by
    rw [maximum_toNat]
    show max 300 after.toNat * 1000 < 2 ^ 32 ↔ _
    omega
  cases after with
  | none => cases reason <;> simp [waitTerm]
  | some after =>
    cases reason with
    | probation | giveup | other => simpa [waitTerm] using longer after
    | deactivated | rejected | timeout | noresource => simp [waitTerm]

theorem started_iff (s : Presence) (ev : Event) :
    (∀ w ∈ started s ev, w.onTime) ↔ ∀ after ∈ retryAfter s ev, after.toNat * 1000 < 2 ^ 32 := by
  cases ev with
  | notify =>
    unfold started step
    cases s.sub <;> simp [Presence.notifyHandler, retryAfter]
  | timer res =>
    unfold started step
    cases s.tmr <;> cases res <;> simp [Presence.tmrHandler, Presence.tmrStart, retryAfter, waitFail_onTime]
  | close closure =>
    unfold started step
    cases subscribed : s.sub with
    | false => cases closure <;> simp [retryAfter, subscribed]
    | true =>
      cases closure with
      | substate substate =>
        have fits := (scaled_onTime (by decide : 1000 < 2 ^ 32)).trans (@waitTerm_fits substate)
        by_cases used : substate.reason = .probation ∨ substate.reason = .giveup ∨ substate.reason = .other
        · simp [Presence.closeHandler, Presence.tmrStart, retryAfter, subscribed, fits, used]
        · simp [Presence.closeHandler, Presence.tmrStart, retryAfter, subscribed, fits, used]
      | msg scode => simp [Presence.closeHandler, Presence.tmrStart, retryAfter, waitFail_onTime]
      | err err => simp [Presence.closeHandler, Presence.tmrStart, retryAfter, waitFail_onTime]

/-- In the runs of the registration client, of the subscription client and of the presence subscriber no timer is
    early exactly where every number of seconds that the peer sets fits its conversion. -/
theorem renewed_in_time_iff (reg : Sipreg) (regEvents : List Reg.Event) (sub : Sipevent.Sipsub)
    (subEvents : List Sipevent.Event) (s : Presence) (events : List Event) :
    (Along Reg.step (fun s ev => ∀ w ∈ Reg.started s ev, w.onTime) reg regEvents ↔
        Along Reg.step (fun s ev => ∀ g ∈ Reg.granted s ev, g.toNat * 900 < 2 ^ 32) reg regEvents) ∧
      (Along Sipevent.step (fun s ev => ∀ w ∈ Sipevent.started s ev, w.onTime) sub subEvents ↔
        Along Sipevent.step (fun s ev => ∀ g ∈ Sipevent.granted s ev, g.toNat * 900 < 2 ^ 32) sub subEvents) ∧
      (Along step (fun s ev => ∀ w ∈ started s ev, w.onTime) s events ↔
        Along step (fun s ev => ∀ after ∈ retryAfter s ev, after.toNat * 1000 < 2 ^ 32) s events) :=
  ⟨registration_iff reg regEvents, Sipevent.subscription_iff sub subEvents, along_congr started_iff⟩

/-- A registration for an hour. -/
def hour : Sipreg := ⟨.reset, none, false, true, true, 3600, 0, 0, false, false, false, 1, true, []⟩

/-- A server that grants 4772186 seconds is asked again after 104 milliseconds, and a resource that asks for
    4294968 seconds of peace after 704. -/
theorem early_again :
    Reg.started hour (.response (.msg ⟨200, [⟨true, some 4772186⟩], none, none, false, false, .eauth⟩) 0 none) =
        [⟨4294967400, 104⟩] ∧
      started ([.timer none].foldl step presenceAlloc) (.close (.substate ⟨.giveup, some 4294968⟩)) =
        [⟨4294968000, 704⟩] := by
  decide

end Baresip.Subscriber
