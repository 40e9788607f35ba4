import Baresip.Reg.Waits

set_option linter.dupNamespace false

namespace Baresip.Sipevent

open Library Re Sip Reg

def resubFailWait : Nat := 60000

def resubFailcMax : Seconds := 7

def notifyTimeout : Nat := 10000

/-- The handler of the timer. -/
inductive Tmr
  | tmrHandler | notifyTimeoutHandler
  deriving DecidableEq, Repr

/-- A subscription. `forkh` is that it has a fork handler, `established` that its dialog is, `owned` that the owner
    has not released it; `waits` are the times for which the next SUBSCRIBE was put off. -/
structure Sipsub where
  ls : Loopstate
  tmr : Option (Tmr × Nat)
  req : Bool
  established : Bool
  forkh : Bool
  expires : Seconds
  failc : Seconds
  subscribed : Bool
  terminated : Bool
  termconf : Bool
  termwait : Bool
  refer : Bool
  nrefs : Nat
  owned : Bool
  waits : List Wait
  deriving DecidableEq, Repr

/-- What the dialog makes of a 2xx response: it is made from it or it is the one of the response, or neither. -/
inductive Place
  | own | other
  deriving DecidableEq, Repr

structure Msg where
  scode : Nat
  expires : Option Seconds
  minExpires : Option Seconds
  auth : Auth
  place : Place
  deriving DecidableEq, Repr

inductive Response
  | err (err : Errno)
  | msg (msg : Msg)
  deriving DecidableEq, Repr

def Response.final : Response → Bool
  | .err _ => true
  | .msg m => decide (200 ≤ m.scode)

/-- What a Subscription-State header says. -/
inductive Substate
  | active (expires : Option Seconds)
  | pending (expires : Option Seconds)
  | terminated
  | unknown
  deriving DecidableEq, Repr

namespace Sipsub

/-- `res` is what `sip_drequestf` returns. -/
def request (s : Sipsub) (resetLs : Bool) (res : Option Errno) : Sipsub :=
  let s := if resetLs then { s with ls := .reset } else s
  let s := if !s.refer && s.terminated then { s with expires := 0 } else s
  { s with req := s.req || res.isNone }

/-- Whether the subscription lives on until what it waits for, and takes a reference for it. -/
def terminate (s : Sipsub) (res : Option Errno) : Bool × Sipsub :=
  let s := { s with terminated := true, forkh := false }
  if s.termwait then (true, { s with nrefs := s.nrefs + 1 })
  else
    let s := { s with tmr := none }
    if s.req then (true, { s with nrefs := s.nrefs + 1 })
    else if s.expires ≠ 0 ∧ s.subscribed then
      let s := s.request true res
      if res.isNone then (true, { s with nrefs := s.nrefs + 1 }) else (false, s)
    else (false, s)

def destructor (s : Sipsub) (res : Option Errno) : Sipsub :=
  if s.terminated then { s with tmr := none, req := false }
  else
    let (lives, s) := s.terminate res
    if lives then s else { s with tmr := none, req := false }

def memDeref (s : Sipsub) (res : Option Errno) : Sipsub :=
  let s := { s with nrefs := s.nrefs - 1 }
  if s.nrefs > 0 then s else s.destructor res

/-- What the close handler does is the owner's. -/
def sipsubTerminate (s : Sipsub) (res : Option Errno) : Sipsub := (s.terminate res).2

def sipsubReschedule (s : Sipsub) (wait : Wait) : Sipsub :=
  { s with tmr := some (.tmrHandler, wait.delay), waits := s.waits ++ [wait] }

/-- The constant is no number of seconds. -/
def resubscribe (s : Sipsub) : Sipsub := s.sipsubReschedule ⟨resubFailWait, resubFailWait⟩

def notifyTimeoutHandler (s : Sipsub) (res : Option Errno) : Sipsub :=
  let s := { s with termwait := false }
  if s.terminated then s.memDeref res else s.sipsubTerminate res

/-- `res'` is what the request of the termination returns. -/
def tmrHandler (s : Sipsub) (res res' : Option Errno) : Sipsub :=
  if s.req || s.terminated then s
  else
    let s := s.request true res
    if res.isNone then s
    else
      let s := { s with failc := s.failc + 1 }
      if s.failc < resubFailcMax then s.resubscribe else s.sipsubTerminate res'

/-- The end of `response_handler`, from its label `out` on. -/
def finish (s : Sipsub) (res : Option Errno) : Sipsub :=
  let s := { s with refer := false }
  if s.terminated then
    if s.expires = 0 ∨ ¬ s.subscribed then s.memDeref res
    else
      let s := s.request true res
      if res.isSome then s.memDeref res else s
  else
    let s := if s.subscribed then { s with failc := s.failc + 1 } else s
    if s.subscribed ∧ s.failc < resubFailcMax then s.resubscribe else s.sipsubTerminate res

/-- A 2xx response, once it is known to be for this subscription. -/
def accept (s : Sipsub) (expires : Option Seconds) (res : Option Errno) : Sipsub :=
  let s := { s with subscribed := s.subscribed || !s.termconf, failc := 0 }
  if s.expires = 0 ∧ ¬ s.termconf then
    { s with tmr := some (.notifyTimeoutHandler, notifyTimeout), termwait := true }
  else if s.terminated then s.finish res
  else if s.refer then { s with refer := false }
  else s.sipsubReschedule (scaled (expires.getD s.expires) 900)

def success (s : Sipsub) (msg : Msg) (res : Option Errno) : Sipsub :=
  if s.forkh then s
  else
    match msg.place with
    | .own => { s with established := true }.accept msg.expires res
    | .other => if s.established then s else { s with subscribed := false }.finish res

def again (s : Sipsub) (res res' : Option Errno) : Sipsub :=
  let s := s.request false res
  if res.isNone then s else s.finish res'

def failure (s : Sipsub) (msg : Msg) (res res' : Option Errno) : Sipsub :=
  if s.terminated && !s.subscribed then s.finish res'
  else if msg.scode = 401 ∨ msg.scode = 407 then
    match msg.auth with
    | .authenticated => s.again res res'
    | _ => s.finish res'
  else if msg.scode = 423 then
    match msg.minExpires with
    | some minexp =>
      if minexp = 0 ∨ s.expires = 0 then s.finish res' else { s with expires := minexp }.again res res'
    | none => s.finish res'
  else if msg.scode = 481 then { s with subscribed := false }.finish res'
  else s.finish res'

def responseHandler (s : Sipsub) (response : Response) (res res' : Option Errno) : Sipsub :=
  match response with
  | .err _ => s.finish res'
  | .msg msg =>
    let (loops, ls) := requestLoops s.ls msg.scode
    let s := { s with ls := ls }
    if loops then s.finish res'
    else if msg.scode < 200 then s
    else if msg.scode < 300 then s.success msg res'
    else s.failure msg res res'

def renew (s : Sipsub) (expires : Option Seconds) : Sipsub :=
  let s := { s with subscribed := s.subscribed || !s.termconf }
  match expires with
  | none => s
  | some e => if s.terminated ∨ s.termwait then s else s.sipsubReschedule (scaled e 900)

def setState (s : Sipsub) : Substate → Sipsub
  | .active expires => s.renew expires
  | .pending expires => s.renew expires
  | .terminated => { s with subscribed := false, termconf := true }
  | .unknown => s

/-- A NOTIFY, once it is known to be for this subscription. `released` is that the notify handler of the owner gives
    the subscription up. -/
def notifyHandler (s : Sipsub) (state : Substate) (released : Bool) (res : Option Errno) : Sipsub :=
  let s := { s with established := true }.setState state
  let gives := released && s.owned && !s.terminated
  let gone := gives && s.nrefs == 1
  let s := if gives then { s with owned := false }.memDeref res else s
  if gone then s
  else if state = .terminated then
    if !s.terminated then { s with termwait := false }.sipsubTerminate res
    else if s.termwait then { s with termwait := false, tmr := none }.memDeref res
    else s
  else s

end Sipsub

inductive Event
  | response (response : Response) (res res' : Option Errno)
  | adopted (expires : Option Seconds) (res : Option Errno)
  | notify (state : Substate) (released : Bool) (res : Option Errno)
  | timer (res res' : Option Errno)
  | release (res : Option Errno)
  deriving DecidableEq, Repr

/-- `adopted` is a 2xx response to the request of a subscription that this one was forked from. -/
def handle (s : Sipsub) : Event → Sipsub
  | .response response res res' =>
    if s.req then { s with req := s.req && !response.final }.responseHandler response res res' else s
  | .adopted expires res => s.accept expires res
  | .notify state released res => s.notifyHandler state released res
  | .timer res res' =>
    match s.tmr with
    | none => s
    | some (.tmrHandler, _) => { s with tmr := none }.tmrHandler res res'
    | some (.notifyTimeoutHandler, _) => { s with tmr := none }.notifyTimeoutHandler res
  | .release res => if s.owned then { s with owned := false }.memDeref res else s

/-- A subscription without references is gone. -/
def step (s : Sipsub) (ev : Event) : Sipsub := if s.nrefs = 0 then s else handle s ev

/-- The interval that a 2xx response grants. -/
def Sipsub.accepted (s : Sipsub) (expires : Option Seconds) : Option Seconds :=
  if s.expires = 0 ∧ ¬ s.termconf ∨ s.terminated ∨ s.refer then none else some (expires.getD s.expires)

def Substate.expires : Substate → Option Seconds
  | .active expires => expires
  | .pending expires => expires
  | _ => none

def offered (s : Sipsub) : Event → Option Seconds
  | .response (.msg msg) _ _ =>
    if s.req = true ∧ (requestLoops s.ls msg.scode).1 = false ∧ 200 ≤ msg.scode ∧ msg.scode < 300 ∧
        ¬ s.forkh ∧ msg.place = .own then
      s.accepted msg.expires
    else none
  | .adopted expires _ => s.accepted expires
  | .notify state _ _ => if s.terminated ∨ s.termwait then none else state.expires
  | _ => none

/-- The interval that the peer grants a subscription which goes on. -/
def granted (s : Sipsub) (ev : Event) : Option Seconds := if s.nrefs = 0 then none else offered s ev

def started (s : Sipsub) (ev : Event) : List Wait := (step { s with waits := [] } ev).waits

/-- A log that has grown by timers that are on time. -/
def Exact (old new : List Wait) : Prop := ∃ more, new = old ++ more ∧ ∀ w ∈ more, w.onTime

theorem Exact.refl (waits : List Wait) : Exact waits waits := ⟨[], (List.append_nil _).symm, nofun⟩

theorem Exact.of_eq {old new : List Wait} (same : new = old) : Exact old new := same ▸ .refl old

namespace Sipsub

variable {s : Sipsub}

@[simp] theorem request_waits (s : Sipsub) (resetLs : Bool) (res : Option Errno) :
    (s.request resetLs res).waits = s.waits := by
  unfold request
  dsimp only
  split_ifs <;> rfl

@[simp] theorem terminate_waits (s : Sipsub) (res : Option Errno) : (s.terminate res).2.waits = s.waits := by
  unfold terminate
  dsimp only
  split_ifs <;> simp

@[simp] theorem sipsubTerminate_waits (s : Sipsub) (res : Option Errno) :
    (s.sipsubTerminate res).waits = s.waits := terminate_waits s res

@[simp] theorem memDeref_waits (s : Sipsub) (res : Option Errno) : (s.memDeref res).waits = s.waits := by
  unfold memDeref destructor
  dsimp only
  split_ifs <;> simp

theorem resubscribe_exact (s : Sipsub) : Exact s.waits s.resubscribe.waits :=
  ⟨_, rfl, by simp [Wait.onTime]⟩

theorem finish_exact (s : Sipsub) (res : Option Errno) : Exact s.waits (s.finish res).waits := by
  unfold finish
  dsimp only
  split_ifs
  · exact .of_eq (by simp)
  · exact .of_eq (by simp)
  · exact .of_eq (by simp)
  · exact resubscribe_exact _
  · exact .of_eq (by simp)
  · exact resubscribe_exact _
  · exact .of_eq (by simp)

theorem again_exact (s : Sipsub) (res res' : Option Errno) : Exact s.waits (s.again res res').waits := by
  unfold again
  dsimp only
  split_ifs
  · exact .of_eq (by simp)
  · have exact_ := finish_exact (s.request false res) res'
    rwa [request_waits] at exact_

theorem failure_exact (s : Sipsub) (msg : Msg) (res res' : Option Errno) :
    Exact s.waits (s.failure msg res res').waits := by
  unfold failure
  split_ifs
  · exact finish_exact _ _
  · split
    · exact again_exact _ _ _
    · exact finish_exact _ _
  · split
    · split_ifs
      · exact finish_exact _ _
      · rename_i minexp found usable
        exact again_exact { s with expires := minexp } _ _
    · exact finish_exact _ _
  · exact finish_exact { s with subscribed := false } _
  · exact finish_exact _ _

theorem accept_granted {g : Seconds} {expires : Option Seconds} (grants : s.accepted expires = some g)
    (res : Option Errno) : (s.accept expires res).waits = s.waits ++ [scaled g 900] := by
  unfold accepted at grants
  split_ifs at grants with not_
  obtain rfl := Option.some.inj grants
  rw [not_or, not_or] at not_
  unfold accept
  dsimp only
  rw [if_neg not_.1, if_neg not_.2.1, if_neg not_.2.2]
  rfl

theorem accept_exact {expires : Option Seconds} (none_ : s.accepted expires = none) (res : Option Errno) :
    Exact s.waits (s.accept expires res).waits := by
  unfold accepted at none_
  unfold accept
  dsimp only
  split_ifs at none_ ⊢ with either first terminated refer
  · exact .refl _
  · exact finish_exact _ _
  · exact .refl _
  · simp_all

theorem setState_waits (s : Sipsub) (state : Substate) :
    (s.setState state).waits =
      s.waits ++ ((if s.terminated ∨ s.termwait then none else state.expires).toList.map (scaled · 900)) := by
  cases state with
  | terminated => simp [setState, Substate.expires]
  | unknown => simp [setState, Substate.expires]
  | active expires | pending expires =>
    cases expires with
    | none => simp [setState, renew, Substate.expires]
    | some e =>
      simp only [setState, renew, Substate.expires]
      split_ifs
      · simp
      · rfl

theorem notifyHandler_waits (s : Sipsub) (state : Substate) (released : Bool) (res : Option Errno) :
    (s.notifyHandler state released res).waits =
      s.waits ++ ((if s.terminated ∨ s.termwait then none else state.expires).toList.map (scaled · 900)) := by
  have same := setState_waits { s with established := true } state
  unfold notifyHandler
  dsimp only at same ⊢
  generalize Sipsub.setState { s with established := true } state = t at same
  rw [← same]
  split_ifs <;> simp

theorem responseHandler_granted {msg : Msg} {g : Seconds} (straight : (requestLoops s.ls msg.scode).1 = false)
    (low : 200 ≤ msg.scode) (high : msg.scode < 300) (whole : ¬ s.forkh) (own : msg.place = .own)
    (grants : s.accepted msg.expires = some g) (res res' : Option Errno) :
    (s.responseHandler (.msg msg) res res').waits = s.waits ++ [scaled g 900] := by
  unfold responseHandler success
  dsimp only
  rw [if_neg (by rw [straight]; exact Bool.false_ne_true), if_neg (Nat.not_lt_of_le low), if_pos high, if_neg whole, own]
  exact accept_granted (s := { s with ls := (requestLoops s.ls msg.scode).2, established := true }) grants res'

theorem responseHandler_exact (response : Response) (res res' : Option Errno)
    (other : ∀ msg, response = .msg msg → (requestLoops s.ls msg.scode).1 = false → 200 ≤ msg.scode →
      msg.scode < 300 → ¬ s.forkh → msg.place = .own → s.accepted msg.expires = none) :
    Exact s.waits (s.responseHandler response res res').waits := by
  cases response with
  | err err => exact finish_exact s res'
  | msg msg =>
    unfold responseHandler
    dsimp only
    split_ifs with loops early success_
    · exact finish_exact { s with ls := (requestLoops s.ls msg.scode).2 } res'
    · exact .refl _
    · unfold success
      dsimp only
      by_cases whole : s.forkh = true
      · rw [if_pos whole]
        exact .refl _
      · rw [if_neg whole]
        cases own : msg.place with
        | own =>
          have none_ := other msg rfl (by simpa using loops) (Nat.le_of_not_lt early) success_ whole own
          exact accept_exact (s := { s with ls := (requestLoops s.ls msg.scode).2, established := true }) none_ res'
        | other =>
          dsimp only
          split_ifs
          · exact .refl _
          · exact finish_exact { s with ls := (requestLoops s.ls msg.scode).2, subscribed := false } res'
    · exact failure_exact { s with ls := (requestLoops s.ls msg.scode).2 } msg res res'

end Sipsub

theorem handle_offered {s : Sipsub} {ev : Event} {g : Seconds} (offers : offered s ev = some g) :
    (handle s ev).waits = s.waits ++ [scaled g 900] := by
  cases ev with
  | response response res res' =>
    cases response with
    | err err => cases offers
    | msg msg =>
      unfold offered at offers
      dsimp only at offers
      split_ifs at offers with all
      obtain ⟨outstanding, straight, low, high, whole, own⟩ := all
      rw [handle, if_pos outstanding]
      exact Sipsub.responseHandler_granted (s := { s with req := s.req && !(Response.msg msg).final }) straight low high
        whole own offers res res'
  | adopted expires res => exact Sipsub.accept_granted offers res
  | notify state released res =>
    unfold offered at offers
    dsimp only at offers
    rw [handle, Sipsub.notifyHandler_waits, offers]
    rfl
  | timer res res' => cases offers
  | release res => cases offers

theorem handle_other {s : Sipsub} {ev : Event} (none_ : offered s ev = none) : Exact s.waits (handle s ev).waits := by
  cases ev with
  | response response res res' =>
    rw [handle]
    by_cases outstanding : s.req = true
    · rw [if_pos outstanding]
      apply Sipsub.responseHandler_exact (s := { s with req := s.req && !response.final })
      rintro msg rfl straight low high whole own
      unfold offered at none_
      dsimp only at none_
      rwa [if_pos ⟨outstanding, straight, low, high, whole, own⟩] at none_
    · rw [if_neg outstanding]
      exact .refl _
  | adopted expires res => exact Sipsub.accept_exact none_ res
  | notify state released res =>
    unfold offered at none_
    dsimp only at none_
    rw [handle, Sipsub.notifyHandler_waits, none_]
    exact .of_eq (List.append_nil _)
  | timer res res' =>
    unfold handle
    dsimp only
    split
    · exact .refl _
    · unfold Sipsub.tmrHandler
      dsimp only
      split_ifs
      · exact .refl _
      · exact .of_eq (by simp)
      · have exact_ := Sipsub.resubscribe_exact { ({ s with tmr := none } : Sipsub).request true res with
          failc := (({ s with tmr := none } : Sipsub).request true res).failc + 1 }
        simpa using exact_
      · exact .of_eq (by simp)
    · unfold Sipsub.notifyTimeoutHandler
      dsimp only
      split_ifs
      · exact .of_eq (by simp)
      · exact .of_eq (by simp)
  | release res =>
    rw [handle]
    split_ifs
    · exact .of_eq (by simp)
    · exact .refl _

theorem started_granted {s : Sipsub} {ev : Event} {g : Seconds} (grants : granted s ev = some g) :
    started s ev = [scaled g 900] := by
  unfold granted at grants
  split_ifs at grants with gone
  unfold started step
  rw [if_neg gone]
  exact handle_offered (s := { s with waits := [] }) grants

theorem started_other {s : Sipsub} {ev : Event} (none_ : granted s ev = none) : ∀ w ∈ started s ev, w.onTime := by
  have exact_ : Exact [] (started s ev) := by
    unfold granted at none_
    unfold started step
    by_cases gone : s.nrefs = 0
    · rw [if_pos gone]
      exact .refl _
    · rw [if_neg gone] at none_ ⊢
      exact handle_other (s := { s with waits := [] }) none_
  obtain ⟨more, same, all⟩ := exact_
  rw [same]
  exact all

/-- A subscription is renewed in time in the runs whose grants fit the conversion. -/
theorem subscription_iff (s : Sipsub) (events : List Event) :
    Along step (fun s ev => ∀ w ∈ started s ev, w.onTime) s events ↔
      Along step (fun s ev => ∀ g ∈ granted s ev, g.toNat * 900 < 2 ^ 32) s events := by
  apply along_congr
  intro s ev
  cases grants : granted s ev with
  | none => exact ⟨fun _ => nofun, fun _ => started_other grants⟩
  | some g =>
    rw [started_granted grants]
    simp [scaled_onTime]

end Baresip.Sipevent
