import Baresip.Library.Runs
import Baresip.Reg.Sipreg
import Mathlib.Tactic.IntervalCases

set_option linter.dupNamespace false

namespace Baresip.Reg

open Library Re Sip

/-- A timer that is started: what it is meant to wait and what it waits, in milliseconds. -/
structure Wait where
  due : Nat
  delay : Nat
  deriving DecidableEq, Repr

def Wait.onTime (w : Wait) : Prop := w.due ≤ w.delay

instance (w : Wait) : Decidable w.onTime := inferInstanceAs (Decidable (w.due ≤ w.delay))

/-- A number of seconds that is converted in the width of an `uint32_t`. -/
def scaled (seconds : Seconds) (factor : Nat) : Wait :=
  ⟨seconds.toNat * factor, (seconds * BitVec.ofNat 32 factor).toNat⟩

theorem scaled_onTime {seconds : Seconds} {factor : Nat} (small : factor < 2 ^ 32) :
    (scaled seconds factor).onTime ↔ seconds.toNat * factor < 2 ^ 32 := by
  unfold scaled Wait.onTime
  rw [BitVec.toNat_mul, BitVec.toNat_ofNat, Nat.mod_eq_of_lt small]
  constructor
  · intro exact_
    exact Nat.lt_of_le_of_lt exact_ (Nat.mod_lt _ (by decide))
  · intro fits
    exact Nat.le_of_eq (Nat.mod_eq_of_lt fits).symm

/-- What `failwait` is meant to be: half an hour at most, and half of it or more by chance. -/
def failDue (failc : Seconds) (rand : BitVec 16) : Nat :=
  min 1800 (30 * 2 ^ min failc.toNat 6) * (500 + rand.toNat % 501)

theorem minimum_toNat (a b : Seconds) : (minimum a b).toNat = min a.toNat b.toNat := by
  unfold minimum
  split_ifs with less
  · rw [BitVec.lt_def] at less
    omega
  · rw [BitVec.lt_def] at less
    omega

theorem failwait_toNat (failc : Seconds) (rand : BitVec 16) : (failwait failc rand).toNat = failDue failc rand := by
  have chance : (500 + rand.setWidth 32 % 501 : Seconds).toNat = 500 + rand.toNat % 501 := by
    have small := rand.isLt
    have below := Nat.mod_lt rand.toNat (by decide : 0 < 501)
    rw [BitVec.toNat_add, BitVec.toNat_umod, BitVec.toNat_setWidth, Nat.mod_eq_of_lt (by omega : rand.toNat < 2 ^ 32)]
    exact Nat.mod_eq_of_lt (by show 500 + rand.toNat % 501 < 2 ^ 32; omega)
  have steps : (minimum 1800 (30 * (1 <<< (minimum failc 6).toNat)) : Seconds).toNat =
      min 1800 (30 * 2 ^ min failc.toNat 6) := by
    rw [minimum_toNat, minimum_toNat]
    have few : min failc.toNat (6 : Seconds).toNat ≤ 6 := Nat.min_le_right _ _
    show min 1800 (30 * (1 <<< min failc.toNat (6 : Seconds).toNat) : Seconds).toNat =
      min 1800 (30 * 2 ^ min failc.toNat (6 : Seconds).toNat)
    generalize min failc.toNat (6 : Seconds).toNat = k at few
    interval_cases k <;> rfl
  have capped := Nat.min_le_left 1800 (30 * 2 ^ min failc.toNat 6)
  have below := Nat.mod_lt rand.toNat (by decide : 0 < 501)
  have product : min 1800 (30 * 2 ^ min failc.toNat 6) * (500 + rand.toNat % 501) ≤ 1800 * 1000 :=
    Nat.mul_le_mul capped (by omega)
  rw [failwait, BitVec.toNat_mul, steps, chance]
  exact Nat.mod_eq_of_lt (by omega)

namespace Sipreg

variable {s : Sipreg}

@[simp] theorem say_tmr (s : Sipreg) (out : Out) : (s.say out).tmr = s.tmr := rfl

@[simp] theorem callResph_tmr (s : Sipreg) (err : Option Errno) (scode : Option Nat) :
    (s.callResph err scode).tmr = s.tmr := by
  unfold callResph
  split <;> rfl

@[simp] theorem request_tmr (s : Sipreg) (resetLs : Bool) (res : Option Errno) :
    (s.request resetLs res).tmr = s.tmr := by
  unfold request
  dsimp only
  split_ifs <;> rfl

@[simp] theorem request_wait (s : Sipreg) (resetLs : Bool) (res : Option Errno) :
    (s.request resetLs res).wait = s.wait := by
  unfold request
  dsimp only
  split_ifs <;> rfl

theorem destructor_tmr (s : Sipreg) (res : Option Errno) : (s.destructor res).tmr = none := by
  unfold destructor
  dsimp only
  split_ifs <;> simp [free]

theorem memDeref_tmr (idle : s.tmr = none) (res : Option Errno) : (s.memDeref res).tmr = none := by
  unfold memDeref
  dsimp only
  split_ifs
  · exact idle
  · exact destructor_tmr _ res
  · exact destructor_tmr _ res

/-- The timer that the end of the handler starts. -/
theorem finish_tmr (idle : s.tmr = none) (err : Option Errno) (scode : Option Nat) (res : Option Errno) :
    (s.finish err scode res).tmr = if s.expires = 0 ∨ s.terminated then none else some s.wait := by
  unfold finish
  by_cases ended : s.expires = 0
  · have either : s.expires = 0 ∨ s.terminated = true := .inl ended
    rw [if_pos ended, if_pos either]
    exact memDeref_tmr idle res
  · rw [if_neg ended]
    by_cases terminated : s.terminated = true
    · have either : s.expires = 0 ∨ s.terminated = true := .inr terminated
      rw [if_pos terminated, if_pos either]
      split_ifs
      · exact memDeref_tmr idle res
      · exact memDeref_tmr (by rw [request_tmr, idle]) res
      · rw [request_tmr, idle]
    · have neither : ¬ (s.expires = 0 ∨ s.terminated = true) := not_or.mpr ⟨ended, terminated⟩
      rw [if_neg terminated, if_neg neither, callResph_tmr]

theorem finish_waits (idle : s.tmr = none) (err : Option Errno) (scode : Option Nat) (res : Option Errno) :
    ∀ d ∈ (s.finish err scode res).tmr, d = s.wait := by
  rw [finish_tmr idle]
  intro d started
  split_ifs at started
  · cases started
  · exact (Option.some.inj started).symm

theorem again_waits (idle : s.tmr = none) (scode : Nat) (res : Option Errno) :
    ∀ d ∈ (s.again scode res).tmr, d = s.wait := by
  unfold again
  dsimp only
  split_ifs
  · rw [request_tmr, idle]
    exact nofun
  · intro d started
    have same := finish_waits (s := { s.request false res with failc := (s.request false res).failc + 1 })
      (by rw [← idle]; exact request_tmr s false res) res (some scode) res d started
    rw [same]
    exact request_wait s false res

theorem refused_waits (idle : s.tmr = none) (err : Option Errno) (scode : Nat) (res : Option Errno) :
    ∀ d ∈ (s.refused err scode res).tmr, d = s.wait :=
  finish_waits (s := { s with failc := s.failc + 1 }) idle err (some scode) res

theorem failure_waits (idle : s.tmr = none) (msg : Msg) (res : Option Errno) :
    ∀ d ∈ (s.failure msg res).tmr, d = s.wait := by
  unfold failure
  split_ifs
  · exact finish_waits idle _ _ res
  · split
    · exact again_waits idle _ res
    · exact refused_waits idle _ _ res
    · exact refused_waits idle _ _ res
  · split
    · split_ifs
      · exact refused_waits idle _ _ res
      · rename_i minexp found usable
        exact again_waits (s := { s with expires := minexp }) idle _ res
    · exact refused_waits idle _ _ res
  · exact refused_waits idle _ _ res

theorem success_tmr (idle : s.tmr = none) (msg : Msg) (res : Option Errno) :
    (s.success msg res).tmr =
      if s.expires = 0 ∨ s.terminated then none else some (contactWait msg s.expires * 900) := by
  unfold success startOutbound
  dsimp only
  split_ifs <;> rw [finish_tmr] <;> simp_all

end Sipreg

/-- The delay with which the handlers of an event start the timer. -/
def delayed (s : Sipreg) (ev : Event) : Option Seconds :=
  match ev with
  | .timer _ _ => if s.tmr.isSome then (step s ev).tmr else none
  | _ => (step { s with tmr := none } ev).tmr

/-- The interval that a response grants a registration which goes on. -/
def granted (s : Sipreg) : Event → Option Seconds
  | .response (.msg msg) _ _ =>
    if s.req = true ∧ (requestLoops s.ls msg.scode).1 = false ∧ 200 ≤ msg.scode ∧ msg.scode < 300 ∧
        ¬ (s.expires = 0 ∨ s.terminated = true) then
      some (Sipreg.contactWait msg s.expires)
    else none
  | _ => none

def Event.rand : Event → BitVec 16
  | .response _ rand _ => rand
  | .timer rand _ => rand
  | .keepalive _ rand => rand
  | _ => 0

/-- A registration is renewed after nine tenths of what was granted, and tried again after the time of a failure. -/
def due (s : Sipreg) (ev : Event) : Nat :=
  match granted s ev with
  | some g => g.toNat * 900
  | none => failDue (s.failc + 1) ev.rand

def started (s : Sipreg) (ev : Event) : List Wait := (delayed s ev).toList.map fun d => ⟨due s ev, d.toNat⟩

theorem responseHandler_granted {s : Sipreg} (idle : s.tmr = none) {msg : Msg}
    (straight : (requestLoops s.ls msg.scode).1 = false) (low : 200 ≤ msg.scode) (high : msg.scode < 300)
    (rand : BitVec 16) (res : Option Errno) :
    (s.responseHandler (.msg msg) rand res).tmr =
      if s.expires = 0 ∨ s.terminated then none else some (Sipreg.contactWait msg s.expires * 900) := by
  unfold Sipreg.responseHandler
  dsimp only
  rw [if_neg (by rw [straight]; exact Bool.false_ne_true), if_neg (Nat.not_lt_of_le low), if_pos high]
  exact Sipreg.success_tmr
    (s := { s with wait := failwait (s.failc + 1) rand, ls := (requestLoops s.ls msg.scode).2 }) idle msg res

theorem responseHandler_waits {s : Sipreg} (idle : s.tmr = none) (response : Response) (rand : BitVec 16)
    (res : Option Errno)
    (other : ∀ msg, response = .msg msg → (requestLoops s.ls msg.scode).1 = false → 200 ≤ msg.scode →
      300 ≤ msg.scode ∨ s.expires = 0 ∨ s.terminated = true) :
    ∀ d ∈ (s.responseHandler response rand res).tmr, d = failwait (s.failc + 1) rand := by
  cases response with
  | err err =>
    exact Sipreg.finish_waits (s := { s with wait := failwait (s.failc + 1) rand, failc := s.failc + 1 }) idle _ _ res
  | msg msg =>
    by_cases straight : (requestLoops s.ls msg.scode).1 = false
    · by_cases low : 200 ≤ msg.scode
      · by_cases high : msg.scode < 300
        · rw [responseHandler_granted idle straight low high, if_pos ((other msg rfl straight low).resolve_left (by omega))]
          exact nofun
        · unfold Sipreg.responseHandler
          dsimp only
          rw [if_neg (by rw [straight]; exact Bool.false_ne_true), if_neg (Nat.not_lt_of_le low), if_neg high]
          exact Sipreg.failure_waits
            (s := { s with wait := failwait (s.failc + 1) rand, ls := (requestLoops s.ls msg.scode).2 }) idle msg res
      · unfold Sipreg.responseHandler
        dsimp only
        rw [if_neg (by rw [straight]; exact Bool.false_ne_true), if_pos (Nat.lt_of_not_le low), idle]
        exact nofun
    · unfold Sipreg.responseHandler
      dsimp only
      rw [if_pos (by simpa using straight)]
      exact Sipreg.finish_waits (s := { s with
        wait := failwait (s.failc + 1) rand, ls := (requestLoops s.ls msg.scode).2, failc := s.failc + 1 }) idle _ _ res

theorem delayed_response (s : Sipreg) (response : Response) (rand : BitVec 16) (res : Option Errno) :
    delayed s (.response response rand res) = none ∧ s.req = false ∨
      s.req = true ∧ ∃ s' : Sipreg, s'.tmr = none ∧ s'.ls = s.ls ∧ s'.expires = s.expires ∧ s'.failc = s.failc ∧
        s'.terminated = s.terminated ∧
        delayed s (.response response rand res) = (s'.responseHandler response rand res).tmr := by
  cases outstanding : s.req with
  | false =>
    left
    simp [delayed, step, outstanding]
  | true =>
    right
    refine ⟨rfl, ?_⟩
    cases final : response.final with
    | true =>
      refine ⟨{ answer { s with tmr := none } response with req := false }.say .completed, ?_⟩
      cases response <;> simp [delayed, step, outstanding, final, answer, Sipreg.say]
    | false =>
      refine ⟨answer { s with tmr := none } response, ?_⟩
      cases response <;> simp [delayed, step, outstanding, final, answer, Sipreg.say]

theorem started_granted {s : Sipreg} {ev : Event} {g : Seconds} (grants : granted s ev = some g) :
    started s ev = [scaled g 900] := by
  have same : delayed s ev = some (g * 900) := by
    unfold granted at grants
    split at grants
    · rename_i msg rand res
      split_ifs at grants with all
      obtain rfl := Option.some.inj grants
      obtain ⟨outstanding, straight, low, high, goes⟩ := all
      rcases delayed_response s (.msg msg) rand res with ⟨-, none_⟩ | ⟨-, s', idle, ls, expires, -, terminated, same⟩
      · rw [outstanding] at none_
        cases none_
      · rw [← ls] at straight
        rw [← expires, ← terminated] at goes
        rw [same, responseHandler_granted idle straight low high, if_neg goes, expires]
    · cases grants
  simp only [started, due, grants, same]
  rfl

theorem started_other {s : Sipreg} {ev : Event} (none_ : granted s ev = none) : ∀ w ∈ started s ev, w.onTime := by
  have same : ∀ d ∈ delayed s ev, d = failwait (s.failc + 1) ev.rand := by
    cases ev with
    | response response rand res =>
      rcases delayed_response s response rand res with ⟨same, -⟩ | ⟨outstanding, s', idle, ls, expires, failc, terminated, same⟩
      · rw [same]
        exact nofun
      · rw [same, ← failc]
        apply responseHandler_waits idle
        rintro msg rfl straight low
        by_contra goes
        rw [not_or, Nat.not_le, expires, terminated] at goes
        rw [ls] at straight
        rw [granted, if_pos ⟨outstanding, straight, low, goes.1, goes.2⟩] at none_
        cases none_
    | timer rand res =>
      intro d started
      simp only [delayed, step] at started
      split_ifs at started
      · unfold Sipreg.tmrHandler at started
        dsimp only at started
        split_ifs at started
        · rw [Sipreg.callResph_tmr] at started
          have failc : (Sipreg.request { s with tmr := none } true res).failc = s.failc := by
            unfold Sipreg.request
            dsimp only
            split_ifs <;> rfl
          rw [failc] at started
          exact (Option.some.inj started).symm
        · rw [Sipreg.request_tmr] at started
          cases started
      · cases started
    | keepalive err rand =>
      intro d started
      simp only [delayed, step, Sipreg.keepaliveHandler] at started
      split_ifs at started
      · cases started
      · rw [Sipreg.callResph_tmr] at started
        exact (Option.some.inj started).symm
      · cases started
    | transmit =>
      intro d started
      simp only [delayed, step] at started
      split_ifs at started
      · cases started
      · cases started
    | release res =>
      intro d started
      simp only [delayed, step] at started
      split_ifs at started
      · rw [Sipreg.memDeref_tmr rfl res] at started
        cases started
      · cases started
  intro w member
  obtain ⟨d, started, rfl⟩ := List.mem_map.mp member
  rw [Option.mem_toList] at started
  unfold Wait.onTime due
  rw [same d started, failwait_toNat, none_]

/-- A registration is renewed in time in the runs whose grants fit the conversion. -/
theorem registration_iff (s : Sipreg) (events : List Event) :
    Along step (fun s ev => ∀ w ∈ started s ev, w.onTime) s events ↔
      Along step (fun s ev => ∀ g ∈ granted s ev, g.toNat * 900 < 2 ^ 32) s events := by
  apply along_congr
  intro s ev
  cases grants : granted s ev with
  | none => exact ⟨fun _ => nofun, fun _ => started_other grants⟩
  | some g =>
    rw [started_granted grants]
    simp [scaled_onTime]

end Baresip.Reg
