import Baresip.Library.Agenda
import Baresip.Library.Runs
import Mathlib.Data.Nat.Basic
import Mathlib.Logic.Function.Basic

set_option linter.dupNamespace false

namespace Baresip.Tmrl

open Library

/-- A timer; its handler and the argument are their addresses. -/
structure Tmr where
  th : Option Nat
  arg : Nat
  jfs : BitVec 64
  deriving DecidableEq, Repr

/-- When a timer was started and with which delay, and how many starts there were before. -/
structure Start where
  time : BitVec 64
  delay : BitVec 64
  order : Nat
  deriving DecidableEq, Repr

inductive Event
  | started (tmr : Nat) (start : Start)
  | cancelled (tmr : Nat)
  | pollBegan
  | fired (tmr : Nat) (time : BitVec 64)
  | pollEnded (jfs : BitVec 64)
  deriving DecidableEq, Repr

/-- The timers by their addresses, the timer list, the clock, the time at which the running poll began, and what has
    happened so far, the last event first. -/
structure Timers where
  timers : Nat → Tmr
  tmrl : List Nat
  jiffies : BitVec 64
  poll : Option (BitVec 64)
  starts : Nat
  events : List Event

namespace Timers

variable (s : Timers)

/-- `list_unlink` of a timer that has a handler. -/
def unlinked (tmr : Nat) : List Nat := if (s.timers tmr).th.isSome then s.tmrl.erase tmr else s.tmrl

/-- Where `tmr_start` links a timer; one that is linked already stays where it is. -/
def linked (tmrl : List Nat) (timers : Nat → Tmr) (tmr : Nat) (delay : BitVec 64) : List Nat :=
  if tmr ∈ tmrl then tmrl
  else if delay = 0 then insertBefore (fun le => (timers tmr).jfs.toNat < (timers le).jfs.toNat) tmr tmrl
  else insertBehind (fun le => (timers le).jfs.toNat ≤ (timers tmr).jfs.toNat) tmr tmrl

def tmrStart (tmr : Nat) (delay : BitVec 64) (th : Option Nat) (arg : Nat) : Timers :=
  if th.isNone then
    { s with timers := Function.update s.timers tmr ⟨none, arg, (s.timers tmr).jfs⟩
             tmrl := s.unlinked tmr
             events := .cancelled tmr :: s.events }
  else
    let timers := Function.update s.timers tmr ⟨th, arg, delay + s.jiffies⟩
    { s with timers := timers
             tmrl := linked (s.unlinked tmr) timers tmr delay
             starts := s.starts + 1
             events := .started tmr ⟨s.jiffies, delay, s.starts⟩ :: s.events }

def tmrCancel (tmr : Nat) : Timers := s.tmrStart tmr 0 none 0

/-- `tmr_poll` up to its loop. -/
def pollBegin : Timers :=
  if s.poll.isSome then s else { s with poll := some s.jiffies, events := .pollBegan :: s.events }

/-- One round of the loop of `tmr_poll`, up to the call of the handler. -/
def pollNext : Timers :=
  match s.poll with
  | none => s
  | some jfs =>
    match s.tmrl with
    | [] => { s with poll := none, events := .pollEnded jfs :: s.events }
    | tmr :: rest =>
      if jfs < (s.timers tmr).jfs then { s with poll := none, events := .pollEnded jfs :: s.events }
      else
        { s with timers := Function.update s.timers tmr { s.timers tmr with th := none }
                 tmrl := rest
                 events := if (s.timers tmr).th.isSome then .fired tmr s.jiffies :: s.events else s.events }

def tmrNextTimeout : BitVec 64 :=
  match s.tmrl with
  | [] => 0
  | tmr :: _ => if (s.timers tmr).jfs ≤ s.jiffies then 1 else (s.timers tmr).jfs - s.jiffies

end Timers

/-- What the program and the handlers do; between the rounds of a poll its handler may take any of these steps. -/
inductive Action
  | clock (jiffies : BitVec 64)
  | start (tmr : Nat) (delay : BitVec 64) (th : Option Nat) (arg : Nat)
  | cancel (tmr : Nat)
  | pollBegin
  | pollNext
  deriving DecidableEq, Repr

/-- The clock does not go back. -/
def step (s : Timers) : Action → Timers
  | .clock jiffies => { s with jiffies := if s.jiffies ≤ jiffies then jiffies else s.jiffies }
  | .start tmr delay th arg => s.tmrStart tmr delay th arg
  | .cancel tmr => s.tmrCancel tmr
  | .pollBegin => s.pollBegin
  | .pollNext => s.pollNext

def init : Timers := ⟨fun _ => ⟨none, 0, 0⟩, [], 0, none, 0, []⟩

def Start.expiry (start : Start) : Nat := start.time.toNat + start.delay.toNat

/-- The start that a timer has neither fired for nor been cancelled or restarted since. -/
def latest (tmr : Nat) : List Event → Option Start
  | [] => none
  | .started tmr' start :: events => if tmr' = tmr then some start else latest tmr events
  | .cancelled tmr' :: events => if tmr' = tmr then none else latest tmr events
  | .fired tmr' _ :: events => if tmr' = tmr then none else latest tmr events
  | _ :: events => latest tmr events

/-- The start of the timer that fired last in the present poll. -/
def lastFired : List Event → Option Start
  | [] => none
  | .pollBegan :: _ => none
  | .fired tmr _ :: events => latest tmr events
  | _ :: events => lastFired events

/-- In the order of expiry, and for equal ones in the order of the starts. -/
def Before (first second : Start) : Prop :=
  first.expiry < second.expiry ∨ first.expiry = second.expiry ∧ first.order < second.order

/-- A timer fires for a start, once and not before it expires, the timers of one poll in their order, and when a poll
    ends no timer is left that had expired when it began. -/
def Lawful : List Event → Prop
  | [] => True
  | .fired tmr time :: events =>
    (∃ start ∈ latest tmr events, start.expiry ≤ time.toNat ∧ ∀ prev ∈ lastFired events, Before prev start) ∧
      Lawful events
  | .pollEnded jfs :: events => (∀ tmr, ∀ start ∈ latest tmr events, jfs.toNat < start.expiry) ∧ Lawful events
  | _ :: events => Lawful events

structure Kept (s : Timers) : Prop where
  sorted : s.tmrl.Pairwise fun a b => (s.timers a).jfs.toNat ≤ (s.timers b).jfs.toNat
  once : s.tmrl.Nodup
  members : ∀ tmr, tmr ∈ s.tmrl ↔ (s.timers tmr).th.isSome
  pending : ∀ tmr, (s.timers tmr).th.isSome ↔ (latest tmr s.events).isSome
  expiry : ∀ tmr ∈ s.tmrl, ∀ start ∈ latest tmr s.events, (s.timers tmr).jfs.toNat = start.expiry
  lawful : Lawful s.events
  timeout : s.tmrNextTimeout = 0 → ∀ tmr, (s.timers tmr).th = none
  ends : ∃ n, ((List.replicate n Action.pollNext).foldl step s).poll = none

/-- The expiry of a timer that is started fits in 64 bits. -/
def NoWrap (s : Timers) : Action → Prop
  | .start _ delay th _ => th.isSome → s.jiffies.toNat + delay.toNat < 18446744073709551616
  | _ => True

/-- The start that a timer of the list waits for. -/
def began (events : List Event) (tmr : Nat) : Start := (latest tmr events).getD ⟨0, 0, 0⟩

structure Inv (s : Timers) : Prop where
  agenda : s.tmrl.Pairwise fun a b => Before (began s.events a) (began s.events b)
  members : ∀ tmr, tmr ∈ s.tmrl ↔ (s.timers tmr).th.isSome
  pending : ∀ tmr, tmr ∈ s.tmrl ↔ (latest tmr s.events).isSome
  expiry : ∀ tmr ∈ s.tmrl, (s.timers tmr).jfs.toNat = (began s.events tmr).expiry
  orders : ∀ tmr ∈ s.tmrl, (began s.events tmr).order < s.starts
  lawful : Lawful s.events
  polling : ∀ jfs ∈ s.poll, jfs.toNat ≤ s.jiffies.toNat ∧ ∀ prev ∈ lastFired s.events,
    prev.expiry ≤ jfs.toNat ∧ prev.order < s.starts ∧ ∀ tmr ∈ s.tmrl, Before prev (began s.events tmr)

section
variable {s : Timers} {tmr tmr' : Nat} {events : List Event} {start : Start} {time : BitVec 64}

theorem Before.irrefl (start : Start) : ¬ Before start start := by
  rintro (less | ⟨_, less⟩)
  · exact Nat.lt_irrefl _ less
  · exact Nat.lt_irrefl _ less

theorem Before.expiry_le {first second : Start} (before : Before first second) : first.expiry ≤ second.expiry := by
  rcases before with less | ⟨same, _⟩
  · exact Nat.le_of_lt less
  · exact Nat.le_of_eq same

theorem before_of_le {first second : Start} (le : first.expiry ≤ second.expiry) (earlier : first.order < second.order) :
    Before first second := by
  rcases Nat.lt_or_eq_of_le le with less | same
  · exact .inl less
  · exact .inr ⟨same, earlier⟩

theorem began_latest (waiting : start ∈ latest tmr events) : began events tmr = start := by
  have some_ : latest tmr events = some start := waiting
  unfold began
  rw [some_]
  rfl

theorem latest_began (waiting : (latest tmr events).isSome) : began events tmr ∈ latest tmr events := by
  rcases Option.isSome_iff_exists.mp waiting with ⟨start, some_⟩
  rw [began_latest some_]
  exact some_

@[simp] theorem latest_started : latest tmr (.started tmr' start :: events) =
    if tmr' = tmr then some start else latest tmr events := rfl

@[simp] theorem latest_cancelled : latest tmr (.cancelled tmr' :: events) =
    if tmr' = tmr then none else latest tmr events := rfl

@[simp] theorem latest_fired : latest tmr (.fired tmr' time :: events) =
    if tmr' = tmr then none else latest tmr events := rfl

theorem began_started : began (.started tmr start :: events) tmr = start := by
  apply began_latest
  simp

theorem began_other {event : Event} (other : latest tmr (event :: events) = latest tmr events) :
    began (event :: events) tmr = began events tmr := by
  unfold began
  rw [other]

theorem Inv.nodup (inv : Inv s) : s.tmrl.Nodup := by
  apply inv.agenda.imp
  rintro a b before rfl
  exact Before.irrefl _ before

theorem Inv.sorted (inv : Inv s) : s.tmrl.Pairwise fun a b => (s.timers a).jfs.toNat ≤ (s.timers b).jfs.toNat := by
  apply inv.agenda.imp_of_mem
  intro a b mem mem' before
  rw [inv.expiry a mem, inv.expiry b mem']
  exact before.expiry_le

theorem Inv.unlinked (inv : Inv s) (tmr : Nat) : s.unlinked tmr = s.tmrl.erase tmr := by
  unfold Timers.unlinked
  by_cases set : (s.timers tmr).th.isSome
  · rw [if_pos set]
  · rw [if_neg set, List.erase_of_not_mem fun mem => set ((inv.members tmr).mp mem)]

theorem Inv.mem_unlinked (inv : Inv s) : tmr' ∈ s.unlinked tmr ↔ tmr' ≠ tmr ∧ tmr' ∈ s.tmrl := by
  rw [inv.unlinked]
  exact inv.nodup.mem_erase_iff

theorem pollNext_none (idle : s.poll = none) : s.pollNext = s := by simp [Timers.pollNext, idle]

theorem pollNext_nil {jfs : BitVec 64} (polled : s.poll = some jfs) (empty : s.tmrl = []) :
    s.pollNext = { s with poll := none, events := .pollEnded jfs :: s.events } := by
  simp [Timers.pollNext, polled, empty]

theorem pollNext_late {jfs : BitVec 64} {rest : List Nat} (polled : s.poll = some jfs) (head : s.tmrl = tmr :: rest)
    (late : jfs < (s.timers tmr).jfs) :
    s.pollNext = { s with poll := none, events := .pollEnded jfs :: s.events } := by
  simp [Timers.pollNext, polled, head, late]

theorem pollNext_due {jfs : BitVec 64} {rest : List Nat} (polled : s.poll = some jfs) (head : s.tmrl = tmr :: rest)
    (due : ¬ jfs < (s.timers tmr).jfs) :
    s.pollNext = { s with timers := Function.update s.timers tmr { s.timers tmr with th := none }
                          tmrl := rest
                          events := if (s.timers tmr).th.isSome then .fired tmr s.jiffies :: s.events else s.events } := by
  simp [Timers.pollNext, polled, head, due]

theorem Inv.due (inv : Inv s) {jfs : BitVec 64} {rest : List Nat} (head : s.tmrl = tmr :: rest)
    (late : jfs < (s.timers tmr).jfs) (waiting : start ∈ latest tmr' s.events) : jfs.toNat < start.expiry := by
  have mem : tmr' ∈ s.tmrl := (inv.pending tmr').mpr (Option.isSome_of_mem waiting)
  have least : (s.timers tmr).jfs.toNat ≤ (s.timers tmr').jfs.toNat := by
    have sorted := inv.sorted
    rw [head] at sorted mem
    rcases List.mem_cons.mp mem with rfl | mem
    · exact Nat.le_refl _
    · exact List.rel_of_pairwise_cons sorted mem
  rw [inv.expiry tmr' mem, began_latest waiting] at least
  exact Nat.lt_of_lt_of_le (BitVec.lt_def.mp late) least

theorem Inv.clock (inv : Inv s) (jiffies : BitVec 64) : Inv (step s (.clock jiffies)) where
  agenda := inv.agenda
  members := inv.members
  pending := inv.pending
  expiry := inv.expiry
  orders := inv.orders
  lawful := inv.lawful
  polling jfs began := by
    have held := inv.polling jfs began
    have forward : s.jiffies.toNat ≤ (step s (.clock jiffies)).jiffies.toNat := by
      show _ ≤ (if s.jiffies ≤ jiffies then jiffies else s.jiffies).toNat
      by_cases later : s.jiffies ≤ jiffies
      · rw [if_pos later]
        exact BitVec.le_def.mp later
      · rw [if_neg later]
    exact ⟨Nat.le_trans held.1 forward, held.2⟩

theorem Inv.cleared (inv : Inv s) (arg : Nat) : Inv (s.tmrStart tmr 0 none arg) := by
  have others {b : Nat} (mem : b ∈ s.unlinked tmr) : began (.cancelled tmr :: s.events) b = began s.events b := by
    apply began_other
    rw [latest_cancelled, if_neg (inv.mem_unlinked.mp mem).1.symm]
  have within {b : Nat} (mem : b ∈ s.unlinked tmr) : b ∈ s.tmrl := (inv.mem_unlinked.mp mem).2
  have timers {b : Nat} (other : b ≠ tmr) : (s.tmrStart tmr 0 none arg).timers b = s.timers b :=
    Function.update_of_ne other _ _
  have own : (s.tmrStart tmr 0 none arg).timers tmr = ⟨none, arg, (s.timers tmr).jfs⟩ := Function.update_self _ _ _
  have sub : (s.unlinked tmr).Sublist s.tmrl := by
    rw [inv.unlinked]
    exact List.erase_sublist
  constructor
  case agenda =>
    apply (inv.agenda.sublist sub).imp_of_mem
    intro a b mem mem' before
    show Before (began (.cancelled tmr :: s.events) a) (began (.cancelled tmr :: s.events) b)
    rw [others mem, others mem']
    exact before
  case members =>
    intro b
    show b ∈ s.unlinked tmr ↔ _
    rw [inv.mem_unlinked]
    by_cases same : b = tmr
    · rw [same, own]
      simp
    · rw [timers same, inv.members b]
      simp [same]
  case pending =>
    intro b
    show b ∈ s.unlinked tmr ↔ (latest b (.cancelled tmr :: s.events)).isSome
    rw [inv.mem_unlinked, latest_cancelled, inv.pending b]
    by_cases same : tmr = b
    · simp [same]
    · simp [same, Ne.symm same]
  case expiry =>
    intro b mem
    rw [timers (inv.mem_unlinked.mp mem).1, inv.expiry b (within mem)]
    exact congrArg Start.expiry (others mem).symm
  case orders =>
    intro b mem
    show (began (.cancelled tmr :: s.events) b).order < s.starts
    rw [others mem]
    exact inv.orders b (within mem)
  case lawful => exact inv.lawful
  case polling =>
    intro jfs polled
    rcases inv.polling jfs polled with ⟨past, fired⟩
    refine ⟨past, fun prev last => ⟨(fired prev last).1, (fired prev last).2.1, ?_⟩⟩
    intro b mem
    show Before prev (began (.cancelled tmr :: s.events) b)
    rw [others mem]
    exact (fired prev last).2.2 b (within mem)

theorem Inv.started (inv : Inv s) {delay : BitVec 64} (th arg : Nat)
    (fits : s.jiffies.toNat + delay.toNat < 18446744073709551616) : Inv (s.tmrStart tmr delay (some th) arg) := by
  generalize timers : Function.update s.timers tmr ⟨some th, arg, delay + s.jiffies⟩ = timers'
  generalize note : Event.started tmr ⟨s.jiffies, delay, s.starts⟩ :: s.events = events'
  have next : s.tmrStart tmr delay (some th) arg =
      { s with timers := timers', tmrl := Timers.linked (s.unlinked tmr) timers' tmr delay
               starts := s.starts + 1, events := events' } := by
    rw [← timers, ← note]
    rfl
  have out : tmr ∉ s.unlinked tmr := fun mem => (inv.mem_unlinked.mp mem).1 rfl
  have own : (timers' tmr).jfs.toNat = (began events' tmr).expiry := by
    rw [← timers, ← note, began_started, Function.update_self]
    show (delay + s.jiffies).toNat = s.jiffies.toNat + delay.toNat
    rw [BitVec.toNat_add, Nat.add_comm]
    exact Nat.mod_eq_of_lt fits
  have others {b : Nat} (mem : b ∈ s.unlinked tmr) : began events' b = began s.events b ∧
      (timers' b).jfs.toNat = (began events' b).expiry := by
    rcases inv.mem_unlinked.mp mem with ⟨other, old⟩
    have same : began events' b = began s.events b := by
      rw [← note]
      apply began_other
      rw [latest_started, if_neg other.symm]
    rw [same, ← timers, Function.update_of_ne other, inv.expiry b old]
    exact ⟨rfl, rfl⟩
  have sub : (s.unlinked tmr).Sublist s.tmrl := by
    rw [inv.unlinked]
    exact List.erase_sublist
  have agenda : (s.unlinked tmr).Pairwise fun a b => Before (began events' a) (began events' b) := by
    apply (inv.agenda.sublist sub).imp_of_mem
    intro a b mem mem' before
    rw [(others mem).1, (others mem').1]
    exact before
  have keyed : (s.unlinked tmr).Pairwise fun a b => (timers' a).jfs.toNat ≤ (timers' b).jfs.toNat := by
    apply agenda.imp_of_mem
    intro a b mem mem' before
    rw [(others mem).2, (others mem').2]
    exact before.expiry_le
  have new : began events' tmr = ⟨s.jiffies, delay, s.starts⟩ := by
    rw [← note, began_started]
  have order {b : Nat} (mem : b ∈ s.unlinked tmr) : (began events' b).order < (began events' tmr).order := by
    rw [(others mem).1, new]
    exact inv.orders b (inv.mem_unlinked.mp mem).2
  have placed := insert_stable (a := tmr) agenda keyed (timers' tmr).jfs.toNat
    (fun b mem le => before_of_le (by rw [← own, ← (others mem).2]; exact le) (order mem))
    (fun b mem less => .inl (by rw [← own, ← (others mem).2]; exact less))
  have perm : (Timers.linked (s.unlinked tmr) timers' tmr delay).Perm (tmr :: s.unlinked tmr) := by
    unfold Timers.linked
    rw [if_neg out]
    by_cases zero : delay = 0
    · rw [if_pos zero]
      exact insertBefore_perm _ _ _
    · rw [if_neg zero]
      exact insertBehind_perm _ _ _
  rw [next]
  constructor
  case agenda =>
    dsimp only
    unfold Timers.linked
    rw [if_neg out]
    by_cases zero : delay = 0
    · rw [if_pos zero]
      exact placed.1
    · rw [if_neg zero]
      exact placed.2
  case members =>
    intro b
    dsimp only
    rw [perm.mem_iff, List.mem_cons, inv.mem_unlinked, ← timers]
    by_cases same : b = tmr
    · rw [same, Function.update_self]
      simp
    · rw [Function.update_of_ne same, ← inv.members b]
      simp [same]
  case pending =>
    intro b
    dsimp only
    rw [perm.mem_iff, List.mem_cons, inv.mem_unlinked, ← note, latest_started]
    by_cases same : tmr = b
    · simp [same]
    · rw [if_neg same, ← inv.pending b]
      simp [Ne.symm same]
  case expiry =>
    intro b mem
    dsimp only at mem ⊢
    rcases List.mem_cons.mp (perm.mem_iff.mp mem) with rfl | mem
    · exact own
    · exact (others mem).2
  case orders =>
    intro b mem
    dsimp only at mem ⊢
    have last : (began events' tmr).order < s.starts + 1 := by
      rw [new]
      exact Nat.lt_succ_self _
    rcases List.mem_cons.mp (perm.mem_iff.mp mem) with rfl | mem
    · exact last
    · exact Nat.lt_trans (order mem) last
  case lawful =>
    rw [← note]
    exact inv.lawful
  case polling =>
    intro jfs polled
    rcases inv.polling jfs polled with ⟨past, fired⟩
    refine ⟨past, ?_⟩
    intro prev last
    rw [← note] at last
    rcases fired prev last with ⟨expired, earlier, before⟩
    refine ⟨expired, Nat.lt_succ_of_lt earlier, ?_⟩
    intro b mem
    dsimp only at mem ⊢
    rcases List.mem_cons.mp (perm.mem_iff.mp mem) with rfl | mem
    · apply before_of_le
      · rw [new]
        exact Nat.le_trans expired (Nat.le_trans past (Nat.le_add_right _ _))
      · rw [new]
        exact earlier
    · rw [(others mem).1]
      exact before b (inv.mem_unlinked.mp mem).2

theorem Inv.pollBegin (inv : Inv s) : Inv s.pollBegin := by
  unfold Timers.pollBegin
  by_cases polled : s.poll.isSome
  · rw [if_pos polled]
    exact inv
  · rw [if_neg polled]
    exact ⟨inv.agenda, inv.members, inv.pending, inv.expiry, inv.orders, inv.lawful, by simp [lastFired]⟩

theorem Inv.pollEnded (inv : Inv s) {jfs : BitVec 64}
    (none_ : ∀ tmr, ∀ start ∈ latest tmr s.events, jfs.toNat < start.expiry) :
    Inv { s with poll := none, events := .pollEnded jfs :: s.events } :=
  ⟨inv.agenda, inv.members, inv.pending, inv.expiry, inv.orders, ⟨none_, inv.lawful⟩, by simp⟩

theorem Inv.fired (inv : Inv s) {jfs : BitVec 64} {rest : List Nat} (polled : jfs ∈ s.poll)
    (head : s.tmrl = tmr :: rest) (due : ¬ jfs < (s.timers tmr).jfs) :
    Inv { s with timers := Function.update s.timers tmr { s.timers tmr with th := none }
                 tmrl := rest
                 events := .fired tmr s.jiffies :: s.events } := by
  have nodup : tmr ∉ rest ∧ rest.Nodup := List.nodup_cons.mp (head ▸ inv.nodup)
  have first : tmr ∈ s.tmrl := head ▸ List.mem_cons_self
  have others {b : Nat} (mem : b ∈ rest) : tmr ≠ b := by
    rintro rfl
    exact nodup.1 mem
  have same {b : Nat} (mem : b ∈ rest) : began (.fired tmr s.jiffies :: s.events) b = began s.events b := by
    apply began_other
    rw [latest_fired, if_neg (others mem)]
  have within {b : Nat} (mem : b ∈ rest) : b ∈ s.tmrl := head ▸ List.mem_cons_of_mem _ mem
  have agenda := head ▸ inv.agenda
  rcases inv.polling jfs polled with ⟨past, last⟩
  have waiting := latest_began ((inv.pending tmr).mp first)
  have expired : (began s.events tmr).expiry ≤ jfs.toNat := by
    rw [← inv.expiry tmr first]
    exact BitVec.le_def.mp (BitVec.not_lt.mp due)
  constructor
  case agenda =>
    apply (List.pairwise_cons.mp agenda).2.imp_of_mem
    intro a b mem mem' before
    rw [same mem, same mem']
    exact before
  case members =>
    intro b
    dsimp only
    by_cases own : b = tmr
    · rw [own, Function.update_self]
      simp [nodup.1]
    · rw [Function.update_of_ne own, ← inv.members b, head]
      simp [own]
  case pending =>
    intro b
    dsimp only
    rw [latest_fired]
    by_cases own : tmr = b
    · rw [if_pos own, ← own]
      simp [nodup.1]
    · rw [if_neg own, ← inv.pending b, head]
      simp [Ne.symm own]
  case expiry =>
    intro b mem
    dsimp only
    rw [Function.update_of_ne (others mem).symm, same mem]
    exact inv.expiry b (within mem)
  case orders =>
    intro b mem
    dsimp only
    rw [same mem]
    exact inv.orders b (within mem)
  case lawful =>
    refine ⟨⟨_, waiting, Nat.le_trans expired past, ?_⟩, inv.lawful⟩
    intro prev fired
    exact (last prev fired).2.2 tmr first
  case polling =>
    intro jfs' polled'
    rw [Option.mem_unique polled' polled]
    refine ⟨past, ?_⟩
    intro prev fired
    rw [← began_latest fired]
    refine ⟨expired, inv.orders tmr first, ?_⟩
    intro b mem
    rw [same mem]
    exact (List.pairwise_cons.mp agenda).1 b mem

theorem Inv.pollNext (inv : Inv s) : Inv s.pollNext := by
  cases polled : s.poll with
  | none =>
    rw [pollNext_none polled]
    exact inv
  | some jfs =>
    cases head : s.tmrl with
    | nil =>
      rw [pollNext_nil polled head]
      apply inv.pollEnded
      intro tmr start waiting
      have mem := (inv.pending tmr).mpr (Option.isSome_of_mem waiting)
      rw [head] at mem
      exact absurd mem List.not_mem_nil
    | cons tmr rest =>
      by_cases late : jfs < (s.timers tmr).jfs
      · rw [pollNext_late polled head late]
        exact inv.pollEnded fun tmr' start => inv.due head late
      · have set : (s.timers tmr).th.isSome := (inv.members tmr).mp (head ▸ List.mem_cons_self)
        rw [pollNext_due polled head late, if_pos set]
        exact inv.fired polled head late

/-- With its clock read once, a poll goes through a list that no handler adds to. -/
theorem poll_ends (s : Timers) : ∃ n, ((List.replicate n Action.pollNext).foldl step s).poll = none := by
  have lowers (s : Timers) (_ : True) (running : ¬ s.poll = none) : True ∧
      (step s .pollNext).tmrl.length + (step s .pollNext).poll.toList.length < s.tmrl.length + s.poll.toList.length := by
    rw [show step s .pollNext = s.pollNext from rfl]
    rcases Option.ne_none_iff_exists'.mp running with ⟨jfs, polled⟩
    cases head : s.tmrl with
    | nil =>
      rw [pollNext_nil polled head]
      simp [polled, head]
    | cons tmr rest =>
      by_cases late : jfs < (s.timers tmr).jfs
      · rw [pollNext_late polled head late]
        simp [polled, head]
      · rw [pollNext_due polled head late]
        simp
  exact reaches_of_rank (P := fun _ => True) (fun s : Timers => s.tmrl.length + s.poll.toList.length) Action.pollNext lowers s trivial

theorem Inv.timeout (inv : Inv s) (zero : s.tmrNextTimeout = 0) : ∀ tmr, (s.timers tmr).th = none := by
  cases head : s.tmrl with
  | nil =>
    intro tmr
    apply Option.not_isSome_iff_eq_none.mp
    rw [← inv.members tmr, head]
    exact List.not_mem_nil
  | cons tmr rest =>
    have first : s.tmrNextTimeout =
        if (s.timers tmr).jfs ≤ s.jiffies then 1 else (s.timers tmr).jfs - s.jiffies := by
      simp [Timers.tmrNextTimeout, head]
    rw [first] at zero
    by_cases past : (s.timers tmr).jfs ≤ s.jiffies
    · rw [if_pos past] at zero
      exact absurd zero (by decide)
    · rw [if_neg past] at zero
      exact absurd (BitVec.le_of_eq ((BitVec.sub_eq_iff_eq_add.mp zero).trans (BitVec.zero_add _))) past

theorem Inv.kept (inv : Inv s) : Kept s where
  sorted := inv.sorted
  once := inv.nodup
  members := inv.members
  pending tmr := (inv.members tmr).symm.trans (inv.pending tmr)
  expiry tmr mem start waiting := by rw [inv.expiry tmr mem, began_latest waiting]
  lawful := inv.lawful
  timeout := inv.timeout
  ends := poll_ends s

theorem Inv.step (inv : Inv s) {a : Action} (fits : NoWrap s a) : Inv (step s a) := by
  cases a with
  | clock jiffies => exact inv.clock jiffies
  | start tmr delay th arg =>
    cases th with
    | none => exact inv.cleared arg
    | some th => exact inv.started th arg (fits rfl)
  | cancel tmr => exact inv.cleared 0
  | pollBegin => exact inv.pollBegin
  | pollNext => exact inv.pollNext

theorem init_inv : Inv init where
  agenda := List.Pairwise.nil
  members := by simp [init]
  pending := by simp [init, latest]
  expiry := by simp [init]
  orders := by simp [init]
  lawful := trivial
  polling := by simp [init]

/-- The expiry that the code stores for a timer is the right one only when the addition does not wrap. -/
theorem Kept.fits {a : Action} (kept : Kept (Tmrl.step s a)) : NoWrap s a := by
  cases a with
  | start tmr delay th arg =>
    intro set
    rcases Option.isSome_iff_exists.mp set with ⟨handler, rfl⟩
    have own : ((Tmrl.step s (.start tmr delay (some handler) arg)).timers tmr) = ⟨some handler, arg, delay + s.jiffies⟩ :=
      Function.update_self _ _ _
    have mem := (kept.members tmr).mpr (by rw [own]; rfl)
    have wrapped := kept.expiry tmr mem ⟨s.jiffies, delay, s.starts⟩ (if_pos rfl)
    rw [own] at wrapped
    dsimp only [Start.expiry] at wrapped
    rw [← wrapped]
    exact BitVec.isLt _
  | clock | cancel | pollBegin | pollNext => trivial

theorem timers_in_order (actions : List Action) :
    Throughout Tmrl.step Kept init actions ↔ Along Tmrl.step NoWrap init actions := by
  constructor
  · apply along_of_throughout
    intro s a
    exact Kept.fits
  · intro fits
    have run := throughout_of_guarded (P := Inv) (fun s a inv => inv.step) init_inv fits
    exact run.mono fun s => Inv.kept

/-- A timer with the longest delay is due one millisecond before it was started. -/
theorem fired_too_early : ¬ Throughout Tmrl.step Kept init
    [.clock 1, .start 7 0xffffffffffffffff (some 3) 9, .pollBegin, .pollNext] := by
  intro run
  have fired : Lawful [.fired 7 1, .pollBegan, .started 7 ⟨1, 0xffffffffffffffff, 0⟩] := run.last.lawful
  rcases fired.1 with ⟨start, waiting, expired, _⟩
  have only : start = ⟨1, 0xffffffffffffffff, 0⟩ := (Option.some.inj waiting).symm
  rw [only] at expired
  exact absurd expired (by decide)

end

end Baresip.Tmrl
