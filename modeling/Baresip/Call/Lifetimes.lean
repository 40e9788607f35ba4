import Baresip.Call.Notifier
import Baresip.Library.Runs

set_option linter.dupNamespace false

namespace Baresip.Call

open Re Library

variable (sendOk : Nat → Bool)

/-- No event finds a destroyed call, and none can. -/
structure Lives (w : World) : Prop where
  args : Args w
  safe : w.dangling = false

/-- No notifier is left with the call as its argument when it is destroyed: each one is the call's own, and
    ends with it because it is notified or nothing else refers to it. -/
def Leaves (w : World) (c : Nat) (notified : Bool) : Prop :=
  ∀ n < w.nnots, ∀ not ∈ w.nots n, not.terminated = false → not.arg = c →
    (w.calls c).bind (·.not) = some n ∧ (notified = true ∨ not.nrefs ≤ 1)

def Careful (w : World) : Action → Prop
  | .closed c reason => Leaves w c (finalStatus reason.scode)
  | .hangup c => Leaves w c false
  | _ => True

instance (w : World) (c : Nat) (notified : Bool) : Decidable (Leaves w c notified) :=
  @Nat.decidableBallLT w.nnots _ fun _ _ => inferInstance

instance (w : World) : (a : Action) → Decidable (Careful w a)
  | .closed c reason => inferInstanceAs (Decidable (Leaves w c (finalStatus reason.scode)))
  | .hangup c => inferInstanceAs (Decidable (Leaves w c false))
  | .newCall _ | .refer _ _ | .progress _ _ | .established _ | .timer _ | .response _ _ | .subscribe _ _ _ =>
    isTrue trivial

structure Inv (w : World) : Prop where
  once : Once w
  args : Args w
  fresh : ∀ c, w.ncalls ≤ c → w.calls c = none
  safe : w.dangling = false

theorem Inv.lives {w : World} (inv : Inv w) : Lives w := ⟨inv.args, inv.safe⟩

theorem Inv.leads {w w' : World} (inv : Inv w) (leads : Leads w w') : Inv w' := by
  constructor
  · exact leads.once
  · exact leads.args inv.args
  · intro c fresh
    rw [leads.ncalls] at fresh
    have gone := leads.calls c
    rw [inv.fresh c fresh] at gone
    exact Option.isNone_iff_eq_none.mp (by simpa using gone)
  · rw [leads.dangling inv.args, inv.safe]

theorem Leaves.own {w : World} {c : Nat} {notified : Bool} (leaves : Leaves w c notified) (once : Once w)
    {n : Nat} {not : Sipnot} (here : w.nots n = some not) (open_ : not.terminated = false)
    (arg : not.arg = c) : (w.calls c).bind (·.not) = some n ∧ (notified = true ∨ not.nrefs ≤ 1) := by
  have known : n < w.nnots := by
    by_contra fresh
    rw [(once.fresh n (Nat.not_lt.mp fresh)).1] at here
    contradiction
  exact leaves n known not here open_ arg

theorem once_setCall {w : World} (once : Once w) (c : Nat) (call : Option CallObj) : Once (w.setCall c call) :=
  ⟨once.unsent, once.atMost, once.order, once.fresh⟩

theorem setCall_calls (w : World) (c c' : Nat) (call : Option CallObj) :
    (w.setCall c call).calls c' = if c' = c then call else w.calls c' := by
  simp [World.setCall, Function.update_apply]

theorem inv_setCall_none {w : World} (inv : Inv w) {c : Nat}
    (unowned : ∀ n not, w.nots n = some not → not.terminated = false → not.arg ≠ c) :
    Inv (w.setCall c none) := by
  constructor
  · exact once_setCall inv.once c none
  · intro n not here open_
    rw [setCall_calls, if_neg (unowned n not here open_)]
    exact inv.args n not here open_
  · intro c' fresh
    rw [setCall_calls]
    split
    · rfl
    · exact inv.fresh c' fresh
  · exact inv.safe

theorem destroyCall_once {w : World} (once : Once w) (c : Nat) : Once (destroyCall sendOk w c) := by
  unfold destroyCall
  split
  · exact once_setCall once c none
  · exact once_setCall (derefNot_leads sendOk once _).1.once c none

theorem destroyCall_inv {w : World} (inv : Inv w) {c : Nat} (leaves : Leaves w c false) :
    Inv (destroyCall sendOk w c) := by
  unfold destroyCall
  cases own : (w.calls c).bind (·.not) with
  | none =>
    apply inv_setCall_none inv
    intro n not here open_ arg
    have no := (leaves.own inv.once here open_ arg).1
    rw [own] at no
    contradiction
  | some n =>
    have left := derefNot_leads sendOk inv.once n
    apply inv_setCall_none (inv.leads left.1)
    intro m not' there open_ arg
    obtain ⟨not, here, open', arg'⟩ := left.1.descends m not' there open_
    have last := leaves.own inv.once here open' (arg'.symm.trans arg)
    obtain rfl := Option.some.inj (own.symm.trans last.1)
    have ended := left.2 (fun not₀ here₀ => by
      obtain rfl := Option.some.inj (here.symm.trans here₀)
      simpa using last.2)
    rw [ended not' there] at open_
    contradiction

structure Keeps (w w' : World) : Prop where
  once : Once w'
  inv : Inv w → Inv w'

theorem Leads.keeps {w w' : World} (leads : Leads w w') : Keeps w w' := ⟨leads.once, fun inv => inv.leads leads⟩

theorem Keeps.trans {w w' w'' : World} (first : Keeps w w') (second : Keeps w' w'') : Keeps w w'' :=
  ⟨second.once, fun inv => second.inv (first.inv inv)⟩

theorem newCall_keeps {w : World} (once : Once w) (not : Option Nat) (state : CallState) :
    Keeps w (newCall w not state) := by
  have once' : Once (newCall w not state) := ⟨once.unsent, once.atMost, once.order, once.fresh⟩
  refine ⟨once', fun inv => ⟨once', ?_, ?_, inv.safe⟩⟩
  · intro n not' here open_
    have lives := inv.args n not' here open_
    simp only [newCall, setCall_calls]
    split
    · rfl
    · exact lives
  · intro c fresh
    have fresh' : w.ncalls + 1 ≤ c := fresh
    simp only [newCall, setCall_calls]
    rw [if_neg (by omega)]
    exact inv.fresh c (by omega)

theorem sipeventAccept_nots (w : World) (c : Nat) (expires : Option Nat) (n : Nat) :
    (sipeventAccept w c expires).nots n = if n = w.nnots then some (.accept c expires) else w.nots n :=
  setNot_nots w w.nnots n _

theorem sipeventAccept_keeps {w : World} (once : Once w) {c : Nat} (lives : (w.calls c).isSome = true)
    (expires : Option Nat) : Keeps w (sipeventAccept w c expires) := by
  have once' : Once (sipeventAccept w c expires) := by
    constructor
    · intro n not here unsent
      rw [sipeventAccept_nots] at here
      split at here
      · rename_i new
        rw [new]
        exact (once.fresh w.nnots (Nat.le_refl _)).2
      · exact once.unsent n not here unsent
    · exact once.atMost
    · intro n not here sent
      rw [sipeventAccept_nots] at here
      split at here
      · obtain rfl := Option.some.inj here
        contradiction
      · exact once.order n not here sent
    · intro n fresh
      have fresh' : w.nnots + 1 ≤ n := fresh
      rw [sipeventAccept_nots, if_neg (by omega)]
      exact once.fresh n (by omega)
  refine ⟨once', fun inv => ⟨once', ?_, inv.fresh, inv.safe⟩⟩
  intro n not here open_
  rw [sipeventAccept_nots] at here
  split at here
  · obtain rfl := Option.some.inj here
    exact lives
  · exact inv.args n not here open_

theorem leads_map {w : World} (once : Once w) (c : Nat) (f : CallObj → CallObj) :
    Leads w (w.setCall c ((w.calls c).map f)) :=
  leads_setCall once c _ Option.isSome_map

theorem share_leads {w : World} (once : Once w) (not : Option Nat) : Leads w (not.elim w (refNot w)) := by
  cases not with
  | none => exact Leads.refl once
  | some n => exact refNot_leads once n

theorem transfer_keeps {w : World} (once : Once w) (c : Nat) (alloc connect : Bool) :
    Keeps w (transfer sendOk w c alloc connect) := by
  have shared := share_leads once ((w.calls c).bind (·.not))
  have next := newCall_keeps shared.once ((w.calls c).bind (·.not)) .outgoing
  unfold transfer
  split
  · exact (callNotifySipfrag_leads sendOk once c 500).1.keeps
  · dsimp only
    split
    · exact shared.keeps.trans next
    · have told := (callNotifySipfrag_leads sendOk next.once c 500).1
      refine ⟨destroyCall_once sendOk told.once w.ncalls, fun inv => ?_⟩
      have inv' := inv.leads shared
      apply destroyCall_inv sendOk ((next.inv inv').leads told)
      -- The new call is the argument of no notifier yet.
      intro n _ not' there open_ arg
      obtain ⟨not, here, open', arg'⟩ := told.descends n not' there open_
      have lives := inv'.args n not here open'
      rw [← arg', arg, ← shared.ncalls, inv'.fresh _ (Nat.le_refl _)] at lives
      contradiction

theorem sipsessReferHandler_keeps {w : World} (once : Once w) {c : Nat} (lives : (w.calls c).isSome = true)
    (refer : Refer) : Keeps w (sipsessReferHandler sendOk w c refer) := by
  have dropped := derefCallNot_leads sendOk (Leads.refl once) fun _ => lives
  have lives' : ((derefCallNot sendOk w c).calls c).isSome = true := by rw [dropped.calls, lives]
  have accepted := sipeventAccept_keeps dropped.once lives' refer.expires
  have owned := leads_map accepted.once c fun call => { call with not := some (derefCallNot sendOk w c).nnots }
  have told := owned.trans (callNotifySipfrag_leads sendOk owned.once c 100).1
  unfold sipsessReferHandler
  split
  · exact (Leads.refl once).keeps
  · dsimp only
    split
    · exact dropped.keeps
    · exact dropped.keeps.trans (accepted.trans (told.keeps.trans (transfer_keeps sendOk told.once c _ _)))

theorem callNotifySipfrag_active (w : World) (c : Nat) {scode : Nat} (early : ¬ 200 ≤ scode) :
    (callNotifySipfrag sendOk w c scode).calls = w.calls ∧
      ∀ n not', (callNotifySipfrag sendOk w c scode).nots n = some not' →
        ∃ not, w.nots n = some not ∧ not'.nrefs = not.nrefs := by
  have same : ∀ {m : Nat} {old new : Sipnot}, w.nots m = some old → new.nrefs = old.nrefs →
      ∀ n not', (w.setNot m (some new)).nots n = some not' → ∃ not, w.nots n = some not ∧ not'.nrefs = not.nrefs := by
    intro m old new here nrefs n not' there
    rw [setNot_nots] at there
    split at there
    · rename_i at_
      obtain rfl := Option.some.inj there
      rw [at_]
      exact ⟨old, here, nrefs⟩
    · exact ⟨not', there, rfl⟩
  have refl_ : w.calls = w.calls ∧ ∀ n not', w.nots n = some not' → ∃ not, w.nots n = some not ∧ not'.nrefs = not.nrefs :=
    ⟨rfl, fun n not' here => ⟨not', here, rfl⟩⟩
  unfold callNotifySipfrag
  split
  · exact refl_
  · rename_i m own
    rw [if_neg early]
    unfold sipeventNotify
    cases here : w.nots m with
    | none => exact refl_
    | some not =>
      dsimp only
      split
      · exact refl_
      · unfold sipnotNotify
        dsimp only
        split
        · exact ⟨rfl, same here rfl⟩
        · split
          · exact ⟨rfl, same here rfl⟩
          · obtain ⟨new, nrefs, -, -, -, request⟩ := notifyRequest_spec sendOk w m
              { not with mb := some scode, substate := .active } true
            rw [request]
            exact ⟨rfl, same here nrefs⟩

theorem sipsessCloseHandler_once {w : World} (once : Once w) (c : Nat) (reason : CloseReason) :
    Once (sipsessCloseHandler sendOk w c reason) := by
  unfold sipsessCloseHandler
  split
  · exact destroyCall_once sendOk once c
  · exact destroyCall_once sendOk (callNotifySipfrag_leads sendOk once c _).1.once c

theorem sipsessCloseHandler_inv {w : World} (inv : Inv w) {c : Nat} {reason : CloseReason}
    (leaves : Leaves w c (finalStatus reason.scode)) : Inv (sipsessCloseHandler sendOk w c reason) := by
  unfold sipsessCloseHandler
  cases status : reason.scode with
  | none =>
    rw [status] at leaves
    exact destroyCall_inv sendOk inv leaves
  | some scode =>
    rw [status] at leaves
    obtain ⟨told, ends⟩ := callNotifySipfrag_leads sendOk inv.once c scode
    apply destroyCall_inv sendOk (inv.leads told)
    intro n _ not' there open_ arg
    obtain ⟨not, here, open', arg'⟩ := told.descends n not' there open_
    have last := leaves.own inv.once here open' (arg'.symm.trans arg)
    by_cases final : 200 ≤ scode
    · have ended := ends final n last.1 not' there
      rw [open_] at ended
      contradiction
    · have frame := callNotifySipfrag_active sendOk w c final
      obtain ⟨not₀, here₀, nrefs⟩ := frame.2 n not' there
      obtain rfl := Option.some.inj (here.symm.trans here₀)
      rw [frame.1, nrefs]
      refine ⟨last.1, Or.inr ?_⟩
      simpa [finalStatus, final] using last.2

theorem sipsessEstabHandler_leads {w : World} (once : Once w) {c : Nat} {call : CallObj}
    (here : w.calls c = some call) : Leads w (sipsessEstabHandler sendOk w c call) := by
  unfold sipsessEstabHandler
  split
  · exact Leads.refl once
  · have placed := leads_setCall once c (some { call with state := .established }) (by rw [here]; rfl)
    exact placed.trans (callNotifySipfrag_leads sendOk placed.once c 200).1

theorem sipsessProgrHandler_leads {w : World} (once : Once w) (c scode : Nat) :
    Leads w (sipsessProgrHandler w c scode) := leads_map once c _

theorem step_keeps {w : World} (once : Once w) (a : Action) :
    Once (step sendOk w a) ∧ (Inv w → Careful w a → Inv (step sendOk w a)) := by
  have whole : ∀ {w'}, Keeps w w' → Once w' ∧ (Inv w → Careful w a → Inv w') :=
    fun keeps => ⟨keeps.once, fun inv _ => keeps.inv inv⟩
  cases a with
  | newCall state => exact whole (newCall_keeps once none state)
  | refer c refer =>
    dsimp only [step]
    split
    · rename_i lives
      exact whole (sipsessReferHandler_keeps sendOk once lives refer)
    · exact whole (Leads.refl once).keeps
  | progress c scode => exact whole (sipsessProgrHandler_leads once c scode).keeps
  | established c =>
    dsimp only [step]
    split
    · exact whole (Leads.refl once).keeps
    · rename_i here
      exact whole (sipsessEstabHandler_leads sendOk once here).keeps
  | closed c reason =>
    dsimp only [step]
    split
    · exact ⟨sipsessCloseHandler_once sendOk once c reason,
        fun inv leaves => sipsessCloseHandler_inv sendOk inv leaves⟩
    · exact whole (Leads.refl once).keeps
  | hangup c =>
    dsimp only [step]
    split
    · exact ⟨destroyCall_once sendOk once c, fun inv leaves => destroyCall_inv sendOk inv leaves⟩
    · exact whole (Leads.refl once).keeps
  | timer n => exact whole (tmrHandler_leads sendOk once n).keeps
  | response n r =>
    dsimp only [step]
    split
    · exact whole (Leads.refl once).keeps
    · rename_i here
      split
      · exact whole (responseHandler_leads sendOk once here r).keeps
      · exact whole (Leads.refl once).keeps
  | subscribe n expires rseqValid =>
    exact whole (subscribeHandler_leads sendOk once n expires rseqValid).keeps

theorem inv_initial : Inv initial := by
  constructor
  · constructor
    · exact fun _ _ here => by contradiction
    · exact fun _ => Nat.zero_le _
    · exact fun _ _ here => by contradiction
    · exact fun _ _ => ⟨rfl, rfl⟩
  · exact fun _ _ here => by contradiction
  · exact fun _ _ => rfl
  · rfl

/-- In every run, no notifier sends a second final NOTIFY but to answer challenges to the first. When no
    call is destroyed that leaves a notifier, each notifier that is not terminated finds its call. -/
theorem notifiers_end_with_calls (as : List Action) :
    Throughout (step sendOk) (fun w => ∀ n, finals w n ≤ 1 + resent w n) initial as ∧
      (Along (step sendOk) Careful initial as → Throughout (step sendOk) Lives initial as) := by
  constructor
  · have once : Throughout (step sendOk) Once initial as :=
      throughout_of_invariant (fun w a once => (step_keeps sendOk once a).1) inv_initial.once
    exact once.mono fun w once => once.atMost
  · intro careful
    have inv : Throughout (step sendOk) Inv initial as :=
      throughout_of_guarded (fun w a inv careful => (step_keeps sendOk inv.once a).2 inv careful) inv_initial careful
    exact inv.mono fun w => Inv.lives

theorem notifiers_end_with_calls_transferred :
    Throughout (step fun _ => true) Lives initial
      [.newCall .established, .refer 0 ⟨true, true, none, true, true⟩, .response 0 (.status 200 false),
        .progress 1 180, .established 1, .response 0 (.status 200 false), .hangup 0, .hangup 1] :=
  (notifiers_end_with_calls (fun _ => true) _).2 (by decide)

/-- The transferred call hangs up before the new one is established, and the notifier keeps it as its
    argument. A final NOTIFY is challenged, and sent again. -/
theorem notifier_outlives_call :
    ¬ Throughout (step fun _ => true) Lives initial
      [.newCall .established, .refer 0 ⟨true, true, none, true, true⟩, .hangup 0] ∧
    ¬ Throughout (step fun _ => true) (fun w => ∀ n, finals w n ≤ 1) initial
      [.newCall .established, .refer 0 ⟨true, true, none, true, true⟩, .response 0 (.status 200 false),
        .established 1, .response 0 (.status 401 true)] := by
  constructor
  · intro always
    have lives := always.last.args 0 _ rfl rfl
    contradiction
  · intro always
    have once := always.last 0
    exact absurd once (by decide)

end Baresip.Call
