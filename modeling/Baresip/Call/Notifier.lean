import Baresip.Call.Transfer

set_option linter.dupNamespace false

namespace Baresip.Call

open Re

variable (sendOk : Nat → Bool)

def finalStatus (scode : Option Nat) : Bool := scode.any (200 ≤ ·)

def Notify.final (n : Nat) (notify : Notify) : Bool :=
  notify.sipnot == n && notify.terminated && finalStatus notify.scode

def finals (w : World) (n : Nat) : Nat := w.sent.countP (Notify.final n)

def resent (w : World) (n : Nat) : Nat := w.sent.countP fun notify => notify.final n && notify.again

/-- The argument of a notifier that is not terminated is a call that was not destroyed. -/
def Args (w : World) : Prop :=
  ∀ n not, w.nots n = some not → not.terminated = false → (w.calls not.arg).isSome = true

structure Once (w : World) : Prop where
  unsent : ∀ n not, w.nots n = some not → not.termsent = false → finals w n = 0
  atMost : ∀ n, finals w n ≤ 1 + resent w n
  order : ∀ n not, w.nots n = some not → not.termsent = true → not.terminated = true
  fresh : ∀ n, w.nnots ≤ n → w.nots n = none ∧ finals w n = 0

/-- What the operations on notifiers can do: no call comes or goes, and every notifier that is not
    terminated was there before with the same argument. -/
structure Leads (w w' : World) : Prop where
  once : Once w'
  descends : ∀ n not', w'.nots n = some not' → not'.terminated = false →
    ∃ not, w.nots n = some not ∧ not.terminated = false ∧ not'.arg = not.arg
  calls : ∀ c, (w'.calls c).isSome = (w.calls c).isSome
  ncalls : w'.ncalls = w.ncalls
  nnots : w'.nnots = w.nnots
  dangling : Args w → w'.dangling = w.dangling

theorem Leads.args {w w' : World} (leads : Leads w w') (args : Args w) : Args w' := by
  intro n not' here open_
  obtain ⟨not, there, open', arg⟩ := leads.descends n not' here open_
  rw [arg, leads.calls]
  exact args n not there open'

theorem Leads.refl {w : World} (once : Once w) : Leads w w :=
  ⟨once, fun _ not here open_ => ⟨not, here, open_, rfl⟩, fun _ => rfl, rfl, rfl, fun _ => rfl⟩

theorem Leads.trans {w w' w'' : World} (first : Leads w w') (second : Leads w' w'') : Leads w w'' := by
  constructor
  · exact second.once
  · intro n not'' here open_
    obtain ⟨not', here', open', arg'⟩ := second.descends n not'' here open_
    obtain ⟨not, here₀, open₀, arg₀⟩ := first.descends n not' here' open'
    exact ⟨not, here₀, open₀, arg'.trans arg₀⟩
  · intro c
    rw [second.calls, first.calls]
  · rw [second.ncalls, first.ncalls]
  · rw [second.nnots, first.nnots]
  · intro args
    rw [second.dangling (first.args args), first.dangling args]

/-- The notifier `new` is `old` with other data: its argument stays, and it does not come back. -/
structure Kept (old new : Sipnot) : Prop where
  arg : new.arg = old.arg
  terminated : old.terminated = true → new.terminated = true
  termsent : new.termsent = old.termsent

theorem Kept.open_ {old new : Sipnot} (kept : Kept old new) (open_ : new.terminated = false) :
    old.terminated = false := by
  cases old_ : old.terminated with
  | false => rfl
  | true =>
    rw [kept.terminated old_] at open_
    contradiction

theorem setNot_nots (w : World) (n m : Nat) (not : Option Sipnot) :
    (w.setNot n not).nots m = if m = n then not else w.nots m := by
  simp [World.setNot, Function.update_apply]

theorem leads_put {w w' : World} (once : Once w) {n : Nat} {old new : Sipnot} (here : w.nots n = some old)
    (nots : w'.nots = (w.setNot n (some new)).nots) (calls : w'.calls = w.calls)
    (ncalls : w'.ncalls = w.ncalls) (nnots : w'.nnots = w.nnots) (dangling : w'.dangling = w.dangling)
    (arg : new.arg = old.arg) (opens : new.terminated = false → old.terminated = false)
    (order : new.termsent = true → new.terminated = true)
    (unsent : new.termsent = false → finals w' n = 0) (atMost : finals w' n ≤ 1 + resent w' n)
    (others : ∀ m, m ≠ n → finals w' m = finals w m ∧ resent w' m = resent w m) : Leads w w' := by
  have at_ : ∀ m, w'.nots m = if m = n then some new else w.nots m := by
    intro m
    rw [nots, setNot_nots]
  have known : ∀ m, w.nnots ≤ m → m ≠ n := by
    rintro m fresh rfl
    rw [(once.fresh m fresh).1] at here
    contradiction
  constructor
  · constructor
    · intro m not there open_
      rw [at_] at there
      split at there
      · rename_i same
        obtain rfl := Option.some.inj there
        rw [same]
        exact unsent open_
      · rename_i other
        rw [(others m other).1]
        exact once.unsent m not there open_
    · intro m
      by_cases same : m = n
      · rw [same]
        exact atMost
      · rw [(others m same).1, (others m same).2]
        exact once.atMost m
    · intro m not there sent
      rw [at_] at there
      split at there
      · obtain rfl := Option.some.inj there
        exact order sent
      · exact once.order m not there sent
    · intro m fresh
      rw [nnots] at fresh
      have other := known m fresh
      rw [at_, if_neg other, (others m other).1]
      exact once.fresh m fresh
  · intro m not there open_
    rw [at_] at there
    split at there
    · rename_i same
      obtain rfl := Option.some.inj there
      rw [same]
      exact ⟨old, here, opens open_, arg⟩
    · exact ⟨not, there, open_, rfl⟩
  · intro c
    rw [calls]
  · exact ncalls
  · exact nnots
  · exact fun _ => dangling

theorem leads_setNot {w : World} (once : Once w) {n : Nat} {old new : Sipnot} (here : w.nots n = some old)
    (kept : Kept old new) : Leads w (w.setNot n (some new)) := by
  apply leads_put once here rfl rfl rfl rfl rfl kept.arg kept.open_
  · intro sent
    exact kept.terminated (once.order n old here (kept.termsent.symm.trans sent))
  · intro open_
    exact once.unsent n old here (kept.termsent.symm.trans open_)
  · exact once.atMost n
  · exact fun _ _ => ⟨rfl, rfl⟩

theorem leads_free {w : World} (once : Once w) (n : Nat) : Leads w (w.setNot n none) := by
  have old : ∀ {m not}, (w.setNot n none).nots m = some not → w.nots m = some not := by
    intro m not at_
    rw [setNot_nots] at at_
    split at at_
    · contradiction
    · exact at_
  constructor
  · constructor
    · exact fun m not at_ => once.unsent m not (old at_)
    · exact once.atMost
    · exact fun m not at_ => once.order m not (old at_)
    · intro m fresh
      rw [setNot_nots]
      split
      · exact ⟨rfl, (once.fresh m fresh).2⟩
      · exact once.fresh m fresh
  · exact fun m not at_ open_ => ⟨not, old at_, open_, rfl⟩
  · exact fun _ => rfl
  · rfl
  · rfl
  · exact fun _ => rfl

theorem notifyRequest_spec (w : World) (n : Nat) (not : Sipnot) (resetLs : Bool) :
    ∃ new : Sipnot, new.nrefs = not.nrefs ∧ new.arg = not.arg ∧ new.terminated = not.terminated ∧
      new.termsent = (not.termsent || not.terminated) ∧
      notifyRequest sendOk w n not resetLs = (sendOk w.attempts,
        { w.setNot n (some new) with
          attempts := w.attempts + 1
          sent := if sendOk w.attempts then
            w.sent ++ [⟨n, not.terminated, not.mb, !resetLs && not.termsent⟩] else w.sent }) := by
  exists { not with
    ls := if resetLs then .reset else not.ls
    req := if sendOk w.attempts then true else not.req
    notifyPending := false
    termsent := not.termsent || not.terminated }
  unfold notifyRequest
  cases sendOk w.attempts
  · exact ⟨rfl, rfl, rfl, rfl, rfl⟩
  · exact ⟨rfl, rfl, rfl, rfl, rfl⟩

theorem notifyRequest_leads {w : World} (once : Once w) {n : Nat} {old not : Sipnot}
    (here : w.nots n = some old) (kept : Kept old not) (resetLs : Bool)
    (first : resetLs = true → not.terminated = true → not.termsent = false) :
    Leads w (notifyRequest sendOk w n not resetLs).2 := by
  have none : not.termsent = false → finals w n = 0 :=
    fun unsent => once.unsent n old here (kept.termsent.symm.trans unsent)
  obtain ⟨new, -, arg, terminated, termsent, request⟩ := notifyRequest_spec sendOk w n not resetLs
  have counted : ∀ P : Notify → Bool, (notifyRequest sendOk w n not resetLs).2.sent.countP P =
      w.sent.countP P + if sendOk w.attempts = true ∧
        P ⟨n, not.terminated, not.mb, !resetLs && not.termsent⟩ = true then 1 else 0 := by
    intro P
    rw [request]
    by_cases ok : sendOk w.attempts = true
    · simp [ok, List.countP_append, List.countP_singleton]
    · simp [ok]
  have placed : (notifyRequest sendOk w n not resetLs).2.nots = (w.setNot n (some new)).nots := by
    rw [request]
  apply leads_put once here placed
  · rw [request]; rfl
  · rw [request]; rfl
  · rw [request]; rfl
  · rw [request]; rfl
  · exact arg.trans kept.arg
  · exact fun open_ => kept.open_ (terminated.symm.trans open_)
  · intro sent
    rw [terminated]
    rw [termsent, Bool.or_eq_true] at sent
    rcases sent with sent | ended
    · exact kept.terminated (once.order n old here (kept.termsent.symm.trans sent))
    · exact ended
  · intro unsent
    rw [termsent, Bool.or_eq_false_iff] at unsent
    rw [finals, counted, ← finals, none unsent.1]
    simp [Notify.final, unsent.2]
  · rw [finals, resent, counted, counted, ← finals, ← resent]
    have before := once.atMost n
    by_cases final : sendOk w.attempts = true ∧ not.terminated = true ∧ finalStatus not.mb = true
    · obtain ⟨ok, ended, status⟩ := final
      by_cases again : resetLs = false ∧ not.termsent = true
      · simp [Notify.final, ok, ended, status, again]
        omega
      · have unsent : not.termsent = false := by
          cases resetLs with
          | true => exact first rfl ended
          | false => simpa using again
        simp [Notify.final, ok, ended, status, unsent, none unsent]
    · have not_ : ¬ (sendOk w.attempts = true ∧
          Notify.final n ⟨n, not.terminated, not.mb, !resetLs && not.termsent⟩ = true) := by
        simpa [Notify.final] using final
      rw [if_neg not_]
      omega
  · intro m other
    rw [finals, resent, counted, counted]
    simp [Notify.final, Ne.symm other, finals, resent]

def Ended (w : World) (n : Nat) : Prop := ∀ not, w.nots n = some not → not.terminated = true

theorem Leads.ended {w w' : World} (leads : Leads w w') {n : Nat} (ended : Ended w n) : Ended w' n := by
  intro not' here
  cases open_ : not'.terminated with
  | true => rfl
  | false =>
    obtain ⟨not, there, open', -⟩ := leads.descends n not' here open_
    rw [ended not there] at open'
    contradiction

theorem refNot_leads {w : World} (once : Once w) (n : Nat) : Leads w (refNot w n) := by
  unfold refNot
  cases here : w.nots n with
  | none => exact leads_free once n
  | some not => exact leads_setNot once here ⟨rfl, id, rfl⟩

theorem ended_setNot {w : World} {n : Nat} {not : Sipnot} (ended : not.terminated = true) :
    Ended (w.setNot n (some not)) n := by
  intro not' here
  rw [setNot_nots, if_pos rfl] at here
  obtain rfl := Option.some.inj here
  exact ended

theorem ended_free (w : World) (n : Nat) : Ended (w.setNot n none) n := by
  intro not here
  rw [setNot_nots, if_pos rfl] at here
  contradiction

theorem notifyRequest_ended (w : World) (n : Nat) {not : Sipnot} (resetLs : Bool)
    (ended : not.terminated = true) : Ended (notifyRequest sendOk w n not resetLs).2 n := by
  obtain ⟨new, -, -, terminated, -, request⟩ := notifyRequest_spec sendOk w n not resetLs
  rw [request]
  exact ended_setNot (terminated.trans ended)

theorem terminate_leads {w : World} (once : Once w) {n : Nat} {old not : Sipnot}
    (here : w.nots n = some old) (kept : Kept old not) (open_ : old.terminated = false)
    (reason : SipeventReason) :
    Leads w (terminate sendOk w n not reason).2 ∧ Ended (terminate sendOk w n not reason).2 n := by
  have unsent : old.termsent = false := by
    cases sent : old.termsent with
    | false => rfl
    | true => rw [once.order n old here sent] at open_; contradiction
  have kept' : Kept old { not with terminated := true, reason := reason, closeh := .internal } :=
    ⟨kept.arg, fun _ => rfl, kept.termsent⟩
  unfold terminate
  dsimp only
  split
  · have placed := leads_setNot once here kept'
    have shared := refNot_leads placed.once n
    exact ⟨placed.trans shared, shared.ended (ended_setNot rfl)⟩
  · split
    · have told := notifyRequest_leads sendOk once here kept' true
        (fun _ _ => kept.termsent.trans unsent)
      have ended : Ended (notifyRequest sendOk w n
          { not with terminated := true, reason := reason, closeh := .internal } true).2 n :=
        notifyRequest_ended sendOk w n true rfl
      split
      · have shared := refNot_leads told.once n
        exact ⟨told.trans shared, shared.ended ended⟩
      · exact ⟨told, ended⟩
    · exact ⟨leads_setNot once here kept', ended_setNot rfl⟩

theorem derefNot_leads {w : World} (once : Once w) (n : Nat) :
    Leads w (derefNot sendOk w n) ∧
      ((∀ not, w.nots n = some not → not.nrefs ≤ 1) → Ended (derefNot sendOk w n) n) := by
  unfold derefNot
  cases here : w.nots n with
  | none =>
    refine ⟨Leads.refl once, fun _ not there => ?_⟩
    rw [here] at there
    contradiction
  | some not =>
    dsimp only
    split
    · rename_i shared
      refine ⟨leads_setNot once here ⟨rfl, id, rfl⟩, fun last => ?_⟩
      exact absurd (last not rfl) (Nat.not_le.mpr shared)
    · split
      · exact ⟨leads_free once n, fun _ => ended_free w n⟩
      · rename_i open_
        have kept : Kept not { not with nrefs := 0, timer := false } := ⟨rfl, id, rfl⟩
        have told := terminate_leads sendOk once here kept (eq_false_of_ne_true open_) .deactivated
        split
        · exact ⟨told.1, fun _ => told.2⟩
        · exact ⟨told.1.trans (leads_free told.1.once n), fun _ => ended_free _ n⟩

theorem leads_setCall {w : World} (once : Once w) (c : Nat) (call : Option CallObj)
    (same : call.isSome = (w.calls c).isSome) : Leads w (w.setCall c call) := by
  constructor
  · exact ⟨once.unsent, once.atMost, once.order, once.fresh⟩
  · exact fun _ not here open_ => ⟨not, here, open_, rfl⟩
  · intro c'
    simp only [World.setCall, Function.update_apply]
    split
    · rename_i at_
      rw [at_]
      exact same
    · rfl
  · rfl
  · rfl
  · exact fun _ => rfl

theorem derefCallNot_leads {w w' : World} (before : Leads w w') {c : Nat}
    (lives : Args w → (w.calls c).isSome = true) : Leads w (derefCallNot sendOk w' c) := by
  have once := before.once
  unfold derefCallNot
  cases at_ : w'.calls c with
  | none =>
    have absent : ¬ Args w := by
      intro args
      have here := lives args
      rw [← before.calls, at_] at here
      contradiction
    exact ⟨⟨once.unsent, once.atMost, once.order, once.fresh⟩, before.descends, before.calls,
      before.ncalls, before.nnots, fun args => absurd args absent⟩
  | some call =>
    dsimp only
    cases call.not with
    | none => exact before
    | some n =>
      have left := (derefNot_leads sendOk once n).1
      apply before.trans
      apply left.trans
      apply leads_setCall left.once
      rw [left.calls, at_]
      rfl

theorem sipnotTerminate_leads {w : World} (once : Once w) {n : Nat} {old not : Sipnot}
    (here : w.nots n = some old) (kept : Kept old not) (open_ : old.terminated = false)
    (reason : SipeventReason) : Leads w (sipnotTerminate sendOk w n not reason) := by
  have kept' : Kept old { not with timer := false } := ⟨kept.arg, kept.terminated, kept.termsent⟩
  have told := (terminate_leads sendOk once here kept' open_ reason).1
  unfold sipnotTerminate
  dsimp only
  split
  · exact told
  · apply derefCallNot_leads sendOk told
    intro args
    rw [kept.arg]
    exact args n old here open_

theorem tmrHandler_leads {w : World} (once : Once w) (n : Nat) :
    Leads w (tmrHandler sendOk w n) := by
  unfold tmrHandler
  cases here : w.nots n with
  | none => exact Leads.refl once
  | some not =>
    have kept : Kept not { not with timer := false } := ⟨rfl, id, rfl⟩
    dsimp only
    split
    · exact Leads.refl once
    · split
      · exact leads_setNot once here kept
      · rename_i open_
        exact sipnotTerminate_leads sendOk once here kept (eq_false_of_ne_true open_) .timeout

theorem responseOut_leads {w : World} (once : Once w) {n : Nat} {old not : Sipnot}
    (here : w.nots n = some old) (kept : Kept old not) : Leads w (responseOut sendOk w n not) := by
  have placed := leads_setNot once here kept
  have dropped := placed.trans (derefNot_leads sendOk placed.once n).1
  unfold responseOut
  split
  · exact dropped
  · rename_i unsent
    have told := notifyRequest_leads sendOk once here kept true
      fun _ _ => eq_false_of_ne_true unsent
    split
    · split
      · exact dropped
      · dsimp only
        split
        · exact told
        · exact told.trans (derefNot_leads sendOk told.once n).1
    · rename_i open_
      split
      · exact sipnotTerminate_leads sendOk once here kept (kept.open_ (eq_false_of_ne_true open_)) .unknown
      · split
        · exact told
        · exact placed

theorem responseHandler_leads {w : World} (once : Once w) {n : Nat} {not : Sipnot}
    (here : w.nots n = some not) (r : Response) : Leads w (responseHandler sendOk w n not r) := by
  cases r with
  | failed timedOut => exact responseOut_leads sendOk once here ⟨rfl, id, rfl⟩
  | status scode auth =>
    have kept : Kept not { not with req := false, ls := (sipRequestLoops not.ls scode).2 } := ⟨rfl, id, rfl⟩
    unfold responseHandler
    dsimp only
    split
    · exact Leads.refl once
    · split
      · exact responseOut_leads sendOk once here ⟨rfl, id, rfl⟩
      · split
        · exact responseOut_leads sendOk once here kept
        · split
          · -- The NOTIFY is sent again.
            have told := notifyRequest_leads sendOk once here kept false fun no => by contradiction
            split
            · exact told
            · split
              · exact told
              · rename_i there
                exact told.trans (responseOut_leads sendOk told.once there ⟨rfl, id, rfl⟩)
          · exact responseOut_leads sendOk once here ⟨rfl, id, rfl⟩

theorem sipnotNotify_leads {w : World} (once : Once w) {n : Nat} {old not : Sipnot}
    (here : w.nots n = some old) (kept : Kept old not) (open_ : not.terminated = false) :
    Leads w (sipnotNotify sendOk w n not) := by
  unfold sipnotNotify
  split
  · exact leads_setNot once here kept
  · split
    · exact leads_setNot once here ⟨kept.arg, kept.terminated, kept.termsent⟩
    · apply notifyRequest_leads sendOk once here kept
      intro _ ended
      rw [open_] at ended
      contradiction

theorem sipeventNotify_leads {w : World} (once : Once w) (n scode : Nat) (state : SipeventSubst) :
    Leads w (sipeventNotify sendOk w n scode state) ∧
      (state = .terminated → Ended (sipeventNotify sendOk w n scode state) n) := by
  unfold sipeventNotify
  cases here : w.nots n with
  | none =>
    refine ⟨Leads.refl once, fun _ not there => ?_⟩
    rw [here] at there
    contradiction
  | some not =>
    dsimp only
    split
    · rename_i ended
      refine ⟨Leads.refl once, fun _ not' there => ?_⟩
      obtain rfl := Option.some.inj (here.symm.trans there)
      exact ended
    · rename_i open_
      have open' := eq_false_of_ne_true open_
      cases state with
      | terminated =>
        have kept : Kept not { not with mb := some scode, timer := false, retryAfter := 0 } :=
          ⟨rfl, id, rfl⟩
        have told := terminate_leads sendOk once here kept open' .noresource
        exact ⟨told.1, fun _ => told.2⟩
      | pending =>
        exact ⟨sipnotNotify_leads sendOk once here ⟨rfl, id, rfl⟩ open', fun no => by contradiction⟩
      | active =>
        exact ⟨sipnotNotify_leads sendOk once here ⟨rfl, id, rfl⟩ open', fun no => by contradiction⟩

theorem subscribeHandler_leads {w : World} (once : Once w) (n : Nat) (expires : Option Nat)
    (rseqValid : Bool) : Leads w (subscribeHandler sendOk w n expires rseqValid) := by
  unfold subscribeHandler
  cases here : w.nots n with
  | none => exact Leads.refl once
  | some not =>
    dsimp only
    split
    · exact Leads.refl once
    · rename_i open_
      split
      · exact Leads.refl once
      · split
        · exact Leads.refl once
        · exact sipnotNotify_leads sendOk once here ⟨rfl, id, rfl⟩ (eq_false_of_ne_true open_)

theorem callNotifySipfrag_leads {w : World} (once : Once w) (c scode : Nat) :
    Leads w (callNotifySipfrag sendOk w c scode) ∧ (200 ≤ scode → ∀ n, (w.calls c).bind (·.not) = some n →
      Ended (callNotifySipfrag sendOk w c scode) n) := by
  unfold callNotifySipfrag
  cases own : (w.calls c).bind (·.not) with
  | none => exact ⟨Leads.refl once, fun _ _ no => by contradiction⟩
  | some n =>
    have lives : (w.calls c).isSome = true := by
      cases at_ : w.calls c with
      | none => simp [at_] at own
      | some call => rfl
    dsimp only
    split
    · have told := sipeventNotify_leads sendOk once n scode .terminated
      have dropped := derefCallNot_leads sendOk (Leads.refl told.1.once) (c := c)
        fun _ => (told.1.calls c).trans lives
      refine ⟨told.1.trans dropped, fun _ m same => ?_⟩
      obtain rfl := Option.some.inj same
      exact dropped.ended (told.2 rfl)
    · rename_i early
      exact ⟨(sipeventNotify_leads sendOk once n scode .active).1, fun final => absurd final early⟩

end Baresip.Call
