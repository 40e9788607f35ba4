import Baresip.Sess.Sipsess
import Baresip.Library.Histories

set_option linter.dupNamespace false

namespace Baresip.Sess

open Re Sip

/-- Nothing is under way. -/
structure Idle (e : Exchanges) : Prop where
  req : e.req = none
  tmr : e.tmr = none
  replyl : e.replyl = []
  st : e.st = false

def Busy (e : Exchanges) : Prop := e.req.isSome = true ∨ e.tmr.isSome = true ∨ e.replyl ≠ []

/-- At most one of an INVITE of our own, the timer of the next one, and a 2xx without its ACK. -/
def AtMostOne (e : Exchanges) : Prop :=
  (e.req = none ∧ e.tmr = none) ∨ (e.req = none ∧ e.replyl = []) ∨ (e.tmr = none ∧ e.replyl = [])

/-- The description of a modification that waits; one waits until an INVITE is sent or an offer of the peer is
    taken in. -/
def waits (waiting : Option (Option Desc)) : Out → Option (Option Desc)
  | .modified desc => some desc
  | .invite _ _ _ => none
  | .offered _ => none
  | _ => waiting

def putOff (log : List Out) : Option (Option Desc) := log.foldl waits none

@[simp] theorem putOff_concat (log : List Out) (out : Out) : putOff (log ++ [out]) = waits (putOff log) out := by
  rw [putOff, List.foldl_append]
  rfl

/-- No INVITE is sent while anything is under way, and it is the one that waited, if any; and no 2xx carries an
    offer beside another exchange. -/
def Allowed (waiting : Option (Option Desc)) : Out → Prop
  | .invite desc _ during => Idle during ∧ ∀ put, waiting = some put → desc = put
  | .accept _ _ offer during =>
    offer = true → during.req = none ∧ ∀ reply ∈ during.replyl, reply.awaitingAnswer = false
  | _ => True

def Fine (log : List Out) : Prop := Library.Each (fun before out => Allowed (putOff before) out) log

/-- What waits is what the session would send. -/
def Kept (s : Sipsess) : Prop := putOff s.log = if s.modifyPending then some s.desc else none

theorem kept_iff {s : Sipsess} (done : s.modifyPending = false) : Kept s ↔ putOff s.log = none := by
  rw [Kept, done]
  rfl

theorem Kept.other {s : Sipsess} (kept : Kept s) (done : s.modifyPending = false) (desc : Option Desc) :
    Kept { s with desc := desc } := by
  have none_ : putOff s.log = none := (kept_iff done).mp kept
  rw [Kept, none_, done]
  rfl

theorem Kept.say {s : Sipsess} (kept : Kept s) (out : Out) (plain : waits (putOff s.log) out = putOff s.log) :
    Kept (s.say out) := by
  show putOff (s.log ++ [out]) = _
  rw [putOff_concat, plain]
  exact kept

theorem Kept.carries {s : Sipsess} (kept : Kept s) (put : Option Desc) (waiting : putOff s.log = some put) :
    s.desc = put := by
  rw [Kept, waiting] at kept
  split at kept
  · exact (Option.some.inj kept).symm
  · contradiction

/-- A session that is not terminated. -/
structure Live (s : Sipsess) : Prop where
  one : AtMostOne s.toExchanges
  pending : s.modifyPending = true → Busy s.toExchanges
  kept : Kept s
  opening : s.st = true → ¬ Busy s.toExchanges
  awaits : s.replyl.countP Reply.awaitingAnswer ≤ s.awaitingAnswer.toNat

structure Inv (s : Sipsess) : Prop where
  offers : Fine s.log
  live : s.terminated = false → Live s

/-- Nothing is under way, but a modification may wait. -/
structure Settled (s : Sipsess) : Prop where
  idle : Idle s.toExchanges
  offers : Fine s.log
  kept : Kept s

theorem not_busy_iff {e : Exchanges} : ¬ Busy e ↔ e.req = none ∧ e.tmr = none ∧ e.replyl = [] := by
  rw [Busy, not_or, not_or, Option.not_isSome_iff_eq_none, Option.not_isSome_iff_eq_none, not_not]

theorem Idle.not_busy {e : Exchanges} (idle : Idle e) : ¬ Busy e :=
  not_busy_iff.mpr ⟨idle.req, idle.tmr, idle.replyl⟩

theorem Settled.dropped {s : Sipsess} (settled : Settled s) (done : s.modifyPending = false) :
    Inv { s with desc := none } := by
  refine ⟨settled.offers, fun _ => ⟨Or.inl ⟨settled.idle.req, settled.idle.tmr⟩, ?_, ?_,
    fun _ => settled.idle.not_busy, ?_⟩⟩
  · intro pending
    rw [show s.modifyPending = true from pending] at done
    contradiction
  · exact settled.kept.other done none
  · show s.replyl.countP Reply.awaitingAnswer ≤ _
    rw [settled.idle.replyl]
    exact Nat.zero_le _

/-- What is said in passing changes nothing that is under way. -/
theorem Settled.say {s : Sipsess} (settled : Settled s) (out : Out) (new : Allowed (putOff s.log) out)
    (plain : waits (putOff s.log) out = putOff s.log) : Settled (s.say out) :=
  ⟨settled.idle, settled.offers.concat new, settled.kept.say out plain⟩

theorem Inv.say {s : Sipsess} (inv : Inv s) (out : Out) (new : Allowed (putOff s.log) out)
    (plain : waits (putOff s.log) out = putOff s.log) : Inv (s.say out) :=
  ⟨inv.offers.concat new, fun alive => { inv.live alive with kept := (inv.live alive).kept.say out plain }⟩

theorem termwait_inv {s : Sipsess} (offers : Fine s.log) : Inv s.termwait := by
  refine ⟨?_, fun alive => absurd alive (by simp [Sipsess.termwait])⟩
  by_cases opening : s.st = true
  · rw [Sipsess.termwait, if_pos opening]
    exact offers.concat True.intro
  · rw [Sipsess.termwait, if_neg opening]
    exact offers

theorem terminate_inv {s : Sipsess} (offers : Fine s.log) (err : Option CloseErr)
    (scode : Option Nat) : Inv (s.terminate err scode) :=
  (termwait_inv offers).say (.closed err scode) True.intro rfl

/-- An INVITE starts when nothing is under way; whether or not the request could be sent, nothing waits any more. -/
theorem started_inv {s : Sipsess} (settled : Settled s) (kind : Invite) (ls : Loopstate) (res : Option Errno) :
    Inv (({ s with sentOffer := s.desc.isSome, modifyPending := false, ls := ls,
                   req := if res.isNone then some kind else s.req } : Sipsess).say
          (.invite s.desc res s.toExchanges)) := by
  refine ⟨settled.offers.concat ⟨settled.idle, settled.kept.carries⟩, fun _ => ?_⟩
  refine ⟨Or.inr (Or.inr ⟨settled.idle.tmr, settled.idle.replyl⟩), fun pending => absurd pending (by simp [Sipsess.say]),
    ?_, ?_, ?_⟩
  · exact (kept_iff rfl).mpr (putOff_concat s.log _)
  · intro opening
    have closed : s.st = false := settled.idle.st
    rw [show s.st = true from opening] at closed
    contradiction
  · show s.replyl.countP Reply.awaitingAnswer ≤ _
    rw [settled.idle.replyl]
    exact Nat.zero_le _

theorem invite_inv {s : Sipsess} (settled : Settled s) (res : Option Errno) : Inv (s.invite res) :=
  started_inv settled .invite s.ls res

theorem reinvite_eq {s : Sipsess} (none_ : s.req = none) (resetLs : Bool) (res : Option Errno) :
    s.reinvite resetLs res =
      (({ s with sentOffer := s.desc.isSome, modifyPending := false, ls := if resetLs then .reset else s.ls,
                 req := if res.isNone then some .reinvite else s.req } : Sipsess).say
        (.invite s.desc res s.toExchanges), res) := by
  unfold Sipsess.reinvite
  rw [none_]
  rfl

theorem reinvite_inv {s : Sipsess} (settled : Settled s) (resetLs : Bool) (res : Option Errno) :
    Inv (s.reinvite resetLs res).1 := by
  rw [reinvite_eq settled.idle.req]
  exact started_inv settled .reinvite _ res

theorem finish_inv {s : Sipsess} (settled : Settled s) (err res : Option Errno) : Inv (s.finish err res) := by
  unfold Sipsess.finish
  by_cases timedOut : err = some .ETIMEDOUT
  · rw [if_pos timedOut]
    exact terminate_inv settled.offers _ _
  · rw [if_neg timedOut]
    by_cases pending : s.modifyPending = true
    · rw [if_pos pending]
      exact reinvite_inv settled true res
    · rw [if_neg pending]
      exact settled.dropped (Bool.eq_false_iff.mpr pending)

/-- The offer of the peer stands in for what was put off. -/
theorem Settled.offered {s : Sipsess} (settled : Settled s) (err : Option Errno) :
    Settled (({ s with modifyPending := false } : Sipsess).say (.offered err)) := by
  refine ⟨settled.idle, settled.offers.concat True.intro, ?_⟩
  exact (kept_iff rfl).mpr (putOff_concat s.log _)

/-- The INVITE was not accepted yet, but may be sent again later. -/
theorem delayed_inv {s : Sipsess} (settled : Settled s) (delay : Nat) :
    Inv { s with tmr := some delay } := by
  refine ⟨settled.offers, fun _ => ?_⟩
  refine ⟨Or.inr (Or.inl ⟨settled.idle.req, settled.idle.replyl⟩), fun _ => Or.inr (Or.inl rfl), settled.kept, ?_, ?_⟩
  · intro opening
    have closed : s.st = false := settled.idle.st
    rw [show s.st = true from opening] at closed
    contradiction
  · show s.replyl.countP Reply.awaitingAnswer ≤ _
    rw [settled.idle.replyl]
    exact Nat.zero_le _

theorem reinviteSuccess_inv {s : Sipsess} (settled : Settled s) (r : Results) : Inv (s.reinviteSuccess r) := by
  unfold Sipsess.reinviteSuccess
  by_cases sent : s.sentOffer = true
  · rw [if_pos sent]
    exact finish_inv ((settled.say (.answered r.answer) True.intro rfl).say (.ack none) True.intro rfl) none _
  · rw [if_neg sent]
    exact finish_inv ((settled.offered (errOf r.offer)).say (.ack (descOf r.offer)) True.intro rfl) none _

/-- A request that could not be sent leaves nothing to wait for, so it is not tried again at once. -/
theorem unsent_finish_inv {s : Sipsess} (settled : Settled s) (resetLs : Bool) {err : Option Errno}
    (unsent : err.isSome = true) (res : Option Errno) : Inv ((s.reinvite resetLs err).1.finish err res) := by
  have offers := (reinvite_inv settled resetLs err).offers
  rw [reinvite_eq settled.idle.req] at offers ⊢
  apply finish_inv
  refine ⟨⟨?_, settled.idle.tmr, settled.idle.replyl, settled.idle.st⟩, offers, ?_⟩
  · show (if err.isNone = true then some Invite.reinvite else s.req) = none
    rw [if_neg (by rw [Option.isNone_iff_eq_none, ← Option.not_isSome_iff_eq_none, not_not]; exact unsent)]
    exact settled.idle.req
  · exact (kept_iff rfl).mpr (putOff_concat s.log _)

theorem reinviteFailure_inv {s : Sipsess} (settled : Settled s) (msg : Response) (r : Results) :
    Inv (s.reinviteFailure msg r) := by
  unfold Sipsess.reinviteFailure
  by_cases challenge : msg.scode = 401 ∨ msg.scode = 407
  · rw [if_pos challenge]
    cases r.auth with
    | authenticated =>
      have same : (s.reinvite false r.request).2 = r.request := by rw [reinvite_eq settled.idle.req]
      simp only [same]
      by_cases unsent : r.request.isSome = true
      · rw [if_pos unsent]
        exact unsent_finish_inv settled false unsent _
      · rw [if_neg unsent]
        exact reinvite_inv settled false r.request
    | eauth => exact finish_inv settled none _
    | failed err => exact finish_inv settled (some err) _
  · rw [if_neg challenge]
    by_cases gone : msg.scode = 408 ∨ msg.scode = 481
    · rw [if_pos gone]
      exact terminate_inv settled.offers _ _
    rw [if_neg gone]
    by_cases glare : msg.scode = 491
    · rw [if_pos glare]
      exact delayed_inv settled _
    rw [if_neg glare]
    by_cases busy : msg.scode = 500
    · rw [if_pos busy]
      cases msg.retryAfter with
      | none => exact finish_inv settled none _
      | some delay => exact delayed_inv settled _
    · rw [if_neg busy]
      exact finish_inv settled none _

theorem Settled.counted {s : Sipsess} (settled : Settled s) (ls : Loopstate) : Settled { s with ls := ls } :=
  ⟨settled.idle, settled.offers, settled.kept⟩

theorem final_code {err : Option Errno} {scode : Nat} (final : (err.isSome || decide (200 ≤ scode)) = true)
    (answered : ¬ err.isSome = true) : ¬ scode < 200 := by
  rw [Bool.or_eq_true, decide_eq_true_eq] at final
  exact Nat.not_lt.mpr (final.resolve_left answered)

theorem reinviteRespHandler_inv {s : Sipsess} (settled : Settled s) (err : Option Errno) (msg : Response)
    (r : Results) (final : (err.isSome || decide (200 ≤ msg.scode)) = true) :
    Inv (s.reinviteRespHandler err msg r) := by
  unfold Sipsess.reinviteRespHandler
  generalize (if err.isSome = true then (false, s.ls) else requestLoops s.ls msg.scode) = counted
  obtain ⟨loops, ls⟩ := counted
  by_cases failed : err.isSome = true
  · simp only [if_pos failed]
    exact finish_inv (settled.counted ls) err _
  · simp only [if_neg failed, if_neg (final_code final failed)]
    split_ifs
    · exact finish_inv (settled.counted ls) none _
    · exact reinviteSuccess_inv (settled.counted ls) r
    · exact reinviteFailure_inv (settled.counted ls) msg r

/-- Fields that say nothing about exchanges. -/
theorem Inv.established {s : Sipsess} (inv : Inv s) (msg : Option InMsg) :
    Inv { s with msg := msg, established := true } :=
  ⟨inv.offers, fun alive => { inv.live alive with }⟩

theorem Settled.established {s : Sipsess} (settled : Settled s) : Settled { s with established := true } :=
  ⟨settled.idle, settled.offers, settled.kept⟩

/-- What waited for the first INVITE is sent once it is accepted. -/
theorem accepted_inv {s : Sipsess} (settled : Settled s) (err : Option Errno) (scode : Nat) (res : Option Errno) :
    Inv (if err.isSome then s.terminate (err.map .err) (some scode)
      else (if s.modifyPending then (s.reinvite true res).1 else { s with desc := none }).say .established) := by
  by_cases failed : err.isSome = true
  · rw [if_pos failed]
    exact terminate_inv settled.offers _ _
  · rw [if_neg failed]
    by_cases pending : s.modifyPending = true
    · rw [if_pos pending]
      exact (reinvite_inv settled true res).say .established True.intro rfl
    · rw [if_neg pending]
      exact (settled.dropped (Bool.eq_false_iff.mpr pending)).say .established True.intro rfl

theorem inviteSuccess_inv {s : Sipsess} (settled : Settled s) (scode : Nat) (r : Results) :
    Inv (s.inviteSuccess scode r) := by
  unfold Sipsess.inviteSuccess
  by_cases failed : r.dialog.isSome = true
  · rw [if_pos failed]
    exact terminate_inv settled.offers _ _
  · rw [if_neg failed]
    by_cases sent : s.sentOffer = true
    · rw [if_pos sent]
      exact accepted_inv (((settled.say (.answered r.answer) True.intro rfl).say (.ack none) True.intro rfl).established) _ scode _
    · rw [if_neg sent]
      exact accepted_inv (((settled.offered (errOf r.offer)).say (.ack (descOf r.offer)) True.intro rfl).established) _ scode _

theorem inviteAgain_inv {s : Sipsess} (settled : Settled s) (scode : Nat) (r : Results) :
    Inv (s.inviteAgain scode r) := by
  have inv := invite_inv settled r.request
  unfold Sipsess.inviteAgain
  by_cases unsent : r.request.isSome = true
  · rw [if_pos unsent]
    exact terminate_inv inv.offers _ _
  · rw [if_neg unsent]
    exact inv

theorem inviteRespHandler_inv {s : Sipsess} (settled : Settled s) (err : Option Errno) (msg : Response)
    (r : Results) (final : (err.isSome || decide (200 ≤ msg.scode)) = true) :
    Inv (s.inviteRespHandler err msg r) := by
  unfold Sipsess.inviteRespHandler
  generalize (if err.isSome = true then (false, s.ls) else requestLoops s.ls msg.scode) = counted
  obtain ⟨loops, ls⟩ := counted
  have settled := settled.counted ls
  by_cases failed : err.isSome = true
  · simp only [if_pos failed]
    exact terminate_inv settled.offers _ _
  · simp only [if_neg failed, if_neg (final_code final failed)]
    by_cases challenge : msg.scode = 401 ∨ msg.scode = 407
    · rw [if_pos challenge]
      split_ifs
      · exact terminate_inv settled.offers _ _
      · exact inviteSuccess_inv settled msg.scode r
      · exact terminate_inv settled.offers _ _
      · exact inviteAgain_inv settled msg.scode r
      · cases r.auth with
        | authenticated => exact inviteAgain_inv settled msg.scode r
        | eauth => exact terminate_inv settled.offers _ _
        | failed err => exact terminate_inv settled.offers _ _
    · rw [if_neg challenge]
      split_ifs
      · exact terminate_inv settled.offers _ _
      · exact inviteSuccess_inv settled msg.scode r
      · exact terminate_inv settled.offers _ _
      · exact inviteAgain_inv settled msg.scode r
      · exact terminate_inv settled.offers _ _

/-- A provisional response leaves the INVITE outstanding. -/
theorem provisional_inv {s : Sipsess} (inv : Inv s) {err : Option Errno} {msg : Response} (r : Results)
    (early : ¬ (err.isSome || decide (200 ≤ msg.scode)) = true) :
    Inv (s.inviteRespHandler err msg r) ∧ Inv (s.reinviteRespHandler err msg r) := by
  rw [Bool.or_eq_true, decide_eq_true_eq, not_or] at early
  have provisional : msg.scode < 200 := Nat.lt_of_not_le early.2
  unfold Sipsess.inviteRespHandler Sipsess.reinviteRespHandler
  simp only [if_neg early.1, requestLoops_provisional provisional, if_pos provisional, Bool.false_eq_true, if_false]
  have same : Inv { s with ls := s.ls } := inv
  exact ⟨same.say .progress True.intro rfl, same⟩

/-- With an INVITE of our own outstanding there is nothing else, and without it nothing at all. -/
theorem Live.requested {s : Sipsess} (live : Live s) (req : s.req.isSome = true) :
    s.tmr = none ∧ s.replyl = [] ∧ s.st = false := by
  have some_ : s.req ≠ none := Option.isSome_iff_ne_none.mp req
  refine ⟨?_, ?_, Bool.eq_false_iff.mpr fun opening => live.opening opening (Or.inl req)⟩
  · rcases live.one with one | one | one
    · exact absurd one.1 some_
    · exact absurd one.1 some_
    · exact one.1
  · rcases live.one with one | one | one
    · exact absurd one.1 some_
    · exact absurd one.1 some_
    · exact one.2

theorem response_inv {s : Sipsess} (inv : Inv s) (alive : s.terminated = false) (err : Option Errno)
    (msg : Response) (r : Results) : Inv (s.response err msg r) := by
  have live := inv.live alive
  have settled (kind : Invite) (req : s.req = some kind) : Settled { s with req := none } := by
    obtain ⟨tmr, replyl, st⟩ := live.requested (Option.isSome_of_eq_some req)
    exact ⟨⟨rfl, tmr, replyl, st⟩, inv.offers, live.kept⟩
  unfold Sipsess.response
  by_cases final : (err.isSome || decide (200 ≤ msg.scode)) = true
  · cases req : s.req with
    | none => exact inv
    | some kind =>
      simp only [if_pos final]
      cases kind with
      | invite => exact inviteRespHandler_inv (settled _ req) err msg r final
      | reinvite => exact reinviteRespHandler_inv (settled _ req) err msg r final
  · cases req : s.req with
    | none => exact inv
    | some kind =>
      have same : Inv { s with req := some kind } := by
        rw [← req]
        exact inv
      simp only [if_neg final]
      cases kind with
      | invite => exact (provisional_inv same r final).1
      | reinvite => exact (provisional_inv same r final).2

theorem modify_inv {s : Sipsess} (inv : Inv s) (desc : Option Desc) (res : Option Errno) :
    Inv (s.modify desc res).1 := by
  unfold Sipsess.modify
  by_cases refused : (s.st || s.terminated) = true
  · rw [if_pos refused]
    exact inv
  · rw [if_neg refused]
    rw [Bool.or_eq_true, not_or, Bool.not_eq_true, Bool.not_eq_true] at refused
    have live := inv.live refused.2
    by_cases busy : (s.req.isSome || s.tmr.isSome || !s.replyl.isEmpty) = true
    · simp only [if_pos busy]
      have under : Busy s.toExchanges := by
        rw [Bool.or_eq_true, Bool.or_eq_true, Bool.not_eq_true', List.isEmpty_eq_false_iff, or_assoc] at busy
        exact busy
      refine ⟨inv.offers.concat True.intro, fun _ => { live with pending := fun _ => under, kept := ?_ }⟩
      exact putOff_concat s.log _
    · simp only [if_neg busy]
      rw [Bool.or_eq_true, Bool.or_eq_true, not_or, not_or, Bool.not_eq_true', Bool.not_eq_false,
        List.isEmpty_iff, Option.not_isSome_iff_eq_none, Option.not_isSome_iff_eq_none] at busy
      have idle : Idle s.toExchanges := ⟨busy.1.1, busy.1.2, busy.2, refused.1⟩
      have done : s.modifyPending = false :=
        Bool.eq_false_iff.mpr fun pending => idle.not_busy (live.pending pending)
      have settled : Settled { s with desc := desc } :=
        ⟨idle, inv.offers, live.kept.other done desc⟩
      exact reinvite_inv settled true res

theorem timer_inv {s : Sipsess} (inv : Inv s) (alive : s.terminated = false) (tmr : s.tmr.isSome = true)
    (res : Option Errno) : Inv (({ s with tmr := none } : Sipsess).reinvite true res).1 := by
  have live := inv.live alive
  have some_ : s.tmr ≠ none := Option.isSome_iff_ne_none.mp tmr
  have closed : s.st = false := Bool.eq_false_iff.mpr fun opening => live.opening opening (Or.inr (Or.inl tmr))
  have rest : s.req = none ∧ s.replyl = [] := by
    rcases live.one with one | one | one
    · exact absurd one.2 some_
    · exact one
    · exact absurd one.1 some_
  have settled : Settled { s with tmr := none } := ⟨⟨rest.1, rfl, rest.2, closed⟩, inv.offers, live.kept⟩
  exact reinvite_inv settled true res

theorem replyAck_some {seq : BitVec 32} {replyl rest : List Reply} {found : Reply}
    (acked : replyAck seq replyl = some (found, rest)) :
    ∃ before after, replyl = before ++ found :: after ∧ rest = before ++ after := by
  induction replyl generalizing rest with
  | nil => exact absurd acked (by simp [replyAck])
  | cons reply replyl ih =>
    rw [replyAck] at acked
    cases later : replyAck seq replyl with
    | some pair =>
      obtain ⟨found', rest'⟩ := pair
      rw [later] at acked
      obtain ⟨rfl, rfl⟩ := Prod.mk.inj (Option.some.inj acked)
      obtain ⟨before, after, whole, left⟩ := ih later
      exact ⟨reply :: before, after, by rw [whole, List.cons_append], by rw [left, List.cons_append]⟩
    | none =>
      rw [later] at acked
      simp only at acked
      split_ifs at acked
      obtain ⟨rfl, rfl⟩ := Prod.mk.inj (Option.some.inj acked)
      exact ⟨[], replyl, rfl, rfl⟩

/-- With a 2xx unacknowledged, no INVITE of our own is under way, and none is to be. -/
theorem Live.replied {s : Sipsess} (live : Live s) (replyl : s.replyl ≠ []) :
    s.req = none ∧ s.tmr = none ∧ s.st = false := by
  have closed : s.st = false := Bool.eq_false_iff.mpr fun opening => live.opening opening (Or.inr (Or.inr replyl))
  rcases live.one with one | one | one
  · exact ⟨one.1, one.2, closed⟩
  · exact absurd one.2 replyl
  · exact absurd one.2 replyl

/-- One of the replies is gone; when none is left, what waited can be sent. -/
structure Acked (s : Sipsess) : Prop where
  req : s.req = none
  tmr : s.tmr = none
  st : s.st = false
  offers : Fine s.log
  kept : Kept s
  awaits : s.replyl.countP Reply.awaitingAnswer ≤ s.awaitingAnswer.toNat

theorem Acked.inv {s : Sipsess} (acked : Acked s) (res : Option Errno) :
    Inv (if s.modifyPending && s.replyl.isEmpty then (s.reinvite true res).1 else s) := by
  by_cases again : (s.modifyPending && s.replyl.isEmpty) = true
  · rw [if_pos again]
    rw [Bool.and_eq_true, List.isEmpty_iff] at again
    exact reinvite_inv ⟨⟨acked.req, acked.tmr, again.2, acked.st⟩, acked.offers, acked.kept⟩ true res
  · rw [if_neg again]
    rw [Bool.and_eq_true, not_and, List.isEmpty_iff] at again
    refine ⟨acked.offers, fun _ => ⟨Or.inl ⟨acked.req, acked.tmr⟩, ?_, acked.kept, ?_, acked.awaits⟩⟩
    · exact fun pending => Or.inr (Or.inr (again pending))
    · intro opening
      have closed := acked.st
      rw [opening] at closed
      contradiction

theorem Live.acked {s : Sipsess} (live : Live s) (offers : Fine s.log) {reply : Reply}
    {before after : List Reply} (whole : s.replyl = before ++ reply :: after) (err : Option Errno) :
    Acked (if reply.awaitingAnswer then
        ({ s with replyl := before ++ after, awaitingAnswer := false } : Sipsess).say (.answered err)
      else { s with replyl := before ++ after }) := by
  have some_ : s.replyl ≠ [] := by
    rw [whole]
    exact List.append_ne_nil_of_right_ne_nil _ (List.cons_ne_nil _ _)
  obtain ⟨req, tmr, st⟩ := live.replied some_
  have awaits := live.awaits
  rw [whole, List.countP_append, List.countP_cons] at awaits
  by_cases mine : reply.awaitingAnswer = true
  · rw [if_pos mine] at awaits ⊢
    refine ⟨req, tmr, st, offers.concat True.intro, ?_, ?_⟩
    · exact live.kept.say (.answered err) rfl
    · show (before ++ after).countP Reply.awaitingAnswer ≤ 0
      have most := Bool.toNat_le s.awaitingAnswer
      rw [List.countP_append]
      omega
  · rw [if_neg mine] at awaits ⊢
    refine ⟨req, tmr, st, offers, live.kept, ?_⟩
    show (before ++ after).countP Reply.awaitingAnswer ≤ s.awaitingAnswer.toNat
    rw [List.countP_append]
    omega

theorem acked_established_inv {s : Sipsess} (inv : Inv s) (err : Option Errno) :
    Inv (if s.established then s
      else if err.isSome then ({ s with msg := none, established := true } : Sipsess).terminate (err.map .err) none
      else ({ s with msg := none, established := true } : Sipsess).say .established) := by
  split_ifs
  · exact inv
  · exact terminate_inv (inv.established none).offers _ _
  · exact (inv.established none).say .established True.intro rfl

theorem ackHandler_inv {s : Sipsess} (inv : Inv s) (alive : s.terminated = false) (seq : BitVec 32) (r : Results) :
    Inv (s.ackHandler seq r) := by
  unfold Sipsess.ackHandler
  cases acked : replyAck seq s.replyl with
  | none => exact inv
  | some pair =>
    obtain ⟨reply, replyl⟩ := pair
    obtain ⟨before, after, whole, rfl⟩ := replyAck_some acked
    have acked := (inv.live alive).acked inv.offers whole r.answer
    by_cases mine : reply.awaitingAnswer = true
    · simp only [if_pos mine] at acked ⊢
      exact acked_established_inv (acked.inv r.request) r.answer
    · simp only [if_neg mine] at acked ⊢
      exact acked_established_inv (acked.inv r.request) none

theorem Live.free {s : Sipsess} (live : Live s) (opening : s.st = true) :
    s.req = none ∧ s.tmr = none ∧ s.replyl = [] ∧ s.modifyPending = false := by
  have free := live.opening opening
  obtain ⟨req, tmr, replyl⟩ := not_busy_iff.mp free
  exact ⟨req, tmr, replyl, Bool.eq_false_iff.mpr fun pending => free (live.pending pending)⟩

/-- A 2xx can be sent: no INVITE of our own is out, no ACK is to bring an answer, and nothing was put off. -/
structure Answerable (s : Sipsess) : Prop where
  req : s.req = none
  answers : ∀ reply ∈ s.replyl, reply.awaitingAnswer = false
  offers : Fine s.log
  kept : putOff s.log = none

structure Replied (s : Sipsess) : Prop where
  req : s.req = none
  st : s.st = false
  offers : Fine s.log
  kept : putOff s.log = none
  awaits : s.replyl.countP Reply.awaitingAnswer ≤ s.awaitingAnswer.toNat

theorem Replied.inv {s : Sipsess} (replied : Replied s) (tmr : s.tmr = none) (done : s.modifyPending = false) :
    Inv s := by
  refine ⟨replied.offers, fun _ => ⟨Or.inl ⟨replied.req, tmr⟩, ?_, (kept_iff done).mpr replied.kept, ?_, replied.awaits⟩⟩
  · intro pending
    rw [done] at pending
    contradiction
  · intro opening
    have closed := replied.st
    rw [opening] at closed
    contradiction

theorem reply2xx_replied {s : Sipsess} (ready : Answerable s) (msg : InMsg) (scode : Nat) (desc : Option Desc)
    (res : Option Errno) : Replied (s.reply2xx msg scode desc res) := by
  have none_ : s.replyl.countP Reply.awaitingAnswer = 0 := by
    rw [List.countP_eq_zero]
    exact fun reply among awaits => absurd awaits (Bool.eq_false_iff.mp (ready.answers reply among))
  unfold Sipsess.reply2xx
  by_cases failed : res.isSome = true
  · rw [if_pos failed]
    refine ⟨ready.req, rfl, ready.offers, ready.kept, ?_⟩
    show s.replyl.countP Reply.awaitingAnswer ≤ _
    rw [none_]
    exact Nat.zero_le _
  · rw [if_neg failed]
    refine ⟨ready.req, rfl, ready.offers.concat fun _ => ⟨ready.req, ready.answers⟩, ?_, ?_⟩
    · show putOff (s.log ++ [_]) = none
      rw [putOff_concat, ready.kept]
      rfl
    · show (s.replyl ++ [_]).countP Reply.awaitingAnswer ≤ (s.awaitingAnswer || (!msg.body && desc.isSome)).toNat
      rw [List.countP_append, none_, List.countP_singleton]
      cases s.awaitingAnswer <;> cases (!msg.body && desc.isSome) <;> simp

theorem reply2xx_frame (s : Sipsess) (msg : InMsg) (scode : Nat) (desc : Option Desc) (res : Option Errno) :
    (s.reply2xx msg scode desc res).tmr = s.tmr ∧ (s.reply2xx msg scode desc res).modifyPending = s.modifyPending := by
  unfold Sipsess.reply2xx
  split_ifs <;> exact ⟨rfl, rfl⟩

theorem answer_inv {s : Sipsess} (inv : Inv s) (alive : s.terminated = false) (scode : Nat) (desc : Option Desc)
    (r : Results) : Inv (s.answer scode desc r).1 := by
  unfold Sipsess.answer
  cases s.msg with
  | none => exact inv
  | some msg =>
    by_cases refused : (!s.st || decide (scode < 200 ∨ scode > 299)) = true
    · simp only [if_pos refused]
      exact inv
    · simp only [if_neg refused]
      rw [Bool.or_eq_true, not_or, Bool.not_eq_true', Bool.not_eq_false] at refused
      have live := inv.live alive
      obtain ⟨req, tmr, replyl, done⟩ := live.free refused.1
      have answers : ∀ reply ∈ s.replyl, reply.awaitingAnswer = false := by
        rw [replyl]
        exact fun reply none_ => absurd none_ List.not_mem_nil
      have frame := reply2xx_frame s msg scode desc r.reply
      exact (reply2xx_replied ⟨req, answers, inv.offers, (kept_iff done).mp live.kept⟩ msg scode desc r.reply).inv
        (frame.1.trans tmr) (frame.2.trans done)

theorem Live.answers {s : Sipsess} (live : Live s) (none_ : s.awaitingAnswer = false) :
    ∀ reply ∈ s.replyl, reply.awaitingAnswer = false := by
  have awaits := live.awaits
  rw [none_] at awaits
  intro reply among
  exact Bool.eq_false_iff.mpr (List.countP_eq_zero.mp (Nat.le_zero.mp awaits) reply among)

theorem reinviteHandler_inv {s : Sipsess} (inv : Inv s) (alive : s.terminated = false) (msg : InMsg)
    (rseqValid : Bool) (r : Results) : Inv (s.reinviteHandler msg rseqValid r) := by
  unfold Sipsess.reinviteHandler
  by_cases stale : (!rseqValid) = true
  · rw [if_pos stale]
    exact inv.say _ True.intro rfl
  rw [if_neg stale]
  by_cases early : (s.st || s.awaitingAnswer) = true
  · rw [if_pos early]
    exact inv.say _ True.intro rfl
  rw [if_neg early]
  by_cases glare : s.req.isSome = true
  · rw [if_pos glare]
    exact inv.say _ True.intro rfl
  rw [if_neg glare]
  rw [Bool.or_eq_true, not_or, Bool.not_eq_true, Bool.not_eq_true] at early
  cases r.offer with
  | error err => exact inv.say _ True.intro rfl
  | ok desc =>
    have live := inv.live alive
    have ready : Answerable (s.say (.offered none)) := by
      refine ⟨Option.not_isSome_iff_eq_none.mp glare, live.answers early.2, inv.offers.concat True.intro, ?_⟩
      show putOff (s.log ++ [_]) = none
      rw [putOff_concat]
      rfl
    have replied := reply2xx_replied ready msg 200 desc r.reply
    have dropped : Replied { (s.say (.offered none)).reply2xx msg 200 desc r.reply with
        desc := none, modifyPending := false, tmr := none } := { replied with }
    exact dropped.inv rfl rfl

theorem replyTimeout_inv {s : Sipsess} (inv : Inv s) (alive : s.terminated = false) (n : Nat) :
    Inv (s.replyTimeout n) := by
  unfold Sipsess.replyTimeout
  by_cases gone : s.replyl.length ≤ n
  · rw [if_pos gone]
    exact inv
  · rw [if_neg gone]
    by_cases more : (!(s.replyl.eraseIdx n).isEmpty) = true
    · simp only [if_pos more]
      have live := inv.live alive
      have some_ : s.replyl ≠ [] := by
        rintro none_
        rw [none_] at gone
        exact gone (Nat.zero_le n)
      obtain ⟨req, tmr, st⟩ := live.replied some_
      rw [Bool.not_eq_true', List.isEmpty_eq_false_iff] at more
      refine ⟨inv.offers, fun _ => ⟨Or.inl ⟨req, tmr⟩, fun _ => Or.inr (Or.inr more), live.kept, ?_, ?_⟩⟩
      · intro opening
        rw [show s.st = true from opening] at st
        contradiction
      · have fewer : (s.replyl.eraseIdx n).countP Reply.awaitingAnswer ≤ s.replyl.countP Reply.awaitingAnswer :=
          (List.eraseIdx_sublist s.replyl n).countP_le
        exact Nat.le_trans fewer live.awaits
    · simp only [if_neg more]
      apply terminate_inv
      exact inv.offers

theorem treply_inv {s : Sipsess} (inv : Inv s) (alive : s.terminated = false) (opening : s.st = true) (scode : Nat)
    (r : Results) : Inv (s.treply scode r) := by
  have live := inv.live alive
  have kept (st : Bool) : Inv { s with st := st } :=
    ⟨inv.offers, fun _ => { live with opening := fun _ => live.opening opening }⟩
  unfold Sipsess.treply
  by_cases failed : r.reply.isSome = true
  · rw [if_pos failed]
    exact kept r.left
  · rw [if_neg failed]
    exact (kept _).say _ True.intro rfl

theorem byeHandler_inv {s : Sipsess} (inv : Inv s) (rseqValid : Bool) : Inv (s.byeHandler rseqValid) := by
  unfold Sipsess.byeHandler
  by_cases stale : (!rseqValid) = true
  · rw [if_pos stale]
    exact inv.say _ True.intro rfl
  · rw [if_neg stale]
    apply terminate_inv
    have offers : Fine (s.say (.reply 200)).log := inv.offers.concat True.intro
    split_ifs
    · exact offers.concat True.intro
    · exact offers

theorem step_inv {s : Sipsess} (inv : Inv s) (event : Event) : Inv (step s event) := by
  unfold step
  by_cases ended : s.terminated = true
  · rw [if_pos ended]
    exact inv
  rw [if_neg ended]
  have alive : s.terminated = false := Bool.eq_false_iff.mpr ended
  cases event with
  | response err msg r => exact response_inv inv alive err msg r
  | timer r =>
    by_cases tmr : s.tmr.isSome = true
    · simp only [if_pos tmr]
      exact timer_inv inv alive tmr r.request
    · simp only [if_neg tmr]
      exact inv
  | modify desc r => exact modify_inv inv desc r.request
  | progress scode r =>
    simp only [Sipsess.progress]
    by_cases refused : (!s.st || s.msg.isNone || decide (scode < 101 ∨ scode > 199)) = true
    · rw [if_pos refused]
      exact inv
    · rw [if_neg refused]
      rw [Bool.or_eq_true, Bool.or_eq_true, not_or, not_or, Bool.not_eq_true', Bool.not_eq_false] at refused
      exact treply_inv inv alive refused.1.1 scode r
  | answer scode desc r => exact answer_inv inv alive scode desc r
  | reject scode r =>
    simp only [Sipsess.reject]
    by_cases refused : (!s.st || s.msg.isNone || decide (scode < 300)) = true
    · rw [if_pos refused]
      exact inv
    · rw [if_neg refused]
      rw [Bool.or_eq_true, Bool.or_eq_true, not_or, not_or, Bool.not_eq_true', Bool.not_eq_false] at refused
      exact treply_inv inv alive refused.1.1 scode r
  | hangup => exact termwait_inv inv.offers
  | ack seq r => exact ackHandler_inv inv alive seq r
  | reinvite msg rseqValid r => exact reinviteHandler_inv inv alive msg rseqValid r
  | replyTimeout n => exact replyTimeout_inv inv alive n
  | bye rseqValid => exact byeHandler_inv inv rseqValid
  | cancel =>
    by_cases opening : s.st = true
    · simp only [if_pos opening]
      apply terminate_inv
      exact inv.offers.concat True.intro
    · simp only [if_neg opening]
      exact inv

theorem run_inv {s : Sipsess} (inv : Inv s) (events : List Event) : Inv (run s events) := by
  induction events generalizing s with
  | nil => exact inv
  | cons event events ih => exact ih (step_inv inv event)

theorem connect_inv {desc : Option Desc} {r : Results} {s : Sipsess} (connected : sipsessConnect desc r = .ok s) :
    Inv s := by
  unfold sipsessConnect at connected
  cases res : r.request with
  | some err =>
    rw [res] at connected
    exact absurd connected (by simp)
  | none =>
    rw [res] at connected
    rw [← Except.ok.inj connected]
    apply invite_inv
    exact ⟨⟨rfl, rfl, rfl, rfl⟩, Library.each_nil, rfl⟩

theorem accept_inv {msg : InMsg} {scode : Nat} {desc : Option Desc} {r : Results} {s : Sipsess}
    (accepted : sipsessAccept msg scode desc r = .ok s) : Inv s := by
  unfold sipsessAccept at accepted
  by_cases refused : scode < 101 ∨ scode > 299
  · rw [if_pos refused] at accepted
    exact absurd accepted (by simp)
  rw [if_neg refused] at accepted
  cases res : r.reply with
  | some err =>
    rw [res] at accepted
    exact absurd accepted (by simp)
  | none =>
    rw [res] at accepted
    rw [← Except.ok.inj accepted]
    by_cases final : scode ≥ 200
    · simp only [if_pos final]
      have frame := reply2xx_frame ⟨⟨none, none, [], true⟩, .reset, some msg, none, false, false, false, false, false,
        false, []⟩ msg scode desc none
      apply (reply2xx_replied ?_ msg scode desc none).inv frame.1 frame.2
      exact ⟨rfl, fun _ none_ => absurd none_ List.not_mem_nil, Library.each_nil, rfl⟩
    · simp only [if_neg final]
      apply treply_inv
      · exact ⟨Library.each_nil, fun _ => ⟨Or.inl ⟨rfl, rfl⟩, fun pending => absurd pending Bool.false_ne_true, rfl,
          fun _ => not_busy_iff.mpr ⟨rfl, rfl, rfl⟩, Nat.le_refl _⟩⟩
      · rfl
      · rfl

theorem start_inv {first : Start} {s : Sipsess} (started : start first = .ok s) : Inv s := by
  cases first with
  | connect desc r => exact connect_inv started
  | accept msg scode desc r => exact accept_inv started

/-- What a session keeps to. `kept` is that a modification that was put off still waits, with its description,
    unless an INVITE was sent or an offer of the peer was taken in since. -/
structure Excludes (s : Sipsess) : Prop where
  one : s.terminated = false → AtMostOne s.toExchanges
  pending : s.terminated = false → s.modifyPending = true → Busy s.toExchanges
  kept : s.terminated = false → putOff s.log = if s.modifyPending then some s.desc else none
  offers : Fine s.log

theorem sipsess_excludes (first : Start) (s : Sipsess) (started : start first = .ok s) (events : List Event) :
    Excludes (run s events) := by
  have inv := run_inv (start_inv started) events
  exact ⟨fun alive => (inv.live alive).one, fun alive => (inv.live alive).pending,
    fun alive => (inv.live alive).kept, inv.offers⟩

def accepting : Results := ⟨none, .authenticated, .ok (some [1]), none, none, none, none, false⟩

/-- A call is dialled and put off twice before it is modified, and meets an INVITE of the peer on the way. -/
def glare : List Event :=
  [.response none ⟨200, none⟩ accepting, .modify (some [2]) accepting, .modify (some [3]) accepting,
    .reinvite ⟨1#32, true⟩ true accepting, .response none ⟨491, none⟩ accepting, .timer accepting]

def dialled : Sipsess :=
  (⟨⟨none, none, [], false⟩, .reset, none, some [0], true, false, false, false, false, false, []⟩ : Sipsess).invite none

theorem sipsess_excludes_glare : Excludes (run dialled glare) ∧
    (run dialled glare).toExchanges = ⟨some .reinvite, none, [], false⟩ :=
  ⟨sipsess_excludes (.connect (some [0]) accepting) dialled rfl glare, by decide⟩

end Baresip.Sess
