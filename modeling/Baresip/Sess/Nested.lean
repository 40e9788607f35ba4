import Baresip.Sess.Sipsess

set_option linter.dupNamespace false

namespace Baresip.Sess.Nested

open Re Sip

/-! The handlers of a session whose owner may use the session before its own handler returns. -/

-- What the owner does to the session while its offer or answer handler runs.
variable {σ : Type*} (owner : σ → Sipsess → σ × Sipsess)

/-- The description in a 2xx to an INVITE of our own is handed to the owner. -/
def described (c : σ) (s : Sipsess) (r : Results) : (σ × Sipsess) × Option Errno × Option Desc :=
  if s.sentOffer then (owner c (s.say (.answered r.answer)), r.answer, none)
  else
    (owner c (({ s with modifyPending := false } : Sipsess).say (.offered (errOf r.offer))), errOf r.offer, descOf r.offer)

def inviteSuccess (c : σ) (s : Sipsess) (scode : Nat) (r : Results) : σ × Sipsess :=
  if r.dialog.isSome then (c, s.terminate (r.dialog.map .err) (some scode))
  else
    let ((c, s), err, desc) := described owner c s r
    let s := { s.say (.ack desc) with established := true }
    let err := err.or r.ack
    if err.isSome then (c, s.terminate (err.map .err) (some scode))
    else
      let s := if s.modifyPending then (s.reinvite true r.request).1 else { s with desc := none }
      (c, s.say .established)

def reinviteSuccess (c : σ) (s : Sipsess) (r : Results) : σ × Sipsess :=
  let ((c, s), _, desc) := described owner c s r
  (c, (s.say (.ack desc)).finish none r.request)

/-- A response that is not a 2xx, or does not come any more, is not for the owner to describe. -/
def succeeds (s : Sipsess) (err : Option Errno) (msg : Response) : Bool :=
  err.isNone && !(requestLoops s.ls msg.scode).1 && decide (200 ≤ msg.scode ∧ msg.scode < 300)

def inviteRespHandler (c : σ) (s : Sipsess) (err : Option Errno) (msg : Response) (r : Results) : σ × Sipsess :=
  if succeeds s err msg then inviteSuccess owner c { s with ls := (requestLoops s.ls msg.scode).2 } msg.scode r
  else (c, s.inviteRespHandler err msg r)

def reinviteRespHandler (c : σ) (s : Sipsess) (err : Option Errno) (msg : Response) (r : Results) : σ × Sipsess :=
  if succeeds s err msg then reinviteSuccess owner c { s with ls := (requestLoops s.ls msg.scode).2 } r
  else (c, s.reinviteRespHandler err msg r)

def ackHandler (c : σ) (s : Sipsess) (seq : BitVec 32) (r : Results) : σ × Sipsess :=
  match replyAck seq s.replyl with
  | none => (c, s)
  | some (reply, replyl) =>
    let s := { s with replyl := replyl }
    let ((c, s), err) :=
      if reply.awaitingAnswer then
        (owner c (({ s with awaitingAnswer := false } : Sipsess).say (.answered r.answer)), r.answer)
      else ((c, s), none)
    let s := if s.modifyPending && s.replyl.isEmpty then (s.reinvite true r.request).1 else s
    if s.established then (c, s)
    else
      let s := { s with msg := none, established := true }
      (c, if err.isSome then s.terminate (err.map .err) none else s.say .established)

def reinviteHandler (c : σ) (s : Sipsess) (msg : InMsg) (rseqValid : Bool) (r : Results) : σ × Sipsess :=
  if !rseqValid then (c, s.say (.reply 500))
  else if s.st || s.awaitingAnswer then (c, s.say (.reply 500))
  else if s.req.isSome then (c, s.say (.reply 491))
  else
    match r.offer with
    | .error _ =>
      let (c, s) := owner c s
      (c, s.say (.reply 488))
    | .ok desc =>
      let (c, s) := owner c (s.say (.offered none))
      (c, { s.reply2xx msg 200 desc r.reply with desc := none, modifyPending := false, tmr := none })

def response (c : σ) (s : Sipsess) (err : Option Errno) (msg : Response) (r : Results) : σ × Sipsess :=
  let final := err.isSome || decide (200 ≤ msg.scode)
  match s.req with
  | none => (c, s)
  | some .invite => inviteRespHandler owner c { s with req := if final then none else s.req } err msg r
  | some .reinvite => reinviteRespHandler owner c { s with req := if final then none else s.req } err msg r

def step (c : σ) (s : Sipsess) (event : Event) : σ × Sipsess :=
  if s.terminated then (c, s)
  else
    match event with
    | .response err msg r => response owner c s err msg r
    | .ack seq r => ackHandler owner c s seq r
    | .reinvite msg rseqValid r => reinviteHandler owner c s msg rseqValid r
    | event => (c, Sess.step s event)

/-! An owner that leaves the session alone has the steps of `Sess.step`. -/

section
variable {owner} (leaves : ∀ c s, (owner c s).2 = s)
include leaves

theorem inviteSuccess_leaves (c : σ) (s : Sipsess) (scode : Nat) (r : Results) :
    (inviteSuccess owner c s scode r).2 = s.inviteSuccess scode r := by
  unfold inviteSuccess Sipsess.inviteSuccess described
  by_cases failed : r.dialog.isSome = true
  · rw [if_pos failed, if_pos failed]
  · rw [if_neg failed, if_neg failed]
    by_cases sent : s.sentOffer = true
    · rw [if_pos sent, if_pos sent, apply_ite Prod.snd]
      dsimp only
      rw [leaves]
    · rw [if_neg sent, if_neg sent, apply_ite Prod.snd]
      dsimp only
      rw [leaves]

theorem reinviteSuccess_leaves (c : σ) (s : Sipsess) (r : Results) :
    (reinviteSuccess owner c s r).2 = s.reinviteSuccess r := by
  unfold reinviteSuccess Sipsess.reinviteSuccess described
  by_cases sent : s.sentOffer = true
  · rw [if_pos sent, if_pos sent]
    dsimp only
    rw [leaves]
  · rw [if_neg sent, if_neg sent]
    dsimp only
    rw [leaves]

end

theorem succeeds_iff {s : Sipsess} {err : Option Errno} {msg : Response} :
    succeeds s err msg = true ↔
      err = none ∧ (requestLoops s.ls msg.scode).1 = false ∧ 200 ≤ msg.scode ∧ msg.scode < 300 := by
  simp [succeeds, and_assoc]

theorem inviteRespHandler_succeeds {s : Sipsess} {err : Option Errno} {msg : Response}
    (ok : succeeds s err msg = true) (r : Results) :
    s.inviteRespHandler err msg r =
      ({ s with ls := (requestLoops s.ls msg.scode).2 } : Sipsess).inviteSuccess msg.scode r := by
  obtain ⟨rfl, loops, least, most⟩ := succeeds_iff.mp ok
  simp only [Sipsess.inviteRespHandler, Option.isSome_none, Bool.false_eq_true, if_false, loops,
    if_neg (Nat.not_lt.mpr least), if_pos most]

theorem reinviteRespHandler_succeeds {s : Sipsess} {err : Option Errno} {msg : Response}
    (ok : succeeds s err msg = true) (r : Results) :
    s.reinviteRespHandler err msg r =
      ({ s with ls := (requestLoops s.ls msg.scode).2 } : Sipsess).reinviteSuccess r := by
  obtain ⟨rfl, loops, least, most⟩ := succeeds_iff.mp ok
  simp only [Sipsess.reinviteRespHandler, Option.isSome_none, Bool.false_eq_true, if_false, loops,
    if_neg (Nat.not_lt.mpr least), if_pos most]

section
variable {owner} (leaves : ∀ c s, (owner c s).2 = s)
include leaves

theorem inviteRespHandler_leaves (c : σ) (s : Sipsess) (err : Option Errno) (msg : Response) (r : Results) :
    (inviteRespHandler owner c s err msg r).2 = s.inviteRespHandler err msg r := by
  unfold inviteRespHandler
  by_cases ok : succeeds s err msg = true
  · rw [if_pos ok, inviteSuccess_leaves leaves, inviteRespHandler_succeeds ok]
  · rw [if_neg ok]

theorem reinviteRespHandler_leaves (c : σ) (s : Sipsess) (err : Option Errno) (msg : Response) (r : Results) :
    (reinviteRespHandler owner c s err msg r).2 = s.reinviteRespHandler err msg r := by
  unfold reinviteRespHandler
  by_cases ok : succeeds s err msg = true
  · rw [if_pos ok, reinviteSuccess_leaves leaves, reinviteRespHandler_succeeds ok]
  · rw [if_neg ok]

theorem response_leaves (c : σ) (s : Sipsess) (err : Option Errno) (msg : Response) (r : Results) :
    (response owner c s err msg r).2 = s.response err msg r := by
  unfold response Sipsess.response
  cases s.req with
  | none => rfl
  | some kind =>
    cases kind with
    | invite => exact inviteRespHandler_leaves leaves c _ err msg r
    | reinvite => exact reinviteRespHandler_leaves leaves c _ err msg r

theorem ackHandler_leaves (c : σ) (s : Sipsess) (seq : BitVec 32) (r : Results) :
    (ackHandler owner c s seq r).2 = s.ackHandler seq r := by
  unfold ackHandler Sipsess.ackHandler
  cases replyAck seq s.replyl with
  | none => rfl
  | some found =>
    by_cases awaits : found.1.awaitingAnswer = true
    · simp only [if_pos awaits, apply_ite Prod.snd]
      rw [leaves]
    · simp only [if_neg awaits, apply_ite Prod.snd]

theorem reinviteHandler_leaves (c : σ) (s : Sipsess) (msg : InMsg) (rseqValid : Bool) (r : Results) :
    (reinviteHandler owner c s msg rseqValid r).2 = s.reinviteHandler msg rseqValid r := by
  unfold reinviteHandler Sipsess.reinviteHandler
  rw [apply_ite Prod.snd, apply_ite Prod.snd, apply_ite Prod.snd]
  cases r.offer with
  | error err =>
    dsimp only
    rw [leaves]
  | ok desc =>
    dsimp only
    rw [leaves]

theorem step_leaves (c : σ) (s : Sipsess) (event : Event) : (step owner c s event).2 = Sess.step s event := by
  unfold step Sess.step
  by_cases gone : s.terminated = true
  · rw [if_pos gone, if_pos gone]
  · rw [if_neg gone, if_neg gone]
    cases event with
    | response err msg r => exact response_leaves leaves c s err msg r
    | ack seq r => exact ackHandler_leaves leaves c s seq r
    | reinvite msg rseqValid r => exact reinviteHandler_leaves leaves c s msg rseqValid r
    | _ => simp only [if_neg gone]

end

/-! What the owner keeps of its own state in each of its handlers, it keeps in each step. -/

section
variable {owner} {Q : σ → Prop} {c : σ} (keeps : ∀ c s, Q c → Q (owner c s).1) (start : Q c)
include keeps start

theorem described_owner (s : Sipsess) (r : Results) : Q (described owner c s r).1.1 := by
  unfold described
  split
  · exact keeps c _ start
  · exact keeps c _ start

theorem inviteSuccess_owner (s : Sipsess) (scode : Nat) (r : Results) : Q (inviteSuccess owner c s scode r).1 := by
  unfold inviteSuccess
  by_cases failed : r.dialog.isSome = true
  · rw [if_pos failed]
    exact start
  · rw [if_neg failed, apply_ite Prod.fst, ite_self]
    exact described_owner keeps start s r

theorem inviteRespHandler_owner (s : Sipsess) (err : Option Errno) (msg : Response) (r : Results) :
    Q (inviteRespHandler owner c s err msg r).1 := by
  unfold inviteRespHandler
  split
  · exact inviteSuccess_owner keeps start _ msg.scode r
  · exact start

theorem reinviteRespHandler_owner (s : Sipsess) (err : Option Errno) (msg : Response) (r : Results) :
    Q (reinviteRespHandler owner c s err msg r).1 := by
  unfold reinviteRespHandler
  split
  · exact described_owner keeps start _ r
  · exact start

theorem response_owner (s : Sipsess) (err : Option Errno) (msg : Response) (r : Results) :
    Q (response owner c s err msg r).1 := by
  unfold response
  cases s.req with
  | none => exact start
  | some kind =>
    cases kind with
    | invite => exact inviteRespHandler_owner keeps start _ err msg r
    | reinvite => exact reinviteRespHandler_owner keeps start _ err msg r

theorem ackHandler_owner (s : Sipsess) (seq : BitVec 32) (r : Results) : Q (ackHandler owner c s seq r).1 := by
  unfold ackHandler
  split
  · exact start
  · rename_i reply replyl _
    by_cases awaits : reply.awaitingAnswer = true
    · simp only [if_pos awaits, apply_ite Prod.fst, ite_self]
      exact keeps c _ start
    · simp only [if_neg awaits, apply_ite Prod.fst, ite_self]
      exact start

theorem reinviteHandler_owner (s : Sipsess) (msg : InMsg) (rseqValid : Bool) (r : Results) :
    Q (reinviteHandler owner c s msg rseqValid r).1 := by
  unfold reinviteHandler
  split
  · exact start
  split
  · exact start
  split
  · exact start
  split
  · exact keeps c _ start
  · exact keeps c _ start

theorem step_owner (s : Sipsess) (event : Event) : Q (step owner c s event).1 := by
  unfold step
  by_cases gone : s.terminated = true
  · rw [if_pos gone]
    exact start
  · rw [if_neg gone]
    cases event with
    | response err msg r => exact response_owner keeps start s err msg r
    | ack seq r => exact ackHandler_owner keeps start s seq r
    | reinvite msg rseqValid r => exact reinviteHandler_owner keeps start s msg rseqValid r
    | _ => exact start

end

end Baresip.Sess.Nested
