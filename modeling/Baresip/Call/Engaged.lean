import Baresip.Call.Establishing

set_option linter.dupNamespace false

namespace Baresip.Sess

open Re Sip

/-! A session stays established. -/

@[simp] theorem say_established (s : Sipsess) (out : Out) : (s.say out).established = s.established := rfl

@[simp] theorem termwait_established (s : Sipsess) : s.termwait.established = s.established := by
  unfold Sipsess.termwait
  cases s.st <;> rfl

@[simp] theorem terminate_established (s : Sipsess) (err : Option CloseErr) (scode : Option Nat) :
    (s.terminate err scode).established = s.established := termwait_established s

@[simp] theorem invite_established (s : Sipsess) (res : Option Errno) : (s.invite res).established = s.established := rfl

@[simp] theorem reinvite_established (s : Sipsess) (resetLs : Bool) (res : Option Errno) :
    (s.reinvite resetLs res).1.established = s.established := by
  unfold Sipsess.reinvite
  cases s.req <;> rfl

@[simp] theorem reply2xx_established (s : Sipsess) (msg : InMsg) (scode : Nat) (desc : Option Desc)
    (res : Option Errno) : (s.reply2xx msg scode desc res).established = s.established := by
  unfold Sipsess.reply2xx
  cases res <;> rfl

@[simp] theorem treply_established (s : Sipsess) (scode : Nat) (r : Results) :
    (s.treply scode r).established = s.established := by
  unfold Sipsess.treply
  split <;> rfl

@[simp] theorem modify_established (s : Sipsess) (desc : Option Desc) (res : Option Errno) :
    (s.modify desc res).1.established = s.established := by
  unfold Sipsess.modify
  split
  · rfl
  dsimp only
  split
  · rfl
  · exact reinvite_established _ true res

@[simp] theorem finish_established (s : Sipsess) (err res : Option Errno) :
    (s.finish err res).established = s.established := by
  unfold Sipsess.finish
  split
  · exact terminate_established s _ none
  split
  · exact reinvite_established s true res
  · rfl

@[simp] theorem inviteAgain_established (s : Sipsess) (scode : Nat) (r : Results) :
    (s.inviteAgain scode r).established = s.established := by
  unfold Sipsess.inviteAgain
  split <;> simp

/-- The session is set up, or over. -/
def Reached (s : Sipsess) : Prop := s.established = true ∨ s.terminated = true

theorem reached_terminate (s : Sipsess) (err : Option CloseErr) (scode : Option Nat) : Reached (s.terminate err scode) :=
  Or.inr rfl

theorem accepted_established {s : Sipsess} (done : s.established = true) (err : Option Errno) (scode : Nat)
    (res : Option Errno) :
    (if err.isSome then s.terminate (err.map .err) (some scode)
      else (if s.modifyPending then (s.reinvite true res).1 else { s with desc := none }).say .established).established
        = true := by
  by_cases failed : err.isSome = true
  · rw [if_pos failed, terminate_established, done]
  · rw [if_neg failed, say_established]
    by_cases pending : s.modifyPending = true
    · rw [if_pos pending, reinvite_established, done]
    · rw [if_neg pending]
      exact done

theorem inviteSuccess_established {s : Sipsess} {r : Results} (created : s.established = true ∨ r.dialog = none)
    (scode : Nat) : (s.inviteSuccess scode r).established = true := by
  unfold Sipsess.inviteSuccess
  by_cases failed : r.dialog.isSome = true
  · rw [if_pos failed, terminate_established]
    exact created.resolve_right (Option.isSome_iff_ne_none.mp failed)
  · rw [if_neg failed]
    by_cases sent : s.sentOffer = true
    · rw [if_pos sent]
      exact accepted_established rfl _ scode _
    · rw [if_neg sent]
      exact accepted_established rfl _ scode _

theorem inviteSuccess_reached (s : Sipsess) (scode : Nat) (r : Results) : Reached (s.inviteSuccess scode r) := by
  by_cases failed : r.dialog.isSome = true
  · unfold Sipsess.inviteSuccess
    rw [if_pos failed]
    exact reached_terminate s _ _
  · exact Or.inl (inviteSuccess_established (Or.inr (Option.not_isSome_iff_eq_none.mp failed)) scode)

/-- A session is opening while its INVITE is without an answer, or its answer without an ACK. -/
def Opening (s : Sipsess) : Prop :=
  s.req = some .invite ∨ (s.req = none ∧ s.tmr = none ∧ (s.st = true ∨ s.replyl ≠ []))

def Underway (s : Sipsess) : Prop := Reached s ∨ Opening s

theorem inviteAgain_underway (s : Sipsess) (scode : Nat) (r : Results) : Underway (s.inviteAgain scode r) := by
  unfold Sipsess.inviteAgain
  cases res : r.request with
  | none => exact Or.inr (Or.inl rfl)
  | some err => exact Or.inl (reached_terminate _ _ _)

theorem inviteRespHandler_underway {s : Sipsess} {err : Option Errno} {msg : Response}
    (req : err = none → msg.scode < 200 → s.req = some .invite) (r : Results) :
    Underway (s.inviteRespHandler err msg r) := by
  unfold Sipsess.inviteRespHandler
  generalize (if err.isSome = true then (false, s.ls) else requestLoops s.ls msg.scode) = counted
  obtain ⟨loops, ls⟩ := counted
  dsimp only
  split
  · exact Or.inl (reached_terminate _ _ _)
  rename_i alive
  split
  · exact Or.inl (reached_terminate _ _ _)
  split
  · rename_i provisional
    exact Or.inr (Or.inl (req (Option.not_isSome_iff_eq_none.mp alive) provisional))
  split
  · exact Or.inl (inviteSuccess_reached _ msg.scode r)
  split
  · split
    · exact Or.inl (reached_terminate _ _ _)
    · exact inviteAgain_underway _ msg.scode r
  split
  · cases r.auth with
    | authenticated => exact inviteAgain_underway _ msg.scode r
    | eauth => exact Or.inl (reached_terminate _ _ _)
    | failed err => exact Or.inl (reached_terminate _ _ _)
  · exact Or.inl (reached_terminate _ _ _)

theorem response_underway {s : Sipsess} (opening : Opening s) (err : Option Errno) (msg : Response) (r : Results) :
    Underway (s.response err msg r) := by
  unfold Sipsess.response
  rcases opening with inviting | ⟨req, rest⟩
  · rw [inviting]
    apply inviteRespHandler_underway
    intro alive provisional
    dsimp only
    rw [alive, if_neg (by simp [provisional])]
  · rw [req]
    exact Or.inr (Or.inr ⟨req, rest⟩)

theorem Opening.said {s : Sipsess} (opening : Opening s) (out : Out) : Opening (s.say out) := opening

/-- Another INVITE of our own waits until the session is no longer opening. -/
theorem modify_opening {s : Sipsess} (opening : Opening s) (desc : Option Desc) (res : Option Errno) :
    Opening (s.modify desc res).1 := by
  unfold Sipsess.modify
  split
  · exact opening
  rename_i unanswered
  dsimp only
  split
  · exact opening
  rename_i idle
  rcases opening with inviting | ⟨-, -, st | replyl⟩
  · simp [inviting] at idle
  · simp [st] at unanswered
  · simp [replyl] at idle

theorem timer_opening {s : Sipsess} (opening : Opening s) (tmr : s.tmr.isSome = true) (resetLs : Bool)
    (res : Option Errno) : Opening (({ s with tmr := none } : Sipsess).reinvite resetLs res).1 := by
  rcases opening with inviting | ⟨-, none_, -⟩
  · unfold Sipsess.reinvite
    rw [if_pos (by simp [inviting])]
    exact Or.inl inviting
  · rw [none_] at tmr
    contradiction

theorem reply2xx_opening {s : Sipsess} (opening : Opening s) (msg : InMsg) (scode : Nat) (desc : Option Desc)
    {res : Option Errno} (sent : res = none ∨ s.st = false) : Opening (s.reply2xx msg scode desc res) := by
  unfold Sipsess.reply2xx
  rcases opening with inviting | ⟨req, tmr, waits⟩
  · cases res with
    | none => exact Or.inl inviting
    | some err => exact Or.inl inviting
  · cases res with
    | none => exact Or.inr ⟨req, tmr, Or.inr (List.append_ne_nil_of_right_ne_nil _ (List.cons_ne_nil _ _))⟩
    | some err =>
      have answered : s.st = false := sent.resolve_left (by simp)
      rw [answered] at waits
      exact Or.inr ⟨req, tmr, Or.inr (waits.resolve_left Bool.false_ne_true)⟩

theorem progress_opening {s : Sipsess} (opening : Opening s) (scode : Nat) {r : Results} (sent : r.reply = none) :
    Opening (s.progress scode r).1 := by
  unfold Sipsess.progress
  split
  · exact opening
  rename_i refused
  have provisional : scode < 200 := by
    simp only [Bool.or_eq_true, decide_eq_true_eq, not_or] at refused
    omega
  unfold Sipsess.treply
  rw [if_neg (by simp [sent])]
  rcases opening with inviting | ⟨req, tmr, -⟩
  · exact Or.inl inviting
  · exact Or.inr ⟨req, tmr, Or.inl (decide_eq_true provisional)⟩

theorem answer_opening {s : Sipsess} (opening : Opening s) (scode : Nat) (desc : Option Desc) {r : Results}
    (sent : r.reply = none) : Opening (s.answer scode desc r).1 := by
  unfold Sipsess.answer
  cases s.msg with
  | none => exact opening
  | some msg =>
    dsimp only
    split
    · exact opening
    · exact reply2xx_opening opening msg scode desc (Or.inl sent)

theorem acked_reached (s : Sipsess) (err : Option Errno) :
    Reached (if s.established then s
      else if err.isSome then ({ s with msg := none, established := true } : Sipsess).terminate (err.map .err) none
      else ({ s with msg := none, established := true } : Sipsess).say .established) := by
  split
  · rename_i done
    exact Or.inl done
  split
  · exact reached_terminate _ _ _
  · exact Or.inl rfl

theorem acked_established {s : Sipsess} (done : s.established = true) (err : Option Errno) :
    (if s.established then s
      else if err.isSome then ({ s with msg := none, established := true } : Sipsess).terminate (err.map .err) none
      else ({ s with msg := none, established := true } : Sipsess).say .established).established = true := by
  rw [if_pos done]
  exact done

theorem ackHandler_underway {s : Sipsess} (opening : Opening s) (seq : BitVec 32) (r : Results) :
    Underway (s.ackHandler seq r) := by
  unfold Sipsess.ackHandler
  cases replyAck seq s.replyl with
  | none => exact Or.inr opening
  | some found =>
    obtain ⟨reply, replyl⟩ := found
    by_cases awaits : reply.awaitingAnswer = true
    · simp only [if_pos awaits]
      exact Or.inl (acked_reached _ _)
    · simp only [if_neg awaits]
      exact Or.inl (acked_reached _ _)

theorem reinviteHandler_opening {s : Sipsess} (opening : Opening s) (msg : InMsg) (rseqValid : Bool) (r : Results) :
    Opening (s.reinviteHandler msg rseqValid r) := by
  unfold Sipsess.reinviteHandler
  split
  · exact opening
  split
  · exact opening
  rename_i answered
  split
  · exact opening
  cases r.offer with
  | error err => exact opening
  | ok desc =>
    have st : s.st = false := by
      simp only [Bool.or_eq_true, not_or, Bool.not_eq_true] at answered
      exact answered.1
    rcases reply2xx_opening (opening.said (.offered none)) msg 200 desc (Or.inr st) with
      inviting | ⟨req, -, waits⟩
    · exact Or.inl inviting
    · exact Or.inr ⟨req, rfl, waits⟩

theorem replyTimeout_underway {s : Sipsess} (opening : Opening s) (n : Nat) : Underway (s.replyTimeout n) := by
  unfold Sipsess.replyTimeout
  split
  · exact Or.inr opening
  dsimp only
  split
  · rename_i left
    rcases opening with inviting | ⟨req, tmr, -⟩
    · exact Or.inr (Or.inl inviting)
    · exact Or.inr (Or.inr ⟨req, tmr, Or.inr (by simpa using left)⟩)
  · exact Or.inl (reached_terminate _ _ _)

theorem byeHandler_underway {s : Sipsess} (opening : Opening s) (rseqValid : Bool) :
    Underway (s.byeHandler rseqValid) := by
  unfold Sipsess.byeHandler
  split
  · exact Or.inr opening
  · exact Or.inl (reached_terminate _ _ _)

/-- The owner's own replies go out, and it does not refuse the call, which would be released then. -/
def Event.Delivered : Event → Prop
  | progress _ r => r.reply = none
  | answer _ _ r => r.reply = none
  | reject _ _ => False
  | _ => True

theorem step_opening {s : Sipsess} (opening : Opening s) {event : Event} (delivered : event.Delivered) :
    Underway (step s event) := by
  unfold step
  split
  · exact Or.inr opening
  cases event with
  | response err msg r => exact response_underway opening err msg r
  | timer r =>
    dsimp only
    split
    · rename_i tmr
      exact Or.inr (timer_opening opening tmr true r.request)
    · exact Or.inr opening
  | modify desc r => exact Or.inr (modify_opening opening desc r.request)
  | progress scode r => exact Or.inr (progress_opening opening scode delivered)
  | answer scode desc r => exact Or.inr (answer_opening opening scode desc delivered)
  | reject scode r => exact delivered.elim
  | hangup => exact Or.inl (Or.inr rfl)
  | ack seq r => exact ackHandler_underway opening seq r
  | reinvite msg rseqValid r => exact Or.inr (reinviteHandler_opening opening msg rseqValid r)
  | replyTimeout n => exact replyTimeout_underway opening n
  | bye rseqValid => exact byeHandler_underway opening rseqValid
  | cancel =>
    dsimp only
    split
    · exact Or.inl (Or.inr rfl)
    · exact Or.inr opening

/-! An established session stays established. -/

theorem inviteRespHandler_established {s : Sipsess} (done : s.established = true) (err : Option Errno)
    (msg : Response) (r : Results) : (s.inviteRespHandler err msg r).established = true := by
  unfold Sipsess.inviteRespHandler
  generalize (if err.isSome = true then (false, s.ls) else requestLoops s.ls msg.scode) = counted
  obtain ⟨loops, ls⟩ := counted
  dsimp only
  split
  · simp [done]
  split
  · simp [done]
  split
  · exact done
  split
  · exact inviteSuccess_established (s := { s with ls := ls }) (Or.inl done) msg.scode
  split
  · split <;> simp [done]
  split
  · cases r.auth <;> simp [done]
  · simp [done]

theorem reinviteSuccess_established {s : Sipsess} (done : s.established = true) (r : Results) :
    (s.reinviteSuccess r).established = true := by
  unfold Sipsess.reinviteSuccess
  cases s.sentOffer <;> simp [done]

theorem reinviteFailure_established {s : Sipsess} (done : s.established = true) (msg : Response) (r : Results) :
    (s.reinviteFailure msg r).established = true := by
  unfold Sipsess.reinviteFailure
  split
  · cases r.auth with
    | authenticated =>
      dsimp only
      split <;> simp [done]
    | _ => simp [done]
  split
  · simp [done]
  split
  · exact done
  split
  · cases msg.retryAfter <;> simp [done]
  · simp [done]

theorem reinviteRespHandler_established {s : Sipsess} (done : s.established = true) (err : Option Errno)
    (msg : Response) (r : Results) : (s.reinviteRespHandler err msg r).established = true := by
  unfold Sipsess.reinviteRespHandler
  generalize (if err.isSome = true then (false, s.ls) else requestLoops s.ls msg.scode) = counted
  obtain ⟨loops, ls⟩ := counted
  dsimp only
  split
  · simp [done]
  split
  · simp [done]
  split
  · exact done
  split
  · exact reinviteSuccess_established (s := { s with ls := ls }) done r
  · exact reinviteFailure_established (s := { s with ls := ls }) done msg r

theorem response_established {s : Sipsess} (done : s.established = true) (err : Option Errno) (msg : Response)
    (r : Results) : (s.response err msg r).established = true := by
  unfold Sipsess.response
  cases s.req with
  | none => exact done
  | some kind =>
    cases kind with
    | invite =>
      apply inviteRespHandler_established
      exact done
    | reinvite =>
      apply reinviteRespHandler_established
      exact done

theorem ackHandler_established {s : Sipsess} (done : s.established = true) (seq : BitVec 32) (r : Results) :
    (s.ackHandler seq r).established = true := by
  unfold Sipsess.ackHandler
  cases replyAck seq s.replyl with
  | none => exact done
  | some found =>
    obtain ⟨reply, replyl⟩ := found
    by_cases awaits : reply.awaitingAnswer = true
    · simp only [if_pos awaits]
      apply acked_established
      split <;> simp [done]
    · simp only [if_neg awaits]
      apply acked_established
      split <;> simp [done]

theorem reinviteHandler_established {s : Sipsess} (done : s.established = true) (msg : InMsg) (rseqValid : Bool)
    (r : Results) : (s.reinviteHandler msg rseqValid r).established = true := by
  unfold Sipsess.reinviteHandler
  split
  · exact done
  split
  · exact done
  split
  · exact done
  cases r.offer <;> simp [done]

theorem step_established {s : Sipsess} (done : s.established = true) (event : Event) :
    (step s event).established = true := by
  unfold step
  split
  · exact done
  cases event with
  | response err msg r => exact response_established done err msg r
  | timer r =>
    dsimp only
    split <;> simp [done]
  | modify desc r => simp [done]
  | progress scode r =>
    dsimp only [Sipsess.progress]
    split <;> simp [done]
  | answer scode desc r =>
    dsimp only [Sipsess.answer]
    cases s.msg with
    | none => exact done
    | some msg =>
      dsimp only
      split <;> simp [done]
  | reject scode r =>
    dsimp only [Sipsess.reject]
    split <;> simp [done]
  | hangup => simp [done]
  | ack seq r => exact ackHandler_established done seq r
  | reinvite msg rseqValid r => exact reinviteHandler_established done msg rseqValid r
  | replyTimeout n =>
    dsimp only [Sipsess.replyTimeout]
    split
    · exact done
    · split <;> simp [done]
  | bye rseqValid =>
    dsimp only [Sipsess.byeHandler]
    split
    · exact done
    · split <;> simp [done]
  | cancel =>
    dsimp only [Sipsess.cancelHandler]
    split <;> simp [done]

theorem step_underway {s : Sipsess} (underway : Underway s) {event : Event} (delivered : event.Delivered) :
    Underway (step s event) := by
  rcases underway with (done | gone) | opening
  · exact Or.inl (Or.inl (step_established done event))
  · unfold step
    rw [if_pos gone]
    exact Or.inl (Or.inr gone)
  · exact step_opening opening delivered

theorem modify_underway {s : Sipsess} (underway : Underway s) (desc : Option Desc) (res : Option Errno) :
    Underway (s.modify desc res).1 := by
  rcases underway with (done | gone) | opening
  · exact Or.inl (Or.inl ((modify_established s desc res).trans done))
  · unfold Sipsess.modify
    rw [if_pos (by simp [gone])]
    exact Or.inl (Or.inr gone)
  · exact Or.inr (modify_opening opening desc res)

theorem connect_underway {desc : Option Desc} {r : Results} {s : Sipsess} (connected : sipsessConnect desc r = .ok s) :
    Underway s := by
  unfold sipsessConnect at connected
  cases res : r.request with
  | some err => simp [res] at connected
  | none =>
    simp only [res] at connected
    rw [← Except.ok.inj connected]
    exact Or.inr (Or.inl rfl)

theorem accept_underway {msg : InMsg} {desc : Option Desc} {r : Results} {s : Sipsess}
    (accepted : sipsessAccept msg 180 desc r = .ok s) : Underway s := by
  unfold sipsessAccept at accepted
  cases res : r.reply with
  | some err => simp [res] at accepted
  | none =>
    simp only [res] at accepted
    rw [← Except.ok.inj accepted]
    refine Or.inr (Or.inr ?_)
    simp [Sipsess.treply, Sipsess.say, res]

theorem progress_underway {s : Sipsess} (underway : Underway s) (scode : Nat) {r : Results} (sent : r.reply = none) :
    Underway (s.progress scode r).1 := by
  rcases underway with (done | gone) | opening
  · apply Or.inl (Or.inl _)
    unfold Sipsess.progress
    split <;> simp [done]
  · apply Or.inl (Or.inr _)
    unfold Sipsess.progress Sipsess.treply
    rw [if_neg (c := r.reply.isSome = true) (by simp [sent])]
    split <;> simp [gone, Sipsess.say]
  · exact Or.inr (progress_opening opening scode sent)

theorem answer_underway {s : Sipsess} (underway : Underway s) (scode : Nat) (desc : Option Desc) {r : Results}
    (sent : r.reply = none) : Underway (s.answer scode desc r).1 := by
  rcases underway with (done | gone) | opening
  · apply Or.inl (Or.inl _)
    unfold Sipsess.answer
    cases s.msg with
    | none => exact done
    | some msg =>
      dsimp only
      split <;> simp [done]
  · apply Or.inl (Or.inr _)
    unfold Sipsess.answer Sipsess.reply2xx
    cases s.msg with
    | none => exact gone
    | some msg =>
      rw [sent]
      dsimp only
      split <;> simp [gone, Sipsess.say]
  · exact Or.inr (answer_opening opening scode desc sent)

end Baresip.Sess

namespace Baresip.Establishing

open Re Sess

theorem Underway.engaged {sess : Sipsess} (underway : Underway sess) (early : sess.established = false) :
    Engaged sess := by
  rcases underway with (done | gone) | inviting | ⟨-, -, st | replyl⟩
  · rw [early] at done
    contradiction
  · exact Or.inl (by simp [gone])
  · exact Or.inr (by simp [inviting])
  · exact Or.inl (by simp [st])
  · exact Or.inr (by simp [replyl])

/-- The session of a call, if it has one, is underway. -/
def Sound (call : Call) : Prop := ∀ sess ∈ call.sess, Underway sess

theorem Sound.of {call : Call} {sess : Sipsess} (here : call.sess = some sess) (underway : Underway sess) :
    Sound call := by
  intro other same
  rw [Option.some.inj ((show call.sess = some other from same).symm.trans here)]
  exact underway

theorem callModify_sound {call : Call} (sound : Sound call) (report : Report) : Sound (call.callModify report).1 := by
  unfold Call.callModify
  cases report.sdp with
  | error err => exact sound
  | ok desc =>
    cases here : call.sess with
    | none => exact sound
    | some sess => exact Sound.of rfl (modify_underway (sound sess here) (some desc) report.r.request)

theorem sendInvite_sound {call : Call} (sound : Sound call) (report : Report) : Sound (call.sendInvite report).1 := by
  unfold Call.sendInvite
  cases report.sdp with
  | error err => exact sound
  | ok desc =>
    dsimp only
    cases sent : sipsessConnect (some desc) report.r with
    | error err => exact sound
    | ok sess => exact Sound.of rfl (connect_underway sent)

theorem established_sound {call : Call} (sound : Sound call) (report : Report) : Sound (call.established report) := by
  by_cases waits : call.mnatWait = true
  · rw [established_first waits]
    cases call.state with
    | outgoing => exact sendInvite_sound (show Sound (call.released report) from sound) report
    | _ => exact sound
  · unfold Call.established
    rw [if_pos (show (!(call.say _).mnatWait) = true by simp [Call.say, waits])]
    exact callModify_sound (show Sound (call.say _) from sound) report

theorem established_foldl_sound {call : Call} (sound : Sound call) (reports : List Report) :
    Sound (reports.foldl Call.established call) := by
  induction reports generalizing call with
  | nil => exact sound
  | cons report reports ih => exact ih (established_sound sound report)

theorem sound_none {call : Call} (none_ : call.sess = none) : Sound call := by
  intro sess here
  rw [none_] at here
  contradiction

theorem callAlloc_sound (setup : Option Setup) : Sound (callAlloc setup) := by
  cases setup with
  | none => exact sound_none rfl
  | some setup =>
    have allocated : Sound (setup.inSession.foldl Call.established ⟨true, false, .idle, false, none, false, []⟩) :=
      established_foldl_sound (sound_none rfl) _
    have waiting : Sound { setup.inSession.foldl Call.established ⟨true, false, .idle, false, none, false, []⟩ with
        mnatWait := true } := allocated
    exact established_foldl_sound waiting setup.inMedia

theorem callAccept_sound {call : Call} (sound : Sound call) (uri decode : Option Errno) (msg : InMsg) (r : Results) :
    Sound (call.callAccept uri decode msg r).1 := by
  unfold Call.callAccept
  split
  · exact sound
  split
  · exact sound
  dsimp only
  cases accepted : sipsessAccept msg 180 none r with
  | error err => exact sound
  | ok sess =>
    have underway : Underway sess := accept_underway accepted
    dsimp only
    split
    · exact Sound.of rfl underway
    · exact Sound.of rfl underway

theorem start_sound (setup : Option Setup) (first : Start) : Sound (start setup first) := by
  cases first with
  | connect uri report =>
    have connected : Sound ((callAlloc setup).callConnect uri report).1 := by
      unfold Call.callConnect
      split
      · exact callAlloc_sound setup
      dsimp only
      split
      · exact sendInvite_sound (show Sound { callAlloc setup with state := .outgoing } from callAlloc_sound setup) report
      · exact callAlloc_sound setup
    unfold start
    dsimp only
    split
    · exact connected
    · exact connected
  | accept uri decode msg r =>
    have accepted := callAccept_sound (callAlloc_sound setup) uri decode msg r
    unfold start
    dsimp only
    split
    · exact accepted
    · exact accepted

/-- No report comes from within a handler, and the owner's replies go out. -/
def Event.Plain : Event → Prop
  | receive _ during => during = []
  | answer _ during _ _ r => during = [] ∧ r.reply = none
  | progress _ r => r.reply = none
  | _ => True

theorem Message.delivered (message : Message) : message.event.Delivered := by cases message <;> exact True.intro

theorem hears_foldl_sess (scode : Nat) (outs : List Sess.Out) (call : Call) :
    (outs.foldl (Call.hears scode) call).sess = call.sess := by
  induction outs generalizing call with
  | nil => rfl
  | cons out outs ih =>
    rw [List.foldl_cons, ih]
    cases out with
    | progress =>
      show (call.sipsessProgrHandler scode).sess = call.sess
      unfold Call.sipsessProgrHandler
      split
      · rfl
      · split <;> rfl
    | established =>
      show call.sipsessEstabHandler.sess = call.sess
      unfold Call.sipsessEstabHandler
      split <;> rfl
    | _ => rfl

theorem receive_sound {call : Call} (sound : Sound call) (message : Message) : Sound (call.receive message []) := by
  unfold Call.receive
  cases here : call.sess with
  | none => exact sound
  | some sess =>
    have leaves : ∀ call sess, (Call.updates [] call sess).2 = sess := fun _ _ => rfl
    have underway : Underway (Nested.step (Call.updates []) call sess message.event).2 := by
      rw [Nested.step_leaves leaves]
      exact step_underway (sound sess here) message.delivered
    exact Sound.of (hears_foldl_sess _ _ _) underway

theorem callAnswer_sound {call : Call} (sound : Sound call) (scode : Nat) (update : Option Errno)
    (sdp : Except Errno Desc) {r : Results} (sent : r.reply = none) :
    Sound (call.callAnswer scode [] update sdp r).1 := by
  unfold Call.callAnswer
  split
  · exact sound
  split
  · exact sound
  rw [List.foldl_nil, ite_self]
  dsimp only
  split
  · exact sound
  split
  · exact sound
  · exact sound
  · rename_i desc sess here
    exact Sound.of rfl (answer_underway (sound sess here) scode (some desc) sent)

theorem callProgress_sound {call : Call} (sound : Sound call) (sdp : Except Errno Desc) {r : Results}
    (sent : r.reply = none) : Sound (call.callProgress sdp r).1 := by
  unfold Call.callProgress
  cases sdp with
  | error err => exact sound
  | ok desc =>
    intro after there
    obtain ⟨sess, here, rfl⟩ := Option.map_eq_some_iff.mp there
    exact progress_underway (sound sess here) 183 sent

theorem step_sound {call : Call} (sound : call.closed = false → Sound call) {event : Event} (plain : event.Plain)
    (open_ : (step call event).closed = false) : Sound (step call event) := by
  unfold step at open_ ⊢
  split
  · rename_i closed
    rw [if_pos closed, closed] at open_
    contradiction
  rename_i opened
  have sound := sound (Bool.eq_false_iff.mpr opened)
  rw [if_neg opened] at open_
  cases event with
  | mnat err scode report =>
    dsimp only
    split
    · unfold Call.mnatHandler
      split
      · exact sound
      · exact established_sound sound report
    · exact sound
  | receive message during =>
    obtain rfl : during = [] := plain
    dsimp only
    rw [ite_self]
    exact receive_sound sound message
  | answer scode during update sdp r =>
    obtain ⟨rfl, sent⟩ := plain
    dsimp only
    rw [ite_self]
    exact callAnswer_sound sound scode update sdp sent
  | progress sdp r => exact callProgress_sound sound sdp plain
  | modify report => exact callModify_sound sound report
  | hangup r => contradiction
  | close => contradiction

theorem run_sound {call : Call} (sound : call.closed = false → Sound call) {events : List Event}
    (plain : ∀ event ∈ events, event.Plain) : (run call events).closed = false → Sound (run call events) := by
  unfold run
  induction events generalizing call with
  | nil => exact sound
  | cons event events ih =>
    exact ih (step_sound sound (plain event List.mem_cons_self))
      fun event member => plain event (List.mem_cons_of_mem _ member)

/-- A session that is not established is engaged, unless a reply of the owner could not be sent; so a later report
    comes too early only from within a handler or after such a reply. -/
theorem run_engaged (setup : Option Setup) (first : Start) {events : List Event} (plain : ∀ event ∈ events, event.Plain)
    (open_ : (run (start setup first) events).closed = false) :
    ∀ sess ∈ (run (start setup first) events).sess, sess.established = false → Engaged sess := by
  intro sess here early
  have sound := run_sound (fun _ => start_sound setup first) plain open_
  exact Underway.engaged (sound sess here) early

end Baresip.Establishing
