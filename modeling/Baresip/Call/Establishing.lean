import Baresip.Call.Transfer
import Baresip.Library.Histories
import Baresip.Sess.Nested

set_option linter.dupNamespace false

namespace Baresip.Establishing

open Re Sess
open Call (CallState)

/-- The call as a successful report of its media NAT finds it. `sendable` is that a description can be made and
    an INVITE with it be sent. -/
structure Estab where
  mnatWait : Bool
  state : CallState
  sess : Option Sipsess
  sendable : Bool
  deriving DecidableEq, Repr

/-- What the establish handler does: `invite` and `incoming` let the call go on, `reinvite` modifies its session.
    An INVITE comes with what `send_invite` returns. -/
inductive Out
  | estab (estab : Estab)
  | invite (err : Option Errno)
  | incoming
  | reinvite (before after : Option Sipsess)
  deriving DecidableEq, Repr

/-- What the layers below give to the establish handler: `sdp` is `call_sdp_get`. -/
structure Report where
  sdp : Except Errno Desc
  r : Results

def Report.sendable (report : Report) : Bool := (errOf report.sdp).isNone && report.r.request.isNone

/-- A call that is `closed` was released, with its session and its media NAT. -/
structure Call where
  mnat : Bool
  mnatWait : Bool
  state : CallState
  gotOffer : Bool
  sess : Option Sipsess
  closed : Bool
  out : List Out
  deriving DecidableEq, Repr

namespace Call

def say (call : Call) (out : Out) : Call := { call with out := call.out ++ [out] }

def close (call : Call) : Call := { call with closed := true }

def sendInvite (call : Call) (report : Report) : Call × Option Errno :=
  match report.sdp with
  | .error err => (call.say (.invite (some err)), some err)
  | .ok desc =>
    match sipsessConnect (some desc) report.r with
    | .error err => (call.say (.invite (some err)), some err)
    | .ok sess => ({ call with sess := some sess }.say (.invite none), none)

def callModify (call : Call) (report : Report) : Call × Option Errno :=
  match report.sdp with
  | .error err => (call, some err)
  | .ok desc =>
    match call.sess with
    | none => (call, some .EINVAL)
    | some sess =>
      let (sess, err) := sess.modify (some desc) report.r.request
      ({ call with sess := some sess }, err)

/-- `mnat_handler` without an error. -/
def established (call : Call) (report : Report) : Call :=
  let call := call.say (.estab ⟨call.mnatWait, call.state, call.sess, report.sendable⟩)
  if !call.mnatWait then
    let modified := (call.callModify report).1
    modified.say (.reinvite call.sess modified.sess)
  else
    let call := { call with mnatWait := false }
    match call.state with
    | .outgoing => (call.sendInvite report).1
    | .incoming => call.say .incoming
    | _ => call

def mnatHandler (call : Call) (err scode : Nat) (report : Report) : Call :=
  if err ≠ 0 ∨ scode ≠ 0 then call.close else call.established report

end Call

/-- How often the media NAT reports inside its `sessh`, and then before the call is connected or accepted. -/
structure Setup where
  inSession : List Report
  inMedia : List Report

def callAlloc (setup : Option Setup) : Call :=
  match setup with
  | none => ⟨false, true, .idle, false, none, false, []⟩
  | some setup =>
    let call := setup.inSession.foldl Call.established ⟨true, false, .idle, false, none, false, []⟩
    setup.inMedia.foldl Call.established { call with mnatWait := true }

namespace Call

/-- `uri` is the copy of the address of the peer. -/
def callConnect (call : Call) (uri : Option Errno) (report : Report) : Call × Option Errno :=
  if uri.isSome then (call, uri)
  else
    let call := { call with state := .outgoing }
    if !call.mnat then call.sendInvite report else (call, none)

/-- `decode` is `sdp_decode`. -/
def callAccept (call : Call) (uri decode : Option Errno) (msg : InMsg) (r : Results) : Call × Option Errno :=
  if uri.isSome then (call, uri)
  else if msg.body ∧ decode.isSome then (call, decode)
  else
    let call := { call with gotOffer := call.gotOffer || msg.body }
    match sipsessAccept msg 180 none r with
    | .error err => (call, some err)
    | .ok sess =>
      let call := { call with sess := some sess, state := .incoming }
      (if !call.mnat then call.say .incoming else call, none)

/-- Inside `update_media` the media NAT may report, too. -/
def callAnswer (call : Call) (scode : Nat) (during : List Report) (update : Option Errno)
    (sdp : Except Errno Desc) (r : Results) : Call × Option Errno :=
  if call.sess.isNone then (call, some .EINVAL)
  else if call.state ≠ .incoming then (call, none)
  else
    let call := if call.gotOffer then during.foldl established call else call
    if call.gotOffer ∧ update.isSome then (call, update)
    else
      match sdp, call.sess with
      | .error err, _ => (call, some err)
      | .ok _, none => (call, some .EINVAL)
      | .ok desc, some sess =>
        let (sess, err) := sess.answer scode (some desc) r
        ({ call with sess := some sess }, err)

def callProgress (call : Call) (sdp : Except Errno Desc) (r : Results) : Call × Option Errno :=
  match sdp with
  | .error err => (call, some err)
  | .ok _ =>
    let progressed := fun (sess : Sipsess) => (sess.progress 183 r).1
    ({ call with sess := call.sess.map progressed }, none)

def callHangup (call : Call) (r : Results) : Call :=
  let call :=
    match call.state with
    | .incoming =>
      let rejected := fun (sess : Sipsess) => (sess.reject 486 r).1
      { call with sess := call.sess.map rejected }
    | _ => { call with sess := none }
  { call with state := .terminated }

def sipsessProgrHandler (call : Call) (scode : Nat) : Call :=
  if scode = 180 then { call with state := .ringing }
  else if scode = 183 then { call with state := .early }
  else call

def sipsessEstabHandler (call : Call) : Call :=
  if call.state = .established then call else { call with state := .established }

/-- The handlers of the call for what its session reports. -/
def hears (scode : Nat) (call : Call) : Sess.Out → Call
  | .progress => call.sipsessProgrHandler scode
  | .established => call.sipsessEstabHandler
  | .closed _ _ => call.close
  | _ => call

/-- The offer and the answer handler update the media, where the media NAT may report. -/
def updates (during : List Report) (call : Call) (sess : Sipsess) : Call × Sipsess :=
  let call := during.foldl established { call with sess := some sess }
  (call, call.sess.getD sess)

end Call

/-- What reaches the session of a call from the peer or a timer. -/
inductive Message
  | response (err : Option Errno) (msg : Response) (r : Results)
  | timer (r : Results)
  | ack (seq : BitVec 32) (r : Results)
  | reinvite (msg : InMsg) (rseqValid : Bool) (r : Results)
  | replyTimeout (n : Nat)
  | bye (rseqValid : Bool)
  | cancel

def Message.event : Message → Sess.Event
  | response err msg r => .response err msg r
  | timer r => .timer r
  | ack seq r => .ack seq r
  | reinvite msg rseqValid r => .reinvite msg rseqValid r
  | replyTimeout n => .replyTimeout n
  | bye rseqValid => .bye rseqValid
  | cancel => .cancel

def Message.scode : Message → Nat
  | response _ msg _ => msg.scode
  | _ => 0

def Call.receive (call : Call) (message : Message) (during : List Report) : Call :=
  match call.sess with
  | none => call
  | some sess =>
    let (call, after) := Nested.step (Call.updates during) call sess message.event
    (after.log.drop sess.log.length).foldl (Call.hears message.scode) { call with sess := some after }

/-- `modify` is that the user puts the call on hold or resumes it, `close` that it ends for a reason of its own:
    the answer does not come, or the audio device fails. After a hangup the call is released. -/
inductive Event
  | mnat (err scode : Nat) (report : Report)
  | receive (message : Message) (during : List Report)
  | answer (scode : Nat) (during : List Report) (update : Option Errno) (sdp : Except Errno Desc) (r : Results)
  | progress (sdp : Except Errno Desc) (r : Results)
  | modify (report : Report)
  | hangup (r : Results)
  | close

def step (call : Call) (event : Event) : Call :=
  if call.closed then call
  else
    match event with
    | .mnat err scode report => if call.mnat then call.mnatHandler err scode report else call
    | .receive message during => call.receive message (if call.mnat then during else [])
    | .answer scode during update sdp r => (call.callAnswer scode (if call.mnat then during else []) update sdp r).1
    | .progress sdp r => (call.callProgress sdp r).1
    | .modify report => (call.callModify report).1
    | .hangup r => (call.callHangup r).close
    | .close => call.close

def run (call : Call) (events : List Event) : Call := events.foldl step call

inductive Direction
  | outgoing | incoming
  deriving DecidableEq, Repr

inductive Start
  | connect (uri : Option Errno) (report : Report)
  | accept (uri decode : Option Errno) (msg : InMsg) (r : Results)

def Start.direction : Start → Direction
  | connect _ _ => .outgoing
  | accept _ _ _ _ => .incoming

/-- A call that cannot be connected or accepted is released. -/
def start (setup : Option Setup) (first : Start) : Call :=
  let (call, err) :=
    match first with
    | .connect uri report => (callAlloc setup).callConnect uri report
    | .accept uri decode msg r => (callAlloc setup).callAccept uri decode msg r
  if err.isSome then call.close else call

def Out.isEstab : Out → Bool
  | .estab _ => true
  | _ => false

/-- The initial INVITE of an outgoing call, or the event that announces an incoming one. -/
def Out.opens : Direction → Out → Bool
  | .outgoing, .invite none => true
  | .incoming, .incoming => true
  | _, _ => false

def isInvite : Sess.Out → Bool
  | .invite _ _ _ => true
  | _ => false

def invites (sess : Sipsess) : Nat := sess.log.countP isInvite

/-- A session that is not established is sent no INVITE. -/
def Quiet (before after : Option Sipsess) : Prop :=
  ∀ sess ∈ before, sess.established = false → after.map invites = some (invites sess)

instance (before after : Option Sipsess) : Decidable (Quiet before after) :=
  Option.decidableForallMem before

def Out.Quiet : Out → Prop
  | .reinvite before after => Establishing.Quiet before after
  | _ => True

instance : DecidablePred Out.Quiet
  | .reinvite before after => inferInstanceAs (Decidable (Establishing.Quiet before after))
  | .estab _ | .invite _ | .incoming => isTrue True.intro

/-- The call goes on once, when its media NAT is established, and no re-INVITE is sent too early. -/
structure Served (dir : Direction) (out : List Out) : Prop where
  once : out.countP (Out.opens dir) = if out.any Out.isEstab then 1 else 0
  after : Library.Each (fun before x => x.opens dir = true → before.any Out.isEstab = true) out
  quiet : ∀ x ∈ out, x.Quiet

/-- The session is closed, or an exchange of its own is under way. -/
def Engaged (sess : Sipsess) : Prop :=
  (sess.st || sess.terminated) = true ∨ (sess.req.isSome || sess.tmr.isSome || !sess.replyl.isEmpty) = true

instance (sess : Sipsess) : Decidable (Engaged sess) := inferInstanceAs (Decidable (_ ∨ _))

/-- The first report comes to a call that was connected or accepted and waits for it, and each later one to a
    session that is established or engaged. -/
def Estab.Timely (e : Estab) : Prop :=
  if e.mnatWait then e.state = .incoming ∨ (e.state = .outgoing ∧ e.sendable = true)
  else e.state ≠ .idle ∧ ∀ sess ∈ e.sess, sess.established = false → Engaged sess

instance (e : Estab) : Decidable e.Timely := inferInstanceAs (Decidable (ite _ (_ ∨ _) (_ ∧ _)))

def Out.Timely : Out → Prop
  | .estab e => e.Timely
  | _ => True

instance : DecidablePred Out.Timely
  | .estab e => inferInstanceAs (Decidable e.Timely)
  | .invite _ | .incoming | .reinvite _ _ => isTrue True.intro

def Fair (call : Call) : Prop := ∀ x ∈ call.out, x.Timely

structure Inv (dir : Direction) (call : Call) : Prop where
  served : Served dir call.out
  waits : call.mnatWait = !call.out.any Out.isEstab
  begun : call.state ≠ .idle
  incoming : call.state = .incoming → dir = .incoming
  outgoing : call.state = .outgoing → dir = .outgoing

/-- A step keeps the invariant if the reports in it are timely. -/
structure Keeps (dir : Direction) (call call' : Call) : Prop where
  fair : Fair call' → Fair call
  inv : Inv dir call → Fair call' → Inv dir call'

theorem Keeps.refl (dir : Direction) (call : Call) : Keeps dir call call := ⟨id, fun inv _ => inv⟩

theorem Keeps.trans {dir : Direction} {a b c : Call} (ab : Keeps dir a b) (bc : Keeps dir b c) : Keeps dir a c :=
  ⟨fun fair => ab.fair (bc.fair fair), fun inv fair => bc.inv (ab.inv inv (bc.fair fair)) fair⟩

/-- A state that the call has only after it went on. -/
def Later (state : CallState) : Prop := state ≠ .idle ∧ state ≠ .incoming ∧ state ≠ .outgoing

theorem Keeps.frame {dir : Direction} {call call' : Call} (out : call'.out = call.out)
    (mnatWait : call'.mnatWait = call.mnatWait) (state : call'.state = call.state ∨ Later call'.state) :
    Keeps dir call call' := by
  refine ⟨fun fair => by rwa [Fair, out] at fair, fun inv _ => ?_⟩
  refine ⟨by rw [out]; exact inv.served, by rw [out, mnatWait]; exact inv.waits, ?_, ?_, ?_⟩
  · rcases state with same | later
    · rw [same]
      exact inv.begun
    · exact later.1
  · rcases state with same | later
    · rw [same]
      exact inv.incoming
    · exact fun incoming => absurd incoming later.2.1
  · rcases state with same | later
    · rw [same]
      exact inv.outgoing
    · exact fun outgoing => absurd outgoing later.2.2

/-! What one report does. -/

theorem Served.opened {dir : Direction} {out : List Out} (served : Served dir out)
    (waiting : out.any Out.isEstab = false) (e : Estab) {x : Out} (opens : x.opens dir = true) (quiet : x.Quiet) :
    Served dir (out ++ [.estab e] ++ [x]) := by
  have none_ : out.countP (Out.opens dir) = 0 := by
    rw [served.once, waiting]
    rfl
  have passive : Out.opens dir (.estab e) = false := by cases dir <;> rfl
  refine ⟨?_, ?_, ?_⟩
  · simp [List.countP_append, none_, passive, opens, Out.isEstab]
  · refine (served.after.concat fun this => ?_).concat fun _ => ?_
    · rw [passive] at this
      contradiction
    · simp [Out.isEstab]
  · intro y member
    rcases List.mem_append.mp member with old | new
    · rcases List.mem_append.mp old with old | new
      · exact served.quiet y old
      · rw [List.mem_singleton.mp new]
        exact True.intro
    · rw [List.mem_singleton.mp new]
      exact quiet

theorem Served.again {dir : Direction} {out : List Out} (served : Served dir out)
    (any : out.any Out.isEstab = true) (e : Estab) {before after : Option Sipsess} (quiet : Quiet before after) :
    Served dir (out ++ [.estab e] ++ [.reinvite before after]) := by
  have passive : Out.opens dir (.estab e) = false := by cases dir <;> rfl
  have passive' : Out.opens dir (.reinvite before after) = false := by cases dir <;> rfl
  refine ⟨?_, ?_, ?_⟩
  · simp [List.countP_append, served.once, any, passive, passive', Out.isEstab]
  · refine (served.after.concat fun this => ?_).concat fun this => ?_
    · rw [passive] at this
      contradiction
    · rw [passive'] at this
      contradiction
  · intro y member
    rcases List.mem_append.mp member with old | new
    · rcases List.mem_append.mp old with old | new
      · exact served.quiet y old
      · rw [List.mem_singleton.mp new]
        exact True.intro
    · rw [List.mem_singleton.mp new]
      exact quiet

/-- An engaged session puts a modification off or refuses it. -/
theorem modify_engaged {sess : Sipsess} (engaged : Engaged sess) (desc : Option Desc) (res : Option Errno) :
    invites (sess.modify desc res).1 = invites sess := by
  unfold Sipsess.modify
  by_cases gone : (sess.st || sess.terminated) = true
  · rw [if_pos gone]
  · have busy : (sess.req.isSome || sess.tmr.isSome || !sess.replyl.isEmpty) = true := engaged.resolve_left gone
    rw [if_neg gone, if_pos busy]
    simp [invites, Sipsess.say, isInvite]

theorem callModify_frame (call : Call) (report : Report) :
    (call.callModify report).1.out = call.out ∧ (call.callModify report).1.mnatWait = call.mnatWait ∧
      (call.callModify report).1.state = call.state := by
  unfold Call.callModify
  cases report.sdp with
  | error err => exact ⟨rfl, rfl, rfl⟩
  | ok desc => cases call.sess <;> exact ⟨rfl, rfl, rfl⟩

theorem callModify_quiet {call : Call} (engaged : ∀ sess ∈ call.sess, sess.established = false → Engaged sess)
    (report : Report) : Quiet call.sess (call.callModify report).1.sess := by
  intro sess here early
  unfold Call.callModify
  cases report.sdp with
  | error err => rw [show call.sess = some sess from here]; rfl
  | ok desc =>
    rw [show call.sess = some sess from here]
    exact congrArg some (modify_engaged (engaged sess here early) (some desc) report.r.request)

/-- The report that `established` logs first. -/
def Call.found (call : Call) (report : Report) : Estab := ⟨call.mnatWait, call.state, call.sess, report.sendable⟩

theorem established_again {call : Call} (waits : call.mnatWait = false) (report : Report) :
    (call.established report).out = call.out ++ [.estab (call.found report)] ++
        [.reinvite call.sess ((call.say (.estab (call.found report))).callModify report).1.sess] ∧
      (call.established report).mnatWait = false ∧ (call.established report).state = call.state := by
  obtain ⟨out, mnatWait, state⟩ := callModify_frame (call.say (.estab (call.found report))) report
  have repeated : (!(call.say (.estab (call.found report))).mnatWait) = true := by
    rw [show (call.say (.estab (call.found report))).mnatWait = false from waits]
    rfl
  unfold Call.established
  rw [show Estab.mk call.mnatWait call.state call.sess report.sendable = call.found report from rfl, if_pos repeated]
  exact ⟨congrArg (· ++ [_]) out, mnatWait.trans waits, state⟩

theorem sendInvite_sent {call : Call} {report : Report} (sendable : report.sendable = true) :
    (call.sendInvite report).1.out = call.out ++ [.invite none] ∧
      (call.sendInvite report).1.mnatWait = call.mnatWait ∧ (call.sendInvite report).1.state = call.state := by
  obtain ⟨sdp, request⟩ := Bool.and_eq_true_iff.mp sendable
  unfold Call.sendInvite
  cases given : report.sdp with
  | error err =>
    rw [given] at sdp
    contradiction
  | ok desc =>
    have sent : report.r.request = none := Option.isNone_iff_eq_none.mp request
    simp only [sipsessConnect, sent]
    exact ⟨rfl, rfl, rfl⟩

theorem sendInvite_frame (call : Call) (report : Report) :
    ∃ err, (call.sendInvite report).1.out = call.out ++ [.invite err] := by
  unfold Call.sendInvite
  cases report.sdp with
  | error err => exact ⟨some err, rfl⟩
  | ok desc =>
    dsimp only
    cases sipsessConnect (some desc) report.r with
    | error err => exact ⟨some err, rfl⟩
    | ok sess => exact ⟨none, rfl⟩

/-- The call as it goes on. -/
def Call.released (call : Call) (report : Report) : Call :=
  { call.say (.estab (call.found report)) with mnatWait := false }

theorem established_first {call : Call} (waits : call.mnatWait = true) (report : Report) :
    call.established report =
      match call.state with
      | .outgoing => ((call.released report).sendInvite report).1
      | .incoming => (call.released report).say .incoming
      | _ => call.released report := by
  have first : ¬ (!(call.say (.estab (call.found report))).mnatWait) = true := by
    rw [show (call.say (.estab (call.found report))).mnatWait = true from waits]
    exact Bool.false_ne_true
  unfold Call.established
  rw [show Estab.mk call.mnatWait call.state call.sess report.sendable = call.found report from rfl, if_neg first]
  rfl

/-- A report is logged, and maybe one thing that it leads to. -/
theorem established_grows (call : Call) (report : Report) :
    ∃ more, (call.established report).out = call.out ++ .estab (call.found report) :: more := by
  by_cases waits : call.mnatWait = true
  · rw [established_first waits]
    cases call.state with
    | outgoing =>
      obtain ⟨err, out⟩ := sendInvite_frame (call.released report) report
      exact ⟨[.invite err], out.trans (List.append_assoc _ _ _)⟩
    | incoming => exact ⟨[.incoming], by simp [Call.released, Call.say]⟩
    | _ => exact ⟨[], rfl⟩
  · obtain ⟨out, -, -⟩ := established_again (Bool.eq_false_iff.mpr waits) report
    exact ⟨_, out.trans (List.append_assoc _ _ _)⟩

theorem Fair.before {call : Call} {report : Report} (fair : Fair (call.established report)) :
    Fair call ∧ (call.found report).Timely := by
  obtain ⟨more, out⟩ := established_grows call report
  refine ⟨fun x member => fair x ?_, fair (.estab (call.found report)) ?_⟩
  · rw [out]
    exact List.mem_append_left _ member
  · rw [out]
    exact List.mem_append_right _ (List.mem_cons_self)

theorem Inv.went {dir : Direction} {call call' : Call} (inv : Inv dir call) (served : Served dir call'.out)
    (any : call'.out.any Out.isEstab = true) (mnatWait : call'.mnatWait = false) (state : call'.state = call.state) :
    Inv dir call' :=
  ⟨served, by rw [mnatWait, any]; rfl, state ▸ inv.begun, state ▸ inv.incoming, state ▸ inv.outgoing⟩

theorem established_first_inv {dir : Direction} {call : Call} (inv : Inv dir call) (waits : call.mnatWait = true)
    {report : Report} (timely : call.state = .incoming ∨ (call.state = .outgoing ∧ report.sendable = true)) :
    Inv dir (call.established report) := by
  have waiting : call.out.any Out.isEstab = false := by
    rw [← Bool.not_eq_true', ← inv.waits]
    exact waits
  rw [established_first waits]
  rcases timely with incoming | ⟨outgoing, sendable⟩
  · rw [incoming]
    obtain rfl := inv.incoming incoming
    refine inv.went (inv.served.opened waiting (call.found report) (x := .incoming) rfl True.intro) ?_ rfl rfl
    simp [Call.released, Call.say, Out.isEstab]
  · obtain ⟨out, mnatWait, state⟩ := @sendInvite_sent (call.released report) report sendable
    rw [outgoing]
    obtain rfl := inv.outgoing outgoing
    refine inv.went ?_ ?_ mnatWait state
    · rw [out]
      exact inv.served.opened waiting (call.found report) rfl True.intro
    · rw [out]
      simp [Call.released, Call.say, Out.isEstab]

theorem established_again_inv {dir : Direction} {call : Call} (inv : Inv dir call) (waits : call.mnatWait = false)
    (report : Report) (engaged : ∀ sess ∈ call.sess, sess.established = false → Engaged sess) :
    Inv dir (call.established report) := by
  obtain ⟨out, mnatWait, state⟩ := established_again waits report
  have any : call.out.any Out.isEstab = true := by
    rw [← Bool.not_eq_false', ← inv.waits]
    exact waits
  refine inv.went ?_ ?_ mnatWait state
  · rw [out]
    exact inv.served.again any _ (@callModify_quiet (call.say _) engaged report)
  · rw [out]
    simp [any]

theorem established_keeps (dir : Direction) (call : Call) (report : Report) :
    Keeps dir call (call.established report) := by
  refine ⟨fun fair => fair.before.1, fun inv fair => ?_⟩
  have timely := fair.before.2
  by_cases waits : call.mnatWait = true
  · rw [Estab.Timely, if_pos (show (call.found report).mnatWait = true from waits)] at timely
    exact established_first_inv inv waits timely
  · rw [Estab.Timely, if_neg (show ¬ (call.found report).mnatWait = true from waits)] at timely
    exact established_again_inv inv (Bool.eq_false_iff.mpr waits) report timely.2

/-! What the other steps do. -/

theorem established_foldl_keeps (dir : Direction) (reports : List Report) (call : Call) :
    Keeps dir call (reports.foldl Call.established call) := by
  induction reports generalizing call with
  | nil => exact Keeps.refl dir call
  | cons report reports ih => exact (established_keeps dir call report).trans (ih _)

theorem close_keeps (dir : Direction) (call : Call) : Keeps dir call call.close := Keeps.frame rfl rfl (Or.inl rfl)

theorem withSess_keeps (dir : Direction) (call : Call) (sess : Option Sipsess) :
    Keeps dir call { call with sess := sess } := Keeps.frame rfl rfl (Or.inl rfl)

theorem mnatHandler_keeps (dir : Direction) (call : Call) (err scode : Nat) (report : Report) :
    Keeps dir call (call.mnatHandler err scode report) := by
  unfold Call.mnatHandler
  split
  · exact close_keeps dir call
  · exact established_keeps dir call report

theorem callModify_keeps (dir : Direction) (call : Call) (report : Report) :
    Keeps dir call (call.callModify report).1 :=
  have ⟨out, mnatWait, state⟩ := callModify_frame call report
  Keeps.frame out mnatWait (Or.inl state)

theorem hears_keeps (dir : Direction) (scode : Nat) (call : Call) (out : Sess.Out) :
    Keeps dir call (call.hears scode out) := by
  have later : ∀ state, Later state → Keeps dir call { call with state := state } :=
    fun state later => Keeps.frame rfl rfl (Or.inr later)
  cases out with
  | progress =>
    show Keeps dir call (call.sipsessProgrHandler scode)
    unfold Call.sipsessProgrHandler
    split
    · exact later .ringing (by simp [Later])
    · split
      · exact later .early (by simp [Later])
      · exact Keeps.refl dir call
  | established =>
    show Keeps dir call call.sipsessEstabHandler
    unfold Call.sipsessEstabHandler
    split
    · exact Keeps.refl dir call
    · exact later .established (by simp [Later])
  | closed err scode => exact close_keeps dir call
  | _ => exact Keeps.refl dir call

theorem hears_foldl_keeps (dir : Direction) (scode : Nat) (outs : List Sess.Out) (call : Call) :
    Keeps dir call (outs.foldl (Call.hears scode) call) := by
  induction outs generalizing call with
  | nil => exact Keeps.refl dir call
  | cons out outs ih => exact (hears_keeps dir scode call out).trans (ih _)

theorem updates_keeps {dir : Direction} {call call' : Call} (keeps : Keeps dir call call') (during : List Report)
    (sess : Sipsess) : Keeps dir call (call'.updates during sess).1 :=
  keeps.trans ((withSess_keeps dir call' (some sess)).trans (established_foldl_keeps dir during _))

theorem receive_keeps (dir : Direction) (call : Call) (message : Message) (during : List Report) :
    Keeps dir call (call.receive message during) := by
  unfold Call.receive
  cases call.sess with
  | none => exact Keeps.refl dir call
  | some sess =>
    have stepped : Keeps dir call (Nested.step (Call.updates during) call sess message.event).1 :=
      Nested.step_owner (Q := Keeps dir call) (fun _ sess keeps => updates_keeps keeps during sess)
        (Keeps.refl dir call) sess message.event
    exact (stepped.trans (withSess_keeps dir _ _)).trans (hears_foldl_keeps dir _ _ _)

theorem callAnswer_keeps (dir : Direction) (call : Call) (scode : Nat) (during : List Report)
    (update : Option Errno) (sdp : Except Errno Desc) (r : Results) :
    Keeps dir call (call.callAnswer scode during update sdp r).1 := by
  unfold Call.callAnswer
  split
  · exact Keeps.refl dir call
  split
  · exact Keeps.refl dir call
  have updated : Keeps dir call (if call.gotOffer then during.foldl Call.established call else call) := by
    split
    · exact established_foldl_keeps dir during call
    · exact Keeps.refl dir call
  dsimp only
  generalize (if call.gotOffer then during.foldl Call.established call else call) = call' at updated ⊢
  split
  · exact updated
  split
  · exact updated
  · exact updated
  · exact updated.trans (withSess_keeps dir _ _)

theorem step_keeps (dir : Direction) (call : Call) (event : Event) : Keeps dir call (step call event) := by
  unfold step
  split
  · exact Keeps.refl dir call
  cases event with
  | mnat err scode report =>
    dsimp only
    split
    · exact mnatHandler_keeps dir call err scode report
    · exact Keeps.refl dir call
  | receive message during => exact receive_keeps dir call message _
  | answer scode during update sdp r => exact callAnswer_keeps dir call scode _ update sdp r
  | progress sdp r =>
    cases sdp with
    | error err => exact Keeps.refl dir call
    | ok desc => exact withSess_keeps dir call _
  | modify report => exact callModify_keeps dir call report
  | hangup r =>
    have gone : Later .terminated := by simp [Later]
    show Keeps dir call (call.callHangup r).close
    unfold Call.callHangup
    split
    · exact Keeps.frame rfl rfl (Or.inr gone)
    · exact Keeps.frame rfl rfl (Or.inr gone)
  | close => exact close_keeps dir call

theorem run_keeps (dir : Direction) (call : Call) (events : List Event) : Keeps dir call (run call events) := by
  unfold run
  induction events generalizing call with
  | nil => exact Keeps.refl dir call
  | cons event events ih => exact (step_keeps dir call event).trans (ih _)

/-! How a call starts. -/

theorem reports_idle {call : Call} (idle : call.state = .idle) {reports : List Report}
    (fair : Fair (reports.foldl Call.established call)) : reports = [] := by
  cases reports with
  | nil => rfl
  | cons report reports =>
    have first : Fair (call.established report) := (established_foldl_keeps .incoming reports _).fair fair
    have timely : (call.found report).Timely := first.before.2
    have state : (call.found report).state = .idle := idle
    unfold Estab.Timely at timely
    rw [state] at timely
    split at timely
    · simp at timely
    · exact absurd rfl timely.1

theorem Fair.appended {call call' : Call} (fair : Fair call') (more : List Out)
    (out : call'.out = call.out ++ more) : Fair call := by
  intro x member
  apply fair x
  rw [out]
  exact List.mem_append_left more member

theorem Fair.same {call call' : Call} (fair : Fair call') (out : call'.out = call.out) : Fair call := by
  intro x member
  apply fair x
  rw [out]
  exact member

/-- A call whose media NAT has not reported yet. -/
def unreported : Call := ⟨true, true, .idle, false, none, false, []⟩

theorem callAlloc_fair {setup : Setup} (fair : Fair (callAlloc (some setup))) :
    callAlloc (some setup) = unreported := by
  obtain ⟨inSession, inMedia⟩ := setup
  have allocated := (established_foldl_keeps .incoming inMedia _).fair fair
  obtain rfl : inSession = [] := reports_idle rfl (allocated.same rfl)
  obtain rfl : inMedia = [] := reports_idle rfl fair
  rfl

theorem callConnect_out (call : Call) (uri : Option Errno) (report : Report) :
    ∃ more, (call.callConnect uri report).1.out = call.out ++ more := by
  unfold Call.callConnect
  split
  · exact ⟨[], (List.append_nil _).symm⟩
  dsimp only
  split
  · obtain ⟨err, out⟩ := sendInvite_frame { call with state := .outgoing } report
    exact ⟨[.invite err], out⟩
  · exact ⟨[], (List.append_nil _).symm⟩

theorem callAccept_out (call : Call) (uri decode : Option Errno) (msg : InMsg) (r : Results) :
    ∃ more, (call.callAccept uri decode msg r).1.out = call.out ++ more := by
  unfold Call.callAccept
  split
  · exact ⟨[], (List.append_nil _).symm⟩
  split
  · exact ⟨[], (List.append_nil _).symm⟩
  dsimp only
  split
  · exact ⟨[], (List.append_nil _).symm⟩
  split
  · exact ⟨[.incoming], rfl⟩
  · exact ⟨[], (List.append_nil _).symm⟩

theorem start_out (setup : Option Setup) (first : Start) :
    ∃ more, (start setup first).out = (callAlloc setup).out ++ more := by
  cases first with
  | connect uri report =>
    obtain ⟨more, out⟩ := callConnect_out (callAlloc setup) uri report
    refine ⟨more, ?_⟩
    rw [← out]
    exact (apply_ite Call.out _ _ _).trans (ite_self _)
  | accept uri decode msg r =>
    obtain ⟨more, out⟩ := callAccept_out (callAlloc setup) uri decode msg r
    refine ⟨more, ?_⟩
    rw [← out]
    exact (apply_ite Call.out _ _ _).trans (ite_self _)

/-- A call that waits for its media NAT, unless it could not be started. -/
def Begun (state : CallState) (started : Call × Option Errno) : Prop :=
  started.1.out = [] ∧ started.1.mnatWait = true ∧ (started.2.isSome = true ∨ started.1.state = state)

theorem connect_begun (uri : Option Errno) (report : Report) :
    Begun .outgoing (unreported.callConnect uri report) := by
  cases uri with
  | some err => exact ⟨rfl, rfl, Or.inl rfl⟩
  | none => exact ⟨rfl, rfl, Or.inr rfl⟩

theorem accept_begun (uri decode : Option Errno) (msg : InMsg) (r : Results) :
    Begun .incoming (unreported.callAccept uri decode msg r) := by
  unfold Call.callAccept
  split
  · rename_i failed
    exact ⟨rfl, rfl, Or.inl failed⟩
  split
  · rename_i failed
    exact ⟨rfl, rfl, Or.inl failed.2⟩
  dsimp only
  split
  · exact ⟨rfl, rfl, Or.inl rfl⟩
  · exact ⟨rfl, rfl, Or.inr rfl⟩

theorem served_nil (dir : Direction) : Served dir [] := ⟨by simp, Library.each_nil, by simp⟩

theorem Begun.inv {state : CallState} {dir : Direction} {started : Call × Option Errno} (begun : Begun state started)
    (meant : state = match dir with | .outgoing => .outgoing | .incoming => .incoming) :
    (if started.2.isSome then started.1.close else started.1).closed = true ∨
      Inv dir (if started.2.isSome then started.1.close else started.1) := by
  obtain ⟨out, waits, failed | reached⟩ := begun
  · rw [if_pos failed]
    exact Or.inl rfl
  · by_cases failed : started.2.isSome = true
    · rw [if_pos failed]
      exact Or.inl rfl
    · rw [if_neg failed]
      refine Or.inr ⟨?_, ?_, ?_, ?_, ?_⟩
      · rw [out]
        exact served_nil dir
      · rw [out, waits]
        rfl
      · cases dir <;> simp [reached, meant]
      · cases dir <;> simp [reached, meant]
      · cases dir <;> simp [reached, meant]

theorem start_inv {setup : Setup} {first : Start} (fair : Fair (start (some setup) first)) :
    (start (some setup) first).out = [] ∧
      ((start (some setup) first).closed = true ∨ Inv first.direction (start (some setup) first)) := by
  obtain ⟨more, out⟩ := start_out (some setup) first
  have allocated := callAlloc_fair (fair.appended more out)
  cases first with
  | connect uri report =>
    have begun := connect_begun uri report
    unfold start
    dsimp only
    rw [allocated]
    exact ⟨by rw [apply_ite Call.out]; exact (ite_self _).trans begun.1, begun.inv rfl⟩
  | accept uri decode msg r =>
    have begun := accept_begun uri decode msg r
    unfold start
    dsimp only
    rw [allocated]
    exact ⟨by rw [apply_ite Call.out]; exact (ite_self _).trans begun.1, begun.inv rfl⟩

theorem run_closed {call : Call} (closed : call.closed = true) (events : List Event) : run call events = call := by
  unfold run
  induction events with
  | nil => rfl
  | cons event events ih =>
    have unmoved : step call event = call := by
      unfold step
      rw [if_pos closed]
    rw [List.foldl_cons, unmoved, ih]

/-- In a run whose reports are all timely, the INVITE of an outgoing call is sent, or an incoming call is announced,
    once its media NAT is established and then never again; and no re-INVITE is sent before the session is. -/
theorem mnat_serves (setup : Setup) (first : Start) (events : List Event)
    (timely : ∀ x ∈ (run (start (some setup) first) events).out, x.Timely) :
    Served first.direction (run (start (some setup) first) events).out := by
  have keeps := run_keeps first.direction (start (some setup) first) events
  obtain ⟨out, closed | inv⟩ := start_inv (keeps.fair timely)
  · rw [run_closed closed, out]
    exact served_nil first.direction
  · exact (keeps.inv inv timely).served

def granted : Results := ⟨none, .authenticated, .ok (some [1]), none, none, none, none, false⟩

def report : Report := ⟨.ok [0], granted⟩

/-- An outgoing call whose media NAT reports after it was connected, and once more when the session is established. -/
def dialled : List Event :=
  [.mnat 0 0 report, .receive (.response none ⟨180, none⟩ granted) [],
    .receive (.response none ⟨200, none⟩ granted) [], .mnat 0 0 report]

theorem mnat_serves_dialled :
    Served .outgoing (run (start (some ⟨[], []⟩) (.connect none report)) dialled).out ∧
      (run (start (some ⟨[], []⟩) (.connect none report)) dialled).state = .established :=
  ⟨mnat_serves ⟨[], []⟩ (.connect none report) dialled (by decide), by decide⟩

/-- A media NAT that reports inside its `sessh` leaves an outgoing call without its INVITE, and one that reports with
    the media leaves an incoming call unannounced; one that reports from within the answer handler has a re-INVITE
    sent before the session is established. -/
theorem mnat_serves_not :
    ¬ Served .outgoing (run (start (some ⟨[report], []⟩) (.connect none report)) []).out ∧
      ¬ Served .incoming (run (start (some ⟨[], [report]⟩) (.accept none none ⟨1#32, false⟩ granted)) []).out ∧
      ¬ Served .outgoing (run (start (some ⟨[], []⟩) (.connect none report))
        [.mnat 0 0 report, .receive (.response none ⟨200, none⟩ granted) [report]]).out :=
  ⟨fun served => absurd served.once (by decide), fun served => absurd served.once (by decide),
    fun served => absurd served.quiet (by decide)⟩

end Baresip.Establishing
