import Baresip.Chk.Testing

set_option linter.dupNamespace false

namespace Baresip.Chk

open Re Library

/-- The next check is due, or one has succeeded or failed. -/
inductive CheckEvent
  | tick
  | response (tid : Nat) (resp : StunResp)

def checkStep (icem : Icem) : CheckEvent → Icem
  | .tick => iceStep icem (.tick allSend)
  | .response tid resp => iceStep icem (.response allSend tid resp)

/-- The events that happen once the ones before them have. -/
def Due (icem : Icem) : CheckEvent → Prop
  | .tick => icem.tmrPace = true
  | .response tid _ => (icem.transaction tid).isSome

instance (icem : Icem) (ev : CheckEvent) : Decidable (Due icem ev) :=
  match ev with
  | .tick => inferInstanceAs (Decidable (_ = true))
  | .response tid _ => inferInstanceAs (Decidable ((icem.transaction tid).isSome = true))

/-- How many of the events of a run were due. -/
def dueCount (icem : Icem) : List CheckEvent → Nat
  | [] => 0
  | ev :: evs => (if Due icem ev then 1 else 0) + dueCount (checkStep icem ev) evs

/-- `outcome` is the mapped address for the pairs whose check succeeds. -/
def Answers (outcome : Nat → Option Sa) (icem : Icem) : CheckEvent → Prop
  | .tick => True
  | .response tid resp => ∀ cp ∈ icem.transaction tid, resp.IsFor (outcome cp.id)

/-- The success of a pair fails no pair of another component that has not been tested. -/
def Spares (icem : Icem) : CheckEvent → Prop
  | .response tid (.msg 0 (some addr)) =>
    ∀ cp ∈ icem.transaction tid, ∀ other ∈ icem.all, other.comp ≠ cp.comp → other.Waits →
      ∀ other' ∈ (checkStep icem (.response tid (.msg 0 (some addr)))).all, other'.id = other.id → other'.state ≠ .failed
  | _ => True

/-- The list is Completed with a selected pair for each component, and the handler has reported success. -/
structure Succeeds (icem : Icem) : Prop where
  completed : icem.state = .completed
  selected : ∀ comp ∈ icem.compl, comp.cpSel.isSome
  reported : icem.chkh ≠ [] ∧ ∀ call ∈ icem.chkh, call.1 = false

/-- A hopeful list succeeds after no more checks than it has pairs. -/
def EndsWell (outcome : Nat → Option Sa) (start : Icem) (evs : List CheckEvent) : Prop :=
  Hopeful outcome start → Succeeds (evs.foldl checkStep start) ∨
    dueCount start evs ≤ start.checkl.length ∧
      ∃ ev, Due (evs.foldl checkStep start) ev ∧ Answers outcome (evs.foldl checkStep start) ev

/-- Where the checks of a list are, and after how many events that were due. -/
inductive Phase (outcome : Nat → Option Sa) (start : Icem) (due : Nat) (icem : Icem) : Prop
  | idle (testing : Testing start icem) (timer : icem.tmrPace = true)
      (rests : ∀ cp ∈ icem.checkl, cp.Rests outcome) (count : due + waiting icem = start.checkl.length)
  | busy (testing : Testing start icem) (timer : icem.tmrPace = false) (cp : Candpair)
      (busy : BusyWith outcome icem cp) (count : due + waiting icem = start.checkl.length)
  | ended (ended : Ended icem) (concluded : Hopeful outcome start → Concluded icem)

section
variable {outcome : Nat → Option Sa} {start icem : Icem} {due : Nat}

theorem paceNext_phase (testing : Testing start icem) (known : start.ice.lrole ≠ .unknown) (timer : icem.tmrPace = false)
    (rests : ∀ cp ∈ icem.checkl, cp.Rests outcome) (count : due + waiting icem = start.checkl.length) :
    Phase outcome start (due + 1) (icem.paceNext allSend) := by
  by_cases waits : ∃ cp ∈ icem.checkl, cp.Waits
  · obtain ⟨cp, -, testing', timer', busy, fewer⟩ := paceNext_checks testing (testing.ice ▸ known) rests waits
    exact .busy testing' (timer'.trans timer) _ busy (by omega)
  · obtain ⟨ended, concluded⟩ := paceNext_ends testing rests waits
    exact .ended ended concluded

theorem Testing.validates (testing : Testing start icem) (started : Started start)
    (named : ∀ comp ∈ start.compl, comp.id ≠ 0) {cp : Candpair} (member : cp ∈ icem.checkl) {addr : Sa}
    (addressed : addr ≠ .unspec) : Testing start (icem.candpairCancel cp.id) ∧
      { cp with ctConn := none } ∈ (icem.candpairCancel cp.id).checkl ∧ cp.lcand.compid ≠ 0 ∧
      (icem.candpairCancel cp.id).validates { cp with ctConn := none } addr := by
  obtain ⟨-, compid, rcand, -⟩ := testing.fits started named member
  refine ⟨?_, ?_, compid, ?_⟩
  · exact testing.update cp.id (f := fun cp => { cp with ctConn := none }) (fun _ => rfl) icem.sent
  · exact List.mem_map.mpr ⟨cp, member, if_pos rfl⟩
  · exact ⟨.inr (Sa.cmp_self addressed .all), cp.rcand, rcand, .inr rfl, .inl rfl⟩

/-- The success of the check that is under way. -/
theorem success_phase (testing : Testing start icem) (started : Started start)
    (named : ∀ comp ∈ start.compl, comp.id ≠ 0)
    (one : ∀ cp ∈ start.checkl, ∀ other ∈ start.checkl, cp.comp = other.comp) {cp : Candpair} (member : cp ∈ icem.checkl)
    {addr : Sa} (addressed : addr ≠ .unspec) :
    Phase outcome start due (((icem.candpairCancel cp.id).handleSuccess allSend { cp with ctConn := none } addr).paceNext
      allSend) := by
  obtain ⟨cancelled, inside, compid, validates⟩ := testing.validates started named member addressed
  obtain ⟨ofComp, -⟩ := testing.fits started named member
  have ended := handleSuccess_ends allSend cancelled.distinct cancelled.validl inside compid validates
  rw [paceNext_not_running allSend _ ended.stopped]
  apply Phase.ended ended
  intro hopeful
  apply handleSuccess_concludes allSend cancelled.distinct cancelled.validl inside compid ofComp validates cancelled.chkh
  intro comp old
  have old : comp ∈ icem.compl := old
  rw [testing.compl] at old
  obtain ⟨cp1, inStart, ofComp1, -⟩ := hopeful comp old
  obtain ⟨cp0, inStart0, links⟩ := testing.linked member
  have comp0 : cp0.comp = cp.comp := (congrArg Candpair.comp links :)
  show comp.id = cp.comp
  rw [← ofComp1, ← comp0]
  exact one cp1 inStart cp0 inStart0

theorem checkStep_stopped (stopped : icem.state ≠ .running) (ev : CheckEvent) : (checkStep icem ev).state ≠ .running := by
  cases ev with
  | tick => exact iceStep_stopped stopped (.tick allSend)
  | response tid resp => exact iceStep_stopped stopped (.response allSend tid resp)

theorem checkStep_tick (timer : icem.tmrPace = true) : checkStep icem .tick = icem.timeout allSend := if_pos timer

theorem checkStep_undue {ev : CheckEvent} (undue : ¬ Due icem ev) : checkStep icem ev = icem := by
  cases ev with
  | tick => exact if_neg undue
  | response tid resp =>
    have missing : icem.transaction tid = none := by simpa [Due] using undue
    simp only [checkStep, iceStep, Icem.stunCtransRecv, missing]

theorem checkStep_response {tid : Nat} {cp : Candpair} (found : icem.transaction tid = some cp) (resp : StunResp) :
    checkStep icem (.response tid resp) =
      (icem.candpairCancel cp.id).stuncRespHandler allSend { cp with ctConn := none } resp := by
  simp only [checkStep, iceStep, Icem.stunCtransRecv, found]

theorem checkStep_fails {tid : Nat} {cp : Candpair} (found : icem.transaction tid = some cp) {resp : StunResp}
    (isFor : resp.IsFor none) :
    checkStep icem (.response tid resp) = ((icem.candpairCancel cp.id).candpairFailed cp.id).paceNext allSend := by
  rw [checkStep_response found, stuncRespHandler_fails allSend _ isFor]

theorem checkStep_succeeds {tid : Nat} {cp : Candpair} (found : icem.transaction tid = some cp) (addr : Sa) :
    checkStep icem (.response tid (.msg 0 (some addr))) =
      ((icem.candpairCancel cp.id).handleSuccess allSend { cp with ctConn := none } addr).paceNext allSend :=
  checkStep_response found _

theorem checkStep_retains {ev : CheckEvent} (answers : Answers outcome icem ev) :
    RetainsFrom icem (checkStep icem ev) := by
  by_cases due : Due icem ev
  · cases ev with
    | tick =>
      rw [checkStep_tick due]
      exact retains_cancels.timeout allSend icem
    | response tid resp =>
      obtain ⟨cp, found⟩ := Option.isSome_iff_exists.mp due
      have isFor := answers cp found
      have cancelled := retains_cancels.cancel icem cp.id
      cases succeeds : outcome cp.id with
      | none =>
        rw [succeeds] at isFor
        rw [checkStep_fails found isFor]
        exact cancelled.trans (retains_cancels.failedNext allSend _ cp.id)
      | some addr =>
        rw [succeeds] at isFor
        rw [isFor_some isFor, checkStep_succeeds found]
        exact cancelled.trans ((retains_cancels.handleSuccess allSend _ _ addr).trans (retains_cancels.paceNext allSend _))
  · rw [checkStep_undue due]
    exact retains_cancels.refl icem

theorem Ended.step (ended : Ended icem) {ev : CheckEvent} (answers : Answers outcome icem ev) :
    Ended (checkStep icem ev) := by
  have retains := checkStep_retains answers ended.distinct
  exact ⟨retains.distinct, checkStep_stopped ended.stopped ev, retains.tested ended.tested⟩

theorem Concluded.stopped (concluded : Concluded icem) : icem.state ≠ .running := by
  rw [concluded.completed]
  decide

theorem Concluded.paceNext (concluded : Concluded icem) : Concluded (icem.paceNext allSend) := by
  rw [paceNext_not_running allSend icem concluded.stopped]
  exact concluded

theorem Concluded.fired (concluded : Concluded icem) : Concluded { icem with tmrPace := false } :=
  ⟨concluded.distinct.of_ids (.refl _) rfl, concluded.completed, concluded.reported, concluded.succeeded,
    concluded.comps⟩

theorem Concluded.step (concluded : Concluded icem) {ev : CheckEvent} (answers : Answers outcome icem ev) :
    Concluded (checkStep icem ev) := by
  by_cases due : Due icem ev
  · cases ev with
    | tick =>
      rw [checkStep_tick due]
      exact concluded.fired.paceNext
    | response tid resp =>
      obtain ⟨cp, found⟩ := Option.isSome_iff_exists.mp due
      have isFor := answers cp found
      have cancelled := concluded.of_retains (retains_cancels.cancel icem cp.id) (update_stays icem cp.id _)
      cases succeeds : outcome cp.id with
      | none =>
        rw [succeeds] at isFor
        rw [checkStep_fails found isFor]
        exact (cancelled.of_retains (retains_cancels.failed _ cp.id) (update_stays _ cp.id _)).paceNext
      | some addr =>
        rw [succeeds] at isFor
        rw [isFor_some isFor, checkStep_succeeds found]
        exact (cancelled.handleSuccess allSend _ addr).paceNext
  · rw [checkStep_undue due]
    exact concluded

theorem phase_step (started : Started start) (known : start.ice.lrole ≠ .unknown)
    (named : ∀ comp ∈ start.compl, comp.id ≠ 0) (addressed : ∀ id, outcome id ≠ some .unspec)
    (one : ∀ cp ∈ start.checkl, ∀ other ∈ start.checkl, cp.comp = other.comp) (phase : Phase outcome start due icem)
    {ev : CheckEvent} (answers : Answers outcome icem ev) :
    Phase outcome start ((if Due icem ev then 1 else 0) + due) (checkStep icem ev) := by
  by_cases isDue : Due icem ev
  · rw [if_pos isDue, Nat.add_comm]
    cases phase with
    | idle testing timer rests count =>
      cases ev with
      | tick =>
        rw [checkStep_tick isDue]
        exact paceNext_phase testing.fired known rfl rests count
      | response tid resp =>
        have missing := idle_transaction testing rests tid
        rw [Due, missing] at isDue
        cases isDue
    | busy testing timer cp busy count =>
      cases ev with
      | tick =>
        rw [Due, timer] at isDue
        cases isDue
      | response tid resp =>
        obtain ⟨other, found⟩ := Option.isSome_iff_exists.mp isDue
        obtain rfl := busy_transaction testing busy found
        have isFor := answers other found
        cases succeeds : outcome other.id with
        | none =>
          rw [succeeds] at isFor
          obtain ⟨testing', rests, same⟩ := busy_fails testing busy succeeds
          rw [checkStep_fails found isFor]
          exact paceNext_phase testing' known timer rests (same ▸ count)
        | some addr =>
          rw [succeeds] at isFor
          rw [isFor_some isFor, checkStep_succeeds found]
          exact success_phase testing started named one busy.member fun unspec => addressed other.id (unspec ▸ succeeds)
    | ended ended concluded => exact .ended (ended.step answers) fun hopeful => (concluded hopeful).step answers
  · rw [if_neg isDue, Nat.zero_add, checkStep_undue isDue]
    exact phase

theorem phase_spares (one : ∀ cp ∈ start.checkl, ∀ other ∈ start.checkl, cp.comp = other.comp)
    (phase : Phase outcome start due icem) (ev : CheckEvent) : Spares icem ev := by
  unfold Spares
  split
  · intro cp found other member differs waits
    have same : ∀ {icem}, Testing start icem → cp ∈ icem.all → other ∈ icem.all → other.comp = cp.comp := by
      intro icem testing inside member
      rw [testing.all] at inside member
      obtain ⟨cp0, inStart, links⟩ := testing.linked inside
      obtain ⟨other0, otherInStart, otherLinks⟩ := testing.linked member
      exact (congrArg Candpair.comp otherLinks.symm :).trans
        ((one other0 otherInStart cp0 inStart).trans (congrArg Candpair.comp links :))
    cases phase with
    | idle testing => exact absurd (same testing (transaction_some found).1 member) differs
    | busy testing => exact absurd (same testing (transaction_some found).1 member) differs
    | ended ended => exact absurd waits (ended.tested other member)
  · trivial

theorem phase_run (started : Started start) (known : start.ice.lrole ≠ .unknown)
    (named : ∀ comp ∈ start.compl, comp.id ≠ 0) (addressed : ∀ id, outcome id ≠ some .unspec)
    (one : ∀ cp ∈ start.checkl, ∀ other ∈ start.checkl, cp.comp = other.comp) (phase : Phase outcome start due icem)
    {evs : List CheckEvent} (answers : Along checkStep (Answers outcome) icem evs) :
    Along checkStep Spares icem evs ∧ Phase outcome start (dueCount icem evs + due) (evs.foldl checkStep icem) := by
  induction evs generalizing icem due with
  | nil => exact ⟨trivial, by rwa [dueCount, Nat.zero_add]⟩
  | cons ev evs ih =>
    have next := phase_step started known named addressed one phase answers.1
    obtain ⟨spares, last⟩ := ih next answers.2
    refine ⟨⟨phase_spares one phase ev, spares⟩, ?_⟩
    rw [dueCount, Nat.add_comm _ (dueCount _ evs), Nat.add_assoc]
    exact last

theorem exists_response (outcome : Option Sa) : ∃ resp : StunResp, resp.IsFor outcome := by
  cases outcome with
  | none => exact ⟨.error, rfl⟩
  | some addr => exact ⟨.msg 0 (some addr), rfl⟩

theorem phase_goes_on (phase : Phase outcome start due icem) (hopeful : Hopeful outcome start) :
    Succeeds icem ∨ due ≤ start.checkl.length ∧ ∃ ev, Due icem ev ∧ Answers outcome icem ev := by
  cases phase with
  | idle testing timer rests count => exact .inr ⟨by omega, .tick, timer, trivial⟩
  | busy testing timer cp busy count =>
    obtain ⟨tid, found⟩ := busy_found testing busy
    obtain ⟨resp, isFor⟩ := exists_response (outcome cp.id)
    refine .inr ⟨by omega, .response tid resp, Option.isSome_iff_exists.mpr ⟨cp, found⟩, ?_⟩
    intro other here
    rwa [busy_transaction testing busy here]
  | ended ended concluded =>
    have concluded := concluded hopeful
    exact .inl ⟨concluded.completed, fun comp member => (concluded.comps comp member).2, concluded.reported,
      concluded.succeeded⟩

theorem Started.testing (started : Started start) (uncalled : start.chkh = []) : Testing start start :=
  ⟨started.distinct, started.running, started.valid, uncalled, rfl, rfl, rfl, rfl⟩

theorem Started.rests (started : Started start) (outcome : Nat → Option Sa) : ∀ cp ∈ start.checkl, cp.Rests outcome := by
  intro cp member
  have untried := started.untried cp member
  exact ⟨untried.ctConn, .inl untried.state.symm⟩

theorem Started.waiting (started : Started start) : waiting start = start.checkl.length := by
  apply List.countP_eq_length.mpr
  intro cp member
  have waits : cp.Waits := (started.untried cp member).state.symm
  simpa using waits

/-- The first success fails the pairs that have not been tested. -/
theorem busy_success_fails (testing : Testing start icem) (started : Started start)
    (named : ∀ comp ∈ start.compl, comp.id ≠ 0) {cp other : Candpair} (member : cp ∈ icem.checkl) {tid : Nat}
    (found : icem.transaction tid = some cp) (inside : other ∈ icem.checkl) (away : other.id ≠ cp.id)
    (waits : other.Waits) {addr : Sa} (addressed : addr ≠ .unspec) :
    ∃ other' ∈ (checkStep icem (.response tid (.msg 0 (some addr)))).all,
      other'.id = other.id ∧ other'.state = .failed := by
  obtain ⟨cancelled, inCancelled, compid, validates⟩ := testing.validates started named member addressed
  have ended := handleSuccess_ends allSend cancelled.distinct cancelled.validl inCancelled compid validates
  rw [checkStep_succeeds found, paceNext_not_running allSend _ ended.stopped]
  exact handleSuccess_fails_others allSend cancelled.distinct cancelled.validl inCancelled compid validates
    (update_checkl inside away _) away waits

end

/-- Whichever checks succeed, and in whichever order they end, no component takes the pairs of another, and the list
    succeeds when every component has a pair that does. -/
def Independent (start : Icem) : Prop :=
  ∀ outcome, (∀ id, outcome id ≠ some .unspec) → ∀ evs, Along checkStep (Answers outcome) start evs →
    Along checkStep Spares start evs ∧ EndsWell outcome start evs

/-- The first check succeeds. -/
theorem first_success_fails {start : Icem} (started : Started start) (uncalled : start.chkh = [])
    (known : start.ice.lrole ≠ .unknown) (named : ∀ comp ∈ start.compl, comp.id ≠ 0) {cp other : Candpair}
    (member : cp ∈ start.checkl) (member_ : other ∈ start.checkl) (differs : cp.comp ≠ other.comp) :
    ¬ Independent start := by
  intro independent
  have waits : ∃ cp ∈ start.checkl, cp.Waits := ⟨cp, member, (started.untried cp member).state.symm⟩
  have fired := (started.testing uncalled).fired
  obtain ⟨first, -, testing, -, busy, -⟩ :=
    paceNext_checks fired known (started.rests fun _ => some (.inet 1 1)) waits
  have tick : checkStep start .tick = ({ start with tmrPace := false } : Icem).paceNext allSend :=
    checkStep_tick started.timer
  rw [← tick] at testing busy
  obtain ⟨tid, found⟩ := busy_found testing busy
  obtain ⟨far, farMember, far_⟩ : ∃ far ∈ start.checkl, far.comp ≠ first.comp := by
    by_cases same : cp.comp = first.comp
    · exact ⟨other, member_, fun again => differs (same.trans again.symm)⟩
    · exact ⟨cp, member, same⟩
  obtain ⟨still, inside, links⟩ := testing.still farMember
  have comp : still.comp ≠ first.comp := fun same => far_ ((congrArg Candpair.comp links.symm :).trans same)
  have away : still.id ≠ first.id := by
    intro same
    have again := testing.distinct.eq (mem_all.mpr (.inl inside)) (mem_all.mpr (.inl busy.member)) same
    exact comp (congrArg Candpair.comp again :)
  have stillWaits : still.Waits := (busy.others still inside away).2.resolve_right fun failed => by cases failed.2
  have addressed : Sa.inet 1 1 ≠ .unspec := fun unspec => by cases unspec
  obtain ⟨lost, last, same, failed⟩ :=
    busy_success_fails testing started named busy.member found inside away stillWaits addressed
  have answers : Along checkStep (Answers fun _ => some (.inet 1 1)) start
      [.tick, .response tid (.msg 0 (some (.inet 1 1)))] := ⟨trivial, fun _ _ => rfl, trivial⟩
  have spares := (independent _ (fun _ unspec => by cases unspec) _ answers).1.2.1
  exact spares _ found still (mem_all.mpr (.inl inside)) comp stillWaits lost last same failed

def rtpCand : Cand := ⟨0, .host, 101, 1, .inet 1 10⟩
def rtcpCand : Cand := ⟨1, .host, 100, 2, .inet 1 11⟩
def peerRtpCand : Cand := ⟨2, .host, 200, 1, .inet 2 20⟩
def peerRtcpCand : Cand := ⟨3, .host, 200, 2, .inet 2 21⟩

/-- A media with a component for RTP and one for RTCP. -/
def twoComps : Icem :=
  mediaOf ⟨.full, .controlling, 7, .regular⟩ [rtpCand, rtcpCand] [peerRtpCand, peerRtcpCand]
    [⟨1, none, false⟩, ⟨2, none, false⟩]

def twoCompsStarted : Icem :=
  { twoComps with
    checkl := [⟨0, 1, rtpCand, peerRtpCand, false, false, .waiting, 433791697296, none⟩,
      ⟨1, 2, rtcpCand, peerRtcpCand, false, false, .frozen, 429496730000, none⟩]
    state := .running
    tmrPace := true
    pairs := 2 }

/-- Both checks succeed, with the address of the local candidate. -/
def bothSucceed (id : Nat) : Option Sa := some (if id = 0 then rtpCand.addr else rtcpCand.addr)

def firstSuccess : List CheckEvent := [.tick, .response 0 (.msg 0 (some rtpCand.addr))]

end Baresip.Chk
