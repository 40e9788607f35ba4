import Baresip.Chk.Nominating

set_option linter.dupNamespace false

namespace Baresip.Chk

open Re Library

/-- How often a run leaves the state Running. -/
def leavings (icem : Icem) : List IceEvent → Nat
  | [] => 0
  | ev :: evs =>
    (if icem.state = .running ∧ (iceStep icem ev).state ≠ .running then 1 else 0) + leavings (iceStep icem ev) evs

/-- The events after which the handler has been called as it should have been and the list is not left for ever. -/
def Tolerated (icem : Icem) : IceEvent → Prop
  | .tick _ => icem.tmrPace = true → icem.state = .running → Settled icem.checkl
  | .response _ tid resp => ∀ cp ∈ icem.transaction tid, icem.Tolerates cp resp
  | .request fails compid src req => icem.ToleratesRequest fails compid src req

theorem iceStep_distinct {icem : Icem} (distinct : Distinct icem) (ev : IceEvent) : Distinct (iceStep icem ev) := by
  cases ev with
  | tick fails =>
    simp only [iceStep]
    split
    · exact ((evolves_concludes any_cancelling.toEnding).timeout fails icem distinct).distinct
    · exact distinct
  | response fails tid resp => exact ((evolves_switches any_cancelling).stunCtransRecv fails icem tid resp distinct).distinct
  | request fails compid src req => exact ((evolves_switches any_cancelling).stundRecv fails icem compid src req distinct).distinct

theorem iceStep_sound {icem : Icem} (sound : Sound icem) (distinct : Distinct icem) {ev : IceEvent}
    (tolerated : Tolerated icem ev) : Sound (iceStep icem ev) := by
  cases ev with
  | tick fails =>
    simp only [iceStep]
    split
    · rename_i timer
      exact timeout_sound fails sound (tolerated timer)
    · exact sound
  | response fails tid resp => exact stunCtransRecv_sound fails sound tolerated
  | request fails compid src req => exact stundRecv_sound fails sound distinct tolerated

theorem checkRole_state {icem icem' : Icem} {req : StunReq} (checked : icem.checkRole req = some icem') :
    icem'.state = icem.state :=
  checkRole_closed (S := fun a b => b.state = a.state) (fun _ => rfl) (fun _ => rfl) checked

theorem failedNext_stopped (fails : Nat → Bool) {icem : Icem} (stopped : icem.state ≠ .running) (id : Nat) :
    ((icem.candpairFailed id).paceNext fails).state ≠ .running := by
  have same : (icem.candpairFailed id).paceNext fails = icem.candpairFailed id := paceNext_not_running fails _ stopped
  rw [same]
  exact stopped

theorem stuncRespHandler_stopped (fails : Nat → Bool) {icem : Icem} (stopped : icem.state ≠ .running) (cp : Candpair)
    (resp : StunResp) : (icem.stuncRespHandler fails cp resp).state ≠ .running := by
  unfold Icem.stuncRespHandler
  split
  · exact failedNext_stopped fails stopped cp.id
  · exact failedNext_stopped fails stopped cp.id
  · rename_i addr
    have success : (icem.handleSuccess fails cp addr).state ≠ .running := by
      by_cases valid : icem.validates cp addr
      · exact (handleSuccess_valid fails icem valid).1
      · rw [handleSuccess_invalid fails icem valid, (stays_moves.withMapped icem cp addr).state]
        exact stopped
    rw [paceNext_not_running fails _ success]
    exact success
  · have sent : (icem.switchLocalRole.conncheckSend fails cp.id false).2.state ≠ .running := by
      rw [(stays_moves.send fails icem.switchLocalRole cp.id false).state]
      exact stopped
    rw [paceNext_not_running fails _ sent]
    exact sent
  · exact failedNext_stopped fails stopped cp.id

theorem iceStep_stopped {icem : Icem} (stopped : icem.state ≠ .running) (ev : IceEvent) :
    (iceStep icem ev).state ≠ .running := by
  cases ev with
  | tick fails =>
    simp only [iceStep]
    split
    · have same : icem.timeout fails = { icem with tmrPace := false } := paceNext_not_running fails _ stopped
      rw [same]
      exact stopped
    · exact stopped
  | response fails tid resp =>
    simp only [iceStep, Icem.stunCtransRecv]
    split
    · exact stopped
    · rename_i cp _
      have free : (icem.candpairCancel cp.id).state ≠ .running := stopped
      exact stuncRespHandler_stopped fails free _ resp
  | request fails compid src req =>
    simp only [iceStep, Icem.stundRecv]
    split
    · exact stopped
    · rename_i icem' checked
      have stopped_ : icem'.state ≠ .running := by rwa [checkRole_state checked]
      split
      · exact stopped_
      · dsimp only
        unfold Icem.handleStun
        rw [if_neg stopped_]
        exact stopped_

theorem leavings_stopped {icem : Icem} (stopped : icem.state ≠ .running) (evs : List IceEvent) :
    leavings icem evs = 0 := by
  induction evs generalizing icem with
  | nil => rfl
  | cons ev evs ih =>
    unfold leavings
    rw [if_neg fun leaves => stopped leaves.1, ih (iceStep_stopped stopped ev)]

theorem leavings_le_one (icem : Icem) (evs : List IceEvent) : leavings icem evs ≤ 1 := by
  induction evs generalizing icem with
  | nil => exact Nat.zero_le 1
  | cons ev evs ih =>
    unfold leavings
    split
    · rename_i leaves
      rw [leavings_stopped leaves.2]
    · rw [Nat.zero_add]
      exact ih _

theorem Started.sound {icem : Icem} (started : Started icem) (uncalled : icem.chkh = []) : Sound icem where
  called := by rw [uncalled, if_pos started.running]; rfl
  live _ := .inl started.timer

/-- A list that has been started leaves Running once at most. It calls the handler then, and is not left running for
    ever, as long as no event comes that finds a pair in progress and none to check next, or a list that has concluded
    or has nothing else to wait for. -/
theorem running_left_once {base : Cand → Cand} {foundation : Cand → String} {first : Bool} {icem started : Icem}
    (fresh : icem.validl = []) (uncalled : icem.chkh = [])
    (starts : icem.conncheckStart base foundation first = (false, started)) (evs : List IceEvent)
    (tolerated : Along iceStep Tolerated started evs) :
    leavings started evs ≤ 1 ∧ Throughout iceStep Sound started evs := by
  obtain ⟨start, rest⟩ := conncheckStart_started fresh starts
  have chkh : started.chkh = icem.chkh := (congrArg Icem.chkh rest :)
  have kept : Throughout iceStep (fun s => Distinct s ∧ Sound s) started evs :=
    throughout_of_guarded (fun s ev inv tolerated => ⟨iceStep_distinct inv.1 ev, iceStep_sound inv.2 inv.1 tolerated⟩)
      ⟨start.distinct, start.sound (chkh.trans uncalled)⟩ tolerated
  exact ⟨leavings_le_one started evs, kept.mono fun s inv => inv.2⟩

instance (cp : Candpair) : Decidable cp.Waits := inferInstanceAs (Decidable (_ ∨ _))
instance (cp : Candpair) : Decidable cp.Pending := inferInstanceAs (Decidable (_ ∨ _))
instance (l : List Candpair) : Decidable (Settled l) := inferInstanceAs (Decidable (_ ∨ _))

instance (icem : Icem) (cp : Candpair) (addr : Sa) : Decidable (icem.validates cp addr) :=
  inferInstanceAs (Decidable (_ ∧ _))

instance (icem : Icem) (cp : Candpair) (addr : Sa) : Decidable (icem.ToleratesSuccess cp addr) :=
  inferInstanceAs (Decidable (_ ∧ _))

def ownCand : Cand := ⟨0, .host, 100, 1, .inet 1 10⟩

def peerCand : Cand := ⟨1, .host, 200, 1, .inet 2 20⟩

def onePair : Icem := mediaOf ⟨.full, .controlling, 7, .regular⟩ [ownCand] [peerCand] [⟨1, none, false⟩]

def onePairAt (state : CandpairState) (ctConn : Option Nat) (timer : Bool) (sent : List Sent) : Icem :=
  { onePair with
    checkl := [⟨0, 1, ownCand, peerCand, false, false, state, 429496730000, ctConn⟩]
    state := .running
    tmrPace := timer
    pairs := 1
    sent := sent }

def onePairStarted : Icem := onePairAt .waiting none true []

def onePairChecked : Icem := onePairAt .inprogress (some 0) false [⟨0, .controlling, 7, false⟩]

theorem onePair_starts : onePair.conncheckStart id (fun _ => "") true = (false, onePairStarted) := rfl

def peerRequest (useCand : Bool) : IceEvent := .request (fun _ => false) 1 (.inet 2 20) ⟨some 3, none, some 5, useCand⟩

theorem running_left_once_one_pair :
    leavings onePairStarted
      [.tick fun _ => false, peerRequest false, .response (fun _ => false) 0 (.msg 0 (some (.inet 1 10)))] ≤ 1 ∧
    Throughout iceStep Sound onePairStarted
      [.tick fun _ => false, peerRequest false, .response (fun _ => false) 0 (.msg 0 (some (.inet 1 10)))] := by
  have tick : Settled onePairStarted.checkl := by decide
  have request : Tolerated onePairChecked (peerRequest false) := by
    intro _ _ _ _ nominates
    cases nominates
  have response : ∀ cp ∈ onePairChecked.transaction 0, onePairChecked.ToleratesSuccess cp (.inet 1 10) := by
    decide
  exact running_left_once rfl rfl onePair_starts _ ⟨fun _ _ => tick, request, response, trivial⟩

/-- The peer nominates the only pair while its check is under way. -/
theorem left_running_for_ever :
    onePair.conncheckStart id (fun _ => "") true = (false, onePairStarted) ∧
    ¬ Throughout iceStep Sound onePairStarted [.tick fun _ => false, peerRequest true] := by
  refine ⟨rfl, ?_⟩
  intro throughout
  have live := throughout.last.live
  revert live
  decide

end Baresip.Chk
