import Baresip.Chk.Started
import Baresip.Library.Runs

set_option linter.dupNamespace false

namespace Baresip.Chk

open Re Library

/-- What happens to a media that has been started. `fails` are the pairs for which no request can go out then. -/
inductive IceEvent
  | tick (fails : Nat → Bool)
  | response (fails : Nat → Bool) (tid : Nat) (resp : StunResp)
  | request (fails : Nat → Bool) (compid : Nat) (src : Sa) (req : StunReq)

def iceStep (icem : Icem) : IceEvent → Icem
  | .tick fails => if icem.tmrPace then icem.timeout fails else icem
  | .response fails tid resp => icem.stunCtransRecv fails tid resp
  | .request fails compid src req => (icem.stundRecv fails compid src req).2

/-- A pair for which something is still to happen. The timer of its transaction is pending. -/
def Candpair.Pending (cp : Candpair) : Prop := cp.isCompleted = false ∨ cp.ctConn.isSome

/-- The handler has been called once since the list has left Running, and not before. -/
structure Sound (icem : Icem) : Prop where
  called : icem.chkh.length = if icem.state = .running then 0 else 1
  live : icem.state = .running → icem.tmrPace = true ∨ ∃ cp ∈ icem.all, cp.Pending

def Candpair.Waits (cp : Candpair) : Prop := cp.state = .waiting ∨ cp.state = .frozen

/-- There is a pair to check next, or no check under way. -/
def Settled (l : List Candpair) : Prop := (∃ cp ∈ l, cp.Waits) ∨ ∀ cp ∈ l, cp.isCompleted = true

section
variable (fails : Nat → Bool) (icem : Icem)

theorem candpairFindSt_none {l : List Candpair} {state : CandpairState} :
    candpairFindSt l 0 state = none ↔ ∀ cp ∈ l, cp.state ≠ state := by
  simp [candpairFindSt]

theorem scheduleCheck_stays (waits : ∃ cp ∈ icem.checkl, cp.Waits) : Stays icem (icem.scheduleCheck fails) := by
  unfold Icem.scheduleCheck
  split
  · exact stays_moves.doCheck fails icem _
  · rename_i noWaiting
    split
    · exact stays_moves.doCheck fails icem _
    · rename_i noFrozen
      obtain ⟨cp, member, waiting | frozen⟩ := waits
      · exact absurd waiting (candpairFindSt_none.mp noWaiting cp member)
      · exact absurd frozen (candpairFindSt_none.mp noFrozen cp member)

theorem scheduleCheck_idle (idle : ¬ ∃ cp ∈ icem.checkl, cp.Waits) :
    icem.scheduleCheck fails = { icem with state := .completed } := by
  have noWaiting : candpairFindSt icem.checkl 0 .waiting = none :=
    candpairFindSt_none.mpr fun cp member waiting => idle ⟨cp, member, .inl waiting⟩
  have noFrozen : candpairFindSt icem.checkl 0 .frozen = none :=
    candpairFindSt_none.mpr fun cp member frozen => idle ⟨cp, member, .inr frozen⟩
  unfold Icem.scheduleCheck
  rw [noWaiting, noFrozen]

theorem checklistUpdate_completed (completed : icem.isCompleted = true) :
    (icem.checklistUpdate fails).state ≠ .running ∧
      (icem.checklistUpdate fails).chkh.length = icem.chkh.length + 1 := by
  unfold Icem.checklistUpdate
  rw [if_pos completed]
  have keeps := keeps_schedules.concludeAll fails icem icem.compl
  constructor
  · dsimp only
    split
    · exact nofun
    · exact nofun
  · dsimp only
    rw [List.length_append, keeps.chkh]
    rfl

theorem paceNext_running (running : icem.state = .running) :
    icem.paceNext fails = (icem.scheduleCheck fails).checklistUpdate fails := if_pos running

theorem paceNext_not_running (stopped : icem.state ≠ .running) : icem.paceNext fails = icem := if_neg stopped

theorem conncheckStop_concludes :
    (icem.conncheckStop fails).state ≠ .running ∧ (icem.conncheckStop fails).chkh.length = icem.chkh.length + 1 := by
  apply checklistUpdate_completed
  simp only [Icem.isCompleted, List.all_map, List.all_eq_true]
  intro cp _
  simp only [Function.comp_apply, Icem.conncheckStopped, Candpair.isCompleted]
  split
  · rename_i succeeded
    simp [succeeded]
  · rfl

end

theorem Sound.of_concluded {icem : Icem} (stopped : icem.state ≠ .running) (called : icem.chkh.length = 1) :
    Sound icem where
  called := by rw [if_neg stopped, called]
  live running := absurd running stopped

theorem Sound.once {icem : Icem} (sound : Sound icem) (running : icem.state = .running) : icem.chkh.length = 0 := by
  rw [sound.called, if_pos running]

theorem Candpair.Waits.not_completed {cp : Candpair} (waits : cp.Waits) : cp.isCompleted = false := by
  rcases waits with waiting | frozen
  · simp [isCompleted, waiting]
  · simp [isCompleted, frozen]

/-- The next check of a settled list, or its conclusion. -/
theorem paceNext_sound (fails : Nat → Bool) {icem : Icem} (running : icem.state = .running)
    (once : icem.chkh.length = 0) (settled : Settled icem.checkl) : Sound (icem.paceNext fails) := by
  rw [paceNext_running fails icem running]
  rcases settled with waits | completed
  · have stays := scheduleCheck_stays fails icem waits
    by_cases done : (icem.scheduleCheck fails).isCompleted = true
    · obtain ⟨stopped, called⟩ := checklistUpdate_completed fails (icem.scheduleCheck fails) done
      apply Sound.of_concluded stopped
      rw [called, stays.chkh, once]
    · have same : (icem.scheduleCheck fails).checklistUpdate fails = icem.scheduleCheck fails := if_neg done
      rw [same]
      constructor
      · rw [stays.chkh, stays.state, if_pos running, once]
      · intro _
        simp only [Icem.isCompleted, List.all_eq_true, not_forall, Bool.not_eq_true] at done
        obtain ⟨cp, member, open_⟩ := done
        exact .inr ⟨cp, List.mem_append_left _ member, .inl open_⟩
  · have idle : ¬ ∃ cp ∈ icem.checkl, cp.Waits := by
      rintro ⟨cp, member, waits⟩
      have open_ := waits.not_completed
      rw [completed cp member] at open_
      contradiction
    rw [scheduleCheck_idle fails icem idle]
    obtain ⟨stopped, called⟩ := checklistUpdate_completed fails { icem with state := .completed }
      (List.all_eq_true.mpr completed)
    apply Sound.of_concluded stopped
    rw [called, once]

/-- A success response from which a valid pair can be made. -/
def Icem.validates (icem : Icem) (cp : Candpair) (addr : Sa) : Prop :=
  ((candFind icem.lcandl cp.lcand.compid addr).isSome ∨ addr.cmp addr .all) ∧
    ∃ cand ∈ icem.rcandl, (cp.rcand.compid = 0 ∨ cand.compid = cp.rcand.compid) ∧
      (cand.id = cp.rcand.id ∨ cand.addr.cmp cp.rcand.addr .all)

section
variable (fails : Nat → Bool) (icem : Icem)

theorem withMapped_pairs (cp : Candpair) (addr : Sa) :
    (icem.withMapped cp addr).checkl = icem.checkl ∧ (icem.withMapped cp addr).validl = icem.validl := by
  unfold Icem.withMapped
  split
  · exact ⟨rfl, rfl⟩
  · exact ⟨rfl, rfl⟩

theorem withMapped_rcandl (cp : Candpair) (addr : Sa) : (icem.withMapped cp addr).rcandl = icem.rcandl := by
  unfold Icem.withMapped
  split
  · rfl
  · rfl

theorem withMapped_lcand (cp : Candpair) (addr : Sa) :
    (candFind (icem.withMapped cp addr).lcandl cp.lcand.compid addr).isSome ↔
      (candFind icem.lcandl cp.lcand.compid addr).isSome ∨ addr.cmp addr .all := by
  unfold Icem.withMapped
  split
  · rename_i found
    simp [found]
  · rename_i missing
    simp [candFind, Icem.lcandAdd, List.find?_append]

theorem constructValidPair_isSome (cp : Candpair) (addr : Sa) :
    ((icem.withMapped cp addr).constructValidPair cp addr).1.isSome ↔ icem.validates cp addr := by
  have lcand := withMapped_lcand icem cp addr
  have rcandl := withMapped_rcandl icem cp addr
  have rcand : (icem.rcandl.find? fun cand => (cp.rcand.compid = 0 ∨ cand.compid = cp.rcand.compid) ∧
      (cand.id = cp.rcand.id ∨ cand.addr.cmp cp.rcand.addr .all)).isSome ↔
      ∃ cand ∈ icem.rcandl, (cp.rcand.compid = 0 ∨ cand.compid = cp.rcand.compid) ∧
        (cand.id = cp.rcand.id ∨ cand.addr.cmp cp.rcand.addr .all) := by
    rw [List.find?_isSome]
    simp only [decide_eq_true_eq]
  unfold Icem.validates
  rw [← lcand, ← rcand]
  unfold Icem.constructValidPair
  rw [rcandl]
  dsimp only
  split
  · rename_i l r foundL foundR
    rw [foundL, foundR]
    split
    · split
      · simp
      · simp
    · simp
  · rename_i missing
    constructor
    · intro some_
      cases some_
    · rintro ⟨someL, someR⟩
      obtain ⟨l, foundL⟩ := Option.isSome_iff_exists.mp someL
      obtain ⟨r, foundR⟩ := Option.isSome_iff_exists.mp someR
      exact absurd foundR (missing l r foundL)

theorem constructValidPair_none {cp : Candpair} {addr : Sa} {icem' : Icem}
    (none_ : icem.constructValidPair cp addr = (none, icem')) : icem' = icem := by
  unfold Icem.constructValidPair at none_
  dsimp only at none_
  split at none_
  · split at none_
    · split at none_
      · cases none_
      · cases none_
    · cases none_
  · exact (Prod.mk.inj none_).2.symm

theorem selectValid_concludes (compid id : Nat) :
    (icem.selectValid fails compid id).state ≠ .running ∧
      (icem.selectValid fails compid id).chkh.length = icem.chkh.length + 1 := by
  have selected : Stays icem ((icem.candpairMakeValid id).compSetSelected compid id) :=
    (makeValid_stays icem id).trans (stays_moves.selected _ compid id)
  have stays := selected.trans (stays_moves.nominated _ id)
  obtain ⟨stopped, called⟩ := conncheckStop_concludes fails (((icem.candpairMakeValid id).compSetSelected compid id).update
    id fun cp => { cp with nominated := true })
  rw [stays.chkh] at called
  exact ⟨stopped, called⟩

theorem handleSuccess_invalid {cp : Candpair} {addr : Sa} (invalid : ¬ icem.validates cp addr) :
    icem.handleSuccess fails cp addr = icem.withMapped cp addr := by
  rw [← constructValidPair_isSome] at invalid
  unfold Icem.handleSuccess
  split
  · rename_i icem' result
    exact constructValidPair_none _ result
  · rename_i id icem' result
    rw [result] at invalid
    exact absurd rfl invalid

theorem handleSuccess_valid {cp : Candpair} {addr : Sa} (valid : icem.validates cp addr) :
    (icem.handleSuccess fails cp addr).state ≠ .running ∧
      (icem.handleSuccess fails cp addr).chkh.length = icem.chkh.length + 1 := by
  rw [← constructValidPair_isSome] at valid
  have mapped := stays_moves.withMapped icem cp addr
  have constructed := stays_moves.constructValidPair (icem.withMapped cp addr) cp addr
  unfold Icem.handleSuccess
  split
  · rename_i icem' result
    rw [result] at valid
    cases valid
  · rename_i id icem' result
    rw [result] at constructed
    obtain ⟨stopped, called⟩ := selectValid_concludes fails icem' cp.comp id
    rw [(mapped.trans constructed).chkh] at called
    exact ⟨stopped, called⟩

end

/-- There is a pair to check next besides the one, or no check under way besides its. -/
def SettledBut (l : List Candpair) (id : Nat) : Prop :=
  (∃ cp ∈ l, cp.id ≠ id ∧ cp.Waits) ∨ ∀ cp ∈ l, cp.id ≠ id → cp.isCompleted = true

theorem SettledBut.update {l : List Candpair} {id : Nat} (settled : SettledBut l id) {f : Candpair → Candpair}
    (ids : ∀ cp, (f cp).id = cp.id) : SettledBut (l.map fun cp => if cp.id = id then f cp else cp) id := by
  rcases settled with ⟨cp, member, other, waits⟩ | completed
  · exact .inl ⟨cp, List.mem_map.mpr ⟨cp, member, if_neg other⟩, other, waits⟩
  · right
    intro cp' member other
    obtain ⟨cp, old, rfl⟩ := List.mem_map.mp member
    split at other
    · rename_i here
      rw [ids] at other
      exact absurd here other
    · rename_i away
      rw [if_neg away]
      exact completed cp old away

theorem SettledBut.failed {l : List Candpair} {id : Nat} (settled : SettledBut l id) :
    Settled (l.map fun cp => if cp.id = id then { cp with valid := false, state := .failed } else cp) := by
  rcases settled with ⟨cp, member, other, waits⟩ | completed
  · exact .inl ⟨cp, List.mem_map.mpr ⟨cp, member, if_neg other⟩, waits⟩
  · right
    intro cp' member
    obtain ⟨cp, old, rfl⟩ := List.mem_map.mp member
    split
    · rfl
    · rename_i away
      exact completed cp old away

/-- There is a pair to check next besides the one, or neither a check under way nor the one in the list. -/
def SettledWithout (l : List Candpair) (id : Nat) : Prop :=
  (∃ cp ∈ l, cp.id ≠ id ∧ cp.Waits) ∨ ∀ cp ∈ l, cp.id ≠ id ∧ cp.isCompleted = true

theorem SettledWithout.settled {l : List Candpair} {id : Nat} (settled : SettledWithout l id) : Settled l := by
  rcases settled with ⟨cp, member, -, waits⟩ | completed
  · exact .inl ⟨cp, member, waits⟩
  · exact .inr fun cp member => (completed cp member).2

theorem SettledWithout.update {l : List Candpair} {id : Nat} (settled : SettledWithout l id)
    {f : Candpair → Candpair} : SettledWithout (l.map fun cp => if cp.id = id then f cp else cp) id := by
  rcases settled with ⟨cp, member, other, waits⟩ | completed
  · exact .inl ⟨cp, List.mem_map.mpr ⟨cp, member, if_neg other⟩, other, waits⟩
  · right
    intro cp' member
    obtain ⟨cp, old, rfl⟩ := List.mem_map.mp member
    rw [if_neg (completed cp old).1]
    exact completed cp old

theorem SettledWithout.switched {icem : Icem} {id : Nat} (settled : SettledWithout icem.checkl id) :
    SettledWithout icem.switchLocalRole.checkl id := by
  have mem : ∀ cp', cp' ∈ icem.switchLocalRole.checkl ↔ ∃ cp ∈ icem.checkl, candpairSetPprio _ cp = cp' :=
    fun cp' => (listSort_perm _).mem_iff.trans List.mem_map
  rcases settled with ⟨cp, member, other, waits⟩ | completed
  · exact .inl ⟨_, (mem _).mpr ⟨cp, member, rfl⟩, other, waits⟩
  · right
    intro cp' member
    obtain ⟨cp, old, rfl⟩ := (mem cp').mp member
    exact completed cp old

theorem SettledWithout.sent (fails : Nat → Bool) {icem : Icem} {id : Nat} (settled : SettledWithout icem.checkl id)
    (useCand : Bool) : SettledWithout (icem.conncheckSend fails id useCand).2.checkl id := by
  unfold Icem.conncheckSend
  split
  · exact settled
  · dsimp only
    split
    · exact settled.update
    · split
      · exact settled.update
      · split
        · exact settled.update
        · exact settled.update.update

def Icem.ToleratesSuccess (icem : Icem) (cp : Candpair) (addr : Sa) : Prop :=
  (icem.state = .running → icem.validates cp addr ∨ Settled icem.checkl) ∧
    (icem.state ≠ .running → ¬ icem.validates cp addr)

/-- The responses after which the handler is called once at most and the list goes on or concludes. -/
def Icem.Tolerates (icem : Icem) (cp : Candpair) : StunResp → Prop
  | .msg 0 (some addr) => icem.ToleratesSuccess cp addr
  | .msg 487 _ => icem.state = .running → SettledWithout icem.checkl cp.id
  | _ => icem.state = .running → SettledBut icem.checkl cp.id

theorem Settled.update {l : List Candpair} (settled : Settled l) (id : Nat) {f : Candpair → Candpair}
    (states : ∀ cp, (f cp).state = cp.state) : Settled (l.map fun cp => if cp.id = id then f cp else cp) := by
  have state_ : ∀ cp : Candpair, (if cp.id = id then f cp else cp).state = cp.state := by
    intro cp
    split
    · exact states cp
    · rfl
  rcases settled with ⟨cp, member, waits⟩ | completed
  · refine .inl ⟨_, List.mem_map_of_mem member, ?_⟩
    unfold Candpair.Waits
    rw [state_]
    exact waits
  · right
    intro cp' member
    obtain ⟨cp, old, rfl⟩ := List.mem_map.mp member
    unfold Candpair.isCompleted
    rw [state_]
    exact completed cp old

theorem Icem.Tolerates.cancelled {icem : Icem} {cp : Candpair} {resp : StunResp} (tolerates : icem.Tolerates cp resp) :
    (icem.candpairCancel cp.id).Tolerates { cp with ctConn := none } resp := by
  unfold Tolerates at tolerates ⊢
  split at tolerates
  · obtain ⟨whenRunning, whenStopped⟩ := tolerates
    refine ⟨?_, whenStopped⟩
    intro running
    rcases whenRunning running with valid | settled
    · exact .inl valid
    · exact .inr (settled.update cp.id fun _ => rfl)
  · exact fun running => (tolerates running).update
  · exact fun running => (tolerates running).update fun _ => rfl

/-- What is known of a list between two steps: the handler has been called once since it has left Running. -/
def Called (icem : Icem) : Prop := icem.chkh.length = if icem.state = .running then 0 else 1

theorem Called.concluded {icem : Icem} (called : Called icem) (stopped : icem.state ≠ .running) : Sound icem where
  called := called
  live running := absurd running stopped

theorem failedNext_sound (fails : Nat → Bool) {icem : Icem} {cp : Candpair} (called : Called icem)
    (settled : icem.state = .running → SettledBut icem.checkl cp.id) :
    Sound ((icem.candpairFailed cp.id).paceNext fails) := by
  unfold Called at called
  by_cases running : icem.state = .running
  · rw [if_pos running] at called
    exact paceNext_sound fails running called (settled running).failed
  · have same : (icem.candpairFailed cp.id).paceNext fails = icem.candpairFailed cp.id :=
      paceNext_not_running fails _ running
    rw [same]
    exact Called.concluded called running

theorem stuncRespHandler_sound (fails : Nat → Bool) {icem : Icem} {cp : Candpair} {resp : StunResp}
    (called : Called icem) (tolerates : icem.Tolerates cp resp) : Sound (icem.stuncRespHandler fails cp resp) := by
  unfold Icem.stuncRespHandler
  split
  · exact failedNext_sound fails called tolerates
  · exact failedNext_sound fails called tolerates
  · rename_i addr
    obtain ⟨whenRunning, whenStopped⟩ : icem.ToleratesSuccess cp addr := tolerates
    by_cases valid : icem.validates cp addr
    · by_cases running : icem.state = .running
      · obtain ⟨stopped, once⟩ := handleSuccess_valid fails icem valid
        rw [paceNext_not_running fails _ stopped]
        apply Sound.of_concluded stopped
        rw [once, called, if_pos running]
      · exact absurd valid (whenStopped running)
    · rw [handleSuccess_invalid fails icem valid]
      have mapped := stays_moves.withMapped icem cp addr
      by_cases running : icem.state = .running
      · apply paceNext_sound fails
        · rw [mapped.state, running]
        · rw [mapped.chkh, called, if_pos running]
        · rw [(withMapped_pairs icem cp addr).1]
          exact (whenRunning running).resolve_left valid
      · have stopped : (icem.withMapped cp addr).state ≠ .running := by rwa [mapped.state]
        rw [paceNext_not_running fails _ stopped]
        apply Sound.of_concluded stopped
        rw [mapped.chkh, called, if_neg running]
  · have sent := stays_moves.send fails icem.switchLocalRole cp.id false
    by_cases running : icem.state = .running
    · apply paceNext_sound fails
      · rw [sent.state]
        exact running
      · rw [sent.chkh]
        exact called.trans (if_pos running)
      · exact ((tolerates running).switched.sent fails false).settled
    · have stopped : (icem.switchLocalRole.conncheckSend fails cp.id false).2.state ≠ .running := by rwa [sent.state]
      rw [paceNext_not_running fails _ stopped]
      apply Sound.of_concluded stopped
      rw [sent.chkh]
      exact called.trans (if_neg running)
  · rename_i scode addr noAddr someAddr noConflict
    apply failedNext_sound fails called
    unfold Icem.Tolerates at tolerates
    split at tolerates
    · rename_i same
      cases same
      exact (someAddr _ rfl rfl).elim
    · rename_i same
      cases same
      exact (noConflict rfl).elim
    · exact tolerates

theorem stunCtransRecv_sound (fails : Nat → Bool) {icem : Icem} {tid : Nat} {resp : StunResp} (sound : Sound icem)
    (tolerates : ∀ cp ∈ icem.transaction tid, icem.Tolerates cp resp) : Sound (icem.stunCtransRecv fails tid resp) := by
  unfold Icem.stunCtransRecv
  split
  · exact sound
  · rename_i cp here
    have called : Called (icem.candpairCancel cp.id) := sound.called
    exact stuncRespHandler_sound fails called (tolerates cp here).cancelled

theorem timeout_sound (fails : Nat → Bool) {icem : Icem} (sound : Sound icem)
    (settled : icem.state = .running → Settled icem.checkl) : Sound (icem.timeout fails) := by
  have called : Called { icem with tmrPace := false } := sound.called
  unfold Icem.timeout
  by_cases running : icem.state = .running
  · apply paceNext_sound fails
    · exact running
    · exact sound.once running
    · exact settled running
  · have same : { icem with tmrPace := false }.paceNext fails = { icem with tmrPace := false } :=
      paceNext_not_running fails _ running
    rw [same]
    exact called.concluded running

end Baresip.Chk
