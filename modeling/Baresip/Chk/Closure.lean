import Baresip.Chk.Conncheck

set_option linter.dupNamespace false

namespace Baresip.Chk

open Re

/-- A relation between media that holds across the sending of a check. -/
structure Sends (S : Icem → Icem → Prop) : Prop where
  refl : ∀ icem, S icem icem
  trans : ∀ {a b c}, S a b → S b c → S a c
  inprogress : ∀ icem id, S icem (icem.candpairSetState id .inprogress)
  request : ∀ {icem id cp}, icem.pair id = some cp → cp.ctConn = none → ∀ useCand, S icem (icem.stunRequest id useCand)

/-- And across what a request triggers. -/
structure Triggers (S : Icem → Icem → Prop) : Prop extends Sends S where
  waiting : ∀ icem id, S icem (icem.candpairSetState id .waiting)
  prioOrder : ∀ icem, S icem icem.candpairPrioOrder
  alloc : ∀ icem lcand rcand, S icem (icem.candpairAlloc lcand rcand).2
  rcand : ∀ icem compid prio src, S icem (icem.rcandAddPrflx compid prio src).2

/-- And across the end of a check. -/
structure Moves (S : Icem → Icem → Prop) : Prop extends Sends S where
  failed : ∀ icem id, S icem (icem.candpairFailed id)
  makeValid : ∀ icem id, S icem (icem.candpairMakeValid id)
  nominated : ∀ icem id, S icem (icem.update id fun cp => { cp with nominated := true })
  cloned : ∀ icem cp0 lcand rcand, S icem
    ((icem.candpairClone cp0 lcand rcand).2.candpairMakeValid (icem.candpairClone cp0 lcand rcand).1)
  selected : ∀ icem compid cp, S icem (icem.compSetSelected compid cp)
  concluded : ∀ icem compid, S icem (icem.compUpdate compid fun comp => { comp with concluded := true })
  lcand : ∀ icem cand type addr, S icem (icem.lcandAdd cand type addr)

/-- And across the end of the checks. -/
structure Schedules (S : Icem → Icem → Prop) : Prop extends Moves S where
  completed : ∀ icem : Icem, S icem { icem with state := .completed }

/-- And across the call of the handler. -/
structure Concludes (S : Icem → Icem → Prop) : Prop extends Schedules S where
  fires : ∀ icem : Icem, S icem { icem with tmrPace := false }
  reports : ∀ (icem : Icem) state chkh, S icem { icem with state := state, chkh := chkh }

/-- And across the loss of transactions. -/
structure Cancels (S : Icem → Icem → Prop) : Prop extends Concludes S where
  cancel : ∀ icem id, S icem (icem.candpairCancel id)
  stopped : ∀ icem : Icem, S icem { icem with
    state := .completed
    tmrPace := false
    checkl := icem.checkl.map Icem.conncheckStopped }

structure Serves (S : Icem → Icem → Prop) : Prop extends Cancels S, Triggers S

/-- And across a change of the role. -/
structure Switches (S : Icem → Icem → Prop) : Prop extends Serves S where
  switch : ∀ icem, S icem icem.switchLocalRole

theorem pair_update (icem : Icem) (id : Nat) {f : Candpair → Candpair} (ids : ∀ cp, (f cp).id = cp.id) :
    (icem.update id f).pair id = (icem.pair id).map f := by
  have found : ∀ l : List Candpair, (l.map fun cp => if cp.id = id then f cp else cp).find? (fun cp => cp.id = id) =
      (l.find? fun cp => cp.id = id).map f := by
    intro l
    induction l with
    | nil => rfl
    | cons cp l ih =>
      rw [List.map_cons, List.find?_cons, List.find?_cons]
      by_cases here : cp.id = id
      · simp [here, ids]
      · simpa [here] using ih
  unfold Icem.pair Icem.update Icem.all
  rw [← List.map_append]
  exact found _

theorem checkRole_closed {S : Icem → Icem → Prop} (refl : ∀ icem, S icem icem)
    (switch : ∀ icem, S icem icem.switchLocalRole) {icem icem' : Icem} {req : StunReq}
    (checked : icem.checkRole req = some icem') : S icem icem' := by
  unfold Icem.checkRole at checked
  split at checked
  · split at checked
    · obtain rfl := Option.some.inj checked
      exact switch icem
    · cases checked
  · obtain rfl := Option.some.inj checked
    exact refl icem

section
variable {S : Icem → Icem → Prop} (fails : Nat → Bool) (icem : Icem)

section
variable (sends : Sends S)
include sends

theorem Sends.send (id : Nat) (useCand : Bool) : S icem (icem.conncheckSend fails id useCand).2 := by
  have inprogress := sends.inprogress icem id
  unfold Icem.conncheckSend
  split
  · exact sends.refl icem
  · rename_i cp here
    dsimp only
    split
    · exact inprogress
    · split
      · exact inprogress
      · rename_i free
        split
        · exact inprogress
        · apply sends.trans inprogress
          have moved : (icem.candpairSetState id .inprogress).pair id =
              (icem.pair id).map fun cp => { cp with state := .inprogress } :=
            pair_update icem id fun _ => rfl
          rw [here] at moved
          exact sends.request moved (by simpa using free) _

end

section
variable (triggers : Triggers S)
include triggers

theorem Triggers.triggeredCheck (lcand : Option Cand) (rcand : Cand) :
    S icem (icem.triggeredCheck fails lcand rcand) := by
  unfold Icem.triggeredCheck
  split
  · exact triggers.refl icem
  · rename_i lcand
    split
    · rename_i cp _
      split
      · exact triggers.trans (triggers.waiting icem cp.id) (triggers.send fails _ cp.id false)
      · exact triggers.send fails icem cp.id false
      · exact triggers.send fails icem cp.id false
      · exact triggers.refl icem
      · exact triggers.refl icem
    · have alloc := triggers.alloc icem lcand rcand
      split
      · rename_i icem' result
        rw [result] at alloc
        exact alloc
      · rename_i id icem' result
        rw [result] at alloc
        have waiting := triggers.trans (triggers.prioOrder icem') (triggers.waiting _ id)
        exact triggers.trans alloc (triggers.trans waiting (triggers.send fails _ id false))

theorem Triggers.respondCheck (compid : Nat) (rcand : Cand) : S icem (icem.respondCheck fails compid rcand) := by
  unfold Icem.respondCheck
  split
  · exact triggers.triggeredCheck fails icem _ rcand
  · exact triggers.refl icem

theorem Triggers.learnRcand (compid : Nat) (src : Sa) (prio : BitVec 32) :
    S icem (icem.learnRcand compid src prio).2 := by
  unfold Icem.learnRcand
  split
  · exact triggers.refl icem
  · exact triggers.rcand icem compid prio src

end

section
variable (moves : Moves S)
include moves

theorem Moves.doCheck (id : Nat) : S icem (icem.doCheck fails id) := by
  have send := moves.send fails icem id false
  unfold Icem.doCheck
  split
  · rename_i sent result
    rw [result] at send
    exact moves.trans send (moves.failed sent id)
  · rename_i sent result
    rw [result] at send
    exact send

theorem Moves.withMapped (cp : Candpair) (addr : Sa) : S icem (icem.withMapped cp addr) := by
  unfold Icem.withMapped
  split
  · exact moves.refl icem
  · exact moves.lcand icem cp.lcand .prflx addr

theorem Moves.constructValidPair (cp : Candpair) (addr : Sa) : S icem (icem.constructValidPair cp addr).2 := by
  unfold Icem.constructValidPair
  dsimp only
  split
  · split
    · split
      · exact moves.refl icem
      · rename_i l r _ _ _ _ _
        exact moves.trans (moves.cloned icem cp (some l) (some r)) (moves.failed _ cp.id)
    · exact moves.makeValid icem cp.id
  · exact moves.refl icem

theorem Moves.updateNominated (cp : Candpair) : S icem (icem.updateNominated cp) := by
  unfold Icem.updateNominated
  split
  · exact moves.nominated icem cp.id
  · exact moves.refl icem

theorem Moves.useCandidate (cancel : ∀ icem id, S icem (icem.candpairCancel id)) (compid : Nat) (cp : Candpair) :
    S icem (icem.useCandidate compid cp) := by
  have valid := moves.trans (moves.updateNominated icem cp) (moves.makeValid _ cp.id)
  unfold Icem.useCandidate
  dsimp only
  split
  · exact moves.trans valid (moves.trans (cancel _ cp.id) (moves.selected _ compid cp.id))
  · exact valid

end

section
variable (schedules : Schedules S)
include schedules

theorem Schedules.scheduleCheck : S icem (icem.scheduleCheck fails) := by
  unfold Icem.scheduleCheck
  split
  · exact schedules.doCheck fails icem _
  · split
    · exact schedules.doCheck fails icem _
    · exact schedules.completed icem

theorem Schedules.concludingIce (compid : Nat) : S icem (icem.concludingIce fails compid) := by
  unfold Icem.concludingIce
  split
  · exact schedules.refl icem
  · split
    · exact schedules.refl icem
    · split
      · exact schedules.refl icem
      · rename_i cp _
        have selected := schedules.selected icem compid cp.id
        dsimp only
        split
        · have sent := schedules.send fails (icem.compSetSelected compid cp.id) cp.id true
          have scheduled := schedules.trans sent (schedules.scheduleCheck fails _)
          exact schedules.trans (schedules.trans selected scheduled) (schedules.concluded _ compid)
        · exact schedules.trans selected (schedules.concluded _ compid)

theorem Schedules.concludeAll (compl : List Comp) : S icem (Icem.concludeAll fails compl icem).2 := by
  induction compl generalizing icem with
  | nil => exact schedules.refl icem
  | cons comp rest ih =>
    unfold Icem.concludeAll
    split
    · exact schedules.refl icem
    · exact schedules.trans (schedules.concludingIce fails icem comp.id) (ih _)

end

section
variable (concludes : Concludes S)
include concludes

theorem Concludes.checklistUpdate : S icem (icem.checklistUpdate fails) := by
  unfold Icem.checklistUpdate
  split
  · exact concludes.trans (concludes.concludeAll fails icem icem.compl) (concludes.reports _ _ _)
  · exact concludes.refl icem

theorem Concludes.paceNext : S icem (icem.paceNext fails) := by
  unfold Icem.paceNext
  split
  · exact concludes.trans (concludes.scheduleCheck fails icem) (concludes.checklistUpdate fails _)
  · exact concludes.refl icem

theorem Concludes.timeout : S icem (icem.timeout fails) :=
  concludes.trans (concludes.fires icem) (concludes.paceNext fails _)

theorem Concludes.failedNext (id : Nat) : S icem ((icem.candpairFailed id).paceNext fails) :=
  concludes.trans (concludes.failed icem id) (concludes.paceNext fails _)

end

section
variable (cancels : Cancels S)
include cancels

theorem Cancels.conncheckStop : S icem (icem.conncheckStop fails) :=
  cancels.trans (cancels.stopped icem) (cancels.checklistUpdate fails _)

theorem Cancels.selectValid (compid id : Nat) : S icem (icem.selectValid fails compid id) := by
  have selected := cancels.trans (cancels.makeValid icem id) (cancels.selected _ compid id)
  exact cancels.trans (cancels.trans selected (cancels.nominated _ id)) (cancels.conncheckStop fails _)

theorem Cancels.handleSuccess (cp : Candpair) (addr : Sa) : S icem (icem.handleSuccess fails cp addr) := by
  have constructed := cancels.trans (cancels.withMapped icem cp addr) (cancels.constructValidPair _ cp addr)
  unfold Icem.handleSuccess
  split
  · rename_i icem' result
    rw [result] at constructed
    exact constructed
  · rename_i id icem' result
    rw [result] at constructed
    exact cancels.trans constructed (cancels.selectValid fails icem' cp.comp id)

end

section
variable (serves : Serves S)
include serves

theorem Serves.handleRcand (compid : Nat) (rcand : Cand) (useCand : Bool) :
    S icem (icem.handleRcand fails compid rcand useCand) := by
  have responded := serves.respondCheck fails icem compid rcand
  unfold Icem.handleRcand
  dsimp only
  split
  · exact responded
  · rename_i cp _
    split
    · exact serves.trans responded (serves.useCandidate _ serves.cancel compid cp)
    · exact responded

theorem Serves.handleStun (compid : Nat) (src : Sa) (prio : BitVec 32) (useCand : Bool) :
    S icem (icem.handleStun fails compid src prio useCand) := by
  unfold Icem.handleStun
  split
  · exact serves.trans (serves.learnRcand icem compid src prio) (serves.handleRcand fails _ compid _ useCand)
  · exact serves.refl icem

end

section
variable (switches : Switches S)
include switches

theorem Switches.stuncRespHandler (cp : Candpair) (resp : StunResp) :
    S icem (icem.stuncRespHandler fails cp resp) := by
  unfold Icem.stuncRespHandler
  split
  · exact switches.failedNext fails icem cp.id
  · exact switches.failedNext fails icem cp.id
  · rename_i addr
    exact switches.trans (switches.handleSuccess fails icem cp addr) (switches.paceNext fails _)
  · have sent := switches.trans (switches.switch icem) (switches.send fails _ cp.id false)
    exact switches.trans sent (switches.paceNext fails _)
  · exact switches.failedNext fails icem cp.id

theorem Switches.stunCtransRecv (tid : Nat) (resp : StunResp) : S icem (icem.stunCtransRecv fails tid resp) := by
  unfold Icem.stunCtransRecv
  split
  · exact switches.refl icem
  · rename_i cp _
    exact switches.trans (switches.cancel icem cp.id) (switches.stuncRespHandler fails _ _ resp)

theorem Switches.stundRecv (compid : Nat) (src : Sa) (req : StunReq) :
    S icem (icem.stundRecv fails compid src req).2 := by
  unfold Icem.stundRecv
  split
  · exact switches.refl icem
  · rename_i icem' result
    have switched := checkRole_closed switches.refl switches.switch result
    split
    · exact switched
    · exact switches.trans switched (switches.handleStun fails icem' compid src _ req.useCand)

end

end

end Baresip.Chk
