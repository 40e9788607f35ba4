import Baresip.Chk.Candpair

set_option linter.dupNamespace false

namespace Baresip.Chk

open Re

inductive StunResp
  | error
  | msg (scode : Nat) (xorMappedAddr : Option Sa)
  deriving DecidableEq, Repr

/-- A binding request that has been authenticated. -/
structure StunReq where
  controlled : Option (BitVec 64)
  controlling : Option (BitVec 64)
  priority : Option (BitVec 32)
  useCand : Bool
  deriving DecidableEq, Repr

inductive Reply
  | success | badmsg | conflict
  deriving DecidableEq, Repr

def candFind (l : List Cand) (compid : Nat) (addr : Sa) : Option Cand :=
  l.find? fun cand => (compid = 0 ∨ cand.compid = compid) ∧ cand.addr.cmp addr .all

def candpairFind (l : List Candpair) (lcand : Option Nat) (rcand : Nat) : Option Candpair :=
  l.find? fun cp => (∀ id ∈ lcand, cp.lcand.id = id) ∧ cp.rcand.id = rcand

def candpairFindSt (l : List Candpair) (compid : Nat) (state : CandpairState) : Option Candpair :=
  l.find? fun cp => (compid = 0 ∨ cp.lcand.compid = compid) ∧ cp.state = state

def candpairFindCompid (l : List Candpair) (compid : Nat) : Option Candpair :=
  l.find? fun cp => cp.lcand.compid = compid

def Candpair.isCompleted (cp : Candpair) : Bool := cp.state = .failed ∨ cp.state = .succeeded

namespace Icem

def lcandAdd (icem : Icem) (base : Cand) (type : CandType) (addr : Sa) : Icem :=
  let cand := ⟨icem.cands, type, iceCalcPrio type 0 base.compid, base.compid, addr⟩
  { icem with lcandl := icem.lcandl ++ [cand], cands := icem.cands + 1 }

def rcandAddPrflx (icem : Icem) (compid : Nat) (prio : BitVec 32) (addr : Sa) : Cand × Icem :=
  let rcand := ⟨icem.cands, .prflx, prio, compid, addr⟩
  (rcand, { icem with rcandl := icem.rcandl ++ [rcand], cands := icem.cands + 1 })

def compUpdate (icem : Icem) (compid : Nat) (f : Comp → Comp) : Icem :=
  { icem with compl := icem.compl.map fun comp => if comp.id = compid then f comp else comp }

def compSetSelected (icem : Icem) (compid cp : Nat) : Icem :=
  icem.compUpdate compid fun comp => { comp with cpSel := some cp }

section
variable (fails : Nat → Bool) (icem : Icem)

/-- The request goes out, and the pair has a transaction. -/
def stunRequest (id : Nat) (useCand : Bool) : Icem :=
  { icem.update id fun cp => { cp with ctConn := some icem.sent.length } with
    sent := icem.sent ++ [⟨id, icem.ice.lrole, icem.ice.tiebrk, useCand⟩] }

/-- Whether there was an error. `fails` are the pairs for which the request cannot go out. -/
def conncheckSend (id : Nat) (useCand : Bool) : Bool × Icem :=
  match icem.pair id with
  | none => (true, icem)
  | some cp =>
    let icem := icem.candpairSetState id .inprogress
    if icem.ice.lrole = .unknown then (true, icem)
    else if cp.ctConn.isSome then (true, icem)
    else if fails id then (true, icem)
    else (false, icem.stunRequest id (useCand || (icem.ice.lrole = .controlling && icem.ice.nom = .aggressive)))

def doCheck (id : Nat) : Icem :=
  match icem.conncheckSend fails id false with
  | (true, icem) => icem.candpairFailed id
  | (false, icem) => icem

def scheduleCheck : Icem :=
  match candpairFindSt icem.checkl 0 .waiting with
  | some cp => icem.doCheck fails cp.id
  | none =>
    match candpairFindSt icem.checkl 0 .frozen with
    | some cp => icem.doCheck fails cp.id
    | none => { icem with state := .completed }

def isCompleted : Bool := icem.checkl.all Candpair.isCompleted

def concludingIce (compid : Nat) : Icem :=
  match icem.compFind compid with
  | none => icem
  | some comp =>
    if comp.concluded then icem
    else
      match candpairFindSt icem.validl compid .succeeded with
      | none => icem
      | some cp =>
        let icem := icem.compSetSelected compid cp.id
        let icem :=
          if icem.ice.nom = .regular then (icem.conncheckSend fails cp.id true).2.scheduleCheck fails else icem
        icem.compUpdate compid fun comp => { comp with concluded := true }

/-- Over the components, up to the first that has no valid pair. -/
def concludeAll : List Comp → Icem → Bool × Icem
  | [], icem => (false, icem)
  | comp :: rest, icem =>
    match candpairFindCompid icem.validl comp.id with
    | none => (true, icem)
    | some _ => concludeAll rest (icem.concludingIce fails comp.id)

def checklistUpdate : Icem :=
  if icem.isCompleted then
    let (err, icem) := concludeAll fails icem.compl icem
    { icem with
      state := if err then .failed else .completed
      chkh := icem.chkh ++ [(err, decide (icem.ice.lrole = .controlling))] }
  else icem

def paceNext : Icem :=
  if icem.state = .running then (icem.scheduleCheck fails).checklistUpdate fails else icem

def timeout : Icem := { icem with tmrPace := false }.paceNext fails

def conncheckStopped (cp : Candpair) : Candpair :=
  if cp.state = .succeeded then { cp with ctConn := none }
  else { cp with ctConn := none, valid := false, state := .failed }

def conncheckStop : Icem :=
  { icem with
    state := .completed
    tmrPace := false
    checkl := icem.checkl.map conncheckStopped }.checklistUpdate fails

/-- The candidate at the destination is found also by being the candidate of the pair. -/
def constructValidPair (cp : Candpair) (mapped : Sa) : Option Nat × Icem :=
  let lcand := candFind icem.lcandl cp.lcand.compid mapped
  let rcand := icem.rcandl.find? fun cand =>
    (cp.rcand.compid = 0 ∨ cand.compid = cp.rcand.compid) ∧
      (cand.id = cp.rcand.id ∨ cand.addr.cmp cp.rcand.addr .all)
  match lcand, rcand with
  | some lcand, some rcand =>
    if lcand.id ≠ cp.lcand.id ∨ rcand.id ≠ cp.rcand.id then
      match candpairFind icem.validl (some lcand.id) rcand.id with
      | some cp2 => (some cp2.id, icem)
      | none =>
        let (id, icem) := icem.candpairClone cp (some lcand) (some rcand)
        (some id, (icem.candpairMakeValid id).candpairFailed cp.id)
    else (some cp.id, icem.candpairMakeValid cp.id)
  | _, _ => (none, icem)

/-- The mapped address becomes that of a local candidate. -/
def withMapped (cp : Candpair) (addr : Sa) : Icem :=
  if (candFind icem.lcandl cp.lcand.compid addr).isSome then icem else icem.lcandAdd cp.lcand .prflx addr

def selectValid (compid id : Nat) : Icem :=
  (((icem.candpairMakeValid id).compSetSelected compid id).update id fun cp =>
    { cp with nominated := true }).conncheckStop fails

def handleSuccess (cp : Candpair) (addr : Sa) : Icem :=
  match (icem.withMapped cp addr).constructValidPair cp addr with
  | (none, icem) => icem
  | (some id, icem) => icem.selectValid fails cp.comp id

def stuncRespHandler (cp : Candpair) : StunResp → Icem
  | .error => (icem.candpairFailed cp.id).paceNext fails
  | .msg 0 none => (icem.candpairFailed cp.id).paceNext fails
  | .msg 0 (some addr) => (icem.handleSuccess fails cp addr).paceNext fails
  | .msg 487 _ => (icem.switchLocalRole.conncheckSend fails cp.id false).2.paceNext fails
  | .msg _ _ => (icem.candpairFailed cp.id).paceNext fails

def transaction (tid : Nat) : Option Candpair := icem.all.find? fun cp => cp.ctConn = some tid

/-- The response to the transaction of a number, or its end without one. -/
def stunCtransRecv (tid : Nat) (resp : StunResp) : Icem :=
  match icem.transaction tid with
  | none => icem
  | some cp => (icem.candpairCancel cp.id).stuncRespHandler fails { cp with ctConn := none } resp

def triggeredCheck (lcand : Option Cand) (rcand : Cand) : Icem :=
  match lcand with
  | none => icem
  | some lcand =>
    match candpairFind icem.checkl (some lcand.id) rcand.id with
    | some cp =>
      match cp.state with
      | .failed => ((icem.candpairSetState cp.id .waiting).conncheckSend fails cp.id false).2
      | .frozen => (icem.conncheckSend fails cp.id false).2
      | .waiting => (icem.conncheckSend fails cp.id false).2
      | .inprogress => icem
      | .succeeded => icem
    | none =>
      match icem.candpairAlloc lcand rcand with
      | (none, icem) => icem
      | (some id, icem) => ((icem.candpairPrioOrder.candpairSetState id .waiting).conncheckSend fails id false).2

def lookupCandpair (rcand : Cand) : Option Candpair :=
  (candpairFind icem.checkl none rcand.id).or (candpairFind icem.validl none rcand.id)

def lookupLcand (compid : Nat) : Option Cand :=
  (icem.checkl.find? fun cp => cp.lcand.compid = compid ∧ (cp.lcand.type = .host ∨ cp.lcand.type = .relay)).map
    Candpair.lcand

def updateNominated (cp : Candpair) : Icem :=
  if icem.ice.lrole = .controlled ∧ cp.state = .succeeded then
    icem.update cp.id fun cp => { cp with nominated := true }
  else icem

/-- What a request with USE-CANDIDATE does with the pair that it is for. -/
def useCandidate (compid : Nat) (cp : Candpair) : Icem :=
  let icem := (icem.updateNominated cp).candpairMakeValid cp.id
  if icem.ice.nom = .regular then (icem.candpairCancel cp.id).compSetSelected compid cp.id else icem

def learnRcand (compid : Nat) (src : Sa) (prio : BitVec 32) : Cand × Icem :=
  match candFind icem.rcandl compid src with
  | some rcand => (rcand, icem)
  | none => icem.rcandAddPrflx compid prio src

def respondCheck (compid : Nat) (rcand : Cand) : Icem :=
  if icem.ice.lmode = .full then
    let lcand := ((icem.lookupCandpair rcand).map Candpair.lcand).or (icem.lookupLcand compid)
    icem.triggeredCheck fails lcand rcand
  else icem

/-- The pair of a remote candidate, looked up before the triggered check and, if there is none, once more after it. -/
def requestedPair (rcand : Cand) (after : Icem) : Option Candpair :=
  match icem.lookupCandpair rcand with
  | some cp => after.pair cp.id
  | none => after.lookupCandpair rcand

def handleRcand (compid : Nat) (rcand : Cand) (useCand : Bool) : Icem :=
  let after := icem.respondCheck fails compid rcand
  match icem.requestedPair rcand after with
  | none => after
  | some cp => if useCand then after.useCandidate compid cp else after

def handleStun (compid : Nat) (src : Sa) (prio : BitVec 32) (useCand : Bool) : Icem :=
  if icem.state = .running then
    (icem.learnRcand compid src prio).2.handleRcand fails compid (icem.learnRcand compid src prio).1 useCand
  else icem

/-- The role that the sender of a request has, with its tie-breaker. -/
def senderRole (req : StunReq) : Role × BitVec 64 :=
  match req.controlling, req.controlled with
  | some tiebrk, _ => (.controlling, tiebrk)
  | none, some tiebrk => (.controlled, tiebrk)
  | none, none => (.unknown, 0)

/-- None when the sender is told of the conflict. -/
def checkRole (req : StunReq) : Option Icem :=
  if (senderRole req).1 = icem.ice.lrole then
    if icem.ice.tiebrk ≥ (senderRole req).2 then some icem.switchLocalRole else none
  else some icem

def stundRecv (compid : Nat) (src : Sa) (req : StunReq) : Reply × Icem :=
  match icem.checkRole req with
  | none => (.conflict, icem)
  | some icem =>
    match req.priority with
    | none => (.badmsg, icem)
    | some prio => (.success, icem.handleStun fails compid src prio req.useCand)

end

end Icem

end Baresip.Chk
