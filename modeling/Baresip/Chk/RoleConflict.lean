import Baresip.Chk.Leaving
import Baresip.Chk.Started

set_option linter.dupNamespace false

namespace Baresip.Chk

open Re Library

/-- The role stays, and the checks that go out are sent in it. -/
structure Logged (icem icem' : Icem) : Prop where
  ice : icem'.ice = icem.ice
  sent : ∃ new, icem'.sent = icem.sent ++ new ∧ ∀ s ∈ new, s.role = icem.ice.lrole ∧ s.tiebrk = icem.ice.tiebrk

theorem Logged.of_same {icem icem' : Icem} (ice : icem'.ice = icem.ice) (sent : icem'.sent = icem.sent) :
    Logged icem icem' :=
  ⟨ice, [], by rw [sent, List.append_nil], List.forall_mem_nil _⟩

theorem Logged.trans {a b c : Icem} (ab : Logged a b) (bc : Logged b c) : Logged a c := by
  obtain ⟨ice, new, sent, roles⟩ := ab
  obtain ⟨ice', new', sent', roles'⟩ := bc
  rw [ice] at ice' roles'
  refine ⟨ice', new ++ new', ?_, ?_⟩
  · rw [sent', sent, List.append_assoc]
  · intro s member
    rcases List.mem_append.mp member with first | second
    · exact roles s first
    · exact roles' s second

theorem makeValid_sent (icem : Icem) (id : Nat) : (icem.candpairMakeValid id).sent = icem.sent := by
  unfold Icem.candpairMakeValid
  split
  · rfl
  · rfl

theorem alloc_sent (icem : Icem) (lcand rcand : Cand) : (icem.candpairAlloc lcand rcand).2.sent = icem.sent :=
  (congrArg Icem.sent (candpairAlloc_rest icem lcand rcand) :)

theorem logged_serves : Serves Logged where
  refl _ := .of_same rfl rfl
  trans := .trans
  inprogress _ _ := .of_same rfl rfl
  request _ _ _ := ⟨rfl, _, rfl, List.forall_mem_singleton.mpr ⟨rfl, rfl⟩⟩
  waiting _ _ := .of_same rfl rfl
  prioOrder _ := .of_same rfl rfl
  alloc icem lcand rcand := .of_same (alloc_stays icem lcand rcand).ice (alloc_sent icem lcand rcand)
  rcand _ _ _ _ := .of_same rfl rfl
  failed _ _ := .of_same rfl rfl
  makeValid icem id := .of_same (makeValid_stays icem id).ice (makeValid_sent icem id)
  nominated _ _ := .of_same rfl rfl
  cloned _ _ _ _ := .of_same (makeValid_stays _ _).ice (makeValid_sent _ _)
  selected _ _ _ := .of_same rfl rfl
  concluded _ _ := .of_same rfl rfl
  lcand _ _ _ _ := .of_same rfl rfl
  completed _ := .of_same rfl rfl
  fires _ := .of_same rfl rfl
  reports _ _ _ := .of_same rfl rfl
  cancel _ _ := .of_same rfl rfl
  stopped _ := .of_same rfl rfl

theorem logged_cancels : Cancels Logged := logged_serves.toCancels

def Icem.Outstanding (icem : Icem) (tid : Nat) : Prop := ∃ cp ∈ icem.all, cp.ctConn = some tid

/-- A transaction is neither lost nor changed for another. -/
def Candpair.KeepsCt (cp cp' : Candpair) : Prop := ∀ tid, cp.ctConn = some tid → cp'.ctConn = some tid

theorem keepsCt_ending : Ending Candpair.KeepsCt where
  refl _ _ := id
  trans ab bc tid h := bc tid (ab tid h)
  waits _ _ := id
  checks _ _ := id
  requests _ _ free _ busy := by
    rw [free] at busy
    cases busy
  prio _ _ _ := id
  valid _ _ := id
  failed _ _ := id
  nominated _ _ := id

/-- Every check that goes out has its transaction, and no transaction is lost. -/
structure Tracked (icem icem' : Icem) : Prop where
  evolves : Evolves Candpair.KeepsCt icem icem'
  logged : Logged icem icem'
  tracked : ∀ tid, icem.sent.length ≤ tid → tid < icem'.sent.length → icem'.Outstanding tid

theorem Tracked.kept {icem icem' : Icem} (tracked : Tracked icem icem') {tid : Nat} (outstanding : icem.Outstanding tid) :
    icem'.Outstanding tid := by
  obtain ⟨cp, member, busy⟩ := outstanding
  obtain ⟨cp', inside, -, keeps⟩ := tracked.evolves.pairs cp member
  exact ⟨cp', inside, keeps tid busy⟩

def TrackedFrom (icem icem' : Icem) : Prop := Distinct icem → Tracked icem icem'

theorem TrackedFrom.of_same {icem icem' : Icem} (evolves : EvolvesFrom Candpair.KeepsCt icem icem')
    (ice : icem'.ice = icem.ice) (sent : icem'.sent = icem.sent) : TrackedFrom icem icem' := by
  intro distinct
  refine ⟨evolves distinct, .of_same ice sent, ?_⟩
  intro tid least less
  rw [sent] at less
  exact absurd least (Nat.not_le_of_lt less)

theorem TrackedFrom.trans {a b c : Icem} (ab : TrackedFrom a b) (bc : TrackedFrom b c) : TrackedFrom a c := by
  intro distinct
  have first := ab distinct
  have second := bc first.evolves.distinct
  refine ⟨.trans keepsCt_ending.toStarting first.evolves second.evolves, first.logged.trans second.logged, ?_⟩
  intro tid least less
  by_cases early : tid < b.sent.length
  · exact second.kept (first.tracked tid least early)
  · exact second.tracked tid (Nat.le_of_not_lt early) less

theorem stunRequest_tracked {icem : Icem} {id : Nat} {cp : Candpair} (here : icem.pair id = some cp)
    (free : cp.ctConn = none) (useCand : Bool) : TrackedFrom icem (icem.stunRequest id useCand) := by
  intro distinct
  refine ⟨stunRequest_evolves keepsCt_ending.toStarting here free useCand distinct,
    logged_cancels.request here free useCand, ?_⟩
  intro tid least less
  have last : tid = icem.sent.length := by
    have length_eq : (icem.stunRequest id useCand).sent.length = icem.sent.length + 1 := List.length_append
    omega
  obtain ⟨member, rfl⟩ := pair_some here
  refine ⟨{ cp with ctConn := some icem.sent.length }, ?_, congrArg some last.symm⟩
  unfold Icem.stunRequest Icem.update Icem.all
  rw [← List.map_append]
  exact List.mem_map.mpr ⟨cp, member, if_pos rfl⟩

theorem tracked_concludes : Concludes TrackedFrom := by
  have evolves := evolves_concludes keepsCt_ending
  exact {
    refl := fun icem => .of_same (evolves.refl icem) rfl rfl
    trans := .trans
    inprogress := fun icem id => .of_same (evolves.inprogress icem id) rfl rfl
    request := stunRequest_tracked
    failed := fun icem id => .of_same (evolves.failed icem id) rfl rfl
    makeValid := fun icem id =>
      .of_same (evolves.makeValid icem id) (makeValid_stays icem id).ice (makeValid_sent icem id)
    nominated := fun icem id => .of_same (evolves.nominated icem id) rfl rfl
    cloned := fun icem cp0 lcand rcand =>
      .of_same (evolves.cloned icem cp0 lcand rcand) (makeValid_stays _ _).ice (makeValid_sent _ _)
    selected := fun icem compid cp => .of_same (evolves.selected icem compid cp) rfl rfl
    concluded := fun icem compid => .of_same (evolves.concluded icem compid) rfl rfl
    lcand := fun icem cand type addr => .of_same (evolves.lcand icem cand type addr) rfl rfl
    completed := fun icem => .of_same (evolves.completed icem) rfl rfl
    fires := fun icem => .of_same (evolves.fires icem) rfl rfl
    reports := fun icem state chkh => .of_same (evolves.reports icem state chkh) rfl rfl }

/-- The agent with the larger tie-breaker and the one with the smaller. -/
inductive Side
  | large | small
  deriving DecidableEq, Repr

/-- An agent and the responses to its checks that have been sent, each with the number of its transaction. -/
structure Peer where
  icem : Icem
  inbox : List (Nat × StunResp)
  deriving DecidableEq, Repr

structure Peers where
  large : Peer
  small : Peer
  deriving DecidableEq, Repr

/-- A request is any check that the other side has sent, and a reply any of the responses in the inbox: they may come
    in any order, and more than once. -/
inductive PeerEvent
  | tick (side : Side)
  | request (side : Side) (tid compid : Nat) (src : Sa) (prio : BitVec 32)
  | reply (side : Side) (k : Nat)
  deriving DecidableEq, Repr

def allSend : Nat → Bool := fun _ => false

/-- The request that a check is sent as. -/
def Sent.request (sent : Sent) (prio : BitVec 32) : StunReq where
  controlled := if sent.role = .controlled then some sent.tiebrk else none
  controlling := if sent.role = .controlling then some sent.tiebrk else none
  priority := some prio
  useCand := sent.useCand

def Reply.msg (src : Sa) : Reply → StunResp
  | .success => .msg 0 (some src)
  | .badmsg => .msg 400 none
  | .conflict => .msg 487 none

namespace Peer

def tick (p : Peer) : Peer := { p with icem := iceStep p.icem (.tick allSend) }

def receive (p : Peer) (k : Nat) : Peer :=
  match p.inbox[k]? with
  | none => p
  | some msg => { p with icem := p.icem.stunCtransRecv allSend msg.1 msg.2 }

/-- The agent that a request goes to, and the one that has sent it. -/
def exchange (server sender : Peer) (tid compid : Nat) (src : Sa) (prio : BitVec 32) : Peer × Peer :=
  match sender.icem.sent[tid]? with
  | none => (server, sender)
  | some sent =>
    let (reply, icem) := server.icem.stundRecv allSend compid src (sent.request prio)
    ({ server with icem := icem }, { sender with inbox := sender.inbox ++ [(tid, reply.msg src)] })

end Peer

def peersStep (s : Peers) : PeerEvent → Peers
  | .tick .large => { s with large := s.large.tick }
  | .tick .small => { s with small := s.small.tick }
  | .request .large tid compid src prio =>
    ⟨(s.large.exchange s.small tid compid src prio).1, (s.large.exchange s.small tid compid src prio).2⟩
  | .request .small tid compid src prio =>
    ⟨(s.small.exchange s.large tid compid src prio).2, (s.small.exchange s.large tid compid src prio).1⟩
  | .reply .large k => { s with large := s.large.receive k }
  | .reply .small k => { s with small := s.small.receive k }

/-- Both agents have sent checks, and none of them is without its response. -/
def Quiet (s : Peers) : Prop :=
  s.large.icem.sent ≠ [] ∧ s.small.icem.sent ≠ [] ∧
    (∀ cp ∈ s.large.icem.all, cp.ctConn = none) ∧ ∀ cp ∈ s.small.icem.all, cp.ctConn = none

/-- No response that ends its checks reaches the agent with the larger tie-breaker while both are in one role. -/
def Careful (s : Peers) : PeerEvent → Prop
  | .reply .large k =>
    ∀ msg ∈ s.large.inbox[k]?, ∀ cp ∈ s.large.icem.transaction msg.1, ∀ addr, msg.2 = .msg 0 (some addr) →
      s.large.icem.ice.lrole = s.small.icem.ice.lrole → ¬ s.large.icem.validates cp addr
  | _ => True

def Role.opposite (role : Role) : Role := if role = .controlling then .controlled else .controlling

/-- What holds between two agents that start in one role, the role of the one with the smaller tie-breaker for ever:
    while the other is in it, too, one of its checks tells that it is in conflict. -/
structure Settling (role : Role) (s : Peers) : Prop where
  known : role = .controlling ∨ role = .controlled
  less : s.small.icem.ice.tiebrk < s.large.icem.ice.tiebrk
  distinct : Distinct s.large.icem
  small : s.small.icem.ice.lrole = role
  large : s.large.icem.ice.lrole = role ∨ s.large.icem.ice.lrole = role.opposite
  smallSent : ∀ x ∈ s.small.icem.sent, x.role = role ∧ x.tiebrk = s.small.icem.ice.tiebrk
  largeSent : ∀ x ∈ s.large.icem.sent, (x.role = role ∨ x.role = role.opposite) ∧ x.tiebrk = s.large.icem.ice.tiebrk
  smallInbox : ∀ msg ∈ s.small.inbox, ∃ addr, msg.2 = .msg 0 (some addr)
  largeInbox : ∀ msg ∈ s.large.inbox, ∃ x, s.large.icem.sent[msg.1]? = some x ∧
    (x.role = role ∧ msg.2 = .msg 487 none ∨ x.role ≠ role ∧ ∃ addr, msg.2 = .msg 0 (some addr))
  pending : s.large.icem.ice.lrole = role → s.large.icem.sent = [] ∨
    ∃ tid x, s.large.icem.sent[tid]? = some x ∧ x.role = role ∧ s.large.icem.Outstanding tid

theorem opposite_ne (role : Role) : role.opposite ≠ role := by
  cases role with
  | unknown => decide
  | controlling => decide
  | controlled => decide

theorem opposite_opposite {role : Role} (known : role = .controlling ∨ role = .controlled) :
    role.opposite.opposite = role := by
  rcases known with rfl | rfl
  · rfl
  · rfl

theorem opposite_known (role : Role) : role.opposite ≠ .unknown := by
  unfold Role.opposite
  split
  · decide
  · decide

theorem getElem?_append_of_some {α : Type*} {l l' : List α} {k : Nat} {x : α} (here : l[k]? = some x) :
    (l ++ l')[k]? = some x := by
  obtain ⟨less, -⟩ := List.getElem?_eq_some_iff.mp here
  rw [List.getElem?_append_left less, here]

section
variable {role : Role} {s : Peers}

/-- The larger side is in one of the two roles, and has sent checks in it. -/
theorem Settling.large_moved (settling : Settling role s) {icem : Icem} {r : Role}
    (ice : icem.ice = { s.large.icem.ice with lrole := r }) (either : r = role ∨ r = role.opposite)
    (sent : ∃ new, icem.sent = s.large.icem.sent ++ new ∧
      ∀ x ∈ new, x.role = r ∧ x.tiebrk = s.large.icem.ice.tiebrk)
    (distinct : Distinct icem)
    (pending : r = role → icem.sent = [] ∨
      ∃ tid x, icem.sent[tid]? = some x ∧ x.role = role ∧ icem.Outstanding tid) :
    Settling role { s with large := { s.large with icem := icem } } := by
  obtain ⟨new, sent, roles⟩ := sent
  constructor
  · exact settling.known
  · show _ < icem.ice.tiebrk
    rw [ice]
    exact settling.less
  · exact distinct
  · exact settling.small
  · show icem.ice.lrole = _ ∨ icem.ice.lrole = _
    rw [ice]
    exact either
  · exact settling.smallSent
  · intro x member
    show _ ∧ x.tiebrk = icem.ice.tiebrk
    have member : x ∈ s.large.icem.sent ++ new := by rwa [← sent]
    rw [ice]
    rcases List.mem_append.mp member with old | fresh
    · exact settling.largeSent x old
    · obtain ⟨role_eq, tiebrk⟩ := roles x fresh
      rw [role_eq]
      exact ⟨either, tiebrk⟩
  · exact settling.smallInbox
  · intro msg member
    obtain ⟨x, here, kind⟩ := settling.largeInbox msg member
    refine ⟨x, ?_, kind⟩
    show icem.sent[msg.1]? = some x
    rw [sent]
    exact getElem?_append_of_some here
  · show icem.ice.lrole = role → _
    rw [ice]
    exact pending

theorem Settling.large_logged (settling : Settling role s) {icem : Icem} (logged : Logged s.large.icem icem)
    (distinct : Distinct icem)
    (pending : s.large.icem.ice.lrole = role → icem.sent = [] ∨
      ∃ tid x, icem.sent[tid]? = some x ∧ x.role = role ∧ icem.Outstanding tid) :
    Settling role { s with large := { s.large with icem := icem } } :=
  settling.large_moved logged.ice settling.large logged.sent distinct pending

theorem Settling.large_tracked (settling : Settling role s) {icem : Icem} (tracked : TrackedFrom s.large.icem icem) :
    Settling role { s with large := { s.large with icem := icem } } := by
  have tracks := tracked settling.distinct
  apply settling.large_logged tracks.logged tracks.evolves.distinct
  intro same
  obtain ⟨-, new, sent, roles⟩ := tracks.logged
  rcases settling.pending same with none_ | ⟨tid, x, here, inRole, outstanding⟩
  · cases new with
    | nil => exact .inl (by rw [sent, none_]; rfl)
    | cons x new =>
      rw [none_, List.nil_append] at sent
      refine .inr ⟨0, x, by rw [sent]; rfl, ?_, ?_⟩
      · rw [(roles x (List.mem_cons_self ..)).1, same]
      · apply tracks.tracked
        · rw [none_]
          exact Nat.le_refl 0
        · rw [sent]
          exact Nat.succ_pos _
  · exact .inr ⟨tid, x, by rw [sent]; exact getElem?_append_of_some here, inRole, tracks.kept outstanding⟩

/-- The smaller side does something that keeps its role. -/
theorem Settling.small_logged (settling : Settling role s) {icem : Icem} (logged : Logged s.small.icem icem) :
    Settling role { s with small := { s.small with icem := icem } } := by
  obtain ⟨ice, new, sent, roles⟩ := logged
  constructor
  · exact settling.known
  · show icem.ice.tiebrk < _
    rw [ice]
    exact settling.less
  · exact settling.distinct
  · show icem.ice.lrole = role
    rw [ice]
    exact settling.small
  · exact settling.large
  · intro x member
    show _ ∧ x.tiebrk = icem.ice.tiebrk
    have member : x ∈ s.small.icem.sent ++ new := by rwa [← sent]
    rw [ice]
    rcases List.mem_append.mp member with old | fresh
    · exact settling.smallSent x old
    · rw [← settling.small]
      exact roles x fresh
  · exact settling.largeSent
  · exact settling.smallInbox
  · exact settling.largeInbox
  · exact settling.pending

theorem send_sends {icem : Icem} {cp : Candpair} (here : icem.pair cp.id = some cp) (free : cp.ctConn = none)
    (known : icem.ice.lrole ≠ .unknown) (useCand : Bool) :
    ∃ x, (icem.conncheckSend allSend cp.id useCand).2.sent = icem.sent ++ [x] ∧ x.role = icem.ice.lrole ∧
      (icem.conncheckSend allSend cp.id useCand).2.Outstanding icem.sent.length := by
  have known_ : (icem.candpairSetState cp.id .inprogress).ice.lrole ≠ .unknown := known
  have free_ : cp.ctConn.isSome ≠ true := by simp [free]
  have inside := mem_update_self (pair_some here).1 fun cp => { cp with state := .inprogress }
  have requested := mem_update_self inside fun cp => { cp with ctConn := some icem.sent.length }
  unfold Icem.conncheckSend
  rw [here]
  dsimp only
  rw [if_neg known_, if_neg free_, allSend, if_neg Bool.false_ne_true]
  exact ⟨_, rfl, rfl, _, requested, rfl⟩

theorem mem_switchLocalRole {icem : Icem} {cp : Candpair} (member : cp ∈ icem.all) :
    ∃ cp' ∈ icem.switchLocalRole.all, cp'.id = cp.id ∧ cp'.ctConn = cp.ctConn := by
  rcases mem_all.mp member with inCheck | inValid
  · exact ⟨_, mem_all.mpr (.inl ((listSort_perm _).mem_iff.mpr (List.mem_map_of_mem inCheck))), rfl, rfl⟩
  · exact ⟨cp, mem_all.mpr (.inr inValid), rfl, rfl⟩

theorem cancelled_distinct {icem : Icem} (distinct : Distinct icem) (id : Nat) : Distinct (icem.candpairCancel id) :=
  ((evolves_switches any_cancelling).cancel icem id distinct).distinct

/-- The larger side is told of the conflict: it changes its role and sends the check again. -/
theorem Settling.large_conflict (settling : Settling role s) (tid : Nat) :
    Settling role { s with large := { s.large with
      icem := s.large.icem.stunCtransRecv allSend tid (.msg 487 none) } } := by
  unfold Icem.stunCtransRecv
  cases found : s.large.icem.transaction tid with
  | none => exact settling
  | some cp =>
    have member : cp ∈ s.large.icem.all := List.mem_of_find?_eq_some found
    have free := cancelled_distinct settling.distinct cp.id
    have switched := (switchLocalRole_evolves any_cancelling.toStarting _ free).distinct
    have inside := mem_update_self member fun cp => { cp with ctConn := none }
    obtain ⟨cp', inside', same, ct⟩ := mem_switchLocalRole inside
    have known : (s.large.icem.candpairCancel cp.id).switchLocalRole.ice.lrole ≠ .unknown := opposite_known _
    obtain ⟨x, sent, xrole, outstanding⟩ := send_sends (switched.pair_eq inside') ct known false
    have logged := logged_cancels.send allSend (s.large.icem.candpairCancel cp.id).switchLocalRole cp'.id false
    have evolves := (evolves_triggers any_cancelling.toStarting).send allSend _ cp'.id false switched
    have sentAgain : Settling role { s with large := { s.large with
        icem := ((s.large.icem.candpairCancel cp.id).switchLocalRole.conncheckSend allSend cp'.id false).2 } } := by
      apply settling.large_moved (r := s.large.icem.ice.lrole.opposite) logged.ice
      · rcases settling.large with inRole | inOther
        · exact .inr (congrArg Role.opposite inRole)
        · exact .inl ((congrArg Role.opposite inOther).trans (opposite_opposite settling.known))
      · exact logged.sent
      · exact evolves.distinct
      · intro back
        refine .inr ⟨s.large.icem.sent.length, x, ?_, xrole.trans back, outstanding⟩
        rw [sent]
        exact List.getElem?_concat_length
    rw [same] at sentAgain
    exact sentAgain.large_tracked (tracked_concludes.paceNext allSend _)

theorem outstanding_cancel {icem : Icem} (distinct : Distinct icem) {cp : Candpair} {tid other : Nat}
    (found : icem.transaction tid = some cp) (outstanding : icem.Outstanding other) (away : other ≠ tid) :
    (icem.candpairCancel cp.id).Outstanding other := by
  obtain ⟨cp', member, busy⟩ := outstanding
  have inside : cp ∈ icem.all := List.mem_of_find?_eq_some found
  have here : cp.ctConn = some tid := by simpa using List.find?_some found
  refine ⟨cp', mem_update_other member ?_, busy⟩
  intro same
  obtain rfl := distinct.eq member inside same
  rw [here] at busy
  exact away (Option.some.inj busy).symm

theorem success_logged (icem : Icem) (tid : Nat) (addr : Sa) :
    Logged icem (icem.stunCtransRecv allSend tid (.msg 0 (some addr))) := by
  unfold Icem.stunCtransRecv
  split
  · exact logged_cancels.refl icem
  · rename_i cp _
    have success := logged_cancels.handleSuccess allSend (icem.candpairCancel cp.id) { cp with ctConn := none } addr
    exact logged_cancels.trans (logged_cancels.cancel icem cp.id)
      (logged_cancels.trans success (logged_cancels.paceNext allSend _))

/-- The larger side gets the response to a check that was not in conflict. -/
theorem Settling.large_success (settling : Settling role s) {tid : Nat} {x : Sent} {addr : Sa}
    (here : s.large.icem.sent[tid]? = some x) (away : x.role ≠ role)
    (careful : ∀ cp ∈ s.large.icem.transaction tid, s.large.icem.ice.lrole = role → ¬ s.large.icem.validates cp addr) :
    Settling role { s with large := { s.large with
      icem := s.large.icem.stunCtransRecv allSend tid (.msg 0 (some addr)) } } := by
  have logged := success_logged s.large.icem tid addr
  have distinct := ((evolves_switches any_cancelling).stunCtransRecv allSend s.large.icem tid (.msg 0 (some addr))
    settling.distinct).distinct
  by_cases inRole : s.large.icem.ice.lrole = role
  · unfold Icem.stunCtransRecv
    cases found : s.large.icem.transaction tid with
    | none => exact settling
    | some cp =>
      have invalid : ¬ (s.large.icem.candpairCancel cp.id).validates { cp with ctConn := none } addr :=
        careful cp found inRole
      have free : Settling role { s with large := { s.large with icem := s.large.icem.candpairCancel cp.id } } := by
        apply settling.large_logged (logged_cancels.cancel s.large.icem cp.id)
        · exact cancelled_distinct settling.distinct cp.id
        · intro _
          rcases settling.pending inRole with none_ | ⟨other, y, there, yrole, outstanding⟩
          · exact .inl none_
          · refine .inr ⟨other, y, there, yrole, outstanding_cancel settling.distinct found outstanding ?_⟩
            rintro rfl
            rw [here] at there
            obtain rfl := Option.some.inj there
            exact away yrole
      show Settling role { s with large := { s.large with
        icem := ((s.large.icem.candpairCancel cp.id).handleSuccess allSend { cp with ctConn := none } addr).paceNext
          allSend } }
      rw [handleSuccess_invalid allSend _ invalid]
      exact free.large_tracked
        (tracked_concludes.trans (tracked_concludes.withMapped _ _ addr) (tracked_concludes.paceNext allSend _))
  · apply settling.large_logged logged distinct
    exact fun same => absurd same inRole

theorem senderRole_request {x : Sent} (known : x.role = .controlling ∨ x.role = .controlled) (prio : BitVec 32) :
    Icem.senderRole (x.request prio) = (x.role, x.tiebrk) := by
  unfold Icem.senderRole Sent.request
  rcases known with controlling | controlled
  · rw [controlling]
    rfl
  · rw [controlled]
    rfl

theorem stundRecv_checked {icem icem' : Icem} {req : StunReq} {prio : BitVec 32}
    (checked : icem.checkRole req = some icem') (priority : req.priority = some prio) (compid : Nat) (src : Sa) :
    icem.stundRecv allSend compid src req = (.success, icem'.handleStun allSend compid src prio req.useCand) := by
  unfold Icem.stundRecv
  rw [checked, priority]

theorem Settling.small_inbox (settling : Settling role s) (tid : Nat) (addr : Sa) :
    Settling role { s with small := { s.small with inbox := s.small.inbox ++ [(tid, .msg 0 (some addr))] } } := by
  refine { settling with smallInbox := ?_ }
  intro msg member
  rcases List.mem_append.mp member with old | new
  · exact settling.smallInbox msg old
  · obtain rfl := List.mem_singleton.mp new
    exact ⟨addr, rfl⟩

theorem Settling.large_inbox (settling : Settling role s) {tid : Nat} {x : Sent} {resp : StunResp}
    (here : s.large.icem.sent[tid]? = some x)
    (kind : x.role = role ∧ resp = .msg 487 none ∨ x.role ≠ role ∧ ∃ addr, resp = .msg 0 (some addr)) :
    Settling role { s with large := { s.large with inbox := s.large.inbox ++ [(tid, resp)] } } := by
  refine { settling with largeInbox := ?_ }
  intro msg member
  rcases List.mem_append.mp member with old | new
  · exact settling.largeInbox msg old
  · obtain rfl := List.mem_singleton.mp new
    exact ⟨x, here, kind⟩

/-- The check of the smaller side leaves the larger one in the other role. -/
theorem Settling.large_checked (settling : Settling role s) {x : Sent} (member : x ∈ s.small.icem.sent)
    (prio : BitVec 32) : ∃ icem, s.large.icem.checkRole (x.request prio) = some icem ∧
      icem.ice = { s.large.icem.ice with lrole := role.opposite } ∧ icem.sent = s.large.icem.sent ∧ Distinct icem := by
  obtain ⟨xrole, tiebrk⟩ := settling.smallSent x member
  have sender := senderRole_request (xrole ▸ settling.known) prio
  unfold Icem.checkRole
  rw [sender, xrole, tiebrk]
  rcases settling.large with inRole | inOther
  · rw [if_pos inRole.symm, if_pos (BitVec.le_of_lt settling.less)]
    refine ⟨_, rfl, ?_, rfl, (switchLocalRole_evolves any_cancelling.toStarting _ settling.distinct).distinct⟩
    rw [← inRole]
    rfl
  · have differ : role ≠ s.large.icem.ice.lrole := by
      rw [inOther]
      exact (opposite_ne role).symm
    rw [if_neg differ]
    refine ⟨_, rfl, ?_, rfl, settling.distinct⟩
    rw [← inOther]

theorem Settling.large_request (settling : Settling role s) (tid compid : Nat) (src : Sa) (prio : BitVec 32) :
    Settling role (peersStep s (.request .large tid compid src prio)) := by
  simp only [peersStep, Peer.exchange]
  cases here : s.small.icem.sent[tid]? with
  | none => exact settling
  | some x =>
    obtain ⟨icem, checked, ice, sent, distinct⟩ := settling.large_checked (List.mem_of_getElem? here) prio
    dsimp only
    rw [stundRecv_checked checked rfl]
    have logged := logged_serves.handleStun allSend icem compid src prio (x.request prio).useCand
    have moved : Settling role { s with large := { s.large with
        icem := icem.handleStun allSend compid src prio (x.request prio).useCand } } := by
      apply settling.large_moved (r := role.opposite) (logged.ice.trans ice) (.inr rfl)
      · obtain ⟨new, sent_, roles⟩ := logged.sent
        rw [ice] at roles
        rw [sent] at sent_
        exact ⟨new, sent_, roles⟩
      · exact ((evolves_switches any_cancelling).handleStun allSend icem compid src prio _ distinct).distinct
      · exact fun same => absurd same (opposite_ne role)
    exact moved.small_inbox tid src

theorem Settling.small_request (settling : Settling role s) (tid compid : Nat) (src : Sa) (prio : BitVec 32) :
    Settling role (peersStep s (.request .small tid compid src prio)) := by
  simp only [peersStep, Peer.exchange]
  cases here : s.large.icem.sent[tid]? with
  | none => exact settling
  | some x =>
    obtain ⟨xrole, tiebrk⟩ := settling.largeSent x (List.mem_of_getElem? here)
    have known : x.role = .controlling ∨ x.role = .controlled := by
      rcases xrole with inRole | inOther
      · exact inRole ▸ settling.known
      · rw [inOther]
        rcases settling.known with rfl | rfl
        · exact .inr rfl
        · exact .inl rfl
    have sender := senderRole_request known prio
    by_cases inRole : x.role = role
    · have checked : s.small.icem.checkRole (x.request prio) = none := by
        unfold Icem.checkRole
        have smaller : ¬ s.small.icem.ice.tiebrk ≥ s.large.icem.ice.tiebrk := BitVec.not_le.mpr settling.less
        rw [sender, inRole, tiebrk, if_pos settling.small.symm, if_neg smaller]
      have refused : s.small.icem.stundRecv allSend compid src (x.request prio) = (.conflict, s.small.icem) := by
        unfold Icem.stundRecv
        rw [checked]
      dsimp only
      rw [refused]
      exact settling.large_inbox here (.inl ⟨inRole, rfl⟩)
    · have checked : s.small.icem.checkRole (x.request prio) = some s.small.icem := by
        unfold Icem.checkRole
        rw [sender, settling.small, if_neg inRole]
      dsimp only
      rw [stundRecv_checked checked rfl]
      have logged := logged_serves.handleStun allSend s.small.icem compid src prio (x.request prio).useCand
      exact (settling.small_logged logged).large_inbox here (.inr ⟨inRole, src, rfl⟩)

theorem tick_tracked (icem : Icem) : TrackedFrom icem (iceStep icem (.tick allSend)) := by
  simp only [iceStep]
  split
  · exact tracked_concludes.timeout allSend icem
  · exact tracked_concludes.refl icem

theorem tick_logged (icem : Icem) : Logged icem (iceStep icem (.tick allSend)) := by
  simp only [iceStep]
  split
  · exact logged_cancels.timeout allSend icem
  · exact logged_cancels.refl icem

theorem peersStep_settling (settling : Settling role s) {ev : PeerEvent} (careful : Careful s ev) :
    Settling role (peersStep s ev) := by
  cases ev with
  | tick side =>
    cases side with
    | large => exact settling.large_tracked (tick_tracked s.large.icem)
    | small => exact settling.small_logged (tick_logged s.small.icem)
  | request side tid compid src prio =>
    cases side with
    | large => exact settling.large_request tid compid src prio
    | small => exact settling.small_request tid compid src prio
  | reply side k =>
    cases side with
    | large =>
      simp only [peersStep, Peer.receive]
      cases here : s.large.inbox[k]? with
      | none => exact settling
      | some msg =>
        obtain ⟨x, sent, ⟨-, conflict⟩ | ⟨away, addr, success⟩⟩ := settling.largeInbox msg (List.mem_of_getElem? here)
        · simp only [conflict]
          exact settling.large_conflict msg.1
        · simp only [success]
          apply settling.large_success sent away
          intro cp found inRole
          exact careful msg here cp found addr success (inRole.trans settling.small.symm)
    | small =>
      simp only [peersStep, Peer.receive]
      cases here : s.small.inbox[k]? with
      | none => exact settling
      | some msg =>
        obtain ⟨addr, success⟩ := settling.smallInbox msg (List.mem_of_getElem? here)
        simp only [success]
        exact settling.small_logged (success_logged s.small.icem msg.1 addr)

theorem Settling.quiet (settling : Settling role s) (quiet : Quiet s) : s.large.icem.ice.lrole = role.opposite := by
  obtain ⟨sent, -, none_, -⟩ := quiet
  rcases settling.large with inRole | inOther
  · rcases settling.pending inRole with nothing | ⟨tid, x, -, -, cp, member, busy⟩
    · exact absurd nothing sent
    · rw [none_ cp member] at busy
      cases busy
  · exact inOther

end

/-- What a conflict should end in: of two agents in one role the one with the larger tie-breaker is the controlling
    one. -/
def LargerControls (s : Peers) : Prop :=
  s.large.icem.ice.lrole = .controlling ∧ s.small.icem.ice.lrole = .controlled

theorem started_settling {large small : Icem} {role : Role} (known : role = .controlling ∨ role = .controlled)
    (less : small.ice.tiebrk < large.ice.tiebrk) (startedL : Started large) (largeRole : large.ice.lrole = role)
    (smallRole : small.ice.lrole = role) (largeSent : large.sent = []) (smallSent : small.sent = []) :
    Settling role ⟨⟨large, []⟩, ⟨small, []⟩⟩ where
  known := known
  less := less
  distinct := startedL.distinct
  small := smallRole
  large := .inl largeRole
  smallSent := by
    show ∀ x ∈ small.sent, _
    rw [smallSent]
    exact List.forall_mem_nil _
  largeSent := by
    show ∀ x ∈ large.sent, _
    rw [largeSent]
    exact List.forall_mem_nil _
  smallInbox := List.forall_mem_nil _
  largeInbox := List.forall_mem_nil _
  pending _ := .inl largeSent

/-- A media before its checks are started. -/
structure Fresh (icem : Icem) : Prop where
  validl : icem.validl = []
  sent : icem.sent = []
  chkh : icem.chkh = []

/-- When two agents have started in one role, the one with the larger tie-breaker is the controlling one in every quiet
    state if and only if that was the role of the controlled agent. -/
theorem larger_controls_iff {base : Cand → Cand} {foundation : Cand → String} {firstL firstS : Bool}
    {mediaL mediaS large small : Icem} {role : Role} (known : role = .controlling ∨ role = .controlled)
    (roleL : mediaL.ice.lrole = role) (roleS : mediaS.ice.lrole = role)
    (less : mediaS.ice.tiebrk < mediaL.ice.tiebrk) (freshL : Fresh mediaL) (freshS : Fresh mediaS)
    (startsL : mediaL.conncheckStart base foundation firstL = (false, large))
    (startsS : mediaS.conncheckStart base foundation firstS = (false, small)) (evs : List PeerEvent)
    (careful : Along peersStep Careful ⟨⟨large, []⟩, ⟨small, []⟩⟩ evs)
    (quiet : Quiet (evs.foldl peersStep ⟨⟨large, []⟩, ⟨small, []⟩⟩)) :
    LargerControls (evs.foldl peersStep ⟨⟨large, []⟩, ⟨small, []⟩⟩) ↔ role = .controlled := by
  obtain ⟨startedL, restL⟩ := conncheckStart_started freshL.validl startsL
  obtain ⟨-, restS⟩ := conncheckStart_started freshS.validl startsS
  have iceL : large.ice = mediaL.ice := (congrArg Icem.ice restL :)
  have iceS : small.ice = mediaS.ice := (congrArg Icem.ice restS :)
  have start : Settling role ⟨⟨large, []⟩, ⟨small, []⟩⟩ := by
    apply started_settling known
    · rwa [iceS, iceL]
    · exact startedL
    · rw [iceL, roleL]
    · rw [iceS, roleS]
    · exact (congrArg Icem.sent restL :).trans freshL.sent
    · exact (congrArg Icem.sent restS :).trans freshS.sent
  have kept : Throughout peersStep (Settling role) ⟨⟨large, []⟩, ⟨small, []⟩⟩ evs :=
    throughout_of_guarded (fun _ _ settling guard => peersStep_settling settling guard) start careful
  have last := kept.last
  unfold LargerControls
  rw [last.quiet quiet, last.small]
  rcases known with rfl | rfl
  · decide
  · decide

instance (s : Peers) : Decidable (Quiet s) := inferInstanceAs (Decidable (_ ∧ _))
instance (s : Peers) : Decidable (LargerControls s) := inferInstanceAs (Decidable (_ ∧ _))

def cornerCand (id : Nat) (addr : BitVec 32) : Cand := ⟨id, .host, 100, 1, .inet addr 10⟩

def corner (role : Role) (tiebrk : BitVec 64) (own peer : BitVec 32) : Icem :=
  mediaOf ⟨.full, role, tiebrk, .aggressive⟩ [cornerCand 0 own] [cornerCand 1 peer] [⟨1, none, false⟩]

def cornerStarted (role : Role) (tiebrk : BitVec 64) (own peer : BitVec 32) : Icem :=
  { corner role tiebrk own peer with
    checkl := [⟨0, 1, cornerCand 0 own, cornerCand 1 peer, false, false, .waiting, 429496729800, none⟩]
    state := .running
    tmrPace := true
    pairs := 1 }

def corners (role : Role) : Peers := ⟨⟨cornerStarted role 9 1 2, []⟩, ⟨cornerStarted role 4 2 1, []⟩⟩

/-- The smaller side sends its check first, and both checks are answered. -/
def exchanges : List PeerEvent :=
  [.tick .small, .request .large 0 1 (.inet 2 10) 5, .reply .small 0, .request .small 0 1 (.inet 1 10) 5,
    .reply .large 0]

theorem larger_controls_iff_controlled :
    LargerControls (exchanges.foldl peersStep (corners .controlled)) ↔ Role.controlled = .controlled := by
  have startsL : (corner .controlled 9 1 2).conncheckStart id (fun _ => "") true =
      (false, cornerStarted .controlled 9 1 2) := rfl
  have startsS : (corner .controlled 4 2 1).conncheckStart id (fun _ => "") true =
      (false, cornerStarted .controlled 4 2 1) := rfl
  have last : ∀ msg ∈ ((exchanges.take 4).foldl peersStep (corners .controlled)).large.inbox[0]?,
      ((exchanges.take 4).foldl peersStep (corners .controlled)).large.icem.ice.lrole ≠
        ((exchanges.take 4).foldl peersStep (corners .controlled)).small.icem.ice.lrole := by
    decide
  have careful : Along peersStep Careful (corners .controlled) exchanges :=
    ⟨trivial, trivial, trivial, trivial, fun msg here _ _ _ _ same => absurd same (last msg here), trivial⟩
  exact larger_controls_iff (.inr rfl) rfl rfl (by decide) ⟨rfl, rfl, rfl⟩ ⟨rfl, rfl, rfl⟩ startsL startsS exchanges
    careful (by decide)

/-- Two controlling agents end with the smaller tie-breaker in control. -/
theorem smaller_controls :
    (corner .controlling 9 1 2).conncheckStart id (fun _ => "") true = (false, cornerStarted .controlling 9 1 2) ∧
    (corner .controlling 4 2 1).conncheckStart id (fun _ => "") true = (false, cornerStarted .controlling 4 2 1) ∧
    Quiet (exchanges.foldl peersStep (corners .controlling)) ∧
    ¬ LargerControls (exchanges.foldl peersStep (corners .controlling)) := by
  refine ⟨rfl, rfl, ?_, ?_⟩
  · decide
  · decide

end Baresip.Chk
