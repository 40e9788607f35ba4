import Baresip.Chk.Concluded
import Baresip.Chk.RoleConflict

set_option linter.dupNamespace false

namespace Baresip.Chk

open Re Library

/-- The response that a check has: `outcome` is the mapped address if it succeeds. A conflict of the roles is neither. -/
def StunResp.IsFor : StunResp → Option Sa → Prop
  | .msg 0 (some addr), outcome => outcome = some addr
  | .msg 487 _, _ => False
  | _, outcome => outcome = none

/-- Every component has a pair whose check succeeds. -/
def Hopeful (outcome : Nat → Option Sa) (start : Icem) : Prop :=
  ∀ comp ∈ start.compl, ∃ cp ∈ start.checkl, cp.comp = comp.id ∧ (outcome cp.id).isSome

/-- A pair without what its check changes. -/
def Candpair.link (cp : Candpair) : Candpair := { cp with valid := false, state := .frozen, ctConn := none }

/-- What holds of a media from the start of the checks to the first success. -/
structure Testing (start icem : Icem) : Prop where
  distinct : Distinct icem
  running : icem.state = .running
  validl : icem.validl = []
  chkh : icem.chkh = []
  links : icem.checkl.map Candpair.link = start.checkl.map Candpair.link
  compl : icem.compl = start.compl
  rcandl : icem.rcandl = start.rcandl
  ice : icem.ice = start.ice

/-- A pair that is not checked now: it has not been yet, or its check has failed. -/
def Candpair.Rests (outcome : Nat → Option Sa) (cp : Candpair) : Prop :=
  cp.ctConn = none ∧ (cp.Waits ∨ cp.state = .failed ∧ outcome cp.id = none)

structure BusyWith (outcome : Nat → Option Sa) (icem : Icem) (cp : Candpair) : Prop where
  member : cp ∈ icem.checkl
  inprogress : cp.state = .inprogress
  ctConn : cp.ctConn.isSome
  others : ∀ other ∈ icem.checkl, other.id ≠ cp.id → other.Rests outcome

def waiting (icem : Icem) : Nat := icem.checkl.countP fun cp => cp.Waits

theorem update_update (icem : Icem) (id : Nat) {f g : Candpair → Candpair} (ids : ∀ cp, (f cp).id = cp.id) :
    (icem.update id f).update id g = icem.update id fun cp => g (f cp) := by
  have same : ∀ cp : Candpair, (if (if cp.id = id then f cp else cp).id = id then g (if cp.id = id then f cp else cp)
      else (if cp.id = id then f cp else cp)) = if cp.id = id then g (f cp) else cp := by
    intro cp
    by_cases here : cp.id = id
    · simp [here, ids]
    · simp [here]
  simp only [Icem.update, List.map_map, Function.comp_def, same]

/-- The pairs before and behind the updated one are the same. -/
theorem update_splits {icem : Icem} (distinct : Distinct icem) {cp : Candpair} (member : cp ∈ icem.checkl)
    (f : Candpair → Candpair) : ∃ front back, icem.checkl = front ++ cp :: back ∧
      (icem.update cp.id f).checkl = front ++ f cp :: back := by
  obtain ⟨front, back, split_⟩ := List.append_of_mem member
  have nodup : (icem.checkl.map Candpair.id).Nodup := by
    have nodup := distinct.nodup
    rw [Icem.all, List.map_append] at nodup
    exact (List.nodup_append.mp nodup).1
  rw [split_, List.map_append, List.map_cons, List.nodup_middle, List.nodup_cons, ← List.map_append] at nodup
  have away : ∀ other ∈ front ++ back, (if other.id = cp.id then f other else other) = other :=
    fun other inside => if_neg fun same : other.id = cp.id => nodup.1 (same ▸ List.mem_map_of_mem inside)
  refine ⟨front, back, split_, ?_⟩
  show icem.checkl.map (fun other => if other.id = cp.id then f other else other) = front ++ f cp :: back
  rw [split_, List.map_append, List.map_cons, if_pos rfl]
  congr 1
  · exact (List.map_congr_left fun other inside => away other (List.mem_append_left _ inside)).trans (List.map_id _)
  · congr 1
    exact (List.map_congr_left fun other inside => away other (List.mem_append_right _ inside)).trans (List.map_id _)

section
variable {outcome : Nat → Option Sa} {start icem : Icem}

theorem Testing.all (testing : Testing start icem) : icem.all = icem.checkl := by
  rw [Icem.all, testing.validl, List.append_nil]

theorem Testing.linked (testing : Testing start icem) {cp : Candpair} (member : cp ∈ icem.checkl) :
    ∃ cp0 ∈ start.checkl, cp0.link = cp.link := by
  have inside := List.mem_map_of_mem (f := Candpair.link) member
  rw [testing.links] at inside
  exact List.mem_map.mp inside

theorem Testing.update (testing : Testing start icem) (id : Nat) {f : Candpair → Candpair}
    (links : ∀ cp, (f cp).link = cp.link) (sent : List Sent) :
    Testing start { icem.update id f with sent := sent } := by
  have ids : ∀ cp, (f cp).id = cp.id := fun cp => (congrArg Candpair.id (links cp) :)
  have evolves := @update_evolves _ any_cancelling.toStarting icem id f ids (fun _ => trivial) testing.distinct
  constructor
  · exact evolves.distinct.of_ids (.refl _) rfl
  · exact testing.running
  · show icem.validl.map _ = []
    rw [testing.validl]
    rfl
  · exact testing.chkh
  · show (icem.checkl.map _).map _ = _
    rw [List.map_map, ← testing.links]
    apply List.map_congr_left
    intro cp _
    rw [Function.comp_apply]
    split
    · exact links cp
    · rfl
  · exact testing.compl
  · exact testing.rcandl
  · exact testing.ice

theorem Testing.fired (testing : Testing start icem) : Testing start { icem with tmrPace := false } :=
  ⟨testing.distinct.of_ids (.refl _) rfl, testing.running, testing.validl, testing.chkh, testing.links, testing.compl,
    testing.rcandl, testing.ice⟩

theorem scheduleCheck_checks (fails : Nat → Bool) (waits : ∃ cp ∈ icem.checkl, cp.Waits) :
    ∃ cp ∈ icem.checkl, cp.Waits ∧ icem.scheduleCheck fails = icem.doCheck fails cp.id := by
  unfold Icem.scheduleCheck
  split
  · rename_i cp found
    have here : cp.state = .waiting := by simpa using List.find?_some found
    exact ⟨cp, List.mem_of_find?_eq_some found, .inl here, rfl⟩
  · rename_i noWaiting
    split
    · rename_i cp found
      have here : cp.state = .frozen := by simpa using List.find?_some found
      exact ⟨cp, List.mem_of_find?_eq_some found, .inr here, rfl⟩
    · rename_i noFrozen
      obtain ⟨cp, member, waiting | frozen⟩ := waits
      · exact absurd waiting (candpairFindSt_none.mp noWaiting cp member)
      · exact absurd frozen (candpairFindSt_none.mp noFrozen cp member)

/-- A pair with the transaction of a number. -/
def Candpair.checked (tid : Nat) (cp : Candpair) : Candpair := { cp with state := .inprogress, ctConn := some tid }

theorem doCheck_sends (distinct : Distinct icem) {cp : Candpair} (member : cp ∈ icem.checkl) (free : cp.ctConn = none)
    (known : icem.ice.lrole ≠ .unknown) : ∃ sent, icem.doCheck allSend cp.id =
      { icem.update cp.id (Candpair.checked icem.sent.length) with sent := sent } := by
  have known_ : (icem.candpairSetState cp.id .inprogress).ice.lrole ≠ .unknown := known
  have both : (icem.candpairSetState cp.id .inprogress).update cp.id (fun cp => { cp with ctConn := some icem.sent.length }) =
      icem.update cp.id (Candpair.checked icem.sent.length) :=
    update_update icem cp.id fun _ => rfl
  have free_ : ¬ cp.ctConn.isSome = true := by simp [free]
  have able : ¬ allSend cp.id = true := Bool.false_ne_true
  unfold Icem.doCheck Icem.conncheckSend
  rw [distinct.pair_eq (mem_all.mpr (.inl member))]
  dsimp only
  rw [if_neg known_, if_neg free_, if_neg able]
  dsimp only [Icem.stunRequest]
  rw [← both]
  exact ⟨_, rfl⟩

theorem not_completed {cp : Candpair} (member : cp ∈ icem.checkl) (inprogress : cp.state = .inprogress) :
    icem.isCompleted = false := by
  have open_ : cp.isCompleted = false := by simp [Candpair.isCompleted, inprogress]
  apply Bool.eq_false_iff.mpr
  intro all
  rw [List.all_eq_true.mp all cp member] at open_
  contradiction

/-- The check of the next pair. -/
theorem paceNext_checks (testing : Testing start icem) (known : icem.ice.lrole ≠ .unknown)
    (idle : ∀ cp ∈ icem.checkl, cp.Rests outcome) (waits : ∃ cp ∈ icem.checkl, cp.Waits) :
    ∃ cp ∈ icem.checkl, Testing start (icem.paceNext allSend) ∧ (icem.paceNext allSend).tmrPace = icem.tmrPace ∧
      BusyWith outcome (icem.paceNext allSend) (cp.checked icem.sent.length) ∧
      waiting (icem.paceNext allSend) + 1 = waiting icem := by
  obtain ⟨cp, member, cpWaits, scheduled⟩ := scheduleCheck_checks allSend waits
  obtain ⟨sent, checked⟩ := doCheck_sends testing.distinct member (idle cp member).1 known
  obtain ⟨front, back, split_, split'⟩ := update_splits testing.distinct member (Candpair.checked icem.sent.length)
  have testing' := testing.update cp.id (f := Candpair.checked icem.sent.length) (fun _ => rfl) sent
  have inside : cp.checked icem.sent.length ∈ (icem.update cp.id (Candpair.checked icem.sent.length)).checkl := by
    rw [split']
    exact List.mem_append_right _ (List.mem_cons_self ..)
  have goes : icem.paceNext allSend =
      { icem.update cp.id (Candpair.checked icem.sent.length) with sent := sent } := by
    rw [paceNext_running allSend icem testing.running, scheduled, checked]
    unfold Icem.checklistUpdate
    exact if_neg (Bool.eq_false_iff.mp (not_completed inside rfl))
  rw [goes]
  refine ⟨cp, member, testing', rfl, ?_, ?_⟩
  · constructor
    · exact inside
    · rfl
    · rfl
    · intro other inside away
      obtain ⟨old, oldMember, rfl⟩ := List.mem_map.mp inside
      by_cases here : old.id = cp.id
      · rw [if_pos here] at away
        exact absurd here away
      · rw [if_neg here]
        exact idle old oldMember
  · show ((icem.update cp.id (Candpair.checked icem.sent.length)).checkl.countP fun cp => cp.Waits) + 1 =
      icem.checkl.countP fun cp => cp.Waits
    have tested : ¬ (cp.checked icem.sent.length).Waits := inprogress_not_waits rfl
    rw [split', split_, List.countP_append, List.countP_append, List.countP_cons, List.countP_cons]
    simp [cpWaits, tested, Nat.add_assoc]

theorem Testing.still (testing : Testing start icem) {cp0 : Candpair} (member : cp0 ∈ start.checkl) :
    ∃ cp ∈ icem.checkl, cp.link = cp0.link := by
  have inside := List.mem_map_of_mem (f := Candpair.link) member
  rw [← testing.links] at inside
  exact List.mem_map.mp inside

/-- The checks are over. -/
structure Ended (icem : Icem) : Prop where
  distinct : Distinct icem
  stopped : icem.state ≠ .running
  tested : icem.Tested

/-- No check is left, and none has succeeded. -/
theorem paceNext_ends (testing : Testing start icem) (idle : ∀ cp ∈ icem.checkl, cp.Rests outcome)
    (none_ : ¬ ∃ cp ∈ icem.checkl, cp.Waits) :
    Ended (icem.paceNext allSend) ∧ (Hopeful outcome start → Concluded (icem.paceNext allSend)) := by
  have failed : ∀ cp ∈ icem.checkl, cp.state = .failed ∧ outcome cp.id = none :=
    fun cp member => (idle cp member).2.resolve_left fun waits => none_ ⟨cp, member, waits⟩
  have completed : ({ icem with state := .completed } : Icem).isCompleted = true := by
    apply List.all_eq_true.mpr
    intro cp member
    simp [Candpair.isCompleted, (failed cp member).1]
  have distinct : Distinct { icem with state := .completed } := testing.distinct.of_ids (.refl _) rfl
  have tested : icem.Tested := by
    intro cp member waits
    rw [testing.all] at member
    exact none_ ⟨cp, member, waits⟩
  have retains := retains_cancels.paceNext allSend icem testing.distinct
  have goes : icem.paceNext allSend = ({ icem with state := .completed } : Icem).checklistUpdate allSend := by
    rw [paceNext_running allSend icem testing.running, scheduleCheck_idle allSend icem none_]
  constructor
  · constructor
    · exact retains.distinct
    · rw [goes]
      exact (checklistUpdate_completed allSend _ completed).1
    · exact retains.tested tested
  · intro hopeful
    rw [goes]
    apply checklistUpdate_concluded allSend distinct completed
    · show ∀ call ∈ icem.chkh, call.1 = false
      rw [testing.chkh]
      exact List.forall_mem_nil _
    · intro comp member
      have member : comp ∈ icem.compl := member
      rw [testing.compl] at member
      obtain ⟨cp0, inside, -, succeeds⟩ := hopeful comp member
      obtain ⟨cp, here, links⟩ := testing.still inside
      have same : cp.id = cp0.id := (congrArg Candpair.id links :)
      rw [← same, (failed cp here).2] at succeeds
      cases succeeds

theorem isFor_some {resp : StunResp} {addr : Sa} (isFor : resp.IsFor (some addr)) : resp = .msg 0 (some addr) := by
  unfold StunResp.IsFor at isFor
  split at isFor
  · rw [Option.some.inj isFor]
  · contradiction
  · cases isFor

theorem stuncRespHandler_fails (fails : Nat → Bool) (cp : Candpair) {resp : StunResp} (isFor : resp.IsFor none) :
    icem.stuncRespHandler fails cp resp = (icem.candpairFailed cp.id).paceNext fails := by
  unfold StunResp.IsFor at isFor
  unfold Icem.stuncRespHandler
  split at isFor
  · cases isFor
  · contradiction
  · rename_i noSuccess noConflict
    split
    · rfl
    · rfl
    · exact (noSuccess _ rfl).elim
    · exact (noConflict _ rfl).elim
    · rfl

/-- A pair whose check has failed. -/
def Candpair.lost (cp : Candpair) : Candpair := { cp with ctConn := none, valid := false, state := .failed }

theorem busy_fails (testing : Testing start icem) {cp : Candpair} (busy : BusyWith outcome icem cp)
    (fails : outcome cp.id = none) :
    Testing start ((icem.candpairCancel cp.id).candpairFailed cp.id) ∧
      (∀ other ∈ ((icem.candpairCancel cp.id).candpairFailed cp.id).checkl, other.Rests outcome) ∧
      waiting ((icem.candpairCancel cp.id).candpairFailed cp.id) = waiting icem := by
  have both : (icem.candpairCancel cp.id).candpairFailed cp.id =
      icem.update cp.id Candpair.lost :=
    update_update icem cp.id fun _ => rfl
  obtain ⟨front, back, split_, split'⟩ := update_splits testing.distinct busy.member Candpair.lost
  rw [both]
  refine ⟨testing.update cp.id (f := Candpair.lost) (fun _ => rfl) icem.sent, ?_, ?_⟩
  · intro other inside
    obtain ⟨old, oldMember, rfl⟩ := List.mem_map.mp inside
    by_cases here : old.id = cp.id
    · rw [if_pos here]
      exact ⟨rfl, .inr ⟨rfl, here ▸ fails⟩⟩
    · rw [if_neg here]
      exact busy.others old oldMember here
  · unfold waiting
    have before : ¬ cp.Waits := inprogress_not_waits busy.inprogress
    have after : ¬ cp.lost.Waits := failed_not_waits rfl
    rw [split', split_, List.countP_append, List.countP_append, List.countP_cons, List.countP_cons]
    simp [before, after]

/-- What the success of a check makes of its pair and leaves of the others. -/
structure Validated (icem icem' : Icem) (cp : Candpair) (id : Nat) : Prop where
  has : icem'.HasValid cp.lcand.compid
  others : ∀ other ∈ icem.checkl, other.id ≠ cp.id → other ∈ icem'.checkl ∧ other.id ≠ id

theorem makeValid_has (distinct : Distinct icem) {cp : Candpair} (member : cp ∈ icem.all) :
    (icem.candpairMakeValid cp.id).HasValid cp.lcand.compid := by
  unfold Icem.HasValid
  rw [makeValid_validl icem distinct member]
  exact ⟨_, (listAddSorted_placed _ _).mem_iff.mpr (.inl rfl), rfl⟩

theorem makeValid_checkl {id : Nat} {other : Candpair} (member : other ∈ icem.checkl) (away : other.id ≠ id) :
    other ∈ (icem.candpairMakeValid id).checkl := by
  unfold Icem.candpairMakeValid
  split
  · exact member
  · exact List.mem_filter.mpr ⟨member, by simpa using away⟩

theorem update_checkl {id : Nat} {other : Candpair} (member : other ∈ icem.checkl) (away : other.id ≠ id)
    (f : Candpair → Candpair) : other ∈ (icem.update id f).checkl :=
  List.mem_map.mpr ⟨other, member, if_neg away⟩

theorem candFind_compid {l : List Cand} {compid : Nat} {addr : Sa} {cand : Cand} (named : compid ≠ 0)
    (found : candFind l compid addr = some cand) : cand.compid = compid := by
  have here := List.find?_some found
  simp only [decide_eq_true_eq, Bool.decide_and, Bool.and_eq_true] at here
  exact here.1.resolve_left named

theorem cloned_validated (distinct : Distinct icem) (cp : Candpair) {lcand rcand : Cand}
    (same : lcand.compid = cp.lcand.compid) : Validated icem
      (((icem.candpairClone cp (some lcand) (some rcand)).2.candpairMakeValid icem.pairs).candpairFailed cp.id) cp
      icem.pairs := by
  have cloned := (clone_evolves any_cancelling.toStarting icem cp (some lcand) (some rcand) distinct).distinct
  obtain ⟨inside, new⟩ := pair_some (clone_pair icem distinct cp (some lcand) (some rcand))
  have valid := makeValid_has cloned inside
  have retains := makeValid_retains _ icem.pairs cloned
  constructor
  · rw [← same]
    exact (retains_cancels.failed _ cp.id retains.distinct).valid _ valid
  · intro other old away
    have notNew : other.id ≠ icem.pairs := Nat.ne_of_lt (distinct.lt other (mem_all.mpr (.inl old)))
    have kept : other ∈ (icem.candpairClone cp (some lcand) (some rcand)).2.checkl :=
      (listAddSorted_placed icem.checkl _).mem_iff.mpr (.inr old)
    exact ⟨update_checkl (makeValid_checkl kept notNew) away _, notNew⟩

theorem constructValidPair_validated (distinct : Distinct icem) (noValid : icem.validl = []) {cp : Candpair}
    (member : cp ∈ icem.checkl) (named : cp.lcand.compid ≠ 0) (addr : Sa)
    (constructs : (icem.constructValidPair cp addr).1.isSome) :
    ∃ id icem', icem.constructValidPair cp addr = (some id, icem') ∧ Validated icem icem' cp id := by
  unfold Icem.constructValidPair at constructs ⊢
  dsimp only at constructs ⊢
  split at constructs
  · rename_i lcand rcand foundL foundR
    rw [noValid]
    by_cases differs : lcand.id ≠ cp.lcand.id ∨ rcand.id ≠ cp.rcand.id
    · rw [if_pos differs]
      exact ⟨icem.pairs, _, rfl, cloned_validated distinct cp (candFind_compid named foundL)⟩
    · rw [if_neg differs]
      refine ⟨cp.id, _, rfl, makeValid_has distinct (mem_all.mpr (.inl member)), ?_⟩
      exact fun other old away => ⟨makeValid_checkl old away, away⟩
  · cases constructs

theorem update_checkl_same {id : Nat} (away : ∀ other ∈ icem.checkl, other.id ≠ id) (f : Candpair → Candpair) :
    (icem.update id f).checkl = icem.checkl :=
  (List.map_congr_left fun other member => if_neg (away other member)).trans (List.map_id _)

theorem conncheckSend_checkl (fails : Nat → Bool) {id : Nat} (away : ∀ other ∈ icem.checkl, other.id ≠ id)
    (useCand : Bool) : (icem.conncheckSend fails id useCand).2.checkl = icem.checkl := by
  have inprogress := update_checkl_same away fun cp => { cp with state := .inprogress }
  unfold Icem.conncheckSend
  split
  · rfl
  · dsimp only
    split
    · exact inprogress
    · split
      · exact inprogress
      · split
        · exact inprogress
        · have away_ : ∀ other ∈ (icem.candpairSetState id .inprogress).checkl, other.id ≠ id := by
            rw [show (icem.candpairSetState id .inprogress).checkl = icem.checkl from inprogress]
            exact away
          exact (update_checkl_same away_ _).trans inprogress

theorem completed_idle (completed : icem.isCompleted = true) : ¬ ∃ cp ∈ icem.checkl, cp.Waits := by
  rintro ⟨cp, member, waits⟩
  have open_ := waits.not_completed
  rw [List.all_eq_true.mp completed cp member] at open_
  contradiction

/-- No request goes out for a pair of the check list, and none is left to be checked. -/
theorem concludingIce_checkl (fails : Nat → Bool) (distinct : Distinct icem) (completed : icem.isCompleted = true)
    (compid : Nat) : (icem.concludingIce fails compid).checkl = icem.checkl := by
  unfold Icem.concludingIce
  split
  · rfl
  · split
    · rfl
    · split
      · rfl
      · rename_i cp found
        have member : cp ∈ icem.validl := List.mem_of_find?_eq_some found
        have away : ∀ other ∈ (icem.compSetSelected compid cp.id).checkl, other.id ≠ cp.id := by
          intro other inside same
          have nodup := distinct.nodup
          rw [Icem.all, List.map_append, List.nodup_append] at nodup
          exact nodup.2.2 other.id (List.mem_map_of_mem inside) cp.id (List.mem_map_of_mem member) same
        have sent := conncheckSend_checkl fails away true
        dsimp only
        split
        · have idle : ¬ ∃ cp' ∈ ((icem.compSetSelected compid cp.id).conncheckSend fails cp.id true).2.checkl, cp'.Waits := by
            rw [sent]
            exact completed_idle completed
          rw [scheduleCheck_idle fails _ idle]
          exact sent
        · rfl

theorem concludeAll_checkl (fails : Nat → Bool) (compl : List Comp) (distinct : Distinct icem)
    (completed : icem.isCompleted = true) : (Icem.concludeAll fails compl icem).2.checkl = icem.checkl := by
  induction compl generalizing icem with
  | nil => rfl
  | cons comp rest ih =>
    have same := concludingIce_checkl fails distinct completed comp.id
    have retains := retains_cancels.concludingIce fails icem comp.id distinct
    unfold Icem.concludeAll
    split
    · rfl
    · rw [ih retains.distinct (by rw [Icem.isCompleted, same]; exact completed), same]

theorem conncheckStop_checkl (fails : Nat → Bool) (distinct : Distinct icem) :
    (icem.conncheckStop fails).checkl = icem.checkl.map Icem.conncheckStopped := by
  have stopped := (stopped_retains icem distinct).distinct
  have completed : Icem.isCompleted { icem with
      state := .completed
      tmrPace := false
      checkl := icem.checkl.map Icem.conncheckStopped } = true := by
    rw [Icem.isCompleted, List.all_map]
    exact List.all_eq_true.mpr fun cp _ => stopped_completed cp
  unfold Icem.conncheckStop Icem.checklistUpdate
  rw [if_pos completed]
  exact concludeAll_checkl fails icem.compl stopped completed

theorem handleSuccess_validated (fails : Nat → Bool) (distinct : Distinct icem) (noValid : icem.validl = [])
    {cp : Candpair} (member : cp ∈ icem.checkl) (named : cp.lcand.compid ≠ 0) {addr : Sa}
    (validates : icem.validates cp addr) : ∃ id icem', RetainsFrom icem icem' ∧ Stays icem icem' ∧
      Validated icem icem' cp id ∧ icem.handleSuccess fails cp addr = icem'.selectValid fails cp.comp id := by
  have mapped := retains_cancels.withMapped icem cp addr
  have stays := stays_moves.withMapped icem cp addr
  obtain ⟨checkl, validl⟩ := withMapped_pairs icem cp addr
  have member' : cp ∈ (icem.withMapped cp addr).checkl := checkl ▸ member
  have constructs := (constructValidPair_isSome icem cp addr).mpr validates
  obtain ⟨id, icem', result, validated⟩ := constructValidPair_validated (mapped distinct).distinct
    (validl.trans noValid) member' named addr constructs
  have constructed := retains_cancels.constructValidPair (icem.withMapped cp addr) cp addr
  have stays' := stays_moves.constructValidPair (icem.withMapped cp addr) cp addr
  rw [result] at constructed stays'
  refine ⟨id, icem', mapped.trans constructed, stays.trans stays', ⟨validated.has, ?_⟩, ?_⟩
  · rw [← checkl]
    exact validated.others
  · unfold Icem.handleSuccess
    rw [result]

/-- The success of a check fails every other pair that waits. -/
theorem handleSuccess_fails_others (fails : Nat → Bool) (distinct : Distinct icem) (noValid : icem.validl = [])
    {cp other : Candpair} (member : cp ∈ icem.checkl) (named : cp.lcand.compid ≠ 0) {addr : Sa}
    (validates : icem.validates cp addr) (inside : other ∈ icem.checkl) (away : other.id ≠ cp.id) (waits : other.Waits) :
    ∃ other' ∈ (icem.handleSuccess fails cp addr).all, other'.id = other.id ∧ other'.state = .failed := by
  obtain ⟨id, icem', retains, -, validated, result⟩ :=
    handleSuccess_validated fails distinct noValid member named validates
  obtain ⟨inside', away'⟩ := validated.others other inside away
  have valid := makeValid_retains icem' id (retains distinct).distinct
  have selected := retains_cancels.selected (icem'.candpairMakeValid id) cp.comp id valid.distinct
  have nominated := retains_cancels.nominated ((icem'.candpairMakeValid id).compSetSelected cp.comp id) id selected.distinct
  have kept : other ∈ ((icem'.candpairMakeValid id).compSetSelected cp.comp id).checkl := makeValid_checkl inside' away'
  have notSucceeded : other.state ≠ .succeeded := fun succeeded => succeeded_not_waits succeeded waits
  refine ⟨Icem.conncheckStopped other, mem_all.mpr (.inl ?_), ?_, ?_⟩
  · rw [result, Icem.selectValid, conncheckStop_checkl fails nominated.distinct]
    exact List.mem_map_of_mem (update_checkl kept away' _)
  · rw [Icem.conncheckStopped, if_neg notSucceeded]
  · rw [Icem.conncheckStopped, if_neg notSucceeded]

/-- The success of a check concludes a list with pairs of one component only. -/
theorem handleSuccess_concludes (fails : Nat → Bool) (distinct : Distinct icem) (noValid : icem.validl = [])
    {cp : Candpair} (member : cp ∈ icem.checkl) (named : cp.lcand.compid ≠ 0) (ofComp : cp.comp = cp.lcand.compid)
    {addr : Sa} (validates : icem.validates cp addr) (uncalled : icem.chkh = [])
    (one : ∀ comp ∈ icem.compl, comp.id = cp.comp) : Concluded (icem.handleSuccess fails cp addr) := by
  obtain ⟨id, icem', retains, stays, validated, result⟩ :=
    handleSuccess_validated fails distinct noValid member named validates
  rw [result]
  apply selectValid_concluded fails (retains distinct).distinct
  · rw [stays.chkh, uncalled]
    exact List.forall_mem_nil _
  · intro comp' inside
    obtain ⟨comp, old, same, -⟩ := (retains distinct).comps comp' inside
    have here : comp'.id = cp.comp := same.symm.trans (one comp old)
    rw [here, ofComp]
    exact ⟨(makeValid_retains icem' id (retains distinct).distinct).valid _ validated.has, .inl rfl⟩

theorem handleSuccess_ends (fails : Nat → Bool) (distinct : Distinct icem) (noValid : icem.validl = [])
    {cp : Candpair} (member : cp ∈ icem.checkl) (named : cp.lcand.compid ≠ 0) {addr : Sa}
    (validates : icem.validates cp addr) : Ended (icem.handleSuccess fails cp addr) := by
  obtain ⟨id, icem', retains, -, -, result⟩ :=
    handleSuccess_validated fails distinct noValid member named validates
  have retains := retains distinct
  have noneWaits : icem.ValidTested := by
    unfold Icem.ValidTested
    rw [noValid]
    exact List.forall_mem_nil _
  have valid := makeValid_retains icem' id retains.distinct
  have selected := retains_cancels.selected (icem'.candpairMakeValid id) cp.comp id valid.distinct
  have nominated := retains_cancels.nominated ((icem'.candpairMakeValid id).compSetSelected cp.comp id) id selected.distinct
  have validTested := nominated.validTested (selected.validTested (valid.validTested (retains.validTested noneWaits)))
  have stopped := stopped_retains _ nominated.distinct
  have updated := retains_cancels.checklistUpdate fails _ stopped.distinct
  rw [result]
  constructor
  · exact updated.distinct
  · exact (selectValid_concludes fails icem' cp.comp id).1
  · apply updated.tested
    intro other inside
    rcases mem_all.mp inside with inCheck | inValid
    · obtain ⟨old, -, rfl⟩ := List.mem_map.mp inCheck
      exact stopped_not_waits old
    · exact validTested other inValid

theorem Testing.fits (testing : Testing start icem) (started : Started start) (named : ∀ comp ∈ start.compl, comp.id ≠ 0)
    {cp : Candpair} (member : cp ∈ icem.checkl) :
    cp.comp = cp.lcand.compid ∧ cp.lcand.compid ≠ 0 ∧ cp.rcand ∈ icem.rcandl ∧ cp.rcand.compid = cp.lcand.compid := by
  obtain ⟨cp0, inside, links⟩ := testing.linked member
  have untried := started.untried cp0 inside
  have comp : cp0.comp = cp.comp := (congrArg Candpair.comp links :)
  have lcand : cp0.lcand = cp.lcand := (congrArg Candpair.lcand links :)
  have rcand : cp0.rcand = cp.rcand := (congrArg Candpair.rcand links :)
  obtain ⟨known, found⟩ := Option.isSome_iff_exists.mp untried.known
  have here : known.id = cp0.lcand.compid := by simpa using List.find?_some found
  rw [← comp, ← lcand, ← rcand, testing.rcandl]
  exact ⟨untried.comp, here ▸ named known (List.mem_of_find?_eq_some found), untried.rcand, untried.sameComp.symm⟩

theorem transaction_some {tid : Nat} {cp : Candpair} (found : icem.transaction tid = some cp) :
    cp ∈ icem.all ∧ cp.ctConn = some tid :=
  ⟨List.mem_of_find?_eq_some found, by simpa using List.find?_some found⟩

theorem idle_transaction (testing : Testing start icem) (rests : ∀ cp ∈ icem.checkl, cp.Rests outcome) (tid : Nat) :
    icem.transaction tid = none := by
  apply List.find?_eq_none.mpr
  intro cp member
  rw [testing.all] at member
  simp [(rests cp member).1]

theorem busy_transaction (testing : Testing start icem) {cp other : Candpair} (busy : BusyWith outcome icem cp)
    {tid : Nat} (found : icem.transaction tid = some other) : other = cp := by
  obtain ⟨member, conn⟩ := transaction_some found
  by_cases same : other.id = cp.id
  · exact testing.distinct.eq member (mem_all.mpr (.inl busy.member)) same
  · rw [testing.all] at member
    have free := (busy.others other member same).1
    rw [conn] at free
    cases free

theorem busy_found (testing : Testing start icem) {cp : Candpair} (busy : BusyWith outcome icem cp) :
    ∃ tid, icem.transaction tid = some cp := by
  obtain ⟨tid, conn⟩ := Option.isSome_iff_exists.mp busy.ctConn
  refine ⟨tid, ?_⟩
  cases found : icem.transaction tid with
  | none =>
    have differs := List.find?_eq_none.mp found cp (mem_all.mpr (.inl busy.member))
    simp [conn] at differs
  | some other => rw [busy_transaction testing busy found]

end

end Baresip.Chk
