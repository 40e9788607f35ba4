import Baresip.Chk.Running

set_option linter.dupNamespace false

namespace Baresip.Chk

open Re

/-- What the start of a check keeps of a pair. -/
structure Candpair.Lives (cp cp' : Candpair) : Prop where
  rcand : cp'.rcand = cp.rcand
  pending : cp.Pending → cp'.Pending
  ctConn : cp.ctConn.isSome → cp'.ctConn.isSome

theorem lives_starting : Starting Candpair.Lives where
  refl _ := ⟨rfl, id, id⟩
  trans ab bc := ⟨bc.rcand.trans ab.rcand, fun h => bc.pending (ab.pending h), fun h => bc.ctConn (ab.ctConn h)⟩
  waits _ := ⟨rfl, fun _ => .inl rfl, id⟩
  checks _ := ⟨rfl, fun _ => .inl rfl, id⟩
  requests _ _ _ := ⟨rfl, fun _ => .inr rfl, fun _ => rfl⟩
  prio _ _ := ⟨rfl, id, id⟩

theorem Sound.of_lives {icem icem' : Icem} (sound : Sound icem) (evolves : Evolves Candpair.Lives icem icem')
    (state : icem'.state = icem.state) (chkh : icem'.chkh = icem.chkh) (tmrPace : icem'.tmrPace = icem.tmrPace) :
    Sound icem' where
  called := by rw [chkh, state, sound.called]
  live running := by
    rw [state] at running
    rcases sound.live running with timer | ⟨cp, member, pending⟩
    · exact .inl (tmrPace.trans timer)
    · obtain ⟨cp', inside, -, lives⟩ := evolves.pairs cp member
      exact .inr ⟨cp', inside, lives.pending pending⟩

theorem Sound.of_stays {icem icem' : Icem} (sound : Sound icem) (evolves : Evolves Candpair.Lives icem icem')
    (stays : Stays icem icem') : Sound icem' :=
  sound.of_lives evolves stays.state stays.chkh stays.tmrPace

theorem checkRole_sound {icem icem' : Icem} (sound : Sound icem) (distinct : Distinct icem) {req : StunReq}
    (checked : icem.checkRole req = some icem') : Sound icem' := by
  have keeps : ∀ icem, Distinct icem ∧ Sound icem → Sound icem.switchLocalRole := fun icem inv =>
    inv.2.of_lives (switchLocalRole_evolves lives_starting icem inv.1) rfl rfl rfl
  exact checkRole_closed (S := fun a b => Distinct a ∧ Sound a → Sound b) (fun _ inv => inv.2) keeps checked
    ⟨distinct, sound⟩

theorem mem_update {icem : Icem} {cp : Candpair} (member : cp ∈ icem.all) (id : Nat) (f : Candpair → Candpair) :
    (if cp.id = id then f cp else cp) ∈ (icem.update id f).all := by
  unfold Icem.update Icem.all
  rw [← List.map_append]
  exact List.mem_map_of_mem member

theorem mem_update_self {icem : Icem} {cp : Candpair} (member : cp ∈ icem.all) (f : Candpair → Candpair) :
    f cp ∈ (icem.update cp.id f).all := by
  have inside := mem_update member cp.id f
  rwa [if_pos rfl] at inside

theorem mem_update_other {icem : Icem} {id : Nat} {f : Candpair → Candpair} {cp : Candpair} (member : cp ∈ icem.all)
    (other : cp.id ≠ id) : cp ∈ (icem.update id f).all := by
  have inside := mem_update member id f
  rwa [if_neg other] at inside

theorem mem_makeValid_other {icem : Icem} {id : Nat} {cp : Candpair} (member : cp ∈ icem.all) (other : cp.id ≠ id) :
    cp ∈ (icem.candpairMakeValid id).all := by
  unfold Icem.candpairMakeValid
  split
  · exact member
  · rename_i cp0 here
    obtain ⟨-, rfl⟩ := pair_some here
    apply (makeValid_perm icem cp0).mem_iff.mpr
    apply List.mem_cons_of_mem
    simp [member, other]

theorem mem_useCandidate_other {icem : Icem} {compid : Nat} {cp other : Candpair} (member : other ∈ icem.all)
    (away : other.id ≠ cp.id) : other ∈ (icem.useCandidate compid cp).all := by
  have nominated : other ∈ (icem.updateNominated cp).all := by
    unfold Icem.updateNominated
    split
    · exact mem_update_other member away
    · exact member
  have valid := mem_makeValid_other nominated away
  unfold Icem.useCandidate
  dsimp only
  split
  · exact mem_update_other valid away
  · exact valid

/-- A transaction is not lost. -/
def Candpair.Busy (cp cp' : Candpair) : Prop := cp.ctConn.isSome → cp'.ctConn.isSome

theorem busy_ending : Ending Candpair.Busy where
  refl _ := id
  trans ab bc h := bc (ab h)
  waits _ := id
  checks _ := id
  requests _ _ _ _ := rfl
  prio _ _ := id
  valid _ := id
  failed _ := id
  nominated _ := id

/-- Aggressive nomination leaves the pair its transaction. -/
theorem useCandidate_aggressive {icem : Icem} (distinct : Distinct icem) (compid : Nat) {cp : Candpair}
    (member : cp ∈ icem.all) (aggressive : icem.ice.nom = .aggressive) (busy : cp.ctConn.isSome) :
    ∃ cp' ∈ (icem.useCandidate compid cp).all, cp'.ctConn.isSome := by
  have nominated := (evolves_concludes busy_ending).updateNominated icem cp distinct
  have valid := Evolves.trans busy_ending.toStarting nominated
    (makeValid_evolves busy_ending _ cp.id nominated.distinct)
  have nom : ((icem.updateNominated cp).candpairMakeValid cp.id).ice.nom = .aggressive := by
    rw [((stays_moves.updateNominated icem cp).trans (makeValid_stays _ cp.id)).ice, aggressive]
  have notRegular : ((icem.updateNominated cp).candpairMakeValid cp.id).ice.nom ≠ .regular := by
    rw [nom]
    decide
  obtain ⟨cp', inside, -, still⟩ := valid.pairs cp member
  unfold Icem.useCandidate
  dsimp only
  rw [if_neg notRegular]
  exact ⟨cp', inside, still busy⟩

/-- The check that is triggered by a request for the pair goes out for the pair itself. -/
def Icem.TriggersOwn (fails : Nat → Bool) (icem : Icem) (cp : Candpair) : Prop :=
  icem.ice.lmode = .full ∧ candpairFind icem.checkl none cp.rcand.id = some cp ∧
    cp.state ≠ .inprogress ∧ cp.state ≠ .succeeded ∧ icem.ice.lrole ≠ .unknown ∧ fails cp.id = false

/-- The pair is a valid one only, and a new pair is made for the check. -/
def Icem.TriggersNew (icem : Icem) (cp : Candpair) : Prop :=
  icem.ice.lmode = .full ∧ candpairFind icem.checkl none cp.rcand.id = none ∧ (icem.compFind cp.lcand.compid).isSome

/-- Something is still to happen when the pair is nominated by a request. -/
def Icem.GoesOnWithout (fails : Nat → Bool) (icem : Icem) (cp : Candpair) : Prop :=
  icem.tmrPace = true ∨ (∃ other ∈ icem.all, other.id ≠ cp.id ∧ other.Pending) ∨
    icem.ice.nom = .aggressive ∧ (cp.ctConn.isSome ∨ icem.TriggersOwn fails cp) ∨ icem.TriggersNew cp

theorem candpairFind_some {l : List Candpair} {lcand : Option Nat} {rcand : Nat} {cp : Candpair}
    (found : candpairFind l lcand rcand = some cp) : cp ∈ l ∧ cp.rcand.id = rcand := by
  have here := List.find?_some found
  simp only [decide_eq_true_eq] at here
  exact ⟨List.mem_of_find?_eq_some found, here.2⟩

theorem candpairFind_none {l : List Candpair} {rcand : Nat} (none_ : candpairFind l none rcand = none) :
    ∀ cp ∈ l, cp.rcand.id ≠ rcand := by
  intro cp member same
  have differs := List.find?_eq_none.mp none_ cp member
  simp [same] at differs

theorem candpairFind_own {l : List Candpair} {rcand : Nat} {cp : Candpair}
    (found : candpairFind l none rcand = some cp) : candpairFind l (some cp.lcand.id) rcand = some cp := by
  unfold candpairFind at found ⊢
  rw [List.find?_eq_some_iff_append] at found ⊢
  obtain ⟨here, front, back, split_, before⟩ := found
  refine ⟨by simpa using here, front, back, split_, ?_⟩
  intro other member
  have differs := before other member
  simp only [Option.mem_def, reduceCtorEq, false_implies, implies_true, true_and, Bool.not_eq_eq_eq_not, Bool.not_true,
    decide_eq_false_iff_not] at differs
  simp [differs]

theorem candpairFind_own_none {l : List Candpair} {rcand : Nat} (none_ : candpairFind l none rcand = none) (lcand : Nat) :
    candpairFind l (some lcand) rcand = none := by
  apply List.find?_eq_none.mpr
  intro cp member
  simp [candpairFind_none none_ cp member]

theorem lookupCandpair_some {icem : Icem} {rcand : Cand} {cp : Candpair}
    (found : icem.lookupCandpair rcand = some cp) : cp ∈ icem.all ∧ cp.rcand.id = rcand.id := by
  rcases Option.or_eq_some_iff.mp found with inCheck | ⟨-, inValid⟩
  · obtain ⟨member, same⟩ := candpairFind_some inCheck
    exact ⟨mem_all.mpr (.inl member), same⟩
  · obtain ⟨member, same⟩ := candpairFind_some inValid
    exact ⟨mem_all.mpr (.inr member), same⟩

theorem lookupCandpair_none {icem : Icem} {rcand : Cand} (none_ : icem.lookupCandpair rcand = none) :
    ∀ cp ∈ icem.all, cp.rcand.id ≠ rcand.id := by
  obtain ⟨noCheck, noValid⟩ := Option.or_eq_none_iff.mp none_
  intro cp member
  rcases mem_all.mp member with inCheck | inValid
  · exact candpairFind_none noCheck cp inCheck
  · exact candpairFind_none noValid cp inValid

theorem send_requests (fails : Nat → Bool) {icem : Icem} (distinct : Distinct icem) {cp : Candpair}
    (member : cp ∈ icem.all) (known : icem.ice.lrole ≠ .unknown) (able : fails cp.id = false) (useCand : Bool) :
    ∃ cp' ∈ (icem.conncheckSend fails cp.id useCand).2.all, cp'.id = cp.id ∧ cp'.ctConn.isSome := by
  have inside := mem_update_self member fun cp => { cp with state := .inprogress }
  unfold Icem.conncheckSend
  rw [distinct.pair_eq member]
  have known_ : (icem.candpairSetState cp.id .inprogress).ice.lrole ≠ .unknown := known
  dsimp only
  rw [if_neg known_]
  split
  · rename_i busy
    exact ⟨_, inside, rfl, busy⟩
  · rw [able, if_neg Bool.false_ne_true]
    have requested := mem_update_self inside fun cp => { cp with ctConn := some icem.sent.length }
    exact ⟨_, requested, rfl, rfl⟩

theorem triggeredCheck_own (fails : Nat → Bool) {icem : Icem} (distinct : Distinct icem) {cp : Candpair} {rcand : Cand}
    (own : icem.TriggersOwn fails cp) (same : cp.rcand.id = rcand.id) :
    ∃ cp' ∈ (icem.triggeredCheck fails (some cp.lcand) rcand).all, cp'.id = cp.id ∧ cp'.ctConn.isSome := by
  obtain ⟨-, found, notInprogress, notSucceeded, known, able⟩ := own
  rw [same] at found
  have member : cp ∈ icem.all := mem_all.mpr (.inl (candpairFind_some found).1)
  unfold Icem.triggeredCheck
  dsimp only
  rw [candpairFind_own found]
  dsimp only
  split
  · have waits := (evolves_triggers lives_starting).waiting icem cp.id distinct
    have inside := mem_update_self member fun cp => { cp with state := .waiting }
    exact send_requests fails waits.distinct inside known able false
  · exact send_requests fails distinct member known able false
  · exact send_requests fails distinct member known able false
  · contradiction
  · contradiction

theorem alloc_some {icem : Icem} {lcand : Cand} (rcand : Cand) (known : (icem.compFind lcand.compid).isSome) :
    ∃ icem', icem.candpairAlloc lcand rcand = (some icem.pairs, icem') ∧ ∃ cp ∈ icem'.all, cp.id = icem.pairs := by
  obtain ⟨comp, here⟩ := Option.isSome_iff_exists.mp known
  unfold Icem.candpairAlloc
  rw [here]
  refine ⟨_, rfl, _, mem_all.mpr (.inl ((listAddSorted_placed icem.checkl _).mem_iff.mpr (.inl rfl))), rfl⟩

theorem triggeredCheck_new (fails : Nat → Bool) {icem : Icem} (distinct : Distinct icem) {cp : Candpair} {rcand : Cand}
    (new : icem.TriggersNew cp) (same : cp.rcand.id = rcand.id) :
    ∃ cp' ∈ (icem.triggeredCheck fails (some cp.lcand) rcand).all, cp'.id = icem.pairs ∧ cp'.Pending := by
  obtain ⟨-, none_, known⟩ := new
  rw [same] at none_
  obtain ⟨allocated, result, cp1, inside1, id1⟩ := alloc_some rcand known
  have alloc := alloc_evolves lives_starting icem cp.lcand rcand distinct
  rw [result] at alloc
  have ordered := prioOrder_evolves lives_starting _ alloc.distinct
  have waits := (evolves_triggers lives_starting).waiting _ icem.pairs ordered.distinct
  obtain ⟨cp2, inside2, id2, -⟩ := ordered.pairs cp1 inside1
  have inside3 := mem_update_self inside2 fun cp => { cp with state := .waiting }
  rw [id2.trans id1] at inside3
  have sent := (evolves_triggers lives_starting).send fails _ icem.pairs false waits.distinct
  obtain ⟨cp4, inside4, id4, lives4⟩ := sent.pairs _ inside3
  unfold Icem.triggeredCheck
  dsimp only
  rw [candpairFind_own_none none_, result]
  exact ⟨cp4, inside4, id4, lives4.pending (.inl rfl)⟩

theorem respondCheck_known (fails : Nat → Bool) {icem : Icem} (compid : Nat) {rcand : Cand} {cp : Candpair}
    (found : icem.lookupCandpair rcand = some cp) (full : icem.ice.lmode = .full) :
    icem.respondCheck fails compid rcand = icem.triggeredCheck fails (some cp.lcand) rcand := by
  unfold Icem.respondCheck
  rw [if_pos full, found]
  rfl

theorem useCandidate_goes_on {icem : Icem} (compid : Nat) {cp other : Candpair} (member : other ∈ icem.all)
    (away : other.id ≠ cp.id) (pending : other.Pending) : ∃ cp' ∈ (icem.useCandidate compid cp).all, cp'.Pending :=
  ⟨other, mem_useCandidate_other member away, pending⟩

/-- The request is for a pair that was not there before, and for no other that is pending. -/
theorem unknown_goes_on {icem after : Icem} (evolves : Evolves Candpair.Lives icem after) (compid : Nat) {rcand : Cand}
    {cp' : Candpair} (unknown : icem.lookupCandpair rcand = none) (found : after.lookupCandpair rcand = some cp')
    (pending : ∃ other ∈ icem.all, other.Pending) : ∃ cp ∈ (after.useCandidate compid cp').all, cp.Pending := by
  obtain ⟨other, member, pending⟩ := pending
  obtain ⟨other', inside, -, lives⟩ := evolves.pairs other member
  obtain ⟨here, same⟩ := lookupCandpair_some found
  apply useCandidate_goes_on compid inside _ (lives.pending pending)
  intro twice
  obtain rfl := evolves.distinct.eq inside here twice
  rw [lives.rcand] at same
  exact lookupCandpair_none unknown other member same

theorem known_goes_on (fails : Nat → Bool) {icem : Icem} (distinct : Distinct icem) (compid : Nat) {rcand : Cand}
    {cp cp' : Candpair} (known : icem.lookupCandpair rcand = some cp)
    (here : (icem.respondCheck fails compid rcand).pair cp.id = some cp') (goesOn : icem.GoesOnWithout fails cp) :
    icem.tmrPace = true ∨
      ∃ cp'' ∈ ((icem.respondCheck fails compid rcand).useCandidate compid cp').all, cp''.Pending := by
  have evolves := (evolves_triggers lives_starting).respondCheck fails icem compid rcand distinct
  have stays := stays_triggers.respondCheck fails icem compid rcand
  obtain ⟨inside, same⟩ := pair_some here
  obtain ⟨member, ofRcand⟩ := lookupCandpair_some known
  rcases goesOn with timer | ⟨other, member_, away, pending⟩ | ⟨aggressive, busy⟩ | new
  · exact .inl timer
  · right
    obtain ⟨other', inside_, same_, lives⟩ := evolves.pairs other member_
    have away_ : other'.id ≠ cp'.id := by rwa [same_, same]
    exact useCandidate_goes_on compid inside_ away_ (lives.pending pending)
  · right
    have stillBusy : cp'.ctConn.isSome := by
      rcases busy with busy | own
      · obtain ⟨cp1, inside1, same1, lives⟩ := evolves.pairs cp member
        obtain rfl := evolves.distinct.eq inside1 inside (same1.trans same.symm)
        exact lives.ctConn busy
      · obtain ⟨cp1, inside1, same1, busy⟩ := triggeredCheck_own fails distinct own ofRcand
        rw [← respondCheck_known fails compid known own.1] at inside1
        obtain rfl := evolves.distinct.eq inside1 inside (same1.trans same.symm)
        exact busy
    have aggressive_ : (icem.respondCheck fails compid rcand).ice.nom = .aggressive := by rw [stays.ice, aggressive]
    obtain ⟨cp'', last, busy_⟩ := useCandidate_aggressive evolves.distinct compid inside aggressive_ stillBusy
    exact ⟨cp'', last, .inr busy_⟩
  · right
    obtain ⟨cp1, inside1, id1, pending⟩ := triggeredCheck_new fails distinct new ofRcand
    rw [← respondCheck_known fails compid known new.1] at inside1
    have away : cp1.id ≠ cp'.id := by
      rw [id1, same]
      exact (Nat.ne_of_lt (distinct.lt cp member)).symm
    exact useCandidate_goes_on compid inside1 away pending

theorem handleRcand_sound (fails : Nat → Bool) {icem : Icem} (sound : Sound icem) (distinct : Distinct icem)
    (compid : Nat) (rcand : Cand) (useCand : Bool)
    (goesOn : useCand = true → ∀ cp ∈ icem.lookupCandpair rcand, icem.GoesOnWithout fails cp) :
    Sound (icem.handleRcand fails compid rcand useCand) := by
  have evolves := (evolves_triggers lives_starting).respondCheck fails icem compid rcand distinct
  have stays := stays_triggers.respondCheck fails icem compid rcand
  have after := sound.of_stays evolves stays
  unfold Icem.handleRcand
  dsimp only
  split
  · exact after
  · rename_i cp' requested
    split
    · rename_i nominates
      have used := stays_moves.useCandidate (icem.respondCheck fails compid rcand) (fun icem id => update_stays icem id _) compid cp'
      constructor
      · rw [used.chkh, used.state, after.called]
      · intro running
        rw [used.state, stays.state] at running
        rw [used.tmrPace, stays.tmrPace]
        unfold Icem.requestedPair at requested
        split at requested
        · rename_i cp known
          exact known_goes_on fails distinct compid known requested (goesOn nominates cp known)
        · rename_i unknown
          exact (sound.live running).imp_right (unknown_goes_on evolves compid unknown requested)
    · exact after

theorem handleStun_sound (fails : Nat → Bool) {icem : Icem} (sound : Sound icem) (distinct : Distinct icem)
    (compid : Nat) (src : Sa) (prio : BitVec 32) (useCand : Bool)
    (goesOn : useCand = true → icem.state = .running →
      ∀ cp ∈ (icem.learnRcand compid src prio).2.lookupCandpair (icem.learnRcand compid src prio).1,
        (icem.learnRcand compid src prio).2.GoesOnWithout fails cp) :
    Sound (icem.handleStun fails compid src prio useCand) := by
  unfold Icem.handleStun
  split
  · rename_i running
    have learnt := (evolves_triggers lives_starting).learnRcand icem compid src prio distinct
    have sound_ := sound.of_stays learnt (stays_triggers.learnRcand icem compid src prio)
    exact handleRcand_sound fails sound_ learnt.distinct compid _ useCand fun nominates => goesOn nominates running
  · exact sound

/-- Something is still to happen when a request nominates the pair that it is for. -/
def Icem.ToleratesRequest (fails : Nat → Bool) (icem : Icem) (compid : Nat) (src : Sa) (req : StunReq) : Prop :=
  ∀ icem' ∈ icem.checkRole req, ∀ prio ∈ req.priority, req.useCand = true → icem'.state = .running →
    ∀ cp ∈ (icem'.learnRcand compid src prio).2.lookupCandpair (icem'.learnRcand compid src prio).1,
      (icem'.learnRcand compid src prio).2.GoesOnWithout fails cp

theorem stundRecv_sound (fails : Nat → Bool) {icem : Icem} (sound : Sound icem) (distinct : Distinct icem)
    {compid : Nat} {src : Sa} {req : StunReq} (tolerates : icem.ToleratesRequest fails compid src req) :
    Sound (icem.stundRecv fails compid src req).2 := by
  unfold Icem.stundRecv
  split
  · exact sound
  · rename_i icem' checked
    have sound_ := checkRole_sound sound distinct checked
    have evolves := checkRole_closed (EvolvesFrom.refl lives_starting) (switchLocalRole_evolves lives_starting) checked
    have distinct_ := (evolves distinct).distinct
    split
    · exact sound_
    · rename_i prio here
      exact handleStun_sound fails sound_ distinct_ compid src prio req.useCand (tolerates icem' checked prio here)

end Baresip.Chk
