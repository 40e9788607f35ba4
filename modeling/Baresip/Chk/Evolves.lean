import Baresip.Chk.Candpair
import Baresip.Chk.Closure

set_option linter.dupNamespace false

namespace Baresip.Chk

open Re Library

/-- What the functions leave alone that do not conclude. -/
structure Keeps (icem icem' : Icem) : Prop where
  ice : icem'.ice = icem.ice
  chkh : icem'.chkh = icem.chkh
  tmrPace : icem'.tmrPace = icem.tmrPace

structure Stays (icem icem' : Icem) : Prop extends Keeps icem icem' where
  state : icem'.state = icem.state

theorem Keeps.refl (icem : Icem) : Keeps icem icem := ⟨rfl, rfl, rfl⟩

theorem Keeps.trans {a b c : Icem} (ab : Keeps a b) (bc : Keeps b c) : Keeps a c :=
  ⟨bc.ice.trans ab.ice, bc.chkh.trans ab.chkh, bc.tmrPace.trans ab.tmrPace⟩

theorem Stays.refl (icem : Icem) : Stays icem icem := ⟨.refl icem, rfl⟩

theorem Stays.trans {a b c : Icem} (ab : Stays a b) (bc : Stays b c) : Stays a c :=
  ⟨ab.toKeeps.trans bc.toKeeps, bc.state.trans ab.state⟩

theorem update_stays (icem : Icem) (id : Nat) (f : Candpair → Candpair) : Stays icem (icem.update id f) :=
  ⟨⟨rfl, rfl, rfl⟩, rfl⟩

theorem makeValid_stays (icem : Icem) (id : Nat) : Stays icem (icem.candpairMakeValid id) := by
  unfold Icem.candpairMakeValid
  split
  · exact .refl icem
  · exact ⟨⟨rfl, rfl, rfl⟩, rfl⟩

theorem alloc_stays (icem : Icem) (lcand rcand : Cand) : Stays icem (icem.candpairAlloc lcand rcand).2 := by
  unfold Icem.candpairAlloc
  split
  · exact .refl icem
  · exact ⟨⟨rfl, rfl, rfl⟩, rfl⟩

theorem stays_triggers : Triggers Stays where
  refl := .refl
  trans := .trans
  inprogress icem id := update_stays icem id _
  request _ _ _ := ⟨⟨rfl, rfl, rfl⟩, rfl⟩
  waiting icem id := update_stays icem id _
  prioOrder _ := ⟨⟨rfl, rfl, rfl⟩, rfl⟩
  alloc := alloc_stays
  rcand _ _ _ _ := ⟨⟨rfl, rfl, rfl⟩, rfl⟩

theorem stays_moves : Moves Stays where
  toSends := stays_triggers.toSends
  failed icem id := update_stays icem id _
  makeValid := makeValid_stays
  nominated icem id := update_stays icem id _
  cloned icem cp0 lcand rcand := by
    have cloned : Stays icem (icem.candpairClone cp0 lcand rcand).2 := ⟨⟨rfl, rfl, rfl⟩, rfl⟩
    exact cloned.trans (makeValid_stays _ _)
  selected _ _ _ := ⟨⟨rfl, rfl, rfl⟩, rfl⟩
  concluded _ _ := ⟨⟨rfl, rfl, rfl⟩, rfl⟩
  lcand _ _ _ _ := ⟨⟨rfl, rfl, rfl⟩, rfl⟩

theorem keeps_schedules : Schedules Keeps where
  refl := .refl
  trans := .trans
  inprogress icem id := (stays_moves.inprogress icem id).toKeeps
  request here free useCand := (stays_moves.request here free useCand).toKeeps
  failed icem id := (stays_moves.failed icem id).toKeeps
  makeValid icem id := (stays_moves.makeValid icem id).toKeeps
  nominated icem id := (stays_moves.nominated icem id).toKeeps
  cloned icem cp0 lcand rcand := (stays_moves.cloned icem cp0 lcand rcand).toKeeps
  selected icem compid cp := (stays_moves.selected icem compid cp).toKeeps
  concluded icem compid := (stays_moves.concluded icem compid).toKeeps
  lcand icem cand type addr := (stays_moves.lcand icem cand type addr).toKeeps
  completed _ := ⟨rfl, rfl, rfl⟩

/-- Every pair is there once, with a number below the next one. -/
structure Distinct (icem : Icem) : Prop where
  nodup : (icem.all.map Candpair.id).Nodup
  lt : ∀ cp ∈ icem.all, cp.id < icem.pairs

/-- No pair is lost, and each is changed by no more than `R` allows. -/
structure Evolves (R : Candpair → Candpair → Prop) (icem icem' : Icem) : Prop where
  distinct : Distinct icem'
  pairs : ∀ cp ∈ icem.all, ∃ cp' ∈ icem'.all, cp'.id = cp.id ∧ R cp cp'

/-- What the start of a check does to a pair is allowed. -/
structure Starting (R : Candpair → Candpair → Prop) : Prop where
  refl : ∀ cp, R cp cp
  trans : ∀ {a b c}, R a b → R b c → R a c
  waits : ∀ cp, R cp { cp with state := .waiting }
  checks : ∀ cp, R cp { cp with state := .inprogress }
  requests : ∀ cp n, cp.ctConn = none → R cp { cp with ctConn := some n }
  prio : ∀ cp lrole, R cp (candpairSetPprio lrole cp)

/-- And what the end of one does. -/
structure Ending (R : Candpair → Candpair → Prop) : Prop extends Starting R where
  valid : ∀ cp, R cp { cp with valid := true, state := .succeeded }
  failed : ∀ cp, R cp { cp with valid := false, state := .failed }
  nominated : ∀ cp, R cp { cp with nominated := true }

/-- And the loss of its transaction. -/
structure Cancelling (R : Candpair → Candpair → Prop) : Prop extends Ending R where
  cancels : ∀ cp, R cp { cp with ctConn := none }

theorem Distinct.eq {icem : Icem} (distinct : Distinct icem) {cp other : Candpair} (member : cp ∈ icem.all)
    (other_ : other ∈ icem.all) (same : cp.id = other.id) : cp = other :=
  List.inj_on_of_nodup_map distinct.nodup member other_ same

theorem Distinct.pair_eq {icem : Icem} (distinct : Distinct icem) {cp : Candpair} (member : cp ∈ icem.all) :
    icem.pair cp.id = some cp := by
  unfold Icem.pair
  cases found : icem.all.find? fun other => other.id = cp.id with
  | none => simpa using List.find?_eq_none.mp found cp member
  | some other =>
    obtain ⟨inside, same⟩ := pair_some found
    rw [distinct.eq inside member same]

theorem Distinct.of_ids {icem icem' : Icem} (distinct : Distinct icem)
    (ids : (icem'.all.map Candpair.id).Perm (icem.all.map Candpair.id)) (pairs : icem'.pairs = icem.pairs) :
    Distinct icem' where
  nodup := ids.nodup_iff.mpr distinct.nodup
  lt cp' member := by
    obtain ⟨cp, old, same⟩ := List.mem_map.mp (ids.mem_iff.mp (List.mem_map_of_mem member))
    rw [← same, pairs]
    exact distinct.lt cp old

section
variable {R : Candpair → Candpair → Prop}

theorem Evolves.refl (starting : Starting R) {icem : Icem} (distinct : Distinct icem) : Evolves R icem icem :=
  ⟨distinct, fun cp member => ⟨cp, member, rfl, starting.refl cp⟩⟩

theorem Evolves.trans (starting : Starting R) {a b c : Icem} (ab : Evolves R a b) (bc : Evolves R b c) :
    Evolves R a c := by
  constructor
  · exact bc.distinct
  · intro cp member
    obtain ⟨cp', inside, same, allowed⟩ := ab.pairs cp member
    obtain ⟨cp'', inside', same', allowed'⟩ := bc.pairs cp' inside
    exact ⟨cp'', inside', same'.trans same, starting.trans allowed allowed'⟩

theorem Evolves.of_same (starting : Starting R) {icem icem' : Icem} (distinct : Distinct icem)
    (all : icem'.all = icem.all) (pairs : icem'.pairs = icem.pairs) : Evolves R icem icem' := by
  constructor
  · exact distinct.of_ids (all ▸ .refl _) pairs
  · intro cp member
    exact ⟨cp, all ▸ member, rfl, starting.refl cp⟩

/-- A change of the pairs of the check list and one of those of the valid list. -/
theorem Evolves.of_map {icem icem' : Icem} (distinct : Distinct icem) {f g : Candpair → Candpair}
    (check : icem'.checkl.Perm (icem.checkl.map f)) (valid : icem'.validl = icem.validl.map g)
    (pairs : icem'.pairs = icem.pairs) (ids : ∀ cp, (f cp).id = cp.id ∧ (g cp).id = cp.id)
    (allowed : ∀ cp ∈ icem.all, R cp (f cp) ∧ R cp (g cp)) : Evolves R icem icem' := by
  constructor
  · apply distinct.of_ids
    · have same : (icem.checkl.map f ++ icem.validl.map g).map Candpair.id = icem.all.map Candpair.id := by
        rw [Icem.all, List.map_append, List.map_append, List.map_map, List.map_map]
        congr 1
        · exact List.map_congr_left fun cp _ => (ids cp).1
        · exact List.map_congr_left fun cp _ => (ids cp).2
      rw [← same, Icem.all, valid]
      exact (check.append_right _).map _
    · exact pairs
  · intro cp member
    rcases mem_all.mp member with inCheck | inValid
    · exact ⟨f cp, mem_all.mpr (.inl (check.mem_iff.mpr (List.mem_map_of_mem inCheck))), (ids cp).1,
        (allowed cp member).1⟩
    · exact ⟨g cp, mem_all.mpr (.inr (valid ▸ List.mem_map_of_mem inValid)), (ids cp).2, (allowed cp member).2⟩

/-- A new pair. -/
theorem Evolves.of_new (starting : Starting R) {icem icem' : Icem} (distinct : Distinct icem) {cp : Candpair}
    (perm : icem'.all.Perm (cp :: icem.all)) (id_eq : cp.id = icem.pairs) (pairs : icem'.pairs = icem.pairs + 1) :
    Evolves R icem icem' := by
  constructor
  · constructor
    · rw [(perm.map Candpair.id).nodup_iff, List.map_cons, List.nodup_cons]
      constructor
      · intro again
        obtain ⟨other, member, same⟩ := List.mem_map.mp again
        have less := distinct.lt other member
        rw [same, id_eq] at less
        exact Nat.lt_irrefl _ less
      · exact distinct.nodup
    · intro other member
      rw [pairs]
      rcases List.mem_cons.mp (perm.mem_iff.mp member) with rfl | old
      · rw [id_eq]
        exact Nat.lt_succ_self _
      · exact Nat.lt_succ_of_lt (distinct.lt other old)
  · intro other member
    exact ⟨other, perm.mem_iff.mpr (List.mem_cons_of_mem _ member), rfl, starting.refl other⟩

/-- The relation on media that the lemmas on composed functions are used with. -/
def EvolvesFrom (R : Candpair → Candpair → Prop) (icem icem' : Icem) : Prop := Distinct icem → Evolves R icem icem'

theorem EvolvesFrom.refl (starting : Starting R) (icem : Icem) : EvolvesFrom R icem icem :=
  fun distinct => Evolves.refl starting distinct

theorem EvolvesFrom.trans (starting : Starting R) {a b c : Icem} (ab : EvolvesFrom R a b) (bc : EvolvesFrom R b c) :
    EvolvesFrom R a c :=
  fun distinct => .trans starting (ab distinct) (bc (ab distinct).distinct)

theorem EvolvesFrom.of_same (starting : Starting R) {icem icem' : Icem} (all : icem'.all = icem.all)
    (pairs : icem'.pairs = icem.pairs) : EvolvesFrom R icem icem' :=
  fun distinct => .of_same starting distinct all pairs

theorem update_evolves (starting : Starting R) {icem : Icem} (id : Nat) {f : Candpair → Candpair}
    (ids : ∀ cp, (f cp).id = cp.id) (allowed : ∀ cp, R cp (f cp)) : EvolvesFrom R icem (icem.update id f) := by
  intro distinct
  have ids_ : ∀ cp, (if cp.id = id then f cp else cp).id = cp.id := by
    intro cp
    split
    · exact ids cp
    · rfl
  have allowed_ : ∀ cp, R cp (if cp.id = id then f cp else cp) := by
    intro cp
    split
    · exact allowed cp
    · exact starting.refl cp
  exact .of_map distinct (.refl _) rfl rfl (fun cp => ⟨ids_ cp, ids_ cp⟩) fun cp _ => ⟨allowed_ cp, allowed_ cp⟩

theorem stunRequest_evolves (starting : Starting R) {icem : Icem} {id : Nat} {cp0 : Candpair}
    (here : icem.pair id = some cp0) (free : cp0.ctConn = none) (useCand : Bool) :
    EvolvesFrom R icem (icem.stunRequest id useCand) := by
  intro distinct
  have ids : ∀ cp : Candpair, (if cp.id = id then { cp with ctConn := some icem.sent.length } else cp).id = cp.id := by
    intro cp
    split
    · rfl
    · rfl
  have allowed : ∀ cp ∈ icem.all, R cp (if cp.id = id then { cp with ctConn := some icem.sent.length } else cp) := by
    intro cp member
    split
    · rename_i same
      have found := distinct.pair_eq member
      rw [same, here] at found
      obtain rfl := Option.some.inj found
      exact starting.requests cp0 _ free
    · exact starting.refl cp
  exact .of_map distinct (.refl _) rfl rfl (fun cp => ⟨ids cp, ids cp⟩) fun cp member =>
    ⟨allowed cp member, allowed cp member⟩

theorem prioOrder_evolves (starting : Starting R) (icem : Icem) : EvolvesFrom R icem icem.candpairPrioOrder := by
  intro distinct
  apply Evolves.of_map distinct (f := candpairSetPprio icem.ice.lrole) (g := id)
  · exact listSort_perm _
  · exact (List.map_id _).symm
  · rfl
  · exact fun cp => ⟨rfl, rfl⟩
  · exact fun cp _ => ⟨starting.prio cp icem.ice.lrole, starting.refl cp⟩

theorem alloc_evolves (starting : Starting R) (icem : Icem) (lcand rcand : Cand) :
    EvolvesFrom R icem (icem.candpairAlloc lcand rcand).2 := by
  intro distinct
  unfold Icem.candpairAlloc
  split
  · exact .refl starting distinct
  · apply Evolves.of_new starting distinct
    · exact (listAddSorted_placed icem.checkl _).perm.append_right icem.validl
    · rfl
    · rfl

theorem evolves_triggers (starting : Starting R) : Triggers (EvolvesFrom R) where
  refl := .refl starting
  trans := .trans starting
  inprogress _ id := update_evolves starting id (fun _ => rfl) starting.checks
  request := stunRequest_evolves starting
  waiting _ id := update_evolves starting id (fun _ => rfl) starting.waits
  prioOrder := prioOrder_evolves starting
  alloc := alloc_evolves starting
  rcand _ _ _ _ := .of_same starting rfl rfl

theorem makeValid_evolves (ending : Ending R) (icem : Icem) (id : Nat) :
    EvolvesFrom R icem (icem.candpairMakeValid id) := by
  intro distinct
  unfold Icem.candpairMakeValid
  split
  · exact .refl ending.toStarting distinct
  · rename_i cp here
    obtain ⟨member, rfl⟩ := pair_some here
    have perm := makeValid_perm icem cp
    constructor
    · exact distinct.of_ids (makeValid_ids member distinct.nodup) rfl
    · intro other inside
      by_cases same : other.id = cp.id
      · obtain rfl := distinct.eq inside member same
        exact ⟨_, perm.mem_iff.mpr (List.mem_cons_self ..), rfl, ending.valid other⟩
      · have kept : other ∈ icem.all.filter fun other => other.id ≠ cp.id := by simp [inside, same]
        exact ⟨other, perm.mem_iff.mpr (List.mem_cons_of_mem _ kept), rfl, ending.refl other⟩

theorem clone_evolves (starting : Starting R) (icem : Icem) (cp0 : Candpair) (lcand rcand : Option Cand) :
    EvolvesFrom R icem (icem.candpairClone cp0 lcand rcand).2 := by
  intro distinct
  apply Evolves.of_new starting distinct
  · exact (listAddSorted_placed icem.checkl _).perm.append_right icem.validl
  · rfl
  · rfl

theorem evolves_concludes (ending : Ending R) : Concludes (EvolvesFrom R) where
  toSends := (evolves_triggers ending.toStarting).toSends
  failed _ id := update_evolves ending.toStarting id (fun _ => rfl) ending.failed
  makeValid := makeValid_evolves ending
  nominated _ id := update_evolves ending.toStarting id (fun _ => rfl) ending.nominated
  cloned icem cp0 lcand rcand :=
    .trans ending.toStarting (clone_evolves ending.toStarting icem cp0 lcand rcand) (makeValid_evolves ending _ _)
  selected _ _ _ := .of_same ending.toStarting rfl rfl
  concluded _ _ := .of_same ending.toStarting rfl rfl
  lcand _ _ _ _ := .of_same ending.toStarting rfl rfl
  completed _ := .of_same ending.toStarting rfl rfl
  fires _ := .of_same ending.toStarting rfl rfl
  reports _ _ _ := .of_same ending.toStarting rfl rfl

theorem stopped_evolves (cancelling : Cancelling R) (icem : Icem) : EvolvesFrom R icem { icem with
    state := .completed
    tmrPace := false
    checkl := icem.checkl.map Icem.conncheckStopped } := by
  intro distinct
  apply Evolves.of_map distinct (f := Icem.conncheckStopped) (g := id)
  · exact .refl _
  · exact (List.map_id _).symm
  · rfl
  · intro cp
    unfold Icem.conncheckStopped
    split
    · exact ⟨rfl, rfl⟩
    · exact ⟨rfl, rfl⟩
  · intro cp _
    refine ⟨?_, cancelling.refl cp⟩
    unfold Icem.conncheckStopped
    split
    · exact cancelling.cancels cp
    · exact cancelling.trans (cancelling.cancels cp) (cancelling.failed _)

theorem switchLocalRole_evolves (starting : Starting R) (icem : Icem) : EvolvesFrom R icem icem.switchLocalRole := by
  have switched : EvolvesFrom R icem { icem with
      ice := { icem.ice with lrole := if icem.ice.lrole = .controlling then .controlled else .controlling } } :=
    .of_same starting rfl rfl
  exact .trans starting switched (prioOrder_evolves starting _)

theorem evolves_switches (cancelling : Cancelling R) : Switches (EvolvesFrom R) := by
  have triggers := evolves_triggers cancelling.toStarting
  exact {
    toConcludes := evolves_concludes cancelling.toEnding
    cancel := fun _ id => update_evolves cancelling.toStarting id (fun _ => rfl) cancelling.cancels
    stopped := stopped_evolves cancelling
    waiting := triggers.waiting
    prioOrder := triggers.prioOrder
    alloc := triggers.alloc
    rcand := triggers.rcand
    switch := switchLocalRole_evolves cancelling.toStarting }

end

end Baresip.Chk
