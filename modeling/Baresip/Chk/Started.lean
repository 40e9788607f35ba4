import Baresip.Chk.Checklist
import Baresip.Chk.Evolves

set_option linter.dupNamespace false

namespace Baresip.Chk

open Re Library

/-- What a media has besides its pairs. -/
def Icem.rest (icem : Icem) : Icem := { icem with checkl := [], validl := [], pairs := 0 }

/-- A pair that has been formed and not been checked yet. -/
structure Candpair.Untried (icem : Icem) (cp : Candpair) : Prop where
  state : cp.state = .frozen ∨ cp.state = .waiting
  ctConn : cp.ctConn = none
  lcand : cp.lcand ∈ icem.lcandl
  rcand : cp.rcand ∈ icem.rcandl
  sameComp : cp.lcand.compid = cp.rcand.compid
  comp : cp.comp = cp.lcand.compid
  known : (icem.compFind cp.lcand.compid).isSome

structure Formed (icem : Icem) : Prop where
  distinct : Distinct icem
  valid : icem.validl = []
  untried : ∀ cp ∈ icem.checkl, cp.Untried icem

structure Started (icem : Icem) : Prop extends Formed icem where
  running : icem.state = .running
  timer : icem.tmrPace = true
  full : icem.ice.lmode = .full

theorem Candpair.Untried.of_rest {icem icem' : Icem} {cp : Candpair} (untried : cp.Untried icem)
    (rest : icem'.rest = icem.rest) : cp.Untried icem' where
  state := untried.state
  ctConn := untried.ctConn
  lcand := by
    have same : icem'.lcandl = icem.lcandl := (congrArg Icem.lcandl rest :)
    rw [same]
    exact untried.lcand
  rcand := by
    have same : icem'.rcandl = icem.rcandl := (congrArg Icem.rcandl rest :)
    rw [same]
    exact untried.rcand
  sameComp := untried.sameComp
  comp := untried.comp
  known := by
    have same : icem'.compl = icem.compl := (congrArg Icem.compl rest :)
    unfold Icem.compFind
    rw [same]
    exact untried.known

theorem any_cancelling : Cancelling fun _ _ => True where
  refl _ := trivial
  trans _ _ := trivial
  waits _ := trivial
  checks _ := trivial
  requests _ _ _ := trivial
  prio _ _ := trivial
  valid _ := trivial
  failed _ := trivial
  nominated _ := trivial
  cancels _ := trivial

theorem Distinct.of_no_pairs {icem : Icem} (check : icem.checkl = []) (valid : icem.validl = []) : Distinct icem := by
  have none_ : icem.all = [] := by rw [Icem.all, check, valid, List.append_nil]
  constructor
  · rw [none_]
    exact List.nodup_nil
  · rw [none_]
    exact List.forall_mem_nil _

theorem Formed.alloc {icem : Icem} (formed : Formed icem) {lcand rcand : Cand} (inL : lcand ∈ icem.lcandl)
    (inR : rcand ∈ icem.rcandl) (same : lcand.compid = rcand.compid) : Formed (icem.candpairAlloc lcand rcand).2 := by
  have distinct := (alloc_evolves any_cancelling.toStarting icem lcand rcand formed.distinct).distinct
  unfold Icem.candpairAlloc at distinct ⊢
  split at distinct
  · exact formed
  · rename_i comp here
    have comp_eq : comp.id = lcand.compid := by simpa using List.find?_some here
    constructor
    · exact distinct
    · exact formed.valid
    · intro cp member
      rcases (listAddSorted_placed icem.checkl _).mem_iff.mp member with rfl | old
      · constructor
        · exact .inl rfl
        · rfl
        · exact inL
        · exact inR
        · exact same
        · exact comp_eq
        · exact Option.isSome_iff_exists.mpr ⟨comp, here⟩
      · exact (formed.untried cp old).of_rest rfl

theorem candpairAlloc_rest (icem : Icem) (lcand rcand : Cand) :
    (icem.candpairAlloc lcand rcand).2.rest = icem.rest := by
  unfold Icem.candpairAlloc
  split
  · rfl
  · rfl

theorem formable_mem {icem : Icem} {cands : Cand × Cand} (member : cands ∈ icem.formable) :
    cands.1 ∈ icem.lcandl ∧ cands.2 ∈ icem.rcandl ∧ cands.1.compid = cands.2.compid := by
  obtain ⟨lcand, inL, inside⟩ := List.mem_flatMap.mp member
  obtain ⟨rcand, inR, rfl⟩ := List.mem_map.mp inside
  obtain ⟨inR, matches_⟩ := List.mem_filter.mp inR
  simp only [decide_eq_true_eq] at matches_
  exact ⟨inL, inR, matches_.1⟩

theorem formPairs_formed {icem : Icem} (pairs : List (Cand × Cand)) (acc : Bool × Icem) (formed : Formed acc.2)
    (rest : acc.2.rest = icem.rest)
    (fit : ∀ cands ∈ pairs, cands.1 ∈ icem.lcandl ∧ cands.2 ∈ icem.rcandl ∧ cands.1.compid = cands.2.compid) :
    Formed (pairs.foldl Icem.formPair acc).2 ∧ (pairs.foldl Icem.formPair acc).2.rest = icem.rest := by
  induction pairs generalizing acc with
  | nil => exact ⟨formed, rest⟩
  | cons cands pairs ih =>
    rw [List.forall_mem_cons] at fit
    obtain ⟨⟨inL, inR, same⟩, fit⟩ := fit
    have sameL : acc.2.lcandl = icem.lcandl := (congrArg Icem.lcandl rest :)
    have sameR : acc.2.rcandl = icem.rcandl := (congrArg Icem.rcandl rest :)
    apply ih _ _ _ fit
    · exact formed.alloc (sameL ▸ inL) (sameR ▸ inR) same
    · exact (candpairAlloc_rest acc.2 cands.1 cands.2).trans rest

theorem candpairsForm_formed {icem : Icem} (formed : Formed icem) :
    Formed icem.candpairsForm.2 ∧ icem.candpairsForm.2.rest = icem.rest := by
  unfold Icem.candpairsForm
  split
  · exact ⟨formed, rfl⟩
  · exact formPairs_formed icem.formable (false, icem) formed rfl fun cands => formable_mem

theorem Formed.prioOrder {icem : Icem} (formed : Formed icem) : Formed icem.candpairPrioOrder where
  distinct := (prioOrder_evolves any_cancelling.toStarting icem formed.distinct).distinct
  valid := formed.valid
  untried cp' member := by
    obtain ⟨cp, old, rfl⟩ := List.mem_map.mp ((listSort_perm _).mem_iff.mp member)
    have untried := formed.untried cp old
    exact ⟨untried.state, untried.ctConn, untried.lcand, untried.rcand, untried.sameComp, untried.comp, untried.known⟩

theorem Formed.prune {icem : Icem} (formed : Formed icem) (base : Cand → Cand) : Formed (icem.candpairPrune base) := by
  have sub : (icem.candpairPrune base).checkl.Sublist icem.checkl := iceListUnique_sublist _ _
  have all : (icem.candpairPrune base).all.Sublist icem.all := sub.append (.refl _)
  constructor
  · constructor
    · exact (all.map Candpair.id).nodup formed.distinct.nodup
    · exact fun cp member => formed.distinct.lt cp (all.subset member)
  · exact formed.valid
  · exact fun cp member => (formed.untried cp (sub.subset member)).of_rest rfl

theorem Formed.setWaiting {icem : Icem} (formed : Formed icem) (id : Nat) :
    Formed (icem.candpairSetState id .waiting) where
  distinct := ((evolves_triggers any_cancelling.toStarting).waiting icem id formed.distinct).distinct
  valid := by
    show icem.validl.map _ = []
    rw [formed.valid]
    rfl
  untried cp' member := by
    obtain ⟨cp, old, rfl⟩ := List.mem_map.mp member
    have untried := formed.untried cp old
    split
    · exact ⟨.inr rfl, untried.ctConn, untried.lcand, untried.rcand, untried.sameComp, untried.comp, untried.known⟩
    · exact untried.of_rest rfl

theorem Formed.setStates {icem : Icem} (formed : Formed icem) (foundation : Cand → String) :
    Formed (icem.candpairSetStates foundation) ∧ (icem.candpairSetStates foundation).rest = icem.rest := by
  have folded : ∀ (l : List Candpair) (acc : Icem), Formed acc → acc.rest = icem.rest →
      Formed (l.foldl (fun icem' cp =>
        icem'.candpairSetState (Icem.firstOfFoundation foundation icem.checkl cp).id .waiting) acc) ∧
      (l.foldl (fun icem' cp =>
        icem'.candpairSetState (Icem.firstOfFoundation foundation icem.checkl cp).id .waiting) acc).rest = icem.rest := by
    intro l
    induction l with
    | nil => exact fun acc formed rest => ⟨formed, rest⟩
    | cons cp l ih => exact fun acc formed rest => ih _ (formed.setWaiting _) rest
  exact folded icem.checkl icem formed rfl

section
variable {base : Cand → Cand} {foundation : Cand → String} {first : Bool} {icem icem' : Icem}

theorem checklistForm_formed (valid : icem.validl = [])
    (done : icem.checklistForm base foundation first = (false, icem')) : Formed icem' ∧ icem'.rest = icem.rest := by
  unfold Icem.checklistForm at done
  split at done
  · cases done
  · split at done
    · cases done
    · rename_i empty
      have start : Formed icem := {
        distinct := .of_no_pairs (not_not.mp empty) valid
        valid := valid
        untried := by
          rw [not_not.mp empty]
          exact List.forall_mem_nil _ }
      obtain ⟨formed, rest⟩ := candpairsForm_formed start
      dsimp only at done
      split at done
      · cases done
      · have pruned := (formed.prioOrder).prune base
        obtain ⟨-, rfl⟩ := Prod.mk.inj done
        split
        · obtain ⟨states, same⟩ := pruned.setStates foundation
          exact ⟨states, same.trans rest⟩
        · exact ⟨pruned, rest⟩

theorem conncheckStart_started (valid : icem.validl = [])
    (done : icem.conncheckStart base foundation first = (false, icem')) :
    Started icem' ∧ icem'.rest = { icem.rest with state := .running, tmrPace := true } := by
  unfold Icem.conncheckStart at done
  split at done
  · cases done
  · rename_i full
    split at done
    · cases done
    · rename_i formedIcem result
      obtain ⟨formed, rest⟩ := checklistForm_formed valid result
      obtain ⟨-, rfl⟩ := Prod.mk.inj done
      have ice : formedIcem.ice = icem.ice := (congrArg Icem.ice rest :)
      constructor
      · constructor
        · constructor
          · exact ⟨formed.distinct.nodup, formed.distinct.lt⟩
          · exact formed.valid
          · intro cp member
            have untried := formed.untried cp member
            exact ⟨untried.state, untried.ctConn, untried.lcand, untried.rcand, untried.sameComp, untried.comp,
              untried.known⟩
        · rfl
        · rfl
        · exact (congrArg Ice.lmode ice).trans (not_not.mp full)
      · exact congrArg (fun icem : Icem => { icem with state := .running, tmrPace := true }) rest

end

end Baresip.Chk
