import Baresip.Chk.Leaving

set_option linter.dupNamespace false

namespace Baresip.Chk

open Re

/-- A valid pair of a component. -/
def Icem.HasValid (icem : Icem) (compid : Nat) : Prop := ∃ cp ∈ icem.validl, cp.lcand.compid = compid

def Icem.Tested (icem : Icem) : Prop := ∀ cp ∈ icem.all, ¬ cp.Waits

def Icem.ValidTested (icem : Icem) : Prop := ∀ cp ∈ icem.validl, ¬ cp.Waits

/-- What is kept once there are no pairs left to check. -/
structure Retains (icem icem' : Icem) : Prop where
  distinct : Distinct icem'
  valid : ∀ compid, icem.HasValid compid → icem'.HasValid compid
  comps : ∀ comp' ∈ icem'.compl, ∃ comp ∈ icem.compl, comp.id = comp'.id ∧ (comp.cpSel.isSome → comp'.cpSel.isSome)
  tested : icem.Tested → icem'.Tested
  validTested : icem.ValidTested → icem'.ValidTested

def RetainsFrom (icem icem' : Icem) : Prop := Distinct icem → Retains icem icem'

theorem RetainsFrom.trans {a b c : Icem} (ab : RetainsFrom a b) (bc : RetainsFrom b c) : RetainsFrom a c := by
  intro distinct
  have first := ab distinct
  have second := bc first.distinct
  constructor
  · exact second.distinct
  · exact fun compid valid => second.valid compid (first.valid compid valid)
  · intro comp'' member
    obtain ⟨comp', inside', same', selected'⟩ := second.comps comp'' member
    obtain ⟨comp, inside, same, selected⟩ := first.comps comp' inside'
    exact ⟨comp, inside, same.trans same', fun chosen => selected' (selected chosen)⟩
  · exact fun tested => second.tested (first.tested tested)
  · exact fun tested => second.validTested (first.validTested tested)

theorem RetainsFrom.of_lists {icem icem' : Icem} (all : icem'.all = icem.all) (validl : icem'.validl = icem.validl)
    (pairs : icem'.pairs = icem.pairs)
    (comps : ∀ comp' ∈ icem'.compl, ∃ comp ∈ icem.compl, comp.id = comp'.id ∧
      (comp.cpSel.isSome → comp'.cpSel.isSome)) : RetainsFrom icem icem' := by
  intro distinct
  constructor
  · exact distinct.of_ids (all ▸ .refl _) pairs
  · unfold Icem.HasValid
    rw [validl]
    exact fun _ => id
  · exact comps
  · unfold Icem.Tested
    rw [all]
    exact id
  · unfold Icem.ValidTested
    rw [validl]
    exact id

theorem same_comps (icem : Icem) : ∀ comp' ∈ icem.compl, ∃ comp ∈ icem.compl, comp.id = comp'.id ∧
    (comp.cpSel.isSome → comp'.cpSel.isSome) :=
  fun comp member => ⟨comp, member, rfl, id⟩

theorem compUpdate_comps (icem : Icem) (compid : Nat) {f : Comp → Comp}
    (keeps : ∀ comp, (f comp).id = comp.id ∧ (comp.cpSel.isSome → (f comp).cpSel.isSome)) :
    ∀ comp' ∈ (icem.compUpdate compid f).compl, ∃ comp ∈ icem.compl, comp.id = comp'.id ∧
      (comp.cpSel.isSome → comp'.cpSel.isSome) := by
  intro comp' member
  obtain ⟨comp, old, rfl⟩ := List.mem_map.mp member
  refine ⟨comp, old, ?_⟩
  split
  · exact ⟨(keeps comp).1.symm, (keeps comp).2⟩
  · exact ⟨rfl, id⟩

theorem update_retains (icem : Icem) (id : Nat) {f : Candpair → Candpair}
    (keeps : ∀ cp, (f cp).id = cp.id ∧ (f cp).lcand = cp.lcand ∧ ((f cp).Waits → cp.Waits)) :
    RetainsFrom icem (icem.update id f) := by
  intro distinct
  have keeps_ : ∀ cp, (if cp.id = id then f cp else cp).lcand = cp.lcand ∧
      ((if cp.id = id then f cp else cp).Waits → cp.Waits) := by
    intro cp
    split
    · exact (keeps cp).2
    · exact ⟨rfl, fun waits => waits⟩
  constructor
  · exact (update_evolves any_cancelling.toStarting id (fun cp => (keeps cp).1) (fun _ => trivial) distinct).distinct
  · rintro compid ⟨cp, member, same⟩
    exact ⟨_, List.mem_map_of_mem member, by rw [(keeps_ cp).1, same]⟩
  · exact same_comps icem
  · intro tested cp' member waits
    have member : cp' ∈ icem.all.map fun cp => if cp.id = id then f cp else cp := by
      rw [Icem.all, List.map_append]
      exact member
    obtain ⟨cp, old, rfl⟩ := List.mem_map.mp member
    exact tested cp old ((keeps_ cp).2 waits)
  · intro tested cp' member waits
    obtain ⟨cp, old, rfl⟩ := List.mem_map.mp member
    exact tested cp old ((keeps_ cp).2 waits)

theorem succeeded_not_waits {cp : Candpair} (succeeded : cp.state = .succeeded) : ¬ cp.Waits := by
  rintro (waiting | frozen)
  · rw [succeeded] at waiting
    cases waiting
  · rw [succeeded] at frozen
    cases frozen

theorem failed_not_waits {cp : Candpair} (failed : cp.state = .failed) : ¬ cp.Waits := by
  rintro (waiting | frozen)
  · rw [failed] at waiting
    cases waiting
  · rw [failed] at frozen
    cases frozen

theorem inprogress_not_waits {cp : Candpair} (inprogress : cp.state = .inprogress) : ¬ cp.Waits := by
  rintro (waiting | frozen)
  · rw [inprogress] at waiting
    cases waiting
  · rw [inprogress] at frozen
    cases frozen

theorem makeValid_compl (icem : Icem) (id : Nat) : (icem.candpairMakeValid id).compl = icem.compl := by
  unfold Icem.candpairMakeValid
  split
  · rfl
  · rfl

theorem makeValid_validl (icem : Icem) (distinct : Distinct icem) {cp : Candpair} (member : cp ∈ icem.all) :
    (icem.candpairMakeValid cp.id).validl = listAddSorted (icem.validl.filter fun other => other.id ≠ cp.id)
      { cp with valid := true, state := .succeeded } := by
  unfold Icem.candpairMakeValid
  rw [distinct.pair_eq member]

theorem mem_makeValid {icem : Icem} {id : Nat} {other : Candpair} (member : other ∈ (icem.candpairMakeValid id).all) :
    other.state = .succeeded ∨ other ∈ icem.all ∧ (other.id = id → icem.pair id = none) := by
  unfold Icem.candpairMakeValid at member
  split at member
  · rename_i missing
    exact .inr ⟨member, fun _ => missing⟩
  · rename_i cp found
    obtain ⟨-, rfl⟩ := pair_some found
    rcases List.mem_cons.mp ((makeValid_perm icem cp).mem_iff.mp member) with rfl | old
    · exact .inl rfl
    · obtain ⟨inside, away⟩ := List.mem_filter.mp old
      exact .inr ⟨inside, fun here => absurd here (by simpa using away)⟩

theorem makeValid_validTested {icem : Icem} (id : Nat) (tested : icem.ValidTested) :
    (icem.candpairMakeValid id).ValidTested := by
  unfold Icem.candpairMakeValid
  split
  · exact tested
  · intro other member
    rcases (listAddSorted_placed _ _).mem_iff.mp member with rfl | old
    · exact succeeded_not_waits rfl
    · exact tested other (List.mem_of_mem_filter old)

theorem makeValid_retains (icem : Icem) (id : Nat) : RetainsFrom icem (icem.candpairMakeValid id) := by
  intro distinct
  constructor
  · exact (makeValid_evolves any_cancelling.toEnding icem id distinct).distinct
  · rintro compid ⟨other, inside, same⟩
    cases found : icem.pair id with
    | none =>
      have unchanged : icem.candpairMakeValid id = icem := by
        unfold Icem.candpairMakeValid
        rw [found]
      rw [unchanged]
      exact ⟨other, inside, same⟩
    | some cp =>
      obtain ⟨member, rfl⟩ := pair_some found
      unfold Icem.HasValid
      rw [makeValid_validl icem distinct member]
      by_cases here : other.id = cp.id
      · obtain rfl := distinct.eq (mem_all.mpr (.inr inside)) member here
        exact ⟨_, (listAddSorted_placed _ _).mem_iff.mpr (.inl rfl), same⟩
      · have kept : other ∈ icem.validl.filter fun other => other.id ≠ cp.id := by simp [inside, here]
        exact ⟨other, (listAddSorted_placed _ _).mem_iff.mpr (.inr kept), same⟩
  · rw [makeValid_compl]
    exact same_comps icem
  · intro tested other inside
    rcases mem_makeValid inside with succeeded | ⟨old, -⟩
    · exact succeeded_not_waits succeeded
    · exact tested other old
  · exact makeValid_validTested id

theorem mem_clone {icem : Icem} {cp0 other : Candpair} {lcand rcand : Option Cand}
    (member : other ∈ (icem.candpairClone cp0 lcand rcand).2.all) : other.id = icem.pairs ∨ other ∈ icem.all := by
  rcases mem_all.mp member with inCheck | inValid
  · rcases (listAddSorted_placed icem.checkl _).mem_iff.mp inCheck with rfl | old
    · exact .inl rfl
    · exact .inr (mem_all.mpr (.inl old))
  · exact .inr (mem_all.mpr (.inr inValid))

theorem clone_pair (icem : Icem) (distinct : Distinct icem) (cp0 : Candpair) (lcand rcand : Option Cand) :
    (icem.candpairClone cp0 lcand rcand).2.pair icem.pairs = some { cp0 with
      id := icem.pairs
      lcand := lcand.getD cp0.lcand
      rcand := rcand.getD cp0.rcand
      ctConn := none } := by
  have cloned := (clone_evolves any_cancelling.toStarting icem cp0 lcand rcand distinct).distinct
  exact cloned.pair_eq (mem_all.mpr (.inl ((listAddSorted_placed icem.checkl _).mem_iff.mpr (.inl rfl))))

theorem cloned_retains (icem : Icem) (cp0 : Candpair) (lcand rcand : Option Cand) : RetainsFrom icem
    ((icem.candpairClone cp0 lcand rcand).2.candpairMakeValid (icem.candpairClone cp0 lcand rcand).1) := by
  intro distinct
  have cloned := (clone_evolves any_cancelling.toStarting icem cp0 lcand rcand distinct).distinct
  have valid := makeValid_retains _ (icem.candpairClone cp0 lcand rcand).1 cloned
  constructor
  · exact valid.distinct
  · exact fun compid has => valid.valid compid has
  · exact valid.comps
  · intro tested other inside
    rcases mem_makeValid inside with succeeded | ⟨old, notNew⟩
    · exact succeeded_not_waits succeeded
    · rcases mem_clone old with new | old
      · have missing := notNew new
        rw [show (icem.candpairClone cp0 lcand rcand).1 = icem.pairs from rfl,
          clone_pair icem distinct cp0 lcand rcand] at missing
        cases missing
      · exact tested other old
  · exact valid.validTested

theorem stopped_not_waits (cp : Candpair) : ¬ (Icem.conncheckStopped cp).Waits := by
  unfold Icem.conncheckStopped
  split
  · rename_i succeeded
    exact succeeded_not_waits succeeded
  · exact failed_not_waits rfl

theorem stopped_retains (icem : Icem) : RetainsFrom icem { icem with
    state := .completed
    tmrPace := false
    checkl := icem.checkl.map Icem.conncheckStopped } := by
  intro distinct
  constructor
  · exact (stopped_evolves any_cancelling icem distinct).distinct
  · exact fun compid has => has
  · exact same_comps icem
  · intro tested cp' member
    rcases mem_all.mp member with inCheck | inValid
    · obtain ⟨cp, -, rfl⟩ := List.mem_map.mp inCheck
      exact stopped_not_waits cp
    · exact tested cp' (mem_all.mpr (.inr inValid))
  · exact fun tested => tested

theorem retains_cancels : Cancels RetainsFrom where
  refl icem := .of_lists rfl rfl rfl (same_comps icem)
  trans := .trans
  inprogress icem id := update_retains icem id fun _ => ⟨rfl, rfl, fun waits => absurd waits (inprogress_not_waits rfl)⟩
  request {icem id cp} _ _ _ distinct := by
    have requested := update_retains icem id (f := fun cp => { cp with ctConn := some icem.sent.length })
      (fun _ => ⟨rfl, rfl, fun waits => waits⟩) distinct
    exact ⟨requested.distinct.of_ids (.refl _) rfl, requested.valid, requested.comps, requested.tested, requested.validTested⟩
  failed icem id := update_retains icem id fun _ => ⟨rfl, rfl, fun waits => absurd waits (failed_not_waits rfl)⟩
  makeValid := makeValid_retains
  nominated icem id := update_retains icem id fun _ => ⟨rfl, rfl, fun waits => waits⟩
  cloned := cloned_retains
  selected icem compid _ := .of_lists rfl rfl rfl (compUpdate_comps icem compid fun _ => ⟨rfl, fun _ => rfl⟩)
  concluded icem compid := .of_lists rfl rfl rfl (compUpdate_comps icem compid fun _ => ⟨rfl, id⟩)
  lcand icem _ _ _ := .of_lists rfl rfl rfl (same_comps icem)
  completed icem := .of_lists rfl rfl rfl (same_comps icem)
  fires icem := .of_lists rfl rfl rfl (same_comps icem)
  reports icem _ _ := .of_lists rfl rfl rfl (same_comps icem)
  cancel icem id := update_retains icem id fun _ => ⟨rfl, rfl, fun waits => waits⟩
  stopped := stopped_retains

theorem concludeAll_valid (fails : Nat → Bool) (compl : List Comp) {icem : Icem} (distinct : Distinct icem)
    (valid : ∀ comp ∈ compl, icem.HasValid comp.id) : (Icem.concludeAll fails compl icem).1 = false := by
  induction compl generalizing icem with
  | nil => rfl
  | cons comp rest ih =>
    rw [List.forall_mem_cons] at valid
    obtain ⟨⟨cp, member, same⟩, valid⟩ := valid
    have retains := retains_cancels.concludingIce fails icem comp.id distinct
    unfold Icem.concludeAll
    split
    · rename_i missing
      have differs := List.find?_eq_none.mp missing cp member
      simp [same] at differs
    · exact ih retains.distinct fun other inside => retains.valid other.id (valid other inside)

/-- The list has been completed with a selected pair for each component, and the handler was told of no error. -/
structure Concluded (icem : Icem) : Prop where
  distinct : Distinct icem
  completed : icem.state = .completed
  reported : icem.chkh ≠ []
  succeeded : ∀ call ∈ icem.chkh, call.1 = false
  comps : ∀ comp ∈ icem.compl, icem.HasValid comp.id ∧ comp.cpSel.isSome

theorem Concluded.of_retains {icem icem' : Icem} (concluded : Concluded icem) (retains : RetainsFrom icem icem')
    (stays : Stays icem icem') : Concluded icem' := by
  have retains := retains concluded.distinct
  constructor
  · exact retains.distinct
  · rw [stays.state, concluded.completed]
  · rw [stays.chkh]
    exact concluded.reported
  · rw [stays.chkh]
    exact concluded.succeeded
  · intro comp' member
    obtain ⟨comp, old, same, selected⟩ := retains.comps comp' member
    obtain ⟨valid, chosen⟩ := concluded.comps comp old
    exact ⟨same ▸ retains.valid comp.id valid, selected chosen⟩

section
variable (fails : Nat → Bool) {icem : Icem}

theorem checklistUpdate_concluded (distinct : Distinct icem) (completed : icem.isCompleted = true)
    (succeeded : ∀ call ∈ icem.chkh, call.1 = false)
    (comps : ∀ comp ∈ icem.compl, icem.HasValid comp.id ∧ comp.cpSel.isSome) :
    Concluded (icem.checklistUpdate fails) := by
  have retains := retains_cancels.concludeAll fails icem icem.compl distinct
  have keeps := keeps_schedules.concludeAll fails icem icem.compl
  have err := concludeAll_valid fails icem.compl distinct fun comp member => (comps comp member).1
  unfold Icem.checklistUpdate
  rw [if_pos completed]
  dsimp only
  rw [err]
  constructor
  · exact retains.distinct.of_ids (.refl _) rfl
  · rfl
  · exact List.append_ne_nil_of_right_ne_nil _ (List.cons_ne_nil _ _)
  · rw [keeps.chkh]
    intro call member
    rcases List.mem_append.mp member with old | new
    · exact succeeded call old
    · rw [List.mem_singleton.mp new]
  · intro comp' member
    obtain ⟨comp, old, same, selected⟩ := retains.comps comp' member
    obtain ⟨valid, chosen⟩ := comps comp old
    exact ⟨same ▸ retains.valid comp.id valid, selected chosen⟩

theorem stopped_completed (cp : Candpair) : (Icem.conncheckStopped cp).isCompleted = true := by
  unfold Icem.conncheckStopped Candpair.isCompleted
  split
  · rename_i succeeded
    simp [succeeded]
  · rfl

theorem selectValid_concluded {compid id : Nat} (distinct : Distinct icem)
    (succeeded : ∀ call ∈ icem.chkh, call.1 = false)
    (comps : ∀ comp ∈ icem.compl,
      (icem.candpairMakeValid id).HasValid comp.id ∧ (comp.id = compid ∨ comp.cpSel.isSome)) :
    Concluded (icem.selectValid fails compid id) := by
  have valid := makeValid_retains icem id distinct
  have selected := retains_cancels.selected (icem.candpairMakeValid id) compid id valid.distinct
  have nominated := retains_cancels.nominated ((icem.candpairMakeValid id).compSetSelected compid id) id selected.distinct
  have stopped := stopped_retains _ nominated.distinct
  have stays := (makeValid_stays icem id).trans (stays_moves.selected _ compid id)
  apply checklistUpdate_concluded
  · exact stopped.distinct
  · simp only [Icem.isCompleted, List.all_map, List.all_eq_true]
    exact fun cp _ => stopped_completed cp
  · show ∀ call ∈ ((icem.candpairMakeValid id).compSetSelected compid id).chkh, call.1 = false
    rw [stays.chkh]
    exact succeeded
  · intro comp' member
    obtain ⟨comp, old, rfl⟩ := List.mem_map.mp member
    rw [makeValid_compl] at old
    obtain ⟨has, chosen⟩ := comps comp old
    have has_ := stopped.valid comp.id (nominated.valid comp.id (selected.valid comp.id has))
    split
    · exact ⟨has_, rfl⟩
    · rename_i other
      exact ⟨has_, chosen.resolve_left other⟩

theorem Concluded.handleSuccess (concluded : Concluded icem) (cp : Candpair) (addr : Sa) :
    Concluded (icem.handleSuccess fails cp addr) := by
  have mapped := concluded.of_retains (retains_cancels.withMapped icem cp addr) (stays_moves.withMapped icem cp addr)
  have constructed := mapped.of_retains (retains_cancels.constructValidPair _ cp addr)
    (stays_moves.constructValidPair _ cp addr)
  unfold Icem.handleSuccess
  split
  · rename_i icem' result
    rwa [result] at constructed
  · rename_i id icem' result
    rw [result] at constructed
    apply selectValid_concluded fails constructed.distinct constructed.succeeded
    intro comp member
    obtain ⟨has, chosen⟩ := constructed.comps comp member
    exact ⟨(makeValid_retains icem' id constructed.distinct).valid comp.id has, .inr chosen⟩

end

end Baresip.Chk
