import Baresip.Chk.Candpair
import Baresip.Library.Runs
import Mathlib.Algebra.Ring.Nat

set_option linter.dupNamespace false

namespace Baresip.Chk

open Re Library

/-- What is done to the pairs of a media. The source has no function that changes the priority of a candidate: it is
    the plain assignment. -/
inductive PairOp
  | alloc (lcand rcand : Nat)
  | clone (id : Nat) (lcand rcand : Option Nat)
  | makeValid (id : Nat)
  | failed (id : Nat)
  | prioOrder
  | switchRole
  | setPrio (cand : Nat) (prio : BitVec 32)
  deriving DecidableEq, Repr

def candById (l : List Cand) (id : Nat) : Option Cand := l.find? fun c => c.id = id

def Cand.setPrio (id : Nat) (prio : BitVec 32) (c : Cand) : Cand := if c.id = id then { c with prio := prio } else c

def Candpair.setPrio (id : Nat) (prio : BitVec 32) (cp : Candpair) : Candpair :=
  { cp with lcand := cp.lcand.setPrio id prio, rcand := cp.rcand.setPrio id prio }

def pairStep (icem : Icem) : PairOp → Icem
  | .alloc l r =>
    match candById icem.lcandl l, candById icem.rcandl r with
    | some lcand, some rcand => (icem.candpairAlloc lcand rcand).2
    | _, _ => icem
  | .clone id l r =>
    match icem.pair id with
    | none => icem
    | some cp0 =>
      (icem.candpairClone cp0 (l.bind (candById icem.lcandl)) (r.bind (candById icem.rcandl))).2
  | .makeValid id => icem.candpairMakeValid id
  | .failed id => icem.candpairFailed id
  | .prioOrder => icem.candpairPrioOrder
  | .switchRole => icem.switchLocalRole
  | .setPrio cand prio =>
    { icem with
      lcandl := icem.lcandl.map (Cand.setPrio cand prio)
      rcandl := icem.rcandl.map (Cand.setPrio cand prio)
      checkl := icem.checkl.map (Candpair.setPrio cand prio)
      validl := icem.validl.map (Candpair.setPrio cand prio) }

/-- The priority of a pair as it is documented, from the priorities of the controlling and of the controlled
    candidate. -/
def pairPrio (g d : Nat) : Nat := 2 ^ 32 * min g d + 2 * max g d + if g > d then 1 else 0

def Candpair.prioIn (lrole : Role) (cp : Candpair) : Nat :=
  if lrole = .controlling then pairPrio cp.lcand.prio.toNat cp.rcand.prio.toNat
  else pairPrio cp.rcand.prio.toNat cp.lcand.prio.toNat

structure PairsOrdered (icem : Icem) : Prop where
  once : (icem.all.map Candpair.id).Perm (List.range icem.pairs)
  check : icem.checkl.Pairwise fun a b => b.pprio ≤ a.pprio
  valid : icem.validl.Pairwise fun a b => b.pprio ≤ a.pprio
  prios : ∀ cp ∈ icem.all, cp.pprio = cp.prioIn icem.ice.lrole

/-- Twice a priority is still one. -/
def Candpair.Small (cp : Candpair) : Prop := cp.lcand.prio.toNat < 2 ^ 31 ∧ cp.rcand.prio.toNat < 2 ^ 31

def Candpair.cloned (icem : Icem) (cp0 : Candpair) (lcand rcand : Option Nat) : Candpair :=
  { cp0 with
    lcand := (lcand.bind (candById icem.lcandl)).getD cp0.lcand
    rcand := (rcand.bind (candById icem.rcandl)).getD cp0.rcand }

/-- The operations that leave every priority as documented. -/
def LeavesPrios (icem : Icem) : PairOp → Prop
  | .alloc l r =>
    ∀ lcand ∈ candById icem.lcandl l, ∀ rcand ∈ candById icem.rcandl r,
      (icem.compFind lcand.compid).isSome → lcand.prio.toNat < 2 ^ 31 ∧ rcand.prio.toNat < 2 ^ 31
  | .clone id l r => ∀ cp0 ∈ icem.pair id, (cp0.cloned icem l r).prioIn icem.ice.lrole = cp0.pprio
  | .makeValid _ => True
  | .failed _ => True
  | .prioOrder => ∀ cp ∈ icem.checkl, cp.Small
  | .switchRole => (∀ cp ∈ icem.checkl, cp.Small) ∧ ∀ cp ∈ icem.validl, cp.lcand.prio = cp.rcand.prio
  | .setPrio cand prio => ∀ cp ∈ icem.all, (cp.setPrio cand prio).prioIn icem.ice.lrole = cp.pprio

theorem iceCalcPairPrio_iff (g d : BitVec 32) :
    iceCalcPairPrio g d = pairPrio g.toNat d.toNat ↔ g.toNat < 2 ^ 31 ∧ d.toNat < 2 ^ 31 := by
  unfold iceCalcPairPrio pairPrio prioValues
  simp only [gt_iff_lt, BitVec.lt_def]
  split
  · omega
  · omega

theorem candpairPrio_iff (lrole : Role) (cp : Candpair) : candpairPrio lrole cp = cp.prioIn lrole ↔ cp.Small := by
  unfold candpairPrio Candpair.prioIn Candpair.Small
  split
  · exact iceCalcPairPrio_iff ..
  · rw [iceCalcPairPrio_iff]
    exact And.comm

theorem candpairSetPprio_prioIn (lrole : Role) (cp : Candpair) :
    (candpairSetPprio lrole cp).prioIn lrole = cp.prioIn lrole := by
  unfold Candpair.prioIn candpairSetPprio
  rfl

theorem candpairSetPprio_iff (lrole : Role) (cp : Candpair) :
    (candpairSetPprio lrole cp).pprio = (candpairSetPprio lrole cp).prioIn lrole ↔ cp.Small := by
  rw [candpairSetPprio_prioIn]
  exact candpairPrio_iff lrole cp

theorem pairPrio_swap (a b : Nat) : pairPrio a b = pairPrio b a ↔ a = b := by
  unfold pairPrio
  split
  · split
    · omega
    · omega
  · split
    · omega
    · omega

/-- A new pair in the check list. -/
theorem PairsOrdered.add_iff {icem : Icem} (ordered : PairsOrdered icem) {cp : Candpair} (id_eq : cp.id = icem.pairs) :
    PairsOrdered { icem with checkl := listAddSorted icem.checkl cp, pairs := icem.pairs + 1 } ↔
      cp.prioIn icem.ice.lrole = cp.pprio := by
  have placed := listAddSorted_placed icem.checkl cp
  constructor
  · intro after
    exact (after.prios cp (mem_all.mpr (.inl (placed.mem_iff.mpr (.inl rfl))))).symm
  · intro prio
    constructor
    · have perm : (listAddSorted icem.checkl cp ++ icem.validl).Perm (cp :: icem.all) :=
        placed.perm.append_right icem.validl
      have ids := perm.map Candpair.id
      rw [List.map_cons, id_eq] at ids
      have next : (icem.pairs :: List.range icem.pairs).Perm (List.range (icem.pairs + 1)) := by
        rw [List.range_succ]
        exact (List.perm_append_singleton icem.pairs _).symm
      exact (ids.trans (ordered.once.cons icem.pairs)).trans next
    · exact listAddSorted_sorted cp ordered.check
    · exact ordered.valid
    · intro other member
      rcases mem_all.mp member with inCheck | inValid
      · rcases placed.mem_iff.mp inCheck with rfl | old
        · exact prio.symm
        · exact ordered.prios other (mem_all.mpr (.inl old))
      · exact ordered.prios other (mem_all.mpr (.inr inValid))

/-- A change of the pairs that leaves alone which they are and their priorities. -/
theorem PairsOrdered.map {icem : Icem} (ordered : PairsOrdered icem) {f : Candpair → Candpair}
    (same : ∀ cp, (f cp).id = cp.id ∧ (f cp).pprio = cp.pprio) (lcandl rcandl : List Cand)
    (prios : ∀ cp ∈ icem.all, (f cp).prioIn icem.ice.lrole = cp.pprio) :
    PairsOrdered { icem with
      lcandl := lcandl
      rcandl := rcandl
      checkl := icem.checkl.map f
      validl := icem.validl.map f } := by
  constructor
  · have ids : ((icem.checkl.map f ++ icem.validl.map f).map Candpair.id) = icem.all.map Candpair.id := by
      rw [← List.map_append, List.map_map]
      exact List.map_congr_left fun cp _ => (same cp).1
    show ((icem.checkl.map f ++ icem.validl.map f).map Candpair.id).Perm _
    rw [ids]
    exact ordered.once
  · apply List.pairwise_map.mpr
    apply ordered.check.imp
    intro a b falls
    rw [(same a).2, (same b).2]
    exact falls
  · apply List.pairwise_map.mpr
    apply ordered.valid.imp
    intro a b falls
    rw [(same a).2, (same b).2]
    exact falls
  · intro cp' member
    have member : cp' ∈ icem.all.map f := by
      rw [Icem.all, List.map_append]
      exact member
    obtain ⟨cp, old, rfl⟩ := List.mem_map.mp member
    rw [(same cp).2]
    exact (prios cp old).symm

theorem PairsOrdered.makeValid {icem : Icem} (ordered : PairsOrdered icem) (id : Nat) :
    PairsOrdered (icem.candpairMakeValid id) := by
  unfold Icem.candpairMakeValid
  split
  · exact ordered
  · rename_i cp here
    obtain ⟨member, rfl⟩ := pair_some here
    have placed := listAddSorted_placed (icem.validl.filter fun other => other.id ≠ cp.id)
      { cp with valid := true, state := .succeeded }
    constructor
    · have nodup : (icem.all.map Candpair.id).Nodup := ordered.once.nodup_iff.mpr List.nodup_range
      exact (makeValid_ids member nodup).trans ordered.once
    · exact ordered.check.filter _
    · exact listAddSorted_sorted _ (ordered.valid.filter _)
    · intro other inside
      rcases List.mem_append.mp inside with inCheck | inValid
      · exact ordered.prios other (mem_all.mpr (.inl (List.mem_of_mem_filter inCheck)))
      · rcases placed.mem_iff.mp inValid with rfl | old
        · exact ordered.prios cp member
        · exact ordered.prios other (mem_all.mpr (.inr (List.mem_of_mem_filter old)))

theorem PairsOrdered.failed {icem : Icem} (ordered : PairsOrdered icem) (id : Nat) :
    PairsOrdered (icem.candpairFailed id) := by
  apply ordered.map
  · intro cp
    split
    · exact ⟨rfl, rfl⟩
    · exact ⟨rfl, rfl⟩
  · intro cp member
    rw [ordered.prios cp member]
    split
    · rfl
    · rfl

/-- The check list is reordered for a role, the valid list is not. -/
theorem PairsOrdered.reorder_iff {icem : Icem} (ordered : PairsOrdered icem) (role : Role) :
    PairsOrdered { icem with
      ice := { icem.ice with lrole := role }
      checkl := listSort (icem.checkl.map (candpairSetPprio role)) } ↔
    (∀ cp ∈ icem.checkl, cp.Small) ∧ ∀ cp ∈ icem.validl, cp.pprio = cp.prioIn role := by
  have perm := listSort_perm (icem.checkl.map (candpairSetPprio role))
  constructor
  · intro after
    constructor
    · intro cp member
      have inside : candpairSetPprio role cp ∈ listSort (icem.checkl.map (candpairSetPprio role)) :=
        perm.mem_iff.mpr (List.mem_map_of_mem member)
      exact (candpairSetPprio_iff role cp).mp (after.prios _ (mem_all.mpr (.inl inside)))
    · intro cp member
      exact after.prios cp (mem_all.mpr (.inr member))
  · rintro ⟨small, valid⟩
    constructor
    · have ids := (perm.append_right icem.validl).map Candpair.id
      have same : (icem.checkl.map (candpairSetPprio role) ++ icem.validl).map Candpair.id =
          icem.all.map Candpair.id := by
        unfold Icem.all
        rw [List.map_append, List.map_append, List.map_map]
        rfl
      rw [same] at ids
      exact ids.trans ordered.once
    · exact listSort_sorted _
    · exact ordered.valid
    · intro cp' member
      rcases mem_all.mp member with inCheck | inValid
      · obtain ⟨cp, old, rfl⟩ := List.mem_map.mp (perm.mem_iff.mp inCheck)
        exact (candpairSetPprio_iff role cp).mpr (small cp old)
      · exact valid cp' inValid

theorem prioIn_switched (lrole : Role) (cp : Candpair) :
    cp.prioIn lrole = cp.prioIn (if lrole = .controlling then .controlled else .controlling) ↔
      cp.lcand.prio = cp.rcand.prio := by
  unfold Candpair.prioIn
  split
  · rw [if_neg (by decide), pairPrio_swap, BitVec.toNat_inj]
  · rw [if_pos rfl, pairPrio_swap, BitVec.toNat_inj, eq_comm]

theorem alloc_ordered_iff {icem : Icem} (ordered : PairsOrdered icem) (lcand rcand : Cand) :
    PairsOrdered (icem.candpairAlloc lcand rcand).2 ↔
      ((icem.compFind lcand.compid).isSome → lcand.prio.toNat < 2 ^ 31 ∧ rcand.prio.toNat < 2 ^ 31) := by
  unfold Icem.candpairAlloc
  split
  · rename_i none_
    rw [none_]
    exact iff_of_true ordered fun known => by cases known
  · rename_i comp here
    rw [here]
    refine (ordered.add_iff rfl).trans ?_
    rw [eq_comm]
    refine (candpairSetPprio_iff _ _).trans ?_
    exact ⟨fun small _ => small, fun small => small rfl⟩

theorem pairStep_ordered_iff {icem : Icem} (ordered : PairsOrdered icem) (op : PairOp) :
    PairsOrdered (pairStep icem op) ↔ LeavesPrios icem op := by
  cases op with
  | alloc l r =>
    simp only [pairStep, LeavesPrios]
    cases candById icem.lcandl l with
    | none =>
      apply iff_of_true ordered
      intro lcand here
      cases here
    | some lcand =>
      cases candById icem.rcandl r with
      | none =>
        apply iff_of_true ordered
        intro lcand _ rcand here
        cases here
      | some rcand =>
        refine (alloc_ordered_iff ordered lcand rcand).trans ?_
        constructor
        · rintro small _ ⟨⟩ _ ⟨⟩
          exact small
        · intro small
          exact small lcand rfl rcand rfl
  | clone id l r =>
    simp only [pairStep, LeavesPrios]
    cases icem.pair id with
    | none =>
      apply iff_of_true ordered
      intro cp0 here
      cases here
    | some cp0 =>
      refine (ordered.add_iff rfl).trans ?_
      constructor
      · rintro same _ ⟨⟩
        exact same
      · intro same
        exact same cp0 rfl
  | makeValid id => exact iff_of_true (ordered.makeValid id) trivial
  | failed id => exact iff_of_true (ordered.failed id) trivial
  | prioOrder =>
    refine (ordered.reorder_iff icem.ice.lrole).trans ?_
    exact and_iff_left fun cp member => ordered.prios cp (mem_all.mpr (.inr member))
  | switchRole =>
    refine (ordered.reorder_iff _).trans ?_
    apply and_congr_right
    intro _
    apply forall₂_congr
    intro cp member
    rw [ordered.prios cp (mem_all.mpr (.inr member))]
    exact prioIn_switched icem.ice.lrole cp
  | setPrio cand prio =>
    constructor
    · intro after cp member
      have inside : cp.setPrio cand prio ∈ (pairStep icem (.setPrio cand prio)).all := by
        unfold Icem.all pairStep
        rw [← List.map_append]
        exact List.mem_map_of_mem member
      exact (after.prios _ inside).symm
    · intro same
      exact ordered.map (f := Candpair.setPrio cand prio) (fun cp => ⟨rfl, rfl⟩) _ _ same

theorem PairsOrdered.of_no_pairs {icem : Icem} (check : icem.checkl = []) (valid : icem.validl = [])
    (pairs : icem.pairs = 0) : PairsOrdered icem := by
  have all : icem.all = [] := by rw [Icem.all, check, valid, List.append_nil]
  constructor
  · rw [all, pairs]
    exact .nil
  · rw [check]
    exact .nil
  · rw [valid]
    exact .nil
  · rw [all]
    exact List.forall_mem_nil _

/-- The lists stay in the order of the documented priorities over exactly the runs whose operations all leave every
    priority as documented. -/
theorem pairs_ordered_iff (icem : Icem) (ops : List PairOp) (check : icem.checkl = []) (valid : icem.validl = [])
    (pairs : icem.pairs = 0) : Throughout pairStep PairsOrdered icem ops ↔ Along pairStep LeavesPrios icem ops :=
  throughout_iff_along (fun _ op ordered => pairStep_ordered_iff ordered op) (.of_no_pairs check valid pairs)

def hostCand (id : Nat) (prio : BitVec 32) : Cand := ⟨id, .host, prio, 1, .init⟩

def rtpOnly (lcandl rcandl : List Cand) : Icem :=
  mediaOf ⟨.full, .controlling, 0, .regular⟩ lcandl rcandl [⟨1, none, false⟩]

instance (icem : Icem) : DecidablePred (LeavesPrios icem) := fun op =>
  match op with
  | .alloc l r =>
    inferInstanceAs (Decidable (∀ lcand ∈ candById icem.lcandl l, ∀ rcand ∈ candById icem.rcandl r,
      (icem.compFind lcand.compid).isSome → lcand.prio.toNat < 2 ^ 31 ∧ rcand.prio.toNat < 2 ^ 31))
  | .clone id l r =>
    inferInstanceAs (Decidable (∀ cp0 ∈ icem.pair id, (cp0.cloned icem l r).prioIn icem.ice.lrole = cp0.pprio))
  | .makeValid _ => inferInstanceAs (Decidable True)
  | .failed _ => inferInstanceAs (Decidable True)
  | .prioOrder =>
    inferInstanceAs (Decidable (∀ cp ∈ icem.checkl, cp.lcand.prio.toNat < 2 ^ 31 ∧ cp.rcand.prio.toNat < 2 ^ 31))
  | .switchRole =>
    inferInstanceAs (Decidable ((∀ cp ∈ icem.checkl, cp.lcand.prio.toNat < 2 ^ 31 ∧ cp.rcand.prio.toNat < 2 ^ 31) ∧
      ∀ cp ∈ icem.validl, cp.lcand.prio = cp.rcand.prio))
  | .setPrio cand prio =>
    inferInstanceAs (Decidable (∀ cp ∈ icem.all, (cp.setPrio cand prio).prioIn icem.ice.lrole = cp.pprio))

theorem pairs_ordered_iff_two_candidates :
    Throughout pairStep PairsOrdered (rtpOnly [hostCand 0 20, hostCand 1 10] [hostCand 2 15])
      [.alloc 1 2, .alloc 0 2, .clone 0 none none, .switchRole, .failed 0, .setPrio 3 7, .makeValid 1] :=
  (pairs_ordered_iff (rtpOnly [hostCand 0 20, hostCand 1 10] [hostCand 2 15])
    [.alloc 1 2, .alloc 0 2, .clone 0 none none, .switchRole, .failed 0, .setPrio 3 7, .makeValid 1]
    rfl rfl rfl).mpr (by decide)

/-- After the switch the valid pair has the priority of the role that it was made in. -/
theorem valid_pair_stale :
    ¬ Throughout pairStep PairsOrdered (rtpOnly [hostCand 0 2] [hostCand 1 1])
      [.alloc 0 1, .makeValid 0, .switchRole] := by
  intro throughout
  have prios := throughout.last.prios
  revert prios
  decide

end Baresip.Chk
