import Baresip.Library.SwapSort
import Baresip.Re.Mbuf
import Baresip.Re.Sa
import Mathlib.Data.List.Nodup

set_option linter.dupNamespace false

namespace Baresip.Chk

open Re Library

inductive Role
  | unknown | controlling | controlled
  deriving DecidableEq, Repr

inductive CandType
  | host | srflx | prflx | relay
  deriving DecidableEq, Repr

inductive CandpairState
  | frozen | waiting | inprogress | succeeded | failed
  deriving DecidableEq, Repr

inductive ChecklState
  | null | running | completed | failed
  deriving DecidableEq, Repr

inductive IceMode
  | full | lite
  deriving DecidableEq, Repr

inductive Nomination
  | regular | aggressive
  deriving DecidableEq, Repr

/-- `id` tells one candidate object from another. -/
structure Cand where
  id : Nat
  type : CandType
  prio : BitVec 32
  compid : Nat
  addr : Sa
  deriving DecidableEq, Repr

/-- A pair and the candidates that it points to. `ctConn` is the number of its STUN transaction. -/
structure Candpair where
  id : Nat
  comp : Nat
  lcand : Cand
  rcand : Cand
  valid : Bool
  nominated : Bool
  state : CandpairState
  pprio : Nat
  ctConn : Option Nat
  deriving DecidableEq, Repr

/-- `cpSel` is the selected pair. -/
structure Comp where
  id : Nat
  cpSel : Option Nat
  concluded : Bool
  deriving DecidableEq, Repr

structure Ice where
  lmode : IceMode
  lrole : Role
  tiebrk : BitVec 64
  nom : Nomination
  deriving DecidableEq, Repr

/-- A check that has gone out. Its transaction has the number of its place in the log. -/
structure Sent where
  pair : Nat
  role : Role
  tiebrk : BitVec 64
  useCand : Bool
  deriving DecidableEq, Repr

/-- A media with its session. `tmrPace` is whether the timer runs, `sent` logs the checks and `chkh` the calls of the
    check handler: whether with an error, and whether the agent is the controlling one. -/
structure Icem where
  ice : Ice
  lcandl : List Cand
  rcandl : List Cand
  checkl : List Candpair
  validl : List Candpair
  state : ChecklState
  compl : List Comp
  tmrPace : Bool
  cands : Nat
  pairs : Nat
  sent : List Sent
  chkh : List (Bool × Bool)
  deriving DecidableEq, Repr

def typePrio : CandType → BitVec 32
  | .host => 126
  | .srflx => 100
  | .prflx => 110
  | .relay => 0

def iceCalcPrio (type : CandType) (lpref : BitVec 16) (compid : Nat) : BitVec 32 :=
  typePrio type <<< 24 ||| lpref.setWidth 32 <<< 8 ||| .ofNat 32 (256 - compid)

/-- How many values the type of a priority has. -/
def prioValues : Nat := 4294967296

/-- The larger priority is doubled in the type of a priority. -/
def iceCalcPairPrio (g d : BitVec 32) : Nat :=
  min g.toNat d.toNat * prioValues + (2 * max g.toNat d.toNat) % prioValues + if g > d then 1 else 0

def sortHandler (cp1 cp2 : Candpair) : Bool := cp1.pprio ≥ cp2.pprio

def candpairPrio (lrole : Role) (cp : Candpair) : Nat :=
  if lrole = .controlling then iceCalcPairPrio cp.lcand.prio cp.rcand.prio
  else iceCalcPairPrio cp.rcand.prio cp.lcand.prio

def candpairSetPprio (lrole : Role) (cp : Candpair) : Candpair := { cp with pprio := candpairPrio lrole cp }

/-- The search for the slot from the tail, on the reversed list. -/
def addSortedRev (cp : Candpair) : List Candpair → List Candpair
  | [] => [cp]
  | cp0 :: rest => if cp.pprio < cp0.pprio then cp :: cp0 :: rest else cp0 :: addSortedRev cp rest

def listAddSorted (l : List Candpair) (cp : Candpair) : List Candpair := (addSortedRev cp l.reverse).reverse

def listSort (l : List Candpair) : List Candpair := swapSort Candpair.pprio sortHandler l

namespace Icem

def all (icem : Icem) : List Candpair := icem.checkl ++ icem.validl

def pair (icem : Icem) (id : Nat) : Option Candpair := icem.all.find? fun cp => cp.id = id

def update (icem : Icem) (id : Nat) (f : Candpair → Candpair) : Icem :=
  { icem with
    checkl := icem.checkl.map fun cp => if cp.id = id then f cp else cp
    validl := icem.validl.map fun cp => if cp.id = id then f cp else cp }

def compFind (icem : Icem) (compid : Nat) : Option Comp := icem.compl.find? fun comp => comp.id = compid

def candpairAlloc (icem : Icem) (lcand rcand : Cand) : Option Nat × Icem :=
  match icem.compFind lcand.compid with
  | none => (none, icem)
  | some comp =>
    let cp := candpairSetPprio icem.ice.lrole ⟨icem.pairs, comp.id, lcand, rcand, false, false, .frozen, 0, none⟩
    (some cp.id, { icem with checkl := listAddSorted icem.checkl cp, pairs := icem.pairs + 1 })

def candpairClone (icem : Icem) (cp0 : Candpair) (lcand rcand : Option Cand) : Nat × Icem :=
  let cp := { cp0 with
    id := icem.pairs
    lcand := lcand.getD cp0.lcand
    rcand := rcand.getD cp0.rcand
    ctConn := none }
  (cp.id, { icem with checkl := listAddSorted icem.checkl cp, pairs := icem.pairs + 1 })

def candpairPrioOrder (icem : Icem) : Icem :=
  { icem with checkl := listSort (icem.checkl.map (candpairSetPprio icem.ice.lrole)) }

def candpairSetState (icem : Icem) (id : Nat) (state : CandpairState) : Icem :=
  icem.update id fun cp => { cp with state := state }

def candpairCancel (icem : Icem) (id : Nat) : Icem := icem.update id fun cp => { cp with ctConn := none }

def candpairMakeValid (icem : Icem) (id : Nat) : Icem :=
  match icem.pair id with
  | none => icem
  | some cp =>
    { icem with
      checkl := icem.checkl.filter fun cp => cp.id ≠ id
      validl := listAddSorted (icem.validl.filter fun cp => cp.id ≠ id)
        { cp with valid := true, state := .succeeded } }

def candpairFailed (icem : Icem) (id : Nat) : Icem :=
  icem.update id fun cp => { cp with valid := false, state := .failed }

def switchLocalRole (icem : Icem) : Icem :=
  let role := if icem.ice.lrole = .controlling then Role.controlled else .controlling
  { icem with ice := { icem.ice with lrole := role } }.candpairPrioOrder

end Icem

/-- A media before any pair has been made. -/
def mediaOf (ice : Ice) (lcandl rcandl : List Cand) (compl : List Comp) : Icem where
  ice := ice
  lcandl := lcandl
  rcandl := rcandl
  checkl := []
  validl := []
  state := .null
  compl := compl
  tmrPace := false
  cands := lcandl.length + rcandl.length
  pairs := 0
  sent := []
  chkh := []

/-! The order of the lists, and the pairs in them. -/

def Falls (a b : Candpair) : Prop := b.pprio ≤ a.pprio

theorem Falls.trans {a b c : Candpair} (ab : Falls a b) (bc : Falls b c) : Falls a c := Nat.le_trans bc ab

theorem addSortedRev_placed (cp : Candpair) (rev : List Candpair) :
    Placed Falls cp rev.reverse (addSortedRev cp rev).reverse := by
  induction rev with
  | nil =>
    apply Placed.last
    intro other last
    cases last
  | cons cp0 rest ih =>
    unfold addSortedRev
    split
    · rename_i less
      rw [List.reverse_cons (a := cp)]
      apply Placed.last
      intro other last
      obtain rfl : cp0 = other := by simpa using last
      exact Nat.le_of_lt less
    · rename_i passed
      rw [List.reverse_cons, List.reverse_cons]
      exact ih.pass (Nat.le_of_not_lt passed)

theorem listAddSorted_placed (l : List Candpair) (cp : Candpair) : Placed Falls cp l (listAddSorted l cp) := by
  have placed := addSortedRev_placed cp l.reverse
  rwa [List.reverse_reverse] at placed

theorem listAddSorted_sorted {l : List Candpair} (cp : Candpair) (sorted : l.Pairwise Falls) :
    (listAddSorted l cp).Pairwise Falls :=
  (listAddSorted_placed l cp).pairwise Falls.trans sorted

theorem listSort_perm (l : List Candpair) : (listSort l).Perm l := (swapSort_spec (fun _ _ => rfl) l).1

theorem listSort_sorted (l : List Candpair) : (listSort l).Pairwise Falls := (swapSort_spec (fun _ _ => rfl) l).2

theorem mem_all {icem : Icem} {cp : Candpair} : cp ∈ icem.all ↔ cp ∈ icem.checkl ∨ cp ∈ icem.validl :=
  List.mem_append

theorem pair_some {icem : Icem} {id : Nat} {cp : Candpair} (here : icem.pair id = some cp) :
    cp ∈ icem.all ∧ cp.id = id :=
  ⟨List.mem_of_find?_eq_some here, by simpa using List.find?_some here⟩

theorem filter_ids (l : List Candpair) (id : Nat) :
    (l.filter fun cp => cp.id ≠ id).map Candpair.id = (l.map Candpair.id).filter (· ≠ id) := by
  rw [List.filter_map]
  rfl

theorem perm_of_one_again {ids : List Nat} (nodup : ids.Nodup) {id : Nat} (member : id ∈ ids) :
    (id :: ids.filter (· ≠ id)).Perm ids := by
  have erased : ids.filter (· ≠ id) = ids.erase id := by
    rw [nodup.erase_eq_filter id]
    exact List.filter_congr fun x _ => by simp [bne, beq_eq_decide]
  rw [erased]
  exact (List.perm_cons_erase member).symm

/-- The pairs with a valid one moved to its place. -/
theorem makeValid_perm (icem : Icem) (cp : Candpair) :
    ((icem.checkl.filter fun other => other.id ≠ cp.id) ++
      listAddSorted (icem.validl.filter fun other => other.id ≠ cp.id)
        { cp with valid := true, state := .succeeded }).Perm
    ({ cp with valid := true, state := .succeeded } :: icem.all.filter fun other => other.id ≠ cp.id) := by
  have placed := listAddSorted_placed (icem.validl.filter fun other => other.id ≠ cp.id)
    { cp with valid := true, state := .succeeded }
  apply (placed.perm.append_left (icem.checkl.filter fun other => other.id ≠ cp.id)).trans
  unfold Icem.all
  rw [List.filter_append]
  exact List.perm_middle

theorem makeValid_ids {icem : Icem} {cp : Candpair} (member : cp ∈ icem.all)
    (nodup : (icem.all.map Candpair.id).Nodup) :
    (((icem.checkl.filter fun other => other.id ≠ cp.id) ++
      listAddSorted (icem.validl.filter fun other => other.id ≠ cp.id)
        { cp with valid := true, state := .succeeded }).map Candpair.id).Perm (icem.all.map Candpair.id) := by
  have ids := (makeValid_perm icem cp).map Candpair.id
  rw [List.map_cons, filter_ids] at ids
  have again : cp.id ∈ icem.all.map Candpair.id := List.mem_map_of_mem member
  exact ids.trans (perm_of_one_again nodup again)

end Baresip.Chk
