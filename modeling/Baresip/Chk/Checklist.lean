import Baresip.Chk.Conncheck

set_option linter.dupNamespace false

namespace Baresip.Chk

open Re

section
variable {α : Type*}

/-- The elements behind `x` as `uh` leaves them, and whether `x` stays. `uh` says which of two elements goes: the first
    for `true`. -/
def uniqueBehind (uh : α → α → Option Bool) (x : α) : List α → Bool × List α
  | [] => (true, [])
  | y :: rest =>
    match uh x y with
    | none => ((uniqueBehind uh x rest).1, y :: (uniqueBehind uh x rest).2)
    | some true => (false, y :: rest)
    | some false => uniqueBehind uh x rest

/-- The list has no more elements than `n`. -/
def uniqueSteps (uh : α → α → Option Bool) : Nat → List α → List α
  | 0, l => l
  | _, [] => []
  | n + 1, x :: rest =>
    if (uniqueBehind uh x rest).1 then x :: uniqueSteps uh n (uniqueBehind uh x rest).2
    else uniqueSteps uh n (uniqueBehind uh x rest).2

def iceListUnique (uh : α → α → Option Bool) (l : List α) : List α := uniqueSteps uh l.length l

theorem uniqueBehind_sublist (uh : α → α → Option Bool) (x : α) (l : List α) : (uniqueBehind uh x l).2.Sublist l := by
  induction l with
  | nil => exact .slnil
  | cons y rest ih =>
    unfold uniqueBehind
    split
    · exact ih.cons_cons y
    · exact .refl _
    · exact ih.cons y

theorem uniqueSteps_sublist (uh : α → α → Option Bool) (n : Nat) (l : List α) : (uniqueSteps uh n l).Sublist l := by
  induction n generalizing l with
  | zero => exact .refl l
  | succ n ih =>
    cases l with
    | nil => exact .slnil
    | cons x rest =>
      have behind := (ih (uniqueBehind uh x rest).2).trans (uniqueBehind_sublist uh x rest)
      unfold uniqueSteps
      split
      · exact behind.cons_cons x
      · exact behind.cons x

theorem iceListUnique_sublist (uh : α → α → Option Bool) (l : List α) : (iceListUnique uh l).Sublist l :=
  uniqueSteps_sublist uh l.length l

end

/-- The families of two addresses agree. -/
def sameAf : Sa → Sa → Bool
  | .unspec, .unspec => true
  | .inet .., .inet .. => true
  | .inet6 .., .inet6 .. => true
  | _, _ => false

/-- A candidate at an address is found also by being the same one. -/
def Cand.sameAddr (c1 c2 : Cand) : Bool := c1.id = c2.id ∨ c1.addr.cmp c2.addr .all

namespace Icem

def formable (icem : Icem) : List (Cand × Cand) :=
  icem.lcandl.flatMap fun lcand =>
    (icem.rcandl.filter fun rcand => lcand.compid = rcand.compid ∧ sameAf lcand.addr rcand.addr).map fun rcand =>
      (lcand, rcand)

def formPair (acc : Bool × Icem) (cands : Cand × Cand) : Bool × Icem :=
  (acc.1 || (acc.2.candpairAlloc cands.1 cands.2).1.isNone, (acc.2.candpairAlloc cands.1 cands.2).2)

/-- Whether there was an error, and the media with the pairs so far. -/
def candpairsForm (icem : Icem) : Bool × Icem :=
  if icem.lcandl.isEmpty then (true, icem) else icem.formable.foldl formPair (false, icem)

section
variable (base : Cand → Cand) (foundation : Cand → String)

def candSrflx (c : Cand) : Cand := if c.type = .srflx then base c else c

/-- Which of two pairs is redundant: the first one for `true`. -/
def uniqueHandler (cp1 cp2 : Candpair) : Option Bool :=
  if (candSrflx base cp1.lcand).sameAddr (candSrflx base cp2.lcand) ∧ cp1.rcand.sameAddr cp2.rcand then
    some (cp1.pprio < cp2.pprio)
  else none

def candpairPrune (icem : Icem) : Icem := { icem with checkl := iceListUnique (uniqueHandler base) icem.checkl }

def candpairCmpFnd (cp1 cp2 : Candpair) : Bool :=
  foundation cp1.lcand = foundation cp2.lcand ∧ foundation cp1.rcand = foundation cp2.rcand

def firstOfFoundation (l : List Candpair) (cp : Candpair) : Candpair :=
  l.foldl (fun cp cp2 =>
    if candpairCmpFnd foundation cp cp2 ∧ cp2.lcand.compid < cp.lcand.compid ∧ cp2.pprio > cp.pprio then cp2 else cp) cp

def candpairSetStates (icem : Icem) : Icem :=
  icem.checkl.foldl (fun icem' cp => icem'.candpairSetState (firstOfFoundation foundation icem.checkl cp).id .waiting)
    icem

/-- `first` is whether the media is the first one of its session. -/
def checklistForm (first : Bool) (icem : Icem) : Bool × Icem :=
  if icem.ice.lmode = .lite then (true, icem)
  else if icem.checkl ≠ [] then (true, icem)
  else
    let (err, icem) := icem.candpairsForm
    if err then (true, icem)
    else
      let icem := icem.candpairPrioOrder.candpairPrune base
      (false, if first then icem.candpairSetStates foundation else icem)

def conncheckStart (first : Bool) (icem : Icem) : Bool × Icem :=
  if icem.ice.lmode ≠ .full then (true, icem)
  else
    match icem.checklistForm base foundation first with
    | (true, icem) => (true, icem)
    | (false, icem) => (false, { icem with state := .running, tmrPace := true })

end

end Icem

end Baresip.Chk
