import Baresip.Re.Sa
import Mathlib.Data.List.Basic

set_option linter.dupNamespace false

namespace Baresip.Net

open Re

/-- The slots of the array `nsv` that both functions fill. -/
def nsvMax : Nat := 8

/-- The slots of the configured name servers. -/
def confMax : Nat := 4

def srvcMax : Nat := 32

/-- What `dns_srv_get` answers: an error, or servers that fit the array. -/
abbrev Lookup := Option { nsv : List Sa // nsv.length ≤ nsvMax }

/-- `nsv` are the configured name servers; `dnsc` holds the servers of the client. -/
structure State where
  nsv : List Sa
  dnsc : Option (List Sa)
  fits : nsv.length ≤ confMax
  deriving DecidableEq, Repr

inductive NetError
  | E2BIG
  deriving DecidableEq, Repr

def netDnssrvAdd (net : State) (sa : Sa) : Except NetError State :=
  if room : net.nsv.length < confMax then
    .ok { net with
      nsv := net.nsv ++ [sa]
      fits := by rw [List.length_append]; exact room }
  else .error .E2BIG

/-- The list that a client holds of the servers it is given. -/
def dnscSrvs (srvv : List Sa) : List Sa := srvv.take srvcMax

def dnscSrvSet (dnsc : Option (List Sa)) (srvv : List Sa) : Option (List Sa) :=
  match dnsc with
  | none => none
  | some _ => some (dnscSrvs srvv)

/-- An array as a loop fills it: the servers, and the slots that it has stored to. -/
structure Nsv where
  srvs : List Sa
  stores : List Nat
  deriving DecidableEq, Repr

def Nsv.push (a : Nsv) (sa : Sa) : Nsv := ⟨a.srvs ++ [sa], a.stores ++ [a.srvs.length]⟩

/-- The loop of `dns_refresh`. -/
def refreshLoop (a : Nsv) : List Sa → Nsv
  | [] => a
  | sa :: rest => refreshLoop (a.push sa) rest

/-- The loop of `dns_init`. -/
def initLoop (a : Nsv) : List Sa → Nsv
  | [] => a
  | sa :: rest => if a.srvs.length < nsvMax then initLoop (a.push sa) rest else a

/-- The slots that a refresh stores to, and the network after it. -/
def dnsRefresh (net : State) (lookup : Lookup) : List Nat × State :=
  match lookup with
  | none => ([], net)
  | some nsv =>
    let a := refreshLoop ⟨nsv.val, []⟩ net.nsv
    (a.stores, { net with dnsc := dnscSrvSet net.dnsc a.srvs })

/-- A client is made anew with the servers. -/
def dnsInit (net : State) (lookup : Lookup) : List Nat × State :=
  let nsv :=
    match lookup with
    | none => []
    | some nsv => nsv.val
  let a := initLoop ⟨nsv, []⟩ net.nsv
  (a.stores, { net with dnsc := some (dnscSrvs a.srvs) })

theorem refreshLoop_eq (a : Nsv) (conf : List Sa) :
    refreshLoop a conf = ⟨a.srvs ++ conf, a.stores ++ List.range' a.srvs.length conf.length⟩ := by
  induction conf generalizing a with
  | nil => simp [refreshLoop]
  | cons sa rest ih =>
    rw [refreshLoop, ih]
    simp [Nsv.push, List.range'_succ]

theorem initLoop_eq (a : Nsv) (conf : List Sa) (fits : a.srvs.length ≤ nsvMax) :
    initLoop a conf = refreshLoop a (conf.take (nsvMax - a.srvs.length)) := by
  induction conf generalizing a with
  | nil => simp [initLoop, refreshLoop]
  | cons sa rest ih =>
    rw [initLoop]
    split_ifs with room
    · have next : (a.push sa).srvs.length = a.srvs.length + 1 := by simp [Nsv.push]
      have slots : nsvMax - a.srvs.length = nsvMax - (a.srvs.length + 1) + 1 := by omega
      rw [ih (a.push sa) (by omega), next, slots, List.take_succ_cons, refreshLoop]
    · have full : nsvMax - a.srvs.length = 0 := by omega
      rw [full, List.take_zero, refreshLoop]

theorem range'_below {from_ n bound : Nat} : (∀ i ∈ List.range' from_ n, i < bound) ↔ n = 0 ∨ from_ + n ≤ bound := by
  constructor
  · intro all
    rcases Nat.eq_zero_or_pos n with none_ | some_
    · exact .inl none_
    · have last := all (from_ + (n - 1)) (List.mem_range'_1.mpr ⟨by omega, by omega⟩)
      exact .inr (by omega)
  · intro below i member
    have inside := List.mem_range'_1.mp member
    omega

theorem dnscSrvs_eq {srvv : List Sa} (fits : srvv.length ≤ srvcMax) : dnscSrvs srvv = srvv :=
  List.take_of_length_le fits

/-- The list that a start builds. -/
theorem dnsInit_srvs (net : State) (lookup : Lookup) :
    (dnsInit net lookup).2.dnsc =
      some (((lookup.map Subtype.val).getD [] ++ net.nsv).take nsvMax) := by
  have take_all (nsv : List Sa) (fits : nsv.length ≤ nsvMax) :
      nsv ++ net.nsv.take (nsvMax - nsv.length) = (nsv ++ net.nsv).take nsvMax := by
    rw [List.take_append, List.take_of_length_le fits]
  have within (nsv : List Sa) : (nsv.take nsvMax).length ≤ srvcMax :=
    Nat.le_trans (List.length_take_le _ _) (by decide)
  cases lookup with
  | none =>
    simp only [dnsInit, initLoop_eq ⟨[], []⟩ net.nsv (Nat.zero_le _), refreshLoop_eq]
    rw [take_all [] (Nat.zero_le _), dnscSrvs_eq (within _)]
    rfl
  | some nsv =>
    simp only [dnsInit, initLoop_eq ⟨nsv.val, []⟩ net.nsv nsv.property, refreshLoop_eq]
    rw [take_all nsv.val nsv.property, dnscSrvs_eq (within _)]
    rfl

/-- A start stores inside the array, whatever it is given. -/
theorem dnsInit_inside (net : State) (lookup : Lookup) : ∀ i ∈ (dnsInit net lookup).1, i < nsvMax := by
  have inside (nsv : List Sa) (fits : nsv.length ≤ nsvMax) :
      ∀ i ∈ (initLoop ⟨nsv, []⟩ net.nsv).stores, i < nsvMax := by
    rw [initLoop_eq ⟨nsv, []⟩ net.nsv fits, refreshLoop_eq, List.nil_append]
    apply range'_below.mpr
    have short := List.length_take_le (nsvMax - nsv.length) net.nsv
    right
    dsimp only
    omega
  cases lookup with
  | none => exact inside [] (Nat.zero_le _)
  | some nsv => exact inside nsv.val nsv.property

/-- A refresh does what a start would do with a client and room for all servers, and where it finds no
    servers with a client that has the configured ones. -/
theorem dnsRefresh_iff (net : State) (lookup : Lookup) :
    ((∀ i ∈ (dnsRefresh net lookup).1, i < nsvMax) ∧ (dnsRefresh net lookup).2.dnsc = (dnsInit net lookup).2.dnsc) ↔
      (∀ nsv ∈ lookup, net.dnsc ≠ none ∧ nsv.val.length + net.nsv.length ≤ nsvMax) ∧
        (lookup = none → net.dnsc = some net.nsv) := by
  have small : confMax ≤ nsvMax := by decide
  have fits := net.fits
  rw [dnsInit_srvs]
  cases lookup with
  | none =>
    have whole : net.nsv.take nsvMax = net.nsv := List.take_of_length_le (by omega)
    simp [dnsRefresh, whole]
  | some nsv =>
    have room := nsv.property
    simp only [dnsRefresh, refreshLoop_eq, List.nil_append, range'_below, Option.map_some, Option.getD_some,
      Option.mem_some_iff, forall_eq', reduceCtorEq, false_implies, and_true]
    constructor
    · rintro ⟨below, same⟩
      constructor
      · intro none_
        rw [none_] at same
        cases same
      · omega
    · rintro ⟨client, within⟩
      refine ⟨.inr within, ?_⟩
      cases dnsc : net.dnsc with
      | none => exact absurd dnsc client
      | some srvs =>
        have all : (nsv.val ++ net.nsv).length ≤ nsvMax := by
          rw [List.length_append]
          exact within
        rw [dnscSrvSet, List.take_of_length_le all, dnscSrvs_eq (Nat.le_trans all (by decide))]

/-- Where the list is what a start would build, a refresh that does the same leaves it as it is. -/
theorem dnsRefresh_unchanged {net : State} {lookup : Lookup} (built : net.dnsc = (dnsInit net lookup).2.dnsc)
    (fits : ∀ nsv ∈ lookup, nsv.val.length + net.nsv.length ≤ nsvMax) : (dnsRefresh net lookup).2 = net := by
  have small : confMax ≤ nsvMax := by decide
  have short := net.fits
  have same : (dnsRefresh net lookup).2.dnsc = net.dnsc := by
    rw [built]
    apply ((dnsRefresh_iff net lookup).mpr ⟨?_, ?_⟩).2
    · intro nsv found
      rw [built, dnsInit_srvs]
      exact ⟨nofun, fits nsv found⟩
    · rintro rfl
      have whole : net.nsv.take nsvMax = net.nsv := List.take_of_length_le (by omega)
      rw [built, dnsInit_srvs, Option.map_none, Option.getD_none, List.nil_append, whole]
  cases lookup with
  | none => rfl
  | some nsv =>
    cases net
    simp only [dnsRefresh] at same ⊢
    rw [same]

def server (n : Nat) : Sa := .inet (BitVec.ofNat 32 n) 53

/-- Six servers of the system and three that are configured. -/
def crowded : State := ⟨[server 7, server 8, server 9], some [], by decide⟩

def sixFound : Lookup := some ⟨[server 1, server 2, server 3, server 4, server 5, server 6], by decide⟩

theorem refresh_outside :
    8 ∈ (dnsRefresh crowded sixFound).1 ∧ (dnsRefresh crowded sixFound).2.dnsc ≠ (dnsInit crowded sixFound).2.dnsc ∧
      (dnsRefresh (dnsInit crowded sixFound).2 none).2.dnsc ≠ (dnsInit crowded none).2.dnsc := by
  decide

end Baresip.Net
