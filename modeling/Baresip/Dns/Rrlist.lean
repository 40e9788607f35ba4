import Baresip.Chk.Candpair
import Baresip.Dns.Rr
import Baresip.Library.Loops
import Baresip.Re.SdpSession

set_option linter.dupNamespace false

namespace Baresip.Dns

open Library
open Re (Byte cstr tolower)

namespace Rdata

/-! The fields of the record data that are read without looking at its type. -/

def mxPref : Rdata → BitVec 16
  | mx pref _ => pref
  | _ => 0

def srvPri : Rdata → BitVec 16
  | srv pri .. => pri
  | _ => 0

def srvWeight : Rdata → BitVec 16
  | srv _ weight .. => weight
  | _ => 0

def naptrOrder : Rdata → BitVec 16
  | naptr order .. => order
  | _ => 0

def naptrPref : Rdata → BitVec 16
  | naptr _ pref .. => pref
  | _ => 0

end Rdata

def stdSortHandler (type : BitVec 16) (rr1 rr2 : Dnsrr) : Bool :=
  if type ≠ rr1.rdata.type then type ≠ rr2.rdata.type
  else if type ≠ rr2.rdata.type then true
  else if type = DnsType.MX.code then rr1.rdata.mxPref ≤ rr2.rdata.mxPref
  else if type = DnsType.SRV.code then
    if rr1.rdata.srvPri = rr2.rdata.srvPri then
      if rr1.rdata.srvWeight ≠ 0 then rr2.rdata.srvWeight ≠ 0 else true
    else rr1.rdata.srvPri < rr2.rdata.srvPri
  else if type = DnsType.NAPTR.code then
    if rr1.rdata.naptrOrder = rr2.rdata.naptrOrder then rr1.rdata.naptrPref ≤ rr2.rdata.naptrPref
    else rr1.rdata.naptrOrder < rr2.rdata.naptrOrder
  else true

/-- How far in front a record belongs among those of its type. -/
def placeWithin (type : BitVec 16) (rdata : Rdata) : Nat :=
  if type = DnsType.MX.code then 65536 - rdata.mxPref.toNat
  else if type = DnsType.SRV.code then 2 * (65536 - rdata.srvPri.toNat) + if rdata.srvWeight = 0 then 1 else 0
  else if type = DnsType.NAPTR.code then
    65536 * (65536 - rdata.naptrOrder.toNat) + (65535 - rdata.naptrPref.toNat)
  else 1

def place (type : BitVec 16) (rr : Dnsrr) : Nat := if rr.rdata.type = type then placeWithin type rr.rdata else 0

def dnsRrlistSort (type : BitVec 16) (rrl : List Dnsrr) : List Dnsrr := swapSort (place type) (stdSortHandler type) rrl

/-- The first of two records of a type is used before the second. -/
def preferred (type : BitVec 16) (r1 r2 : Rdata) : Bool :=
  if type = DnsType.MX.code then r1.mxPref < r2.mxPref
  else if type = DnsType.SRV.code then
    r1.srvPri < r2.srvPri ∨ (r1.srvPri = r2.srvPri ∧ r1.srvWeight = 0 ∧ r2.srvWeight ≠ 0)
  else if type = DnsType.NAPTR.code then
    r1.naptrOrder < r2.naptrOrder ∨ (r1.naptrOrder = r2.naptrOrder ∧ r1.naptrPref < r2.naptrPref)
  else false

def ahead (type : BitVec 16) (rr1 rr2 : Dnsrr) : Bool :=
  rr1.rdata.type = type ∧ (rr2.rdata.type = type → preferred type rr1.rdata rr2.rdata)

theorem preferred_iff (type : BitVec 16) (r1 r2 : Rdata) :
    preferred type r1 r2 = true ↔ placeWithin type r2 < placeWithin type r1 := by
  unfold preferred placeWithin
  by_cases mx : type = DnsType.MX.code
  · have first := r1.mxPref.isLt
    simp only [if_pos mx, decide_eq_true_iff, BitVec.lt_def]
    omega
  by_cases srv : type = DnsType.SRV.code
  · have first := r1.srvPri.isLt
    have second := r2.srvPri.isLt
    simp only [if_neg mx, if_pos srv, decide_eq_true_iff, BitVec.lt_def, ← BitVec.toNat_inj (x := r1.srvPri)]
    split_ifs <;> simp_all <;> omega
  by_cases naptr : type = DnsType.NAPTR.code
  · have first := r1.naptrOrder.isLt
    have second := r2.naptrOrder.isLt
    have third := r1.naptrPref.isLt
    have fourth := r2.naptrPref.isLt
    simp only [if_neg mx, if_neg srv, if_pos naptr, decide_eq_true_iff, BitVec.lt_def,
      ← BitVec.toNat_inj (x := r1.naptrOrder)]
    omega
  simp [mx, srv, naptr]

theorem placeWithin_pos (type : BitVec 16) (rdata : Rdata) : 0 < placeWithin type rdata := by
  have pref := rdata.mxPref.isLt
  have pri := rdata.srvPri.isLt
  have order := rdata.naptrOrder.isLt
  unfold placeWithin
  split_ifs <;> omega

theorem ahead_iff (type : BitVec 16) (rr1 rr2 : Dnsrr) :
    ahead type rr1 rr2 = true ↔ place type rr2 < place type rr1 := by
  have positive := placeWithin_pos type rr1.rdata
  unfold ahead place
  by_cases first : rr1.rdata.type = type
  · by_cases second : rr2.rdata.type = type
    · simp [first, second, preferred_iff]
    · simp [first, second, positive]
  · simp [first]

theorem lt_iff_of_ne {x y : BitVec 16} (other : x ≠ y) : x < y ↔ ¬ y < x := by
  have apart : x.toNat ≠ y.toNat := fun same => other (BitVec.eq_of_toNat_eq same)
  rw [BitVec.lt_def, BitVec.lt_def]
  omega

/-- A record may stand before another one unless that one belongs in front of it. -/
theorem stdSortHandler_eq (type : BitVec 16) (rr1 rr2 : Dnsrr) :
    stdSortHandler type rr1 rr2 = !ahead type rr2 rr1 := by
  by_cases first : rr1.rdata.type = type
  · by_cases second : rr2.rdata.type = type
    · have both : ahead type rr2 rr1 = preferred type rr2.rdata rr1.rdata := by simp [ahead, first, second]
      rw [both, stdSortHandler, if_neg (not_not.mpr first.symm), if_neg (not_not.mpr second.symm), preferred]
      by_cases mx : type = DnsType.MX.code
      · simp [if_pos mx, ← BitVec.not_lt]
      by_cases srv : type = DnsType.SRV.code
      · rw [if_neg mx, if_pos srv, if_neg mx, if_pos srv]
        by_cases same : rr1.rdata.srvPri = rr2.rdata.srvPri
        · simp [same, Bool.or_comm]
        · simp [same, Ne.symm same, lt_iff_of_ne same, - BitVec.not_lt]
      by_cases naptr : type = DnsType.NAPTR.code
      · rw [if_neg mx, if_neg srv, if_pos naptr, if_neg mx, if_neg srv, if_pos naptr]
        by_cases same : rr1.rdata.naptrOrder = rr2.rdata.naptrOrder
        · simp [same, ← BitVec.not_lt]
        · simp [same, Ne.symm same, lt_iff_of_ne same, - BitVec.not_lt]
      · simp [mx, srv, naptr]
    · simp [stdSortHandler, ahead, first, second, Ne.symm second]
  · simp [stdSortHandler, ahead, Ne.symm first, first, decide_eq_decide.mpr (@eq_comm _ type rr2.rdata.type)]

theorem stdSortHandler_order (type : BitVec 16) (rr1 rr2 : Dnsrr) :
    stdSortHandler type rr1 rr2 = decide (place type rr2 ≤ place type rr1) := by
  rw [stdSortHandler_eq, Bool.eq_iff_iff, Bool.not_eq_true', Bool.eq_false_iff, ne_eq, ahead_iff, Nat.not_lt,
    decide_eq_true_iff]

theorem dnsRrlistSort_sorted (type : BitVec 16) (rrl : List Dnsrr) :
    SortedFrom (ahead type) rrl (dnsRrlistSort type rrl) :=
  swapSort_sorted (ahead_iff type) (stdSortHandler_order type) rrl

theorem candpairPrioOrder_sorted (icem : Chk.Icem) :
    SortedFrom (fun cp1 cp2 => cp2.pprio < cp1.pprio) (icem.checkl.map (Chk.candpairSetPprio icem.ice.lrole))
      icem.candpairPrioOrder.checkl :=
  swapSort_sorted (fun _ _ => decide_eq_true_iff) (fun _ _ => rfl) _

/-- `list_sort` ends for the handlers of records and of candidate pairs, and sorts them without a change of order among
    those that tie. -/
theorem sorted_in_order (type : BitVec 16) (rrl : List Dnsrr) (icem : Chk.Icem) :
    (Returns (swapBody (stdSortHandler type)) rrl (dnsRrlistSort type rrl) ∧
      SortedFrom (ahead type) rrl (dnsRrlistSort type rrl)) ∧
    (Returns (swapBody Chk.sortHandler) (icem.checkl.map (Chk.candpairSetPprio icem.ice.lrole))
        icem.candpairPrioOrder.checkl ∧
      SortedFrom (fun cp1 cp2 => cp2.pprio < cp1.pprio) (icem.checkl.map (Chk.candpairSetPprio icem.ice.lrole))
        icem.candpairPrioOrder.checkl) :=
  ⟨⟨swapSort_returns (stdSortHandler_order type) rrl, dnsRrlistSort_sorted type rrl⟩,
    ⟨swapSort_returns (fun _ _ => rfl) _, candpairPrioOrder_sorted icem⟩⟩

/-! Going through a list of records, and on through the aliases that it has. -/

def DNS_QTYPE_ANY : BitVec 16 := 255
def DNS_QCLASS_ANY : BitVec 16 := 255
def CNAME_RECURSE_MAX : Nat := 16

def Rdata.cnameCname : Rdata → List Byte
  | cname target => target
  | _ => []

/-- Whether `str_casecmp` returns 0. -/
def sameName (s1 s2 : List Byte) : Bool := (cstr s1).map tolower == (cstr s2).map tolower

section
variable {σ : Type} (rrl : List Dnsrr) (type1 type2 dnsclass : BitVec 16) (recurse : Bool)
  (rrlh : Option (Dnsrr → σ → Bool × σ))

/-- A record that the walk passes over. -/
def passedOver (name : Option (List Byte)) (rr : Dnsrr) : Bool :=
  (name.any fun name => !sameName name rr.name) ||
  (type1 ≠ DNS_QTYPE_ANY && type2 ≠ DNS_QTYPE_ANY && rr.rdata.type ≠ type1 && rr.rdata.type ≠ type2 &&
    (rr.rdata.type ≠ DnsType.CNAME.code || !recurse)) ||
  (dnsclass ≠ DNS_QCLASS_ANY && rr.dnsclass ≠ dnsclass)

def followed (rr : Dnsrr) : Bool :=
  recurse && DNS_QTYPE_ANY ≠ type1 && DNS_QTYPE_ANY ≠ type2 && DnsType.CNAME.code ≠ type1 && DnsType.CNAME.code ≠ type2 &&
    DnsType.CNAME.code = rr.rdata.type

/-- The loop, from a record of the list on. -/
def applyLoop (apply : Option (List Byte) → Nat → σ → Option Dnsrr × σ) (name : Option (List Byte)) :
    List Dnsrr → Nat → σ → Option Dnsrr × σ
  | [], _, arg => (none, arg)
  | rr :: rest, depth, arg =>
    if passedOver type1 type2 dnsclass recurse name rr then applyLoop apply name rest depth arg
    else
      match rrlh with
      | none => (some rr, arg)
      | some rrlh =>
        match rrlh rr arg with
        | (true, arg) => (some rr, arg)
        | (false, arg) =>
          if followed type1 type2 recurse rr then
            match apply (some rr.rdata.cnameCname) (depth + 1) arg with
            | (some rr, arg) => (some rr, arg)
            | (none, arg) => applyLoop apply name rest (depth + 1) arg
          else applyLoop apply name rest depth arg

/-- The depth grows with every call, so that a fuel of two more than the greatest depth is never used up. No list that
    a message holds is long enough for the depth to wrap. -/
def rrlistApply : Nat → Option (List Byte) → Nat → σ → Option Dnsrr × σ
  | 0, _, _, arg => (none, arg)
  | fuel + 1, name, depth, arg =>
    if depth > CNAME_RECURSE_MAX then (none, arg)
    else applyLoop type1 type2 dnsclass recurse rrlh (rrlistApply fuel) name rrl depth arg

end

section
variable {σ : Type} (rrl : List Dnsrr) (name : Option (List Byte))

def dnsRrlistApply (type dnsclass : BitVec 16) (recurse : Bool) (rrlh : Option (Dnsrr → σ → Bool × σ)) (arg : σ) :
    Option Dnsrr × σ :=
  rrlistApply rrl type type dnsclass recurse rrlh (CNAME_RECURSE_MAX + 2) name 0 arg

def dnsRrlistApply2 (type1 type2 dnsclass : BitVec 16) (recurse : Bool) (rrlh : Option (Dnsrr → σ → Bool × σ)) (arg : σ) :
    Option Dnsrr × σ :=
  rrlistApply rrl type1 type2 dnsclass recurse rrlh (CNAME_RECURSE_MAX + 2) name 0 arg

end

/-- The handler that keeps what it is handed. -/
def collect (rr : Dnsrr) (log : List Dnsrr) : Bool × List Dnsrr := (false, log ++ [rr])

/-- What a walk hands over when nothing stops it. -/
def handedOver (rrl : List Dnsrr) (name : List Byte) (type dnsclass : BitVec 16) : List Dnsrr :=
  (dnsRrlistApply rrl (some name) type dnsclass true (some collect) []).2

section
variable (rrl : List Dnsrr) (type dnsclass : BitVec 16)

def InClass (dnsclass : BitVec 16) (rr : Dnsrr) : Prop := dnsclass = DNS_QCLASS_ANY ∨ rr.dnsclass = dnsclass

instance (dnsclass : BitVec 16) (rr : Dnsrr) : Decidable (InClass dnsclass rr) :=
  inferInstanceAs (Decidable (dnsclass = DNS_QCLASS_ANY ∨ rr.dnsclass = dnsclass))

/-- The names for which a name is an alias in a class, in the order of the list. -/
def aliases (name : List Byte) : List (List Byte) :=
  (rrl.filter fun rr => sameName name rr.name && rr.rdata.type = DnsType.CNAME.code && InClass dnsclass rr).map
    fun rr => rr.rdata.cnameCname

def Wanted (rr : Dnsrr) : Prop := rr.rdata.type = type ∧ InClass dnsclass rr

/-- The owner of a record is reached by a chain of aliases of a class that is not too long. -/
def Reached (name : List Byte) (rr : Dnsrr) : Prop :=
  ∃ owner n, Chain (aliases rrl dnsclass) name owner n ∧ n ≤ CNAME_RECURSE_MAX ∧ sameName owner rr.name

/-- The same where an alias counts as many as its place among those of its name. -/
def ReachedInPlace (name : List Byte) (rr : Dnsrr) : Prop :=
  ∃ owner n, Weighed (aliases rrl dnsclass) name owner n ∧ n ≤ CNAME_RECURSE_MAX ∧ sameName owner rr.name

/-- Every wanted record is handed over that is reached, and no record that is not. -/
structure HandsReached (aliasclass : BitVec 16) (name : List Byte) : Prop where
  all : ∀ rr ∈ rrl, Wanted type dnsclass rr → Reached rrl aliasclass name rr → rr ∈ handedOver rrl name type dnsclass
  only : ∀ rr ∈ handedOver rrl name type dnsclass, Reached rrl aliasclass name rr

/-- The records of a name that the walk goes through. -/
def ofName (name : List Byte) : List Dnsrr := rrl.filter fun rr => !passedOver type type dnsclass true (some name) rr

/-- The names to which the walk goes on from a name. -/
def nextNames (name : List Byte) : List (List Byte) :=
  ((ofName rrl type dnsclass name).filter (followed type type true)).map fun rr => rr.rdata.cnameCname

/-- What a walk hands over, by the names that it comes to. -/
def visitsLoop (visits : List Byte → Nat → List Dnsrr) : List Dnsrr → Nat → List Dnsrr
  | [], _ => []
  | rr :: rest, depth =>
    if followed type type true rr then rr :: (visits rr.rdata.cnameCname (depth + 1) ++ visitsLoop visits rest (depth + 1))
    else rr :: visitsLoop visits rest depth

def visits : Nat → List Byte → Nat → List Dnsrr
  | 0, _, _ => []
  | fuel + 1, name, depth =>
    if depth > CNAME_RECURSE_MAX then [] else visitsLoop type (visits fuel) (ofName rrl type dnsclass name) depth

variable {rrl type dnsclass}

theorem mem_visitsLoop {visits : List Byte → Nat → List Dnsrr} {l : List Dnsrr} {depth : Nat} {rr : Dnsrr} :
    rr ∈ visitsLoop type visits l depth ↔
      rr ∈ l ∨ ∃ i link, (l.filter (followed type type true))[i]? = some link ∧
        rr ∈ visits link.rdata.cnameCname (depth + i + 1) := by
  induction l generalizing depth with
  | nil => simp [visitsLoop]
  | cons first l ih =>
    rw [visitsLoop]
    by_cases link : followed type type true first = true
    · rw [if_pos link, List.filter_cons_of_pos link, List.mem_cons, List.mem_append, ih, List.mem_cons]
      constructor
      · rintro (rfl | now | here | ⟨i, later, found, inside⟩)
        · exact Or.inl (Or.inl rfl)
        · exact Or.inr ⟨0, first, rfl, now⟩
        · exact Or.inl (Or.inr here)
        · refine Or.inr ⟨i + 1, later, found, ?_⟩
          rwa [Nat.add_right_comm depth 1 i] at inside
      · rintro ((rfl | here) | ⟨i, later, found, inside⟩)
        · exact Or.inl rfl
        · exact Or.inr (Or.inr (Or.inl here))
        · cases i with
          | zero =>
            cases found
            exact Or.inr (Or.inl inside)
          | succ i =>
            refine Or.inr (Or.inr (Or.inr ⟨i, later, found, ?_⟩))
            rwa [Nat.add_right_comm depth 1 i]
    · rw [if_neg link, List.filter_cons_of_neg link, List.mem_cons, ih, List.mem_cons, or_assoc]

theorem mem_visits {fuel depth : Nat} (enough : CNAME_RECURSE_MAX < fuel + depth) {name : List Byte} {rr : Dnsrr} :
    rr ∈ visits rrl type dnsclass fuel name depth ↔
      ∃ owner n, Weighed (nextNames rrl type dnsclass) name owner n ∧ depth + n ≤ CNAME_RECURSE_MAX ∧
        rr ∈ ofName rrl type dnsclass owner := by
  induction fuel generalizing depth name with
  | zero =>
    constructor
    · intro inside
      cases inside
    · rintro ⟨owner, n, -, within, -⟩
      omega
  | succ fuel ih =>
    rw [visits]
    by_cases deep : depth > CNAME_RECURSE_MAX
    · rw [if_pos deep]
      constructor
      · intro inside
        cases inside
      · rintro ⟨owner, n, -, within, -⟩
        omega
    · rw [if_neg deep, mem_visitsLoop]
      constructor
      · rintro (here | ⟨i, link, found, inside⟩)
        · exact ⟨name, 0, .nil name, Nat.not_lt.mp deep, here⟩
        · obtain ⟨owner, n, weighed, within, owned⟩ := (ih (by omega)).mp inside
          have target : (nextNames rrl type dnsclass name)[i]? = some link.rdata.cnameCname := by
            rw [nextNames, List.getElem?_map, found]
            rfl
          exact ⟨owner, i + 1 + n, .cons target weighed, by omega, owned⟩
      · rintro ⟨owner, n, weighed, within, owned⟩
        cases weighed with
        | nil => exact Or.inl owned
        | @cons _ target _ i n step rest =>
          rw [nextNames, List.getElem?_map, Option.map_eq_some_iff] at step
          obtain ⟨link, found, rfl⟩ := step
          exact Or.inr ⟨i, link, found, (ih (by omega)).mpr ⟨owner, n, rest, by omega, owned⟩⟩

end

section
variable {σ : Type} {rrl : List Dnsrr} {type1 type2 type dnsclass : BitVec 16} {recurse : Bool}

theorem applyLoop_congr {rrlh : Option (Dnsrr → σ → Bool × σ)}
    {apply apply' : Option (List Byte) → Nat → σ → Option Dnsrr × σ} {depth : Nat}
    (same : ∀ name d arg, depth < d → apply name d arg = apply' name d arg) (name : Option (List Byte)) (l : List Dnsrr)
    (arg : σ) :
    applyLoop type1 type2 dnsclass recurse rrlh apply name l depth arg =
      applyLoop type1 type2 dnsclass recurse rrlh apply' name l depth arg := by
  induction l generalizing depth arg with
  | nil => rfl
  | cons rr l ih =>
    have deeper : ∀ name d arg, depth + 1 < d → apply name d arg = apply' name d arg :=
      fun name d arg more => same name d arg (by omega)
    have next (arg : σ) : apply (some rr.rdata.cnameCname) (depth + 1) arg = apply' (some rr.rdata.cnameCname) (depth + 1) arg :=
      same _ _ arg (Nat.lt_succ_self depth)
    rw [applyLoop.eq_def, applyLoop.eq_def]
    simp only [next, ih same, ih deeper]

/-- More fuel than there are depths makes no difference. -/
theorem rrlistApply_enough (rrlh : Option (Dnsrr → σ → Bool × σ)) {fuel fuel' depth : Nat}
    (enough : CNAME_RECURSE_MAX < fuel + depth) (enough' : CNAME_RECURSE_MAX < fuel' + depth) (name : Option (List Byte))
    (arg : σ) :
    rrlistApply rrl type1 type2 dnsclass recurse rrlh fuel name depth arg =
      rrlistApply rrl type1 type2 dnsclass recurse rrlh fuel' name depth arg := by
  induction fuel generalizing fuel' depth name arg with
  | zero =>
    have deep : depth > CNAME_RECURSE_MAX := by omega
    cases fuel' with
    | zero => rfl
    | succ fuel' => rw [rrlistApply, rrlistApply, if_pos deep]
  | succ fuel ih =>
    cases fuel' with
    | zero =>
      have deep : depth > CNAME_RECURSE_MAX := by omega
      rw [rrlistApply, rrlistApply, if_pos deep]
    | succ fuel' =>
      rw [rrlistApply, rrlistApply]
      split
      · rfl
      · exact applyLoop_congr (fun name d arg deeper => ih (by omega) (by omega) name arg) name rrl arg

theorem applyLoop_visits {rrlh : Dnsrr → σ → Bool × σ} (never : ∀ rr arg, (rrlh rr arg).1 = false)
    {apply : Option (List Byte) → Nat → σ → Option Dnsrr × σ} {visits : List Byte → Nat → List Dnsrr}
    (visited : ∀ name depth arg, apply (some name) depth arg =
      (none, (visits name depth).foldl (fun arg rr => (rrlh rr arg).2) arg))
    (name : Option (List Byte)) (l : List Dnsrr) (depth : Nat) (arg : σ) :
    applyLoop type type dnsclass true (some rrlh) apply name l depth arg =
      (none, (visitsLoop type visits (l.filter fun rr => !passedOver type type dnsclass true name rr) depth).foldl
        (fun arg rr => (rrlh rr arg).2) arg) := by
  induction l generalizing depth arg with
  | nil => rfl
  | cons rr l ih =>
    have handed : rrlh rr arg = (false, (rrlh rr arg).2) := Prod.ext (never rr arg) rfl
    rw [applyLoop.eq_def]
    dsimp only
    by_cases passed : passedOver type type dnsclass true name rr = true
    · rw [if_pos passed, List.filter_cons_of_neg (by simp [passed]), ih]
    · rw [if_neg passed, List.filter_cons_of_pos (by simp [passed]), visitsLoop, handed]
      dsimp only
      by_cases link : followed type type true rr = true
      · rw [if_pos link, if_pos link, visited]
        dsimp only
        rw [ih, List.foldl_cons, List.foldl_append]
      · rw [if_neg link, if_neg link, ih, List.foldl_cons]

theorem rrlistApply_visits {rrlh : Dnsrr → σ → Bool × σ} (never : ∀ rr arg, (rrlh rr arg).1 = false) (fuel : Nat)
    (name : List Byte) (depth : Nat) (arg : σ) :
    rrlistApply rrl type type dnsclass true (some rrlh) fuel (some name) depth arg =
      (none, (visits rrl type dnsclass fuel name depth).foldl (fun arg rr => (rrlh rr arg).2) arg) := by
  induction fuel generalizing name depth arg with
  | zero => rfl
  | succ fuel ih =>
    rw [rrlistApply, visits]
    split
    · rfl
    · exact applyLoop_visits never ih (some name) rrl depth arg

theorem handedOver_visits (rrl : List Dnsrr) (name : List Byte) (type dnsclass : BitVec 16) :
    handedOver rrl name type dnsclass = visits rrl type dnsclass (CNAME_RECURSE_MAX + 2) name 0 := by
  have collected (l log : List Dnsrr) : l.foldl (fun log rr => (collect rr log).2) log = log ++ l := by
    induction l generalizing log with
    | nil => exact (List.append_nil log).symm
    | cons rr l ih => rw [List.foldl_cons, ih, collect, List.append_assoc, List.singleton_append]
  rw [handedOver, dnsRrlistApply, rrlistApply_visits fun _ _ => rfl]
  exact (collected _ []).trans (List.nil_append _)

theorem mem_ofName {owner : List Byte} {rr : Dnsrr} (any : type ≠ DNS_QTYPE_ANY) :
    rr ∈ ofName rrl type dnsclass owner ↔ rr ∈ rrl ∧ sameName owner rr.name = true ∧
      (rr.rdata.type = type ∨ rr.rdata.type = DnsType.CNAME.code) ∧ InClass dnsclass rr := by
  rw [ofName, List.mem_filter, passedOver, InClass]
  simp [any]
  tauto

/-- From a name the walk goes on to those for which it is an alias in the class. -/
theorem nextNames_eq (any : type ≠ DNS_QTYPE_ANY) (cname : type ≠ DnsType.CNAME.code) :
    nextNames rrl type dnsclass = aliases rrl dnsclass := by
  funext name
  rw [nextNames, ofName, aliases, List.filter_filter]
  congr 1
  apply List.filter_congr
  intro rr _
  rw [followed, passedOver, Bool.eq_iff_iff]
  have turned := @eq_comm _ DnsType.CNAME.code rr.rdata.type
  simp [Ne.symm any, Ne.symm cname]
  rw [InClass]
  tauto

theorem mem_handedOver (any : type ≠ DNS_QTYPE_ANY) (cname : type ≠ DnsType.CNAME.code) {name : List Byte} {rr : Dnsrr} :
    rr ∈ handedOver rrl name type dnsclass ↔
      ∃ owner n, Weighed (aliases rrl dnsclass) name owner n ∧ n ≤ CNAME_RECURSE_MAX ∧
        rr ∈ ofName rrl type dnsclass owner := by
  rw [handedOver_visits, mem_visits (by decide), nextNames_eq any cname]
  simp only [Nat.zero_add]

theorem aliases_any {name target : List Byte} (inside : target ∈ aliases rrl dnsclass name) :
    target ∈ aliases rrl DNS_QCLASS_ANY name := by
  rw [aliases, List.mem_map] at inside ⊢
  obtain ⟨rr, member, same⟩ := inside
  rw [List.mem_filter] at member
  refine ⟨rr, List.mem_filter.mpr ⟨member.1, ?_⟩, same⟩
  have kept := member.2
  simp [InClass] at kept ⊢
  exact kept.1

theorem chain_any {name owner : List Byte} {n : Nat} (chain : Chain (aliases rrl dnsclass) name owner n) :
    Chain (aliases rrl DNS_QCLASS_ANY) name owner n := by
  induction chain with
  | nil name => exact .nil name
  | cons step _ ih => exact .cons (aliases_any step) ih

/-- The aliases of a chain may be of the class or of any. -/
theorem handsReached_iff (any : type ≠ DNS_QTYPE_ANY) (cname : type ≠ DnsType.CNAME.code) {aliasclass : BitVec 16}
    (class_ : aliasclass = dnsclass ∨ aliasclass = DNS_QCLASS_ANY) (name : List Byte) :
    HandsReached rrl type dnsclass aliasclass name ↔
      ∀ rr ∈ rrl, Wanted type dnsclass rr → Reached rrl aliasclass name rr → ReachedInPlace rrl dnsclass name rr := by
  constructor
  · intro hands rr inside wanted reached
    obtain ⟨owner, n, weighed, within, owned⟩ := (mem_handedOver any cname).mp (hands.all rr inside wanted reached)
    exact ⟨owner, n, weighed, within, ((mem_ofName any).mp owned).2.1⟩
  · intro near
    refine ⟨?_, ?_⟩
    · intro rr inside wanted reached
      obtain ⟨owner, n, weighed, within, same⟩ := near rr inside wanted reached
      exact (mem_handedOver any cname).mpr
        ⟨owner, n, weighed, within, (mem_ofName any).mpr ⟨inside, same, Or.inl wanted.1, wanted.2⟩⟩
    · intro rr handed
      obtain ⟨owner, n, weighed, within, owned⟩ := (mem_handedOver any cname).mp handed
      obtain ⟨k, fewer, chain⟩ := weighed.chain
      have allowed : Chain (aliases rrl aliasclass) name owner k := by
        rcases class_ with rfl | rfl
        · exact chain
        · exact chain_any chain
      exact ⟨owner, k, allowed, Nat.le_trans fewer within, ((mem_ofName any).mp owned).2.1⟩

/-- Where no name has more than one alias every place is the first. -/
theorem single_aliases (any : type ≠ DNS_QTYPE_ANY) (cname : type ≠ DnsType.CNAME.code)
    (single : ∀ name, (aliases rrl dnsclass name).length ≤ 1) (name : List Byte) :
    HandsReached rrl type dnsclass dnsclass name := by
  refine (handsReached_iff any cname (Or.inl rfl) name).mpr fun rr _ _ reached => ?_
  obtain ⟨owner, n, chain, within, same⟩ := reached
  exact ⟨owner, n, chain.weighed single, within, same⟩

/-- A walk that nothing stops ends and hands over the records that are reached, and no others, exactly when those of the
    wanted type are reached within the depth with every alias counted by its place. -/
theorem rrlist_apply_reaches (rrl : List Dnsrr) (name : List Byte) {type : BitVec 16} (any : type ≠ DNS_QTYPE_ANY)
    (cname : type ≠ DnsType.CNAME.code) (dnsclass : BitVec 16) {rrlh : Dnsrr → σ → Bool × σ}
    (never : ∀ rr arg, (rrlh rr arg).1 = false) (arg : σ) :
    (∀ fuel, CNAME_RECURSE_MAX < fuel → rrlistApply rrl type type dnsclass true (some rrlh) fuel (some name) 0 arg =
      dnsRrlistApply rrl (some name) type dnsclass true (some rrlh) arg) ∧
    dnsRrlistApply rrl (some name) type dnsclass true (some rrlh) arg =
      (none, (handedOver rrl name type dnsclass).foldl (fun arg rr => (rrlh rr arg).2) arg) ∧
    ∀ aliasclass, aliasclass = dnsclass ∨ aliasclass = DNS_QCLASS_ANY →
      (HandsReached rrl type dnsclass aliasclass name ↔
        ∀ rr ∈ rrl, Wanted type dnsclass rr → Reached rrl aliasclass name rr → ReachedInPlace rrl dnsclass name rr) := by
  refine ⟨fun fuel enough => rrlistApply_enough _ enough (by decide) _ arg, ?_,
    fun aliasclass class_ => handsReached_iff any cname class_ name⟩
  rw [handedOver_visits]
  exact rrlistApply_visits never _ name 0 arg

end

def inName (c : Byte) (rdata : Rdata) : Dnsrr := ⟨[c], 1, 60, 0, rdata⟩

/-- Sixteen times the same alias of `a`, which has no records, and behind them one that has an address. -/
def crowded : List Dnsrr :=
  List.replicate 16 (inName 0x61 (.cname [0x78])) ++ [inName 0x61 (.cname [0x62]), inName 0x62 (.a 7)]

theorem rrlist_apply_reaches_crowded :
    (∀ fuel, CNAME_RECURSE_MAX < fuel → rrlistApply crowded DnsType.A.code DnsType.A.code 1 true (some collect) fuel
        (some [0x61]) 0 [] = dnsRrlistApply crowded (some [0x61]) DnsType.A.code 1 true (some collect) []) ∧
      dnsRrlistApply crowded (some [0x61]) DnsType.A.code 1 true (some collect) [] =
        (none, (handedOver crowded [0x61] DnsType.A.code 1).foldl (fun arg rr => (collect rr arg).2) []) ∧
      (HandsReached crowded DnsType.A.code 1 1 [0x61] ↔ ∀ rr ∈ crowded, Wanted DnsType.A.code 1 rr →
        Reached crowded 1 [0x61] rr → ReachedInPlace crowded 1 [0x61] rr) := by
  obtain ⟨ends, result, hands⟩ := @rrlist_apply_reaches (List Dnsrr) crowded [0x61] DnsType.A.code (by decide) (by decide) 1
    collect (fun _ _ => rfl) []
  exact ⟨ends, result, hands 1 (Or.inl rfl)⟩

/-- The address is one alias away and is not handed over. -/
theorem seventeenth_alias_lost : ¬ HandsReached crowded DnsType.A.code 1 1 [0x61] := by
  intro hands
  have reached : Reached crowded 1 [0x61] (inName 0x62 (.a 7)) := by
    refine ⟨[0x62], 1, ?_, by decide, by decide⟩
    exact @Chain.cons _ _ [0x61] [0x62] [0x62] 0 (by decide +kernel) (.nil _)
  have handed := hands.all (inName 0x62 (.a 7)) (by decide) ⟨rfl, Or.inr rfl⟩ reached
  revert handed
  decide +kernel

end Baresip.Dns
