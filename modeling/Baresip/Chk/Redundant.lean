import Baresip.Chk.Unique

set_option linter.dupNamespace false

namespace Baresip.Chk

open Re

/-- A local candidate, and the base of one that is not its own base. -/
structure Lcand where
  cand : Cand
  other : Option Cand
  deriving DecidableEq, Repr

namespace Lcand

def base (c : Lcand) : Cand := c.other.getD c.cand

/-- The object that the destructor gives up. -/
def held (c : Lcand) : Option Lcand := c.other.map fun base => ⟨base, none⟩

/-- The addresses of two candidates in a list are two objects. -/
def uniqueHandler (c1 c2 : Lcand) : Option Bool :=
  if c1.base.id ≠ c2.base.id ∨ ¬ c1.cand.addr.cmp c2.cand.addr .all then none
  else some (c1.cand.prio < c2.cand.prio)

end Lcand

def icemLcandAddBase (lport : Nat → Option (BitVec 16)) (lcandl : List Lcand) (compid : Nat) (lprio : BitVec 16)
    (addr : Sa) : List Lcand :=
  match lport compid with
  | none => lcandl
  | some port => lcandl ++ [⟨⟨lcandl.length, .host, iceCalcPrio .host lprio compid, compid, addr.setPort port⟩, none⟩]

def icemLcandAdd (lcandl : List Lcand) (base : Cand) (type : CandType) (addr : Sa) : List Lcand :=
  lcandl ++ [⟨⟨lcandl.length, type, iceCalcPrio type 0 base.compid, base.compid, addr⟩, some base⟩]

/-- The types that candidates with a base are added with. -/
inductive LearntType
  | srflx | prflx | relay
  deriving DecidableEq, Repr

def LearntType.toType : LearntType → CandType
  | srflx => .srflx
  | prflx => .prflx
  | relay => .relay

/-- A candidate that is learnt has the base of one in the list. -/
inductive LcandOp
  | addBase (compid : Nat) (lprio : BitVec 16) (addr : Sa)
  | add (lcand : Nat) (type : LearntType) (addr : Sa)
  deriving DecidableEq, Repr

def lcandStep (lport : Nat → Option (BitVec 16)) (lcandl : List Lcand) : LcandOp → List Lcand
  | .addBase compid lprio addr => icemLcandAddBase lport lcandl compid lprio addr
  | .add lcand type addr =>
    match lcandl[lcand]? with
    | none => lcandl
    | some lcand => icemLcandAdd lcandl lcand.base type.toType addr

def gathered (lport : Nat → Option (BitVec 16)) (ops : List LcandOp) : List Lcand := ops.foldl (lcandStep lport) []

/-- The list and the candidates of a base refer to it. -/
def lcandsCounted (lcandl : List Lcand) : Counted Lcand :=
  ⟨lcandl, fun c => 1 + lcandl.countP (Lcand.held · = some c), [], 0⟩

def icemCandRedundElim (lcandl : List Lcand) : Option (Counted Lcand) :=
  (lcandsCounted lcandl).iceListUnique Lcand.held Lcand.uniqueHandler

/-- Only the list refers to a pair of it. The candidates of a pair are no objects of the list. -/
def pairsCounted (checkl : List Candpair) : Counted Candpair := ⟨checkl, fun _ => 1, [], 0⟩

def candpairPruneWalk (base : Cand → Cand) (checkl : List Candpair) : Option (Counted Candpair) :=
  (pairsCounted checkl).iceListUnique (fun _ => none) (Icem.uniqueHandler base)

def Lcand.Redundant (c1 c2 : Lcand) : Prop :=
  c1.base.id = c2.base.id ∧ c1.cand.addr.cmp c2.cand.addr .all

def Candpair.Redundant (base : Cand → Cand) (cp1 cp2 : Candpair) : Prop :=
  (Icem.candSrflx base cp1.lcand).sameAddr (Icem.candSrflx base cp2.lcand) ∧ cp1.rcand.sameAddr cp2.rcand

/-- One object has one address. -/
def OneAddress (l : List Cand) : Prop := ∀ c ∈ l, ∀ d ∈ l, c.id = d.id → c.addr = d.addr

instance (l : List Cand) : Decidable (OneAddress l) := inferInstanceAs (Decidable (∀ c ∈ l, ∀ d ∈ l, _ → _))

structure Gathered (lcandl : List Lcand) : Prop where
  ids : lcandl.map (·.cand.id) = List.range lcandl.length
  host : ∀ c ∈ lcandl, c.other = none → ∃ lprio, c.cand.prio = iceCalcPrio .host lprio c.cand.compid
  based : ∀ c ∈ lcandl, ∀ base, c.other = some base → ⟨base, none⟩ ∈ lcandl ∧ c.cand.prio < base.prio

theorem cmp_all_iff {l r : Sa} : l.cmp r .all = true ↔ l = r ∧ l ≠ .unspec := by
  cases l <;> cases r <;> simp [Sa.cmp, SaFlag.hasAddr, SaFlag.hasPort]

theorem host_high (lprio : BitVec 16) (compid : Nat) : 126 <<< 24 ≤ (iceCalcPrio .host lprio compid).toNat := by
  rw [iceCalcPrio, BitVec.toNat_or, BitVec.toNat_or]
  exact Nat.left_le_or.trans Nat.left_le_or

theorem learnt_low (type : LearntType) (compid : Nat) : (iceCalcPrio type.toType 0 compid).toNat < 111 <<< 24 := by
  have bound : (BitVec.ofNat 32 (256 - compid)).toNat < 2 ^ 24 := by
    rw [BitVec.toNat_ofNat]
    omega
  obtain ⟨t, high, low⟩ : ∃ t, (typePrio type.toType <<< 24).toNat = t <<< 24 ∧ t ≤ 110 := by
    cases type with
    | srflx => exact ⟨100, rfl, by decide⟩
    | prflx => exact ⟨110, rfl, by decide⟩
    | relay => exact ⟨0, rfl, by decide⟩
  have zero : ((0 : BitVec 16).setWidth 32 <<< 8).toNat = 0 := rfl
  rw [iceCalcPrio, BitVec.toNat_or, BitVec.toNat_or, high, zero, Nat.or_zero, ← Nat.shiftLeft_add_eq_or_of_lt bound,
    Nat.shiftLeft_eq, Nat.shiftLeft_eq]
  omega

theorem learnt_lower (type : LearntType) (lprio : BitVec 16) (compid : Nat) :
    iceCalcPrio type.toType 0 compid < iceCalcPrio .host lprio compid :=
  BitVec.lt_def.mpr ((learnt_low type compid).trans ((by decide : 111 <<< 24 < 126 <<< 24).trans_le (host_high lprio compid)))

theorem Gathered.nil : Gathered [] := ⟨rfl, List.forall_mem_nil _, List.forall_mem_nil _⟩

theorem Gathered.base_mem {lcandl : List Lcand} (ok : Gathered lcandl) {c : Lcand} (member : c ∈ lcandl) :
    (⟨c.base, none⟩ : Lcand) ∈ lcandl := by
  obtain ⟨cand, other⟩ := c
  cases other with
  | none => exact member
  | some base => exact (ok.based _ member base rfl).1

theorem Gathered.add {lcandl : List Lcand} (ok : Gathered lcandl) {c : Lcand} (id : c.cand.id = lcandl.length)
    (host : c.other = none → ∃ lprio, c.cand.prio = iceCalcPrio .host lprio c.cand.compid)
    (based : ∀ base, c.other = some base → ⟨base, none⟩ ∈ lcandl ∧ c.cand.prio < base.prio) : Gathered (lcandl ++ [c]) where
  ids := by
    rw [List.map_append, ok.ids, List.length_append, List.length_singleton, List.range_succ, List.map_singleton, id]
  host d member := by
    rcases List.mem_append.mp member with member | member
    · exact ok.host d member
    · rw [List.mem_singleton.mp member]
      exact host
  based d member base other := by
    rcases List.mem_append.mp member with member | member
    · exact (ok.based d member base other).imp_left (List.mem_append_left _)
    · rw [List.mem_singleton.mp member] at other ⊢
      exact (based base other).imp_left (List.mem_append_left _)

theorem Gathered.step {lport : Nat → Option (BitVec 16)} {lcandl : List Lcand} (ok : Gathered lcandl) (op : LcandOp) :
    Gathered (lcandStep lport lcandl op) := by
  cases op with
  | addBase compid lprio addr =>
    rw [lcandStep, icemLcandAddBase]
    cases lport compid with
    | none => exact ok
    | some port => exact ok.add rfl (fun _ => ⟨lprio, rfl⟩) nofun
  | add lcand type addr =>
    rw [lcandStep]
    cases found : lcandl[lcand]? with
    | none => exact ok
    | some c =>
      have inside := ok.base_mem (List.mem_of_getElem? found)
      refine ok.add rfl nofun fun base other => ?_
      obtain rfl : c.base = base := Option.some.inj other
      obtain ⟨lprio, prio⟩ := ok.host _ inside rfl
      refine ⟨inside, ?_⟩
      show iceCalcPrio type.toType 0 c.base.compid < c.base.prio
      rw [show c.base.prio = _ from prio]
      exact learnt_lower type lprio c.base.compid

theorem gathered_ok (lport : Nat → Option (BitVec 16)) (ops : List LcandOp) : Gathered (gathered lport ops) :=
  List.foldlRecOn ops (lcandStep lport) Gathered.nil fun _ ok op _ => ok.step op

variable {lcandl : List Lcand}

theorem Gathered.id_inj (ok : Gathered lcandl) {c d : Lcand} (inc : c ∈ lcandl) (ind : d ∈ lcandl)
    (same : c.cand.id = d.cand.id) : c = d := by
  have distinct : (lcandl.map (·.cand.id)).Nodup := ok.ids ▸ List.nodup_range
  exact List.inj_on_of_nodup_map distinct inc ind same

theorem Gathered.kept (ok : Gathered lcandl) : Kept Lcand.held (lcandsCounted lcandl) where
  nodup := List.Nodup.of_map (·.cand.id) (ok.ids ▸ List.nodup_range)
  refs _ _ := rfl
  closed c member d holds := by
    obtain ⟨base, other, rfl⟩ := Option.map_eq_some_iff.mp holds
    exact ⟨(ok.based c member base other).1, rfl⟩

/-- Of a base and another candidate that has it, the base is the one of higher priority. -/
theorem Gathered.base_higher (ok : Gathered lcandl) {c : Lcand} {b : Cand} (inb : ⟨b, none⟩ ∈ lcandl) (inc : c ∈ lcandl)
    (apart : c ≠ ⟨b, none⟩) (same : c.base.id = b.id) : c.cand.prio < b.prio := by
  obtain ⟨cand, other⟩ := c
  cases other with
  | none => exact absurd (ok.id_inj inc inb same) apart
  | some base =>
    obtain ⟨inside, lower⟩ := ok.based _ inc base rfl
    have eq : (⟨base, none⟩ : Lcand) = ⟨b, none⟩ := ok.id_inj inside inb same
    cases eq
    exact lower

theorem Gathered.frees (ok : Gathered lcandl) : Frees Lcand.held Lcand.uniqueHandler lcandl := by
  intro x inx y iny apart z gives w inw holds
  obtain ⟨b, other, rfl⟩ := Option.map_eq_some_iff.mp holds
  have inb := (ok.based w inw b other).1
  obtain ⟨first, handled, chosen⟩ := Option.map_eq_some_iff.mp gives
  unfold Lcand.uniqueHandler at handled
  split at handled
  · cases handled
  rename_i related
  simp only [not_or, not_not] at related
  have lower := Option.some.inj handled
  cases first with
  | true =>
    obtain rfl : x = ⟨b, none⟩ := chosen
    have higher := ok.base_higher inb iny apart.symm related.1.symm
    have lower := of_decide_eq_true lower
    exact absurd (BitVec.lt_trans lower higher) (BitVec.lt_irrefl _)
  | false =>
    obtain rfl : y = ⟨b, none⟩ := chosen
    exact absurd (ok.base_higher inb inx apart related.1) (of_decide_eq_false lower)

theorem lcand_ranks (lcandl : List Lcand) : Ranks Lcand.Redundant (·.cand.prio.toNat) Lcand.uniqueHandler lcandl where
  none_iff x _ y _ := by
    unfold Lcand.uniqueHandler Lcand.Redundant
    split
    · rename_i apart
      exact iff_of_true rfl (not_and_or.mpr apart)
    · rename_i both
      exact iff_of_false nofun fun apart => both (not_and_or.mp apart)
  lower x _ y _ first gives := by
    unfold Lcand.uniqueHandler at gives
    split at gives
    · cases gives
    · exact (Option.some.inj gives).symm
  symm x _ y _ := by
    rintro ⟨base, addr⟩
    obtain ⟨addr, known⟩ := cmp_all_iff.mp addr
    exact ⟨base.symm, cmp_all_iff.mpr ⟨addr.symm, addr ▸ known⟩⟩
  trans x _ y _ z _ := by
    rintro ⟨base, addr⟩ ⟨base', addr'⟩
    obtain ⟨addr, known⟩ := cmp_all_iff.mp addr
    exact ⟨base.trans base', cmp_all_iff.mpr ⟨addr.trans (cmp_all_iff.mp addr').1, known⟩⟩

section
variable {base : Cand → Cand} {checkl : List Candpair}

theorem sameAddr_iff {c d : Cand} : c.sameAddr d = true ↔ c.id = d.id ∨ c.addr = d.addr ∧ c.addr ≠ .unspec := by
  simp [Cand.sameAddr, cmp_all_iff]

theorem sameAddr_symm {c d : Cand} (same : c.sameAddr d = true) : d.sameAddr c = true := by
  rcases sameAddr_iff.mp same with id | ⟨addr, known⟩
  · exact sameAddr_iff.mpr (.inl id.symm)
  · exact sameAddr_iff.mpr (.inr ⟨addr.symm, addr ▸ known⟩)

theorem sameAddr_trans {l : List Cand} (one : OneAddress l) {c d e : Cand} (inc : c ∈ l) (ind : d ∈ l) (ine : e ∈ l)
    (cd : c.sameAddr d = true) (de : d.sameAddr e = true) : c.sameAddr e = true := by
  rw [sameAddr_iff] at cd de ⊢
  rcases cd with cd | ⟨cd, known⟩
  · rcases de with de | ⟨de, known⟩
    · exact .inl (cd.trans de)
    · have := one c inc d ind cd
      exact .inr ⟨this.trans de, this ▸ known⟩
  · rcases de with de | ⟨de, -⟩
    · exact .inr ⟨cd.trans (one d ind e ine de), known⟩
    · exact .inr ⟨cd.trans de, known⟩

theorem pair_ranks (lcands : OneAddress (checkl.map fun cp => Icem.candSrflx base cp.lcand))
    (rcands : OneAddress (checkl.map Candpair.rcand)) :
    Ranks (Candpair.Redundant base) Candpair.pprio (Icem.uniqueHandler base) checkl where
  none_iff x _ y _ := by
    unfold Icem.uniqueHandler Candpair.Redundant
    split
    · rename_i both
      exact iff_of_false nofun fun apart => apart both
    · rename_i apart
      exact iff_of_true rfl apart
  lower x _ y _ first gives := by
    unfold Icem.uniqueHandler at gives
    split at gives
    · exact (Option.some.inj gives).symm
    · cases gives
  symm x _ y _ related := ⟨sameAddr_symm related.1, sameAddr_symm related.2⟩
  trans x inx y iny z inz xy yz := by
    have left {cp} (member : cp ∈ checkl) := List.mem_map_of_mem (f := fun cp => Icem.candSrflx base cp.lcand) member
    have right {cp} (member : cp ∈ checkl) := List.mem_map_of_mem (f := Candpair.rcand) member
    exact ⟨sameAddr_trans lcands (left inx) (left iny) (left inz) xy.1 yz.1,
      sameAddr_trans rcands (right inx) (right iny) (right inz) xy.2 yz.2⟩

theorem pairs_kept (pairs : (checkl.map Candpair.id).Nodup) : Kept (fun _ => none) (pairsCounted checkl) where
  nodup := .of_map Candpair.id pairs
  refs x _ := by simp [pairsCounted]
  closed x _ y holds := by cases holds

theorem pairs_frees : Frees (fun _ => none) (Icem.uniqueHandler base) checkl := by
  intro x _ y _ _ z _ w _ holds
  cases holds

/-- The elimination of candidates, whatever was gathered, and the pruning of a check list leave of every group of redundant
    elements one of the highest priority. -/
theorem redundant_removed (lport : Nat → Option (BitVec 16)) (ops : List LcandOp)
    (pairs : (checkl.map Candpair.id).Nodup) (lcands : OneAddress (checkl.map fun cp => Icem.candSrflx base cp.lcand))
    (rcands : OneAddress (checkl.map Candpair.rcand)) :
    (∃ m, icemCandRedundElim (gathered lport ops) = some m ∧
      Removed Lcand.uniqueHandler Lcand.Redundant (·.cand.prio.toNat) (gathered lport ops) m) ∧
    ∃ m, candpairPruneWalk base checkl = some m ∧
      Removed (Icem.uniqueHandler base) (Candpair.Redundant base) Candpair.pprio checkl m := by
  have ok := gathered_ok lport ops
  exact ⟨iceListUnique_removed ok.kept ok.frees (lcand_ranks _) ⟨rfl, rfl⟩,
    iceListUnique_removed (pairs_kept pairs) pairs_frees (pair_ranks lcands rcands) ⟨rfl, rfl⟩⟩

end

/-- A host candidate, and one learnt for it that has its address. -/
def mappedToItself : List LcandOp := [.addBase 1 65535 (.inet 0x0A000001 0), .add 0 .srflx (.inet 0x0A000001 5000)]

def pairOf (id : Nat) (prio : BitVec 32) (pprio : Nat) : Candpair :=
  ⟨id, 1, ⟨id, .host, prio, 1, .inet 0x0A000001 5000⟩, ⟨2, .host, 9, 1, .inet 0x0A000002 5000⟩, false, false, .frozen, pprio,
    none⟩

theorem redundant_removed_two :
    (∃ m, icemCandRedundElim (gathered (fun _ => some 5000) mappedToItself) = some m ∧
      Removed Lcand.uniqueHandler Lcand.Redundant (·.cand.prio.toNat) (gathered (fun _ => some 5000) mappedToItself) m) ∧
    ∃ m, candpairPruneWalk id [pairOf 0 9 90, pairOf 1 8 80] = some m ∧
      Removed (Icem.uniqueHandler id) (Candpair.Redundant id) Candpair.pprio [pairOf 0 9 90, pairOf 1 8 80] m :=
  redundant_removed (fun _ => some 5000) mappedToItself (by decide) (by decide) (by decide)

example : (icemCandRedundElim (gathered (fun _ => some 5000) mappedToItself)).map (fun m => (m.list.map (·.cand.id), m.n)) =
    some ([0], 1) := by
  decide

end Baresip.Chk
