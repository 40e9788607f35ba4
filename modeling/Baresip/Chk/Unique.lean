import Baresip.Chk.Checklist
import Mathlib.Data.List.Nodup

set_option linter.dupNamespace false

namespace Baresip.Chk

variable {α : Type*} [DecidableEq α]

/-- A list of counted objects, with the objects that were given up and how many there were. -/
structure Counted (α : Type*) where
  list : List α
  refs : α → Nat
  released : List α
  n : BitVec 32

def nextOf (le : α) : List α → Option α
  | [] => none
  | x :: l => if x = le then l.head? else nextOf le l

namespace Counted
variable (held : α → Option α) (uh : α → α → Option Bool)

/-- `le->next`, for an object that is still there. -/
def next (m : Counted α) (le : α) : Option (Option α) := if m.refs le = 0 then none else some (nextOf le m.list)

/-- The last reference takes the object off the list and gives up the one that it holds. Objects hold each other no deeper
    than `depth`. -/
def memDeref : Nat → Counted α → α → Option (Counted α)
  | 0, _, _ => none
  | depth + 1, m, x =>
    match m.refs x with
    | 0 => none
    | 1 =>
      let m := { m with list := m.list.erase x, refs := Function.update m.refs x 0 }
      match held x with
      | none => some m
      | some y => memDeref depth m y
    | refs + 2 => some { m with refs := Function.update m.refs x (refs + 1) }

def release (m : Counted α) (x : α) : Option (Counted α) :=
  (memDeref held 2 m x).map fun m => { m with released := m.released ++ [x], n := m.n + 1 }

/-- The walk from `le2` on, with its `data` and as many steps as the list has elements. -/
def inner (le1 : α) : Nat → Option α → Option α → Counted α → Option (Option α × Counted α)
  | _, none, data, m => some (data, m)
  | 0, some _, _, _ => none
  | steps + 1, some le2, _, m => do
    if m.refs le1 = 0 ∨ m.refs le2 = 0 then none
    else
      let data := (uh le1 le2).map fun first => if first then le1 else le2
      let le2 ← m.next le2
      match data with
      | none => inner le1 steps le2 none m
      | some data =>
        if le1 = data then some (some data, m)
        else
          let m ← release held m data
          inner le1 steps le2 none m

def outer : Nat → Option α → Counted α → Option (Counted α)
  | _, none, m => some m
  | 0, some _, _ => none
  | steps + 1, some le1, m => do
    if m.list.getLast? = some le1 then some m
    else
      let le2 ← m.next le1
      let (data, m) ← inner held uh le1 m.list.length le2 none m
      let le1 ← m.next le1
      match data with
      | none => outer steps le1 m
      | some data =>
        let m ← release held m data
        outer steps le1 m

def iceListUnique (m : Counted α) : Option (Counted α) := outer held uh m.list.length m.list.head? m

end Counted

/-- The references that the list and its own objects have account for the counts. -/
structure Kept (held : α → Option α) (m : Counted α) : Prop where
  nodup : m.list.Nodup
  refs : ∀ x ∈ m.list, m.refs x = 1 + m.list.countP (held · = some x)
  closed : ∀ x ∈ m.list, ∀ y, held x = some y → y ∈ m.list ∧ held y = none

/-- What giving up the objects `gone` makes of a list. -/
structure Gave (held : α → Option α) (gone : List α) (m m' : Counted α) : Prop where
  kept : Kept held m'
  sub : m'.list.Sublist m.list
  perm : (gone ++ m'.list).Perm m.list
  released : m'.released = m.released ++ gone
  n : m'.n = m.n + .ofNat 32 gone.length

variable {held : α → Option α} {uh : α → α → Option Bool} {m m' m'' : Counted α} {gone gone' : List α} {x le1 : α}

theorem Gave.refl (kept : Kept held m) : Gave held [] m m where
  kept := kept
  sub := .refl _
  perm := .refl _
  released := (List.append_nil _).symm
  n := by simp

theorem Gave.trans (first : Gave held gone m m') (second : Gave held gone' m' m'') :
    Gave held (gone ++ gone') m m'' where
  kept := second.kept
  sub := second.sub.trans first.sub
  perm := by
    rw [List.append_assoc]
    exact (second.perm.append_left gone).trans first.perm
  released := by rw [second.released, first.released, List.append_assoc]
  n := by rw [second.n, first.n, List.length_append, BitVec.ofNat_add, BitVec.add_assoc]

theorem memDeref_more {depth refs : Nat} (more : m.refs x = refs + 2) :
    Counted.memDeref held (depth + 1) m x = some { m with refs := Function.update m.refs x (refs + 1) } := by
  rw [Counted.memDeref, more]

theorem memDeref_last {depth : Nat} (last : m.refs x = 1) : Counted.memDeref held (depth + 1) m x =
    match held x with
    | none => some { m with list := m.list.erase x, refs := Function.update m.refs x 0 }
    | some y => Counted.memDeref held depth { m with list := m.list.erase x, refs := Function.update m.refs x 0 } y := by
  rw [Counted.memDeref, last]

theorem countP_erase_free {l : List α} (member : x ∈ l) {p : α → Bool} : l.countP p = (l.erase x).countP p + if p x then 1 else 0 := by
  rw [(List.perm_cons_erase member).countP_eq, List.countP_cons]

/-- An object that no other one holds is gone with one release. -/
theorem release_gave (kept : Kept held m) (member : x ∈ m.list) (free : ∀ y ∈ m.list, held y ≠ some x) :
    ∃ m', Counted.release held m x = some m' ∧ m'.list = m.list.erase x ∧ Gave held [x] m m' := by
  have perm : ([x] ++ m.list.erase x).Perm m.list := (List.perm_cons_erase member).symm
  have sub : (m.list.erase x).Sublist m.list := List.erase_sublist
  have nodup := kept.nodup.erase x
  have one : m.refs x = 1 := by
    rw [kept.refs x member, List.countP_eq_zero.mpr]
    intro y inside
    simpa using free y inside
  have closed : ∀ z ∈ m.list.erase x, ∀ y, held z = some y → y ∈ m.list.erase x ∧ held y = none := by
    intro z inside y holds
    have inside := sub.subset inside
    obtain ⟨there, ends⟩ := kept.closed z inside y holds
    have other : y ≠ x := fun eq => free z inside (eq ▸ holds)
    exact ⟨(List.mem_erase_of_ne other).mpr there, ends⟩
  have counts : ∀ z, m.list.countP (held · = some z) =
      (m.list.erase x).countP (held · = some z) + if held x = some z then 1 else 0 := by
    intro z
    rw [countP_erase_free member]
    simp
  cases holds : held x with
  | none =>
    have run : Counted.release held m x = some ⟨m.list.erase x, Function.update m.refs x 0, m.released ++ [x], m.n + 1⟩ := by
      rw [Counted.release, memDeref_last one, holds]
      rfl
    refine ⟨_, run, rfl, ⟨nodup, ?_, closed⟩, sub, perm, rfl, rfl⟩
    intro z inside
    have other : z ≠ x := (kept.nodup.mem_erase_iff.mp inside).1
    have count := counts z
    rw [holds, if_neg nofun] at count
    show Function.update m.refs x 0 z = _
    rw [Function.update_of_ne other, kept.refs z (sub.subset inside), count]
    rfl
  | some y =>
    obtain ⟨inside, -⟩ := kept.closed x member y holds
    have apart : y ≠ x := fun eq => free x member (eq ▸ holds)
    let once := { m with list := m.list.erase x, refs := Function.update m.refs x 0 }
    have two : once.refs y = (m.list.erase x).countP (held · = some y) + 2 := by
      show Function.update m.refs x 0 y = _
      rw [Function.update_of_ne apart, kept.refs y inside, counts y, if_pos holds]
      omega
    let refs := Function.update once.refs y ((m.list.erase x).countP (held · = some y) + 1)
    have run : Counted.release held m x = some ⟨m.list.erase x, refs, m.released ++ [x], m.n + 1⟩ := by
      rw [Counted.release, memDeref_last one, holds]
      show (Counted.memDeref held 1 once y).map _ = _
      rw [memDeref_more two]
      rfl
    refine ⟨_, run, rfl, ⟨nodup, ?_, closed⟩, sub, perm, rfl, rfl⟩
    intro z inside
    have other : z ≠ x := (kept.nodup.mem_erase_iff.mp inside).1
    show Function.update once.refs y _ z = _
    by_cases base : z = y
    · rw [base, Function.update_self]
      exact Nat.add_comm _ _
    · have count := counts z
      rw [holds, if_neg fun eq => base (Option.some.inj eq).symm] at count
      rw [Function.update_of_ne base]
      show Function.update m.refs x 0 z = _
      rw [Function.update_of_ne other, kept.refs z (sub.subset inside), count]
      rfl

theorem nextOf_append {front rest : List α} (fresh : x ∉ front) : nextOf x (front ++ x :: rest) = rest.head? := by
  induction front with
  | nil => exact if_pos rfl
  | cons y front ih =>
    rw [List.mem_cons, not_or] at fresh
    rw [List.cons_append, nextOf, if_neg (Ne.symm fresh.1), ih fresh.2]

omit [DecidableEq α] in
theorem fresh_of_nodup {front rest : List α} (nodup : (front ++ x :: rest).Nodup) : x ∉ front := by
  intro inside
  exact (List.nodup_append.mp nodup).2.2 x inside x List.mem_cons_self rfl

theorem next_eq (kept : Kept held m) {front rest : List α} (at_x : m.list = front ++ x :: rest) :
    m.next x = some rest.head? := by
  have member : x ∈ m.list := by
    rw [at_x]
    exact List.mem_append_right _ List.mem_cons_self
  have fresh : x ∉ front := fresh_of_nodup (at_x ▸ kept.nodup)
  rw [Counted.next, kept.refs x member, if_neg (by omega), at_x, nextOf_append fresh]

/-- Which of two elements `uh` gives up. -/
def given (uh : α → α → Option Bool) (x y : α) : Option α := (uh x y).map fun first => if first then x else y

/-- No element that `uh` gives up is held by another one. -/
def Frees (held : α → Option α) (uh : α → α → Option Bool) (l : List α) : Prop :=
  ∀ x ∈ l, ∀ y ∈ l, x ≠ y → ∀ z, given uh x y = some z → ∀ w ∈ l, held w ≠ some z

omit [DecidableEq α] in
theorem Frees.sub {l l' : List α} (frees : Frees held uh l) (sub : l'.Sublist l) : Frees held uh l' :=
  fun x inx y iny apart z gives w inw => frees x (sub.subset inx) y (sub.subset iny) apart z gives w (sub.subset inw)

/-- The inner walk makes of the elements behind `le1` what `uniqueBehind` does, and ends with `le1` where that is to go. -/
theorem inner_gave (kept : Kept held m) (frees : Frees held uh m.list) (front passed : List α) {rest : List α} {steps : Nat}
    (enough : rest.length ≤ steps) (at_le2 : m.list = front ++ le1 :: (passed ++ rest)) :
    ∃ gone m', Counted.inner held uh le1 steps rest.head? none m =
        some (if (uniqueBehind uh le1 rest).1 then none else some le1, m') ∧
      Gave held gone m m' ∧ m'.list = front ++ le1 :: (passed ++ (uniqueBehind uh le1 rest).2) := by
  induction rest generalizing steps passed m with
  | nil =>
    refine ⟨[], m, ?_, .refl kept, at_le2⟩
    unfold Counted.inner
    rfl
  | cons y rest ih =>
    obtain ⟨steps, rfl⟩ : ∃ k, steps = k + 1 := ⟨steps - 1, by simp only [List.length_cons] at enough; omega⟩
    have enough : rest.length ≤ steps := by simpa using enough
    have at_y : m.list = (front ++ le1 :: passed) ++ y :: rest := by simp [at_le2]
    have in1 : le1 ∈ m.list := by simp [at_le2]
    have in2 : y ∈ m.list := by simp [at_le2]
    have alive : ¬ (m.refs le1 = 0 ∨ m.refs y = 0) := by
      rw [kept.refs le1 in1, kept.refs y in2]
      omega
    have fresh : y ∉ front ++ le1 :: passed := fresh_of_nodup (at_y ▸ kept.nodup)
    have apart : le1 ≠ y := by
      rintro rfl
      exact fresh (List.mem_append_right _ List.mem_cons_self)
    rw [List.head?_cons, Counted.inner, if_neg alive, next_eq kept at_y]
    cases verdict : uh le1 y with
    | none =>
      have at_rest : m.list = front ++ le1 :: ((passed ++ [y]) ++ rest) := by simp [at_le2]
      obtain ⟨gone, m', run, gave, list⟩ := ih kept frees (passed ++ [y]) enough at_rest
      refine ⟨gone, m', ?_, gave, ?_⟩
      · simp only [uniqueBehind, verdict]
        exact run
      · simp [uniqueBehind, verdict, list]
    | some first =>
      cases first with
      | true =>
        refine ⟨[], m, ?_, .refl kept, ?_⟩
        · simp [uniqueBehind, verdict]
        · simp [uniqueBehind, verdict, at_le2]
      | false =>
        have free := frees le1 in1 y in2 apart y (by simp [given, verdict])
        obtain ⟨m1, released, list1, gave1⟩ := release_gave kept in2 free
        have list1 : m1.list = front ++ le1 :: (passed ++ rest) := by
          rw [list1, at_y, List.erase_append_right _ fresh, List.erase_cons_head, List.append_assoc, List.cons_append]
        obtain ⟨gone, m', run, gave, list⟩ := ih gave1.kept (frees.sub gave1.sub) _ enough list1
        refine ⟨[y] ++ gone, m', ?_, gave1.trans gave, ?_⟩
        · simp only [uniqueBehind, verdict]
          simp [apart, released, run]
        · simp [uniqueBehind, verdict, list]

omit [DecidableEq α] in
theorem uniqueBehind_goes {l : List α} (goes : (uniqueBehind uh x l).1 = false) : ∃ y ∈ l, uh x y = some true := by
  induction l with
  | nil => cases goes
  | cons y l ih =>
    unfold uniqueBehind at goes
    split at goes
    · obtain ⟨z, inside, beaten⟩ := ih goes
      exact ⟨z, List.mem_cons_of_mem y inside, beaten⟩
    · exact ⟨y, List.mem_cons_self, by assumption⟩
    · obtain ⟨z, inside, beaten⟩ := ih goes
      exact ⟨z, List.mem_cons_of_mem y inside, beaten⟩

theorem outer_step {steps : Nat} {le2 next data : Option α} (more : m.list.getLast? ≠ some le1)
    (next2 : m.next le1 = some le2) (walked : Counted.inner held uh le1 m.list.length le2 none m = some (data, m'))
    (next1 : m'.next le1 = some next) : Counted.outer held uh (steps + 1) (some le1) m =
      data.elim (Counted.outer held uh steps next m') fun data =>
        (Counted.release held m' data).bind (Counted.outer held uh steps next) := by
  rw [Counted.outer, if_neg more, next2]
  show (Counted.inner held uh le1 m.list.length le2 none m).bind _ = _
  rw [walked]
  show (m'.next le1).bind _ = _
  rw [next1]
  cases data <;> rfl

/-- The outer walk makes of the elements from its own on what `uniqueSteps` does. -/
theorem outer_gave (kept : Kept held m) (frees : Frees held uh m.list) (front : List α) {rest : List α} {steps : Nat}
    (enough : rest.length ≤ steps) (at_le1 : m.list = front ++ rest) :
    ∃ gone m', Counted.outer held uh steps rest.head? m = some m' ∧ Gave held gone m m' ∧
      m'.list = front ++ uniqueSteps uh steps rest := by
  induction steps generalizing m front rest with
  | zero =>
    obtain rfl : rest = [] := List.eq_nil_of_length_eq_zero (by omega)
    exact ⟨[], m, rfl, .refl kept, at_le1⟩
  | succ steps ih =>
    match rest with
    | [] => exact ⟨[], m, rfl, .refl kept, at_le1⟩
    | [x] =>
      refine ⟨[], m, ?_, .refl kept, ?_⟩
      · rw [List.head?_cons, Counted.outer, if_pos (by simp [at_le1])]
      · cases steps <;> simp [uniqueSteps, uniqueBehind, at_le1]
    | x :: y :: rest =>
      have fresh : x ∉ front := fresh_of_nodup (at_le1 ▸ kept.nodup)
      have alone : x ∉ y :: rest := (List.nodup_cons.mp (List.nodup_append.mp (at_le1 ▸ kept.nodup)).2.1).1
      have more : m.list.getLast? ≠ some x := by
        have last : m.list.getLast? = some ((y :: rest).getLast (List.cons_ne_nil y rest)) := by
          rw [at_le1, List.getLast?_append, List.getLast?_cons_cons, List.getLast?_eq_getLast_of_ne_nil (List.cons_ne_nil y rest)]
          rfl
        rw [last]
        intro eq
        have inside := List.getLast_mem (List.cons_ne_nil y rest)
        rw [Option.some.inj eq] at inside
        exact alone inside
      have within : (y :: rest).length ≤ m.list.length := by simp [at_le1]; omega
      obtain ⟨gone1, m1, walked, gave1, list1⟩ := inner_gave kept frees front [] within at_le1
      rw [List.nil_append] at list1
      have enough : (uniqueBehind uh x (y :: rest)).2.length ≤ steps := by
        have := (uniqueBehind_sublist uh x (y :: rest)).length_le
        simp only [List.length_cons] at enough this
        omega
      have next2 := next_eq kept at_le1
      cases stays : (uniqueBehind uh x (y :: rest)).1 with
      | true =>
        have list1 : m1.list = (front ++ [x]) ++ (uniqueBehind uh x (y :: rest)).2 := by simp [list1]
        obtain ⟨gone2, m2, run, gave2, list2⟩ := ih gave1.kept (frees.sub gave1.sub) _ enough list1
        refine ⟨gone1 ++ gone2, m2, ?_, gave1.trans gave2, ?_⟩
        · rw [stays, if_pos rfl] at walked
          have next1 := next_eq gave1.kept (list1.trans (List.append_assoc ..))
          exact (outer_step more next2 walked next1).trans run
        · simp [uniqueSteps, stays, list2]
      | false =>
        obtain ⟨z, inside, beaten⟩ := uniqueBehind_goes stays
        have in1 : x ∈ m.list := by simp [at_le1]
        have inz : z ∈ m.list := by
          rw [at_le1]
          exact List.mem_append_right _ (List.mem_cons_of_mem x inside)
        have free : ∀ w ∈ m1.list, held w ≠ some x := fun w inw =>
          frees x in1 z inz (fun eq => alone (eq ▸ inside)) x (by simp [given, beaten]) w (gave1.sub.subset inw)
        obtain ⟨m2, released, list2, gave2⟩ := release_gave gave1.kept (by simp [list1]) free
        have list2 : m2.list = front ++ (uniqueBehind uh x (y :: rest)).2 := by
          rw [list2, list1, List.erase_append_right _ fresh, List.erase_cons_head]
        have all := gave1.trans gave2
        obtain ⟨gone3, m3, run, gave3, list3⟩ := ih all.kept (frees.sub all.sub) _ enough list2
        refine ⟨gone1 ++ [x] ++ gone3, m3, ?_, all.trans gave3, ?_⟩
        · rw [stays, if_neg Bool.false_ne_true] at walked
          have next1 := next_eq gave1.kept list1
          refine (outer_step more next2 walked next1).trans ?_
          rw [Option.elim_some, released]
          exact run
        · simp [uniqueSteps, stays, list3]

/-- The walk leaves what `iceListUnique` leaves of the list. -/
theorem iceListUnique_gave (kept : Kept held m) (frees : Frees held uh m.list) :
    ∃ gone m', m.iceListUnique held uh = some m' ∧ Gave held gone m m' ∧ m'.list = iceListUnique uh m.list :=
  outer_gave kept frees [] (Nat.le_refl _) rfl

section
variable (related : α → α → Prop) (prio : α → Nat)

/-- Of two elements that are related `uh` gives up the one of lower priority, and of equal ones the second. -/
structure Ranks (uh : α → α → Option Bool) (l : List α) : Prop where
  none_iff : ∀ x ∈ l, ∀ y ∈ l, uh x y = none ↔ ¬ related x y
  lower : ∀ x ∈ l, ∀ y ∈ l, ∀ first, uh x y = some first → first = decide (prio x < prio y)
  symm : ∀ x ∈ l, ∀ y ∈ l, related x y → related y x
  trans : ∀ x ∈ l, ∀ y ∈ l, ∀ z ∈ l, related x y → related y z → related x z

/-- Of every group of related elements one is left, of the highest priority. -/
structure OneOfEach (l l' : List α) : Prop where
  sub : l'.Sublist l
  one : ∀ x ∈ l, ∃! y, y ∈ l' ∧ (y = x ∨ related x y)
  top : ∀ x ∈ l, ∀ y ∈ l', y = x ∨ related x y → prio x ≤ prio y

def Covers (l' l : List α) : Prop := ∀ x ∈ l, ∃ y ∈ l', (y = x ∨ related x y) ∧ prio x ≤ prio y

end

variable {related : α → α → Prop} {prio : α → Nat} {l l' l'' : List α}

omit [DecidableEq α] in
theorem Ranks.sub (ranks : Ranks related prio uh l) (sub : l'.Sublist l) : Ranks related prio uh l' where
  none_iff x inx y iny := ranks.none_iff x (sub.subset inx) y (sub.subset iny)
  lower x inx y iny := ranks.lower x (sub.subset inx) y (sub.subset iny)
  symm x inx y iny := ranks.symm x (sub.subset inx) y (sub.subset iny)
  trans x inx y iny z inz := ranks.trans x (sub.subset inx) y (sub.subset iny) z (sub.subset inz)

omit [DecidableEq α] in
theorem Ranks.related_of_some (ranks : Ranks related prio uh l) {x y : α} (inx : x ∈ l) (iny : y ∈ l) {first : Bool}
    (gives : uh x y = some first) : related x y := by
  by_contra apart
  rw [(ranks.none_iff x inx y iny).mpr apart] at gives
  cases gives

omit [DecidableEq α] in
theorem Covers.refl (l : List α) : Covers related prio l l := fun x inx => ⟨x, inx, .inl rfl, Nat.le_refl _⟩

omit [DecidableEq α] in
theorem Covers.mono (covers : Covers related prio l' l) (within : l' ⊆ l'') : Covers related prio l'' l := by
  intro y iny
  obtain ⟨z, inz, rest⟩ := covers y iny
  exact ⟨z, within inz, rest⟩

omit [DecidableEq α] in
theorem Covers.cons (covers : Covers related prio l' l) : Covers related prio (x :: l') (x :: l) :=
  List.forall_mem_cons.mpr ⟨⟨x, List.mem_cons_self, .inl rfl, Nat.le_refl _⟩, covers.mono (List.subset_cons_self x l')⟩

omit [DecidableEq α] in
/-- What the inner walk gives up is covered by an element that is related to it, and `x` stays if nothing related to it is
    left. -/
theorem uniqueBehind_covers (ranks : Ranks related prio uh (x :: l)) :
    if (uniqueBehind uh x l).1 then
      Covers related prio (x :: (uniqueBehind uh x l).2) (x :: l) ∧ ∀ y ∈ (uniqueBehind uh x l).2, ¬ related x y
    else Covers related prio (uniqueBehind uh x l).2 (x :: l) := by
  induction l with
  | nil => exact ⟨Covers.cons nofun, nofun⟩
  | cons y l ih =>
    have inx : x ∈ x :: y :: l := List.mem_cons_self
    have iny : y ∈ x :: y :: l := List.mem_cons_of_mem x List.mem_cons_self
    have behind := ih (ranks.sub ((List.sublist_cons_self y l).cons_cons x))
    cases verdict : uh x y with
    | none =>
      have apart := (ranks.none_iff x inx y iny).mp verdict
      simp only [uniqueBehind, verdict]
      split at behind
      · rename_i stays
        rw [if_pos stays]
        obtain ⟨covers, left⟩ := behind
        obtain ⟨-, covers⟩ := List.forall_mem_cons.mp covers
        have wider : x :: (uniqueBehind uh x l).2 ⊆ x :: y :: (uniqueBehind uh x l).2 :=
          List.cons_subset_cons x (List.subset_cons_self y _)
        refine ⟨List.forall_mem_cons.mpr ⟨?_, List.forall_mem_cons.mpr ⟨?_, Covers.mono covers wider⟩⟩,
          List.forall_mem_cons.mpr ⟨apart, left⟩⟩
        · exact ⟨x, List.mem_cons_self, .inl rfl, Nat.le_refl _⟩
        · exact ⟨y, List.mem_cons_of_mem x List.mem_cons_self, .inl rfl, Nat.le_refl _⟩
      · rename_i goes
        rw [if_neg goes]
        obtain ⟨⟨z, inz, covered⟩, covers⟩ := List.forall_mem_cons.mp behind
        exact List.forall_mem_cons.mpr ⟨⟨z, List.mem_cons_of_mem y inz, covered⟩, Covers.cons covers⟩
    | some first =>
      have same := ranks.related_of_some inx iny verdict
      have lower := ranks.lower x inx y iny first verdict
      cases first with
      | true =>
        have lower : prio x < prio y := of_decide_eq_true lower.symm
        simp only [uniqueBehind, verdict, Bool.false_eq_true, if_false]
        exact List.forall_mem_cons.mpr ⟨⟨y, List.mem_cons_self, .inr same, lower.le⟩, Covers.refl (y :: l)⟩
      | false =>
        have lower : prio y ≤ prio x := Nat.le_of_not_lt (of_decide_eq_false lower.symm)
        have back := ranks.symm x inx y iny same
        simp only [uniqueBehind, verdict]
        split at behind
        · rename_i stays
          rw [if_pos stays]
          obtain ⟨covered, covers⟩ := List.forall_mem_cons.mp behind.1
          refine ⟨List.forall_mem_cons.mpr ⟨covered, List.forall_mem_cons.mpr ⟨?_, covers⟩⟩, behind.2⟩
          exact ⟨x, List.mem_cons_self, .inr back, lower⟩
        · rename_i goes
          rw [if_neg goes]
          obtain ⟨covered, covers⟩ := List.forall_mem_cons.mp behind
          refine List.forall_mem_cons.mpr ⟨covered, List.forall_mem_cons.mpr ⟨?_, covers⟩⟩
          obtain ⟨z, inz, xz, higher⟩ := covered
          have inz' := List.mem_cons_of_mem x (List.mem_cons_of_mem y ((uniqueBehind_sublist uh x l).subset inz))
          refine ⟨z, inz, .inr ?_, lower.trans higher⟩
          rcases xz with rfl | xz
          · exact back
          · exact ranks.trans y iny x inx z inz' back xz

omit [DecidableEq α] in
theorem Covers.trans (ranks : Ranks related prio uh l) (first : Covers related prio l' l)
    (second : Covers related prio l'' l') (sub : l'.Sublist l) (sub' : l''.Sublist l') : Covers related prio l'' l := by
  intro x inx
  obtain ⟨y, iny, xy, lower⟩ := first x inx
  obtain ⟨z, inz, yz, lower'⟩ := second y iny
  refine ⟨z, inz, ?_, lower.trans lower'⟩
  rcases xy with rfl | xy
  · exact yz
  rcases yz with rfl | yz
  · exact .inr xy
  exact .inr (ranks.trans x inx y (sub.subset iny) z (sub.subset (sub'.subset inz)) xy yz)

omit [DecidableEq α] in
theorem uniqueSteps_covers {steps : Nat} (enough : l.length ≤ steps) (ranks : Ranks related prio uh l) :
    Covers related prio (uniqueSteps uh steps l) l ∧ (uniqueSteps uh steps l).Pairwise fun x y => ¬ related x y := by
  induction steps generalizing l with
  | zero =>
    obtain rfl : l = [] := List.eq_nil_of_length_eq_zero (by omega)
    exact ⟨nofun, .nil⟩
  | succ steps ih =>
    cases l with
    | nil => exact ⟨nofun, .nil⟩
    | cons x l =>
      have behind := uniqueBehind_covers ranks
      have sub := uniqueBehind_sublist uh x l
      have enough : (uniqueBehind uh x l).2.length ≤ steps := by
        have := sub.length_le
        simp only [List.length_cons] at enough
        omega
      obtain ⟨covers, apart⟩ := ih enough (ranks.sub (sub.cons x))
      have sub' := uniqueSteps_sublist uh steps (uniqueBehind uh x l).2
      rw [uniqueSteps]
      split at behind
      · rename_i stays
        rw [if_pos stays]
        refine ⟨behind.1.trans ranks ?_ (sub.cons_cons x) (sub'.cons_cons x), .cons ?_ apart⟩
        · intro y iny
          rcases List.mem_cons.mp iny with rfl | iny
          · exact ⟨y, List.mem_cons_self, .inl rfl, Nat.le_refl _⟩
          · obtain ⟨z, inz, rest⟩ := covers y iny
            exact ⟨z, List.mem_cons_of_mem x inz, rest⟩
        · exact fun y iny => behind.2 y (sub'.subset iny)
      · rename_i goes
        rw [if_neg goes]
        exact ⟨behind.trans ranks covers (sub.cons x) sub', apart⟩

omit [DecidableEq α] in
theorem iceListUnique_oneOfEach (ranks : Ranks related prio uh l) :
    OneOfEach related prio l (iceListUnique uh l) := by
  obtain ⟨covers, apart⟩ := uniqueSteps_covers (Nat.le_refl _) ranks
  have sub := iceListUnique_sublist uh l
  have both : (iceListUnique uh l).Pairwise fun x y => ¬ related x y ∧ ¬ related y x :=
    apart.imp_of_mem fun {x y} inx iny away => ⟨away, fun back => away (ranks.symm y (sub.subset iny) x (sub.subset inx) back)⟩
  have single : ∀ x ∈ l, ∀ y ∈ iceListUnique uh l, ∀ z ∈ iceListUnique uh l, y = x ∨ related x y → z = x ∨ related x z →
      y = z := by
    intro x inx y iny z inz xy xz
    by_contra differ
    have swap : Std.Symm fun x y => ¬ related x y ∧ ¬ related y x := ⟨fun _ _ => And.symm⟩
    have unrelated := both.forall iny inz differ
    rcases xy with rfl | xy
    · rcases xz with rfl | xz
      · exact differ rfl
      · exact unrelated.1 xz
    have yx := ranks.symm x inx y (sub.subset iny) xy
    rcases xz with rfl | xz
    · exact unrelated.1 yx
    · exact unrelated.1 (ranks.trans y (sub.subset iny) x inx z (sub.subset inz) yx xz)
  refine ⟨sub, fun x inx => ?_, fun x inx y iny xy => ?_⟩
  · obtain ⟨y, iny, xy, -⟩ := covers x inx
    exact ⟨y, ⟨iny, xy⟩, fun z ⟨inz, xz⟩ => single x inx z inz y iny xz xy⟩
  · obtain ⟨z, inz, xz, lower⟩ := covers x inx
    rw [single x inx y iny z inz xy xz]
    exact lower

/-- What the walk leaves and gives up of a list, and how many. -/
structure Removed (uh : α → α → Option Bool) (related : α → α → Prop) (prio : α → Nat) (l : List α) (m : Counted α) :
    Prop where
  left : OneOfEach related prio l m.list
  same : m.list = iceListUnique uh l
  once : m.released.Nodup
  gone : ∀ x, x ∈ m.released ↔ x ∈ l ∧ x ∉ m.list
  count : m.n = .ofNat 32 m.released.length

/-- The walk comes to its end and reads no object that is gone. -/
theorem iceListUnique_removed (kept : Kept held m) (frees : Frees held uh m.list) (ranks : Ranks related prio uh m.list)
    (fresh : m.released = [] ∧ m.n = 0) :
    ∃ m', m.iceListUnique held uh = some m' ∧ Removed uh related prio m.list m' := by
  obtain ⟨gone, m', run, gave, list⟩ := iceListUnique_gave kept frees
  have released : m'.released = gone := by rw [gave.released, fresh.1, List.nil_append]
  have nodup := List.nodup_append.mp (gave.perm.nodup_iff.mpr kept.nodup)
  refine ⟨m', run, list ▸ iceListUnique_oneOfEach ranks, list, released ▸ nodup.1, fun x => ?_, ?_⟩
  · rw [released, ← gave.perm.mem_iff, List.mem_append]
    constructor
    · exact fun inside => ⟨.inl inside, fun stays => nodup.2.2 x inside x stays rfl⟩
    · exact fun ⟨either, left⟩ => either.resolve_right left
  · rw [gave.n, fresh.2, released]
    exact BitVec.zero_add _

end Baresip.Chk
