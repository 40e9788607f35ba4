import Baresip.Chk.Checklist
import Mathlib.Data.List.Nodup

set_option linter.dupNamespace false

namespace Baresip.Chk

open Re

section
variable (foundation : Cand → String)

/-- What the search asks of the pair that it goes over to. -/
def Beats (cp2 cp : Candpair) : Prop :=
  Icem.candpairCmpFnd foundation cp cp2 = true ∧ cp2.lcand.compid < cp.lcand.compid ∧ cp2.pprio > cp.pprio

instance (cp2 cp : Candpair) : Decidable (Beats foundation cp2 cp) :=
  inferInstanceAs (Decidable (_ ∧ _ ∧ _))

/-- Of the pairs of its foundation one with the lowest component and, among those, the highest priority. -/
def FirstOf (l : List Candpair) (cp : Candpair) : Prop :=
  ∀ other ∈ l, Icem.candpairCmpFnd foundation cp other = true →
    cp.lcand.compid < other.lcand.compid ∨ (cp.lcand.compid = other.lcand.compid ∧ other.pprio ≤ cp.pprio)

/-- In every foundation its first pair is waiting and all others are frozen. -/
def EachUnfrozen (l l' : List Candpair) : Prop :=
  ∀ cp ∈ l, ∃ m ∈ l, Icem.candpairCmpFnd foundation cp m = true ∧ FirstOf foundation l m ∧
    { m with state := .waiting } ∈ l' ∧
    ∀ other ∈ l', Icem.candpairCmpFnd foundation cp other = true →
      other.state = if other.id = m.id then .waiting else .frozen

/-- In every foundation one pair has both a lower component and a higher priority than every other one. -/
def EachLed (l : List Candpair) : Prop :=
  ∀ cp ∈ l, ∃ m ∈ l, Icem.candpairCmpFnd foundation cp m = true ∧
    ∀ other ∈ l, Icem.candpairCmpFnd foundation cp other = true → other.id ≠ m.id →
      m.lcand.compid < other.lcand.compid ∧ other.pprio < m.pprio

end

variable {foundation : Cand → String} {a b c cp m : Candpair} {l : List Candpair}

theorem cmpFnd_iff : Icem.candpairCmpFnd foundation a b = true ↔
    foundation a.lcand = foundation b.lcand ∧ foundation a.rcand = foundation b.rcand :=
  decide_eq_true_iff

theorem cmpFnd_refl (cp : Candpair) : Icem.candpairCmpFnd foundation cp cp = true := cmpFnd_iff.mpr ⟨rfl, rfl⟩

theorem cmpFnd_symm (same : Icem.candpairCmpFnd foundation a b = true) :
    Icem.candpairCmpFnd foundation b a = true := by
  obtain ⟨left, right⟩ := cmpFnd_iff.mp same
  exact cmpFnd_iff.mpr ⟨left.symm, right.symm⟩

theorem cmpFnd_trans (ab : Icem.candpairCmpFnd foundation a b = true)
    (bc : Icem.candpairCmpFnd foundation b c = true) : Icem.candpairCmpFnd foundation a c = true := by
  obtain ⟨left, right⟩ := cmpFnd_iff.mp ab
  obtain ⟨left', right'⟩ := cmpFnd_iff.mp bc
  exact cmpFnd_iff.mpr ⟨left.trans left', right.trans right'⟩

theorem Beats.trans (ab : Beats foundation a b) (bc : Beats foundation b c) : Beats foundation a c :=
  ⟨cmpFnd_trans bc.1 ab.1, Nat.lt_trans ab.2.1 bc.2.1, Nat.lt_trans bc.2.2 ab.2.2⟩

theorem Beats.irrefl (cp : Candpair) : ¬ Beats foundation cp cp := fun beats => Nat.lt_irrefl _ beats.2.1

theorem firstOfFoundation_cons (cp : Candpair) : Icem.firstOfFoundation foundation (c :: l) cp =
    Icem.firstOfFoundation foundation l (if Beats foundation c cp then c else cp) := rfl

/-- The search ends at a pair that none of the list beats: whoever beats a later one has beaten the one before it. -/
theorem firstOfFoundation_spec (foundation : Cand → String) (l : List Candpair) (cp : Candpair) :
    (Icem.firstOfFoundation foundation l cp = cp ∨
      (Icem.firstOfFoundation foundation l cp ∈ l ∧ Beats foundation (Icem.firstOfFoundation foundation l cp) cp)) ∧
    ∀ other ∈ l, ¬ Beats foundation other (Icem.firstOfFoundation foundation l cp) := by
  induction l generalizing cp with
  | nil => exact ⟨.inl rfl, List.forall_mem_nil _⟩
  | cons c l ih =>
    rw [firstOfFoundation_cons, List.forall_mem_cons]
    by_cases beats : Beats foundation c cp
    · rw [if_pos beats]
      obtain ⟨from_, unbeaten⟩ := ih c
      generalize Icem.firstOfFoundation foundation l c = r at from_ unbeaten
      rcases from_ with rfl | ⟨member, better⟩
      · exact ⟨.inr ⟨List.mem_cons_self, beats⟩, Beats.irrefl r, unbeaten⟩
      · exact ⟨.inr ⟨List.mem_cons_of_mem c member, better.trans beats⟩,
          fun back => Beats.irrefl c (back.trans better), unbeaten⟩
    · rw [if_neg beats]
      obtain ⟨from_, unbeaten⟩ := ih cp
      generalize Icem.firstOfFoundation foundation l cp = r at from_ unbeaten
      rcases from_ with rfl | ⟨member, better⟩
      · exact ⟨.inl rfl, beats, unbeaten⟩
      · exact ⟨.inr ⟨List.mem_cons_of_mem c member, better⟩, fun back => beats (back.trans better), unbeaten⟩

theorem firstOfFoundation_mem (foundation : Cand → String) (member : cp ∈ l) : Icem.firstOfFoundation foundation l cp ∈ l := by
  rcases (firstOfFoundation_spec foundation l cp).1 with same | ⟨inside, -⟩
  · rw [same]
    exact member
  · exact inside

theorem firstOfFoundation_same (cp : Candpair) :
    Icem.candpairCmpFnd foundation cp (Icem.firstOfFoundation foundation l cp) = true := by
  rcases (firstOfFoundation_spec foundation l cp).1 with same | ⟨-, better⟩
  · rw [same]
    exact cmpFnd_refl cp
  · exact better.1

/-- The states that are set one after the other. -/
theorem setStates_checkl (ids : List Nat) (icem : Icem) :
    (ids.foldl (fun icem id => icem.candpairSetState id .waiting) icem).checkl =
      icem.checkl.map fun cp => if cp.id ∈ ids then { cp with state := .waiting } else cp := by
  induction ids generalizing icem with
  | nil => simp
  | cons id ids ih =>
    rw [List.foldl_cons, ih]
    show (icem.checkl.map _).map _ = _
    rw [List.map_map]
    apply List.map_congr_left
    intro cp _
    by_cases here : cp.id = id
    · simp [here]
    · simp [here]

theorem candpairSetStates_checkl (foundation : Cand → String) (icem : Icem) :
    (icem.candpairSetStates foundation).checkl = icem.checkl.map fun cp =>
      if cp.id ∈ icem.checkl.map (fun cp => (Icem.firstOfFoundation foundation icem.checkl cp).id) then
        { cp with state := .waiting } else cp := by
  rw [← setStates_checkl, List.foldl_map]
  rfl

/-- What becomes of a pair when the states have been set. -/
theorem set_mem_iff (distinct : (l.map Candpair.id).Nodup) (member : cp ∈ l) :
    cp.id ∈ l.map (fun other => (Icem.firstOfFoundation foundation l other).id) ↔
      ∃ other ∈ l, Icem.firstOfFoundation foundation l other = cp := by
  rw [List.mem_map]
  constructor
  · rintro ⟨other, inside, same⟩
    exact ⟨other, inside, List.inj_on_of_nodup_map distinct (firstOfFoundation_mem foundation inside) member same⟩
  · rintro ⟨other, inside, rfl⟩
    exact ⟨other, inside, rfl⟩

theorem led_of_unfrozen {l' : List Candpair} (distinct : (l.map Candpair.id).Nodup)
    (set : l' = l.map fun cp => if ∃ other ∈ l, Icem.firstOfFoundation foundation l other = cp then
      { cp with state := .waiting } else cp)
    (unfrozen : EachUnfrozen foundation l l') : EachLed foundation l := by
  intro cp member
  obtain ⟨m, inside, same, -, -, states⟩ := unfrozen cp member
  refine ⟨m, inside, same, ?_⟩
  intro other inList sameOther apart
  -- the search from any other pair of the foundation ends at a pair that is now waiting
  have reached := firstOfFoundation_mem foundation inList
  have waiting : { Icem.firstOfFoundation foundation l other with state := .waiting } ∈ l' := by
    rw [set, List.mem_map]
    exact ⟨_, reached, if_pos ⟨other, inList, rfl⟩⟩
  have state := states _ waiting (cmpFnd_trans sameOther (firstOfFoundation_same other))
  have here : Icem.firstOfFoundation foundation l other = m := by
    by_contra elsewhere
    have ne : (Icem.firstOfFoundation foundation l other).id ≠ m.id := fun eq =>
      elsewhere (List.inj_on_of_nodup_map distinct reached inside eq)
    rw [if_neg ne] at state
    cases state
  rcases (firstOfFoundation_spec foundation l other).1 with own | ⟨-, better⟩
  · rw [here] at own
    exact absurd (congrArg Candpair.id own).symm apart
  · rw [here] at better
    exact better.2

theorem unfrozen_of_led {l' : List Candpair} (distinct : (l.map Candpair.id).Nodup)
    (frozen : ∀ cp ∈ l, cp.state = .frozen)
    (set : l' = l.map fun cp => if ∃ other ∈ l, Icem.firstOfFoundation foundation l other = cp then
      { cp with state := .waiting } else cp)
    (led : EachLed foundation l) : EachUnfrozen foundation l l' := by
  intro cp member
  obtain ⟨m, inside, same, leads⟩ := led cp member
  -- the pair that leads is where every search in its foundation ends
  have ends : ∀ other ∈ l, Icem.candpairCmpFnd foundation cp other = true →
      Icem.firstOfFoundation foundation l other = m := by
    intro other inList sameOther
    have reached := firstOfFoundation_mem foundation inList
    have sameReached := cmpFnd_trans sameOther (firstOfFoundation_same (l := l) other)
    have unbeaten := (firstOfFoundation_spec foundation l other).2 m inside
    by_contra elsewhere
    have ne : (Icem.firstOfFoundation foundation l other).id ≠ m.id := fun eq =>
      elsewhere (List.inj_on_of_nodup_map distinct reached inside eq)
    have ahead := leads _ reached sameReached ne
    exact unbeaten ⟨cmpFnd_trans (cmpFnd_symm sameReached) same, ahead⟩
  refine ⟨m, inside, same, ?_, ?_, ?_⟩
  · intro other inList sameOther
    by_cases own : other.id = m.id
    · obtain rfl := List.inj_on_of_nodup_map distinct inList inside own
      exact .inr ⟨rfl, Nat.le_refl _⟩
    · exact .inl (leads other inList (cmpFnd_trans same sameOther) own).1
  · rw [set, List.mem_map]
    exact ⟨m, inside, if_pos ⟨m, inside, ends m inside same⟩⟩
  · intro other inAfter sameOther
    rw [set, List.mem_map] at inAfter
    obtain ⟨before, inList, rfl⟩ := inAfter
    by_cases chosen : ∃ other ∈ l, Icem.firstOfFoundation foundation l other = before
    · obtain ⟨from_, inFrom, rfl⟩ := id chosen
      rw [if_pos chosen] at sameOther ⊢
      have sameFrom : Icem.candpairCmpFnd foundation cp from_ = true :=
        cmpFnd_trans sameOther (cmpFnd_symm (firstOfFoundation_same from_))
      rw [if_pos (congrArg Candpair.id (ends from_ inFrom sameFrom))]
    · rw [if_neg chosen] at sameOther ⊢
      have ne : before.id ≠ m.id := by
        intro eq
        obtain rfl := List.inj_on_of_nodup_map distinct inList inside eq
        exact chosen ⟨before, inList, ends before inList sameOther⟩
      rw [if_neg ne]
      exact frozen before inList

/-- The pairs are unfrozen as they should be where one pair of each foundation comes before all others in both respects:
    the search goes over to a pair only if both its component is lower and its priority is higher. -/
theorem unfrozen_iff (foundation : Cand → String) (icem : Icem) (distinct : (icem.checkl.map Candpair.id).Nodup)
    (frozen : ∀ cp ∈ icem.checkl, cp.state = .frozen) :
    EachUnfrozen foundation icem.checkl (icem.candpairSetStates foundation).checkl ↔
      EachLed foundation icem.checkl := by
  have set : (icem.candpairSetStates foundation).checkl = icem.checkl.map fun cp =>
      if ∃ other ∈ icem.checkl, Icem.firstOfFoundation foundation icem.checkl other = cp then
        { cp with state := .waiting } else cp := by
    rw [candpairSetStates_checkl]
    apply List.map_congr_left
    intro cp member
    simp only [set_mem_iff distinct member]
  exact ⟨led_of_unfrozen distinct set, unfrozen_of_led distinct frozen set⟩

def frozenPair (id compid : Nat) (pprio : Nat) : Candpair :=
  ⟨id, compid, ⟨0, .host, 0, compid, .init⟩, ⟨1, .host, 0, compid, .init⟩, false, false, .frozen, pprio, none⟩

def withPairs (checkl : List Candpair) : Icem := { mediaOf ⟨.full, .controlling, 0, .regular⟩ [] [] [] with checkl := checkl }

theorem unfrozen_iff_two_components :
    EachUnfrozen (fun _ => "f") [frozenPair 0 1 9, frozenPair 1 2 8]
        ((withPairs [frozenPair 0 1 9, frozenPair 1 2 8]).candpairSetStates fun _ => "f").checkl ↔
      EachLed (fun _ => "f") [frozenPair 0 1 9, frozenPair 1 2 8] :=
  unfrozen_iff (fun _ => "f") (withPairs [frozenPair 0 1 9, frozenPair 1 2 8]) (by decide) (by decide)

/-- Two pairs of one component in a foundation are both waiting. -/
theorem two_waiting :
    ¬ EachUnfrozen (fun _ => "f") [frozenPair 0 1 9, frozenPair 1 1 8]
      ((withPairs [frozenPair 0 1 9, frozenPair 1 1 8]).candpairSetStates fun _ => "f").checkl := by
  intro unfrozen
  obtain ⟨m, -, -, -, -, states⟩ := unfrozen _ List.mem_cons_self
  have first := states { frozenPair 0 1 9 with state := .waiting } (by decide) (by decide)
  have second := states { frozenPair 1 1 8 with state := .waiting } (by decide) (by decide)
  split at first
  · rename_i zero
    split at second
    · rename_i one
      exact absurd (zero.trans one.symm) (by decide)
    · contradiction
  · contradiction

end Baresip.Chk
