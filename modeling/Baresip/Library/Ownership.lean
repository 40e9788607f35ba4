import Mathlib.Logic.Function.Basic
import Mathlib.Tactic.Common

set_option linter.dupNamespace false

namespace Library

variable {κ ο α : Type*}

/-- What a pointer leads to is changed, or is gone. A null pointer changes nothing. -/
def modify [DecidableEq κ] (heap : κ → Option α) (p : Option κ) (f : α → Option α) (x : κ) : Option α :=
  if p = some x then (heap x).bind f else heap x

/-- Whether a pointer leads to what is gone. -/
def dangles (heap : κ → Option α) (p : Option κ) : Bool := p.any fun x => (heap x).isNone

/-- Every part that points back has a live owner, which points to it, and every pointer leads to a part that points back. -/
structure Linked (owners : κ → Option ο) (pointer : ο → Option κ) (parts : κ → Option α) (back : α → Option κ)
    (Own : α → Prop) : Prop where
  backs : ∀ {x part c}, parts x = some part → back part = some c →
    Own part ∧ ∃ owner, owners c = some owner ∧ pointer owner = some x
  pointers : ∀ {c owner x}, owners c = some owner → pointer owner = some x →
    ∃ part, parts x = some part ∧ back part = some c

/-- What a pointer leads to does not point back any more, and nothing else has changed. -/
structure Freed (parts parts' : κ → Option α) (back : α → Option κ) (p : Option κ) : Prop where
  others : ∀ x, p ≠ some x → parts' x = parts x
  own : ∀ x part, p = some x → parts' x = some part → back part = none

/-- The addresses from `n` on have not been given out. -/
def Fresh (heap : Nat → Option α) (n : Nat) : Prop := ∀ x, n ≤ x → heap x = none

section
variable {heap parts parts' : κ → Option α} {owners : κ → Option ο} {pointer : ο → Option κ} {back : α → Option κ} {Own : α → Prop}
  {p : Option κ} {x c : κ} {owner : ο}

@[simp] theorem dangles_null : dangles heap none = false := rfl

@[simp] theorem dangles_some : dangles heap (some x) = (heap x).isNone := rfl

/-- Nothing but what is freed has been changed before. -/
theorem Freed.after (same : ∀ x, p ≠ some x → parts x = heap x) (freed : Freed parts parts' back p) :
    Freed heap parts' back p where
  others x differ := (freed.others x differ).trans (same x differ)
  own := freed.own

theorem Linked.empty : Linked (fun _ => none : κ → Option ο) pointer (fun _ => none) back Own where
  backs there := by cases there
  pointers here := by cases here

theorem Linked.sound (linked : Linked owners pointer parts back Own) (here : owners c = some owner) :
    dangles parts (pointer owner) = false := by
  cases points : pointer owner with
  | none => rfl
  | some x =>
    rcases linked.pointers here points with ⟨part, there, _⟩
    rw [dangles_some, there]
    rfl

end

section
variable {heap heap' : Nat → Option α} {n x : Nat} {a : α} {p : Option Nat} {f : α → Option α}

theorem Fresh.old (fresh : Fresh heap n) (there : heap x = some a) : x < n := by
  apply Nat.lt_of_not_le
  intro new
  rw [fresh x new] at there
  cases there

theorem Fresh.mono (fresh : Fresh heap n) {m : Nat} (le : n ≤ m) : Fresh heap m := fun x new => fresh x (Nat.le_trans le new)

theorem Fresh.update (fresh : Fresh heap n) (old : x < n) {next : Option α} : Fresh (Function.update heap x next) n := by
  intro y new
  rw [Function.update_of_ne (by omega), fresh y new]

theorem Fresh.extend (fresh : Fresh heap n) {next : Option α} : Fresh (Function.update heap n next) (n + 1) :=
  (fresh.mono (Nat.le_succ n)).update (Nat.lt_succ_self n)

/-- What has been freed had been given out. -/
theorem Fresh.freed {owners : Nat → Option ο} {pointer : ο → Option Nat} {back : α → Option Nat} {Own : α → Prop} {c : Nat}
    {owner : ο} (fresh : Fresh heap n) (linked : Linked owners pointer heap back Own) (here : owners c = some owner)
    (freed : Freed heap heap' back (pointer owner)) : Fresh heap' n := by
  intro y new
  rw [freed.others y, fresh y new]
  intro own
  rcases linked.pointers here own with ⟨part, there, _⟩
  rw [fresh y new] at there
  cases there

theorem Fresh.modify (fresh : Fresh heap n) : Fresh (modify heap p f) n := by
  intro y new
  by_cases here : p = some y
  · simp [Library.modify, here, fresh y new]
  · simp [Library.modify, here, fresh y new]

end

section
variable [DecidableEq κ]
variable {heap parts parts' : κ → Option α} {owners : κ → Option ο} {pointer : ο → Option κ} {back : α → Option κ} {Own : α → Prop}
  {p : Option κ} {f g : α → Option α} {x c : κ} {part : α} {owner : ο}

@[simp] theorem modify_null : modify heap none f = heap := by
  funext x
  exact if_neg (by simp)

@[simp] theorem modify_self : modify heap (some x) f x = (heap x).bind f := if_pos rfl

theorem modify_other {y : κ} (differ : p ≠ some y) : modify heap p f y = heap y := if_neg differ

theorem update_others {y : κ} {next : Option α} (points : p = some x) (differ : p ≠ some y) :
    Function.update heap x next y = heap y := by
  apply Function.update_of_ne
  rintro rfl
  exact differ points

theorem modify_live (there : heap x = some part) : modify heap (some x) f = Function.update heap x (f part) := by
  funext y
  by_cases same : y = x
  · rw [same, modify_self, there, Function.update_self]
    rfl
  · rw [Function.update_of_ne same, modify_other]
    intro own
    exact same (Option.some.inj own).symm

theorem Freed.modify (loose : ∀ x part part', p = some x → parts x = some part → f part = some part' → back part' = none) :
    Freed parts (modify parts p f) back p where
  others _ differ := modify_other differ
  own x part' own there := by
    rw [own, modify_self] at there
    rcases Option.bind_eq_some_iff.mp there with ⟨part, there, changed⟩
    exact loose x part part' own there changed

theorem modify_modify : modify (modify heap p f) p g = modify heap p fun a => (f a).bind g := by
  funext x
  by_cases here : p = some x
  · simp [modify, here, Option.bind_assoc]
  · simp [modify, here]

/-- Changing what is there leaves it there. -/
theorem dangles_modify {q : Option κ} (keeps : ∀ a, (f a).isSome) : dangles (modify heap p f) q = dangles heap q := by
  cases q with
  | none => rfl
  | some x =>
    rw [dangles_some, dangles_some]
    by_cases here : p = some x
    · cases there : heap x with
      | none => simp [modify, there]
      | some a =>
        rcases Option.isSome_iff_exists.mp (keeps a) with ⟨b, changed⟩
        simp [modify, here, there, changed]
    · rw [modify_other here]

/-- The owner lets go of its part, or goes itself. -/
theorem Linked.release (linked : Linked owners pointer parts back Own) (here : owners c = some owner)
    (freed : Freed parts parts' back (pointer owner)) {next : Option ο} (none_ : ∀ owner' ∈ next, pointer owner' = none) :
    Linked (Function.update owners c next) pointer parts' back Own where
  backs {x part d} there points := by
    by_cases own : pointer owner = some x
    · rw [freed.own x part own there] at points
      cases points
    · rw [freed.others x own] at there
      rcases linked.backs there points with ⟨good, owner', live, back_⟩
      refine ⟨good, owner', ?_, back_⟩
      rw [Function.update_of_ne, live]
      rintro rfl
      rw [here] at live
      cases live
      exact own back_
  pointers {d owner' x} live points := by
    by_cases same : d = c
    · rw [same, Function.update_self] at live
      rw [none_ owner' live] at points
      cases points
    · rw [Function.update_of_ne same] at live
      rcases linked.pointers live points with ⟨part, there, back_⟩
      refine ⟨part, ?_, back_⟩
      rw [freed.others x, there]
      intro own
      rcases linked.pointers here own with ⟨part', there', back'⟩
      rw [there] at there'
      cases there'
      rw [back_] at back'
      exact same (Option.some.inj back')

/-- The owner changes, and still points to the same part. -/
theorem Linked.ownerChanged (linked : Linked owners pointer parts back Own) (here : owners c = some owner) {owner' : ο}
    (same : pointer owner' = pointer owner) : Linked (Function.update owners c (some owner')) pointer parts back Own where
  backs {x part d} there points := by
    rcases linked.backs there points with ⟨good, old, live, back_⟩
    refine ⟨good, ?_⟩
    by_cases own : d = c
    · rw [own, here] at live
      cases live
      exact ⟨owner', by rw [own, Function.update_self], same.trans back_⟩
    · exact ⟨old, by rw [Function.update_of_ne own, live], back_⟩
  pointers {d other x} live points := by
    by_cases own : d = c
    · rw [own, Function.update_self] at live
      cases live
      rw [own]
      exact linked.pointers here (same.symm.trans points)
    · rw [Function.update_of_ne own] at live
      exact linked.pointers live points

/-- An owner without a part is given a new one. -/
theorem Linked.attach (linked : Linked owners pointer parts back Own) (vacant : ∀ old ∈ owners c, pointer old = none)
    (fresh : parts x = none) (points : pointer owner = some x) (good : Own part) (own : back part = some c) :
    Linked (Function.update owners c (some owner)) pointer (Function.update parts x (some part)) back Own where
  backs {y part' d} there back_ := by
    by_cases new : y = x
    · rw [new, Function.update_self] at there
      cases there
      rw [own] at back_
      cases back_
      exact ⟨good, owner, Function.update_self _ _ _, new ▸ points⟩
    · rw [Function.update_of_ne new] at there
      rcases linked.backs there back_ with ⟨good', owner', live, points'⟩
      refine ⟨good', owner', ?_, points'⟩
      rw [Function.update_of_ne, live]
      rintro rfl
      rw [vacant owner' live] at points'
      cases points'
  pointers {d owner' y} live points' := by
    by_cases same : d = c
    · rw [same, Function.update_self] at live
      cases live
      rw [points] at points'
      cases points'
      exact ⟨part, Function.update_self _ _ _, by rw [same, own]⟩
    · rw [Function.update_of_ne same] at live
      rcases linked.pointers live points' with ⟨part', there, back_⟩
      refine ⟨part', ?_, back_⟩
      rw [Function.update_of_ne, there]
      rintro rfl
      rw [fresh] at there
      cases there

/-- A new owner without a part. -/
theorem Linked.vacant (linked : Linked owners pointer parts back Own) (new : owners c = none)
    (none_ : pointer owner = none) : Linked (Function.update owners c (some owner)) pointer parts back Own where
  backs {x part d} there points := by
    rcases linked.backs there points with ⟨good, old, live, back_⟩
    refine ⟨good, old, ?_, back_⟩
    rw [Function.update_of_ne, live]
    rintro rfl
    rw [new] at live
    cases live
  pointers {d other x} live points := by
    by_cases same : d = c
    · rw [same, Function.update_self] at live
      cases live
      rw [none_] at points
      cases points
    · rw [Function.update_of_ne same] at live
      exact linked.pointers live points

/-- A part changes where it is; one that does not point back may go as well. -/
theorem Linked.partChanged (linked : Linked owners pointer parts back Own) (there : parts x = some part) {next : Option α}
    (same : ∀ part' ∈ next, back part' = back part) (good : ∀ part' ∈ next, back part ≠ none → Own part → Own part')
    (stays : back part ≠ none → next.isSome) : Linked owners pointer (Function.update parts x next) back Own where
  backs {y part' d} here points := by
    by_cases own : y = x
    · rw [own, Function.update_self] at here
      rw [same part' here] at points
      rcases linked.backs there points with ⟨fine, owner, live, back_⟩
      exact ⟨good part' here (by rw [points]; exact Option.some_ne_none d) fine, owner, live, own ▸ back_⟩
    · rw [Function.update_of_ne own] at here
      exact linked.backs here points
  pointers {d owner y} live points := by
    rcases linked.pointers live points with ⟨part', here, back_⟩
    by_cases own : y = x
    · rw [own, there] at here
      cases here
      rcases Option.isSome_iff_exists.mp (stays (by rw [back_]; exact Option.some_ne_none _)) with ⟨new, changed⟩
      exact ⟨new, by rw [own, Function.update_self, changed], by rw [same new changed, back_]⟩
    · exact ⟨part', by rw [Function.update_of_ne own, here], back_⟩

end

end Library
