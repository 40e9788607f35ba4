import Baresip.Library.Runs
import Mathlib.Data.List.Nodup

set_option linter.dupNamespace false

namespace Baresip.Useragents

open Library

/-- The user agents in the order of the list. They are numbered in the order in which they were allocated. -/
structure Uag where
  ual : List Nat
  cur : Option Nat
  allocated : Nat
  nodup : ual.Nodup
  known : ∀ ua ∈ ual, ua < allocated

def Uag.append (s : Uag) : Uag where
  ual := s.ual ++ [s.allocated]
  cur := s.cur
  allocated := s.allocated + 1
  nodup := by
    rw [List.nodup_append_comm, List.singleton_append, List.nodup_cons]
    exact ⟨fun member => Nat.lt_irrefl _ (s.known _ member), s.nodup⟩
  known := by
    intro ua member
    rw [List.mem_append, List.mem_singleton] at member
    rcases member with member | rfl
    · exact Nat.lt_succ_of_lt (s.known ua member)
    · exact Nat.lt_succ_self _

def Uag.flush (s : Uag) : Uag := { s with ual := [], nodup := List.nodup_nil, known := nofun }

def uaCurSet (s : Uag) (ua : Option Nat) : Uag := { s with cur := ua }

def uaDestructor (s : Uag) (ua : Nat) : Uag :=
  { s with
    ual := s.ual.erase ua
    nodup := s.nodup.erase ua
    known := fun other member => s.known other (List.mem_of_mem_erase member) }

/-- `refused` is a failure before the user agent is in the list. -/
inductive Allocation
  | refused | failed | success
  deriving DecidableEq, Repr

def uaAlloc (s : Uag) (allocation : Allocation) : Uag :=
  match allocation with
  | .refused => s
  | .failed => uaDestructor s.append s.allocated
  | .success => uaCurSet s.append (some s.allocated)

def uaClose (s : Uag) : Uag := s.flush

def uaStopAll (s : Uag) (forced : Bool) : Uag := uaCurSet (if forced then s else s.flush) none

def uaCur (s : Uag) : Option Nat := s.cur.or s.ual.head?

/-- The user agent behind another one in the list, which is read from freed memory when that one is not in
    the list. -/
def uaNext (s : Uag) : Uag :=
  match uaCur s with
  | none => s
  | some ua =>
    if ua ∈ s.ual then uaCurSet s (((s.ual.dropWhile (· != ua)).tail.head?).or s.ual.head?) else s

inductive Action
  | alloc (allocation : Allocation)
  | destroy (ua : Nat)
  | next
  | stopAll (forced : Bool)
  | close
  deriving DecidableEq, Repr

def step (s : Uag) : Action → Uag
  | .alloc allocation => uaAlloc s allocation
  | .destroy ua => if ua ∈ s.ual then uaDestructor s ua else s
  | .next => uaNext s
  | .stopAll forced => uaStopAll s forced
  | .close => uaClose s

def initial : Uag := ⟨[], none, 0, List.nodup_nil, nofun⟩

def CurListed (s : Uag) : Prop := ∀ ua ∈ s.cur, ua ∈ s.ual

/-- The current user agent is not destroyed, and there is none when all are closed. -/
def SparesCur (s : Uag) : Action → Prop
  | .destroy ua => ua ∈ s.ual → s.cur ≠ some ua
  | .close => s.cur = none
  | _ => True

theorem curListed_none {s : Uag} (none_ : s.cur = none) : CurListed s := by
  intro ua member
  rw [none_] at member
  contradiction

theorem curListed_set {s : Uag} {ua : Option Nat} (listed : ∀ u ∈ ua, u ∈ s.ual) : CurListed (uaCurSet s ua) :=
  listed

theorem destructor_listed_iff {s : Uag} (listed : CurListed s) (ua : Nat) :
    CurListed (uaDestructor s ua) ↔ s.cur ≠ some ua := by
  constructor
  · intro still cur
    exact s.nodup.not_mem_erase (still ua cur)
  · intro spared other member
    have kept : other ≠ ua := by
      rintro rfl
      exact spared member
    exact (List.mem_erase_of_ne kept).mpr (listed other member)

theorem alloc_listed {s : Uag} (listed : CurListed s) (allocation : Allocation) :
    CurListed (uaAlloc s allocation) := by
  cases allocation with
  | refused => exact listed
  | failed =>
    have appended : CurListed s.append := fun ua member => List.mem_append_left _ (listed ua member)
    apply (destructor_listed_iff appended s.allocated).mpr
    intro cur
    exact Nat.lt_irrefl _ (s.known _ (listed _ cur))
  | success =>
    apply curListed_set
    intro ua member
    obtain rfl := Option.some.inj member
    exact List.mem_append_right _ (List.mem_singleton_self _)

theorem next_listed {s : Uag} (listed : CurListed s) : CurListed (uaNext s) := by
  unfold uaNext
  split
  · exact listed
  · rename_i ua cur
    split
    · apply curListed_set
      intro other member
      rcases Option.or_eq_some_iff.mp member with behind | ⟨-, first⟩
      · have inside := List.mem_of_mem_tail (List.mem_of_mem_head? behind)
        exact (List.dropWhile_suffix _).mem inside
      · exact List.mem_of_mem_head? first
    · exact listed

theorem step_listed_iff (s : Uag) (a : Action) (listed : CurListed s) :
    CurListed (step s a) ↔ SparesCur s a := by
  cases a with
  | alloc allocation => exact iff_of_true (alloc_listed listed allocation) trivial
  | destroy ua =>
    dsimp only [step, SparesCur]
    by_cases member : ua ∈ s.ual
    · rw [if_pos member, destructor_listed_iff listed]
      exact ⟨fun spared _ => spared, fun spared => spared member⟩
    · rw [if_neg member]
      exact iff_of_true listed fun there => absurd there member
  | next => exact iff_of_true (next_listed listed) trivial
  | stopAll forced => exact iff_of_true (curListed_none rfl) trivial
  | close =>
    constructor
    · intro empty
      exact Option.eq_none_iff_forall_not_mem.mpr fun ua member => List.not_mem_nil (empty ua member)
    · exact fun none_ => curListed_none (s := uaClose s) none_

/-- The current user agent is in the list in those runs in which it is never destroyed and never left by
    `ua_close`. -/
theorem cur_listed_iff (as : List Action) :
    Throughout step CurListed initial as ↔ Along step SparesCur initial as :=
  throughout_iff_along step_listed_iff (curListed_none rfl)

theorem cur_dangles : ¬ Throughout step CurListed initial [.alloc .success, .close] ∧
    ¬ Throughout step CurListed initial [.alloc .success, .alloc .success, .destroy 1] := by
  constructor
  · intro listed
    exact absurd (listed.last 0 rfl) (by decide)
  · intro listed
    exact absurd (listed.last 1 rfl) (by decide)

end Baresip.Useragents
