import Mathlib.Algebra.Group.ModEq
import Mathlib.Tactic.Abel

set_option linter.dupNamespace false

namespace Library

variable {G : Type*} [AddCommGroup G]

/-- What a clock that wraps showed, and how much it should have counted by then. -/
structure Reading (G : Type*) where
  stamp : G
  measure : G
  deriving DecidableEq

namespace Reading

/-- The second reading is as far behind the first as what was counted between them. -/
def Agrees (p : G) (r q : Reading G) : Prop :=
  AddCommGroup.ModEq p (q.stamp - r.stamp) (q.measure - r.measure)

variable {p stamp count : G} {r q t now : Reading G} {log : List (Reading G)}

theorem agrees_refl (p : G) (r : Reading G) : Agrees p r r := by
  unfold Agrees
  rw [sub_self, sub_self]

theorem Agrees.trans (first : Agrees p r q) (second : Agrees p q t) : Agrees p r t := by
  unfold Agrees at *
  have sum := first.add second
  rwa [add_comm, sub_add_sub_cancel, add_comm, sub_add_sub_cancel] at sum

theorem agrees_count (counted : AddCommGroup.ModEq p stamp (r.stamp + count)) :
    Agrees p r ⟨stamp, r.measure + count⟩ := by
  unfold Agrees
  rw [add_sub_cancel_left]
  have behind := counted.sub_right r.stamp
  rwa [add_sub_cancel_left] at behind

/-- A log that agrees with the clock as it stands takes in the clock's reading. -/
theorem pairwise_read (log_ : log.Pairwise (Agrees p)) (now_ : ∀ r ∈ log, Agrees p r now) :
    (log ++ [now]).Pairwise (Agrees p) := by
  apply List.pairwise_append.mpr
  refine ⟨log_, List.pairwise_singleton _ _, ?_⟩
  rintro r member other single
  obtain rfl := List.mem_singleton.mp single
  exact now_ r member

end Reading

end Library
