import Baresip.Re.Mbuf

set_option linter.dupNamespace false

namespace Baresip.Sip

open Re

/-- What `sip_auth_authenticate` returns. -/
inductive Auth
  | authenticated
  | eauth
  | failed (err : Errno)
  deriving DecidableEq, Repr

structure Loopstate where
  failc : Nat
  lastScode : Nat
  deriving DecidableEq, Repr

def Loopstate.reset : Loopstate := ⟨0, 0⟩

/-- `sip_request_loops`: whether the responses go in circles, and the state with this one counted. -/
def requestLoops (ls : Loopstate) (scode : Nat) : Bool × Loopstate :=
  if scode < 200 then (false, ls)
  else if scode < 300 then (false, ⟨0, scode⟩)
  else if scode < 400 ∨ scode = 401 ∨ scode = 407 ∨ scode = 491 then
    (decide (ls.failc + 1 ≥ 16), ⟨ls.failc + 1, scode⟩)
  else (decide (ls.lastScode = scode ∨ ls.failc + 1 ≥ 16), ⟨ls.failc + 1, scode⟩)

theorem requestLoops_provisional {ls : Loopstate} {scode : Nat} (provisional : scode < 200) :
    requestLoops ls scode = (false, ls) := if_pos provisional

/-- A failure that does not loop is one of at most fifteen in a row. -/
theorem requestLoops_counts {ls : Loopstate} {scode : Nat} (failure : 300 ≤ scode)
    (goes : (requestLoops ls scode).1 = false) :
    (requestLoops ls scode).2.failc = ls.failc + 1 ∧ ls.failc + 1 < 16 := by
  have final : ¬ scode < 200 := by omega
  have refused : ¬ scode < 300 := by omega
  unfold requestLoops at goes ⊢
  rw [if_neg final, if_neg refused] at goes ⊢
  split_ifs at goes ⊢ with kind
  · exact ⟨rfl, Nat.lt_of_not_le (of_decide_eq_false goes)⟩
  · exact ⟨rfl, Nat.lt_of_not_le (not_or.mp (of_decide_eq_false goes)).2⟩

end Baresip.Sip
