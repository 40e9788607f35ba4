import Baresip.Library.Runs
import Mathlib.Logic.Function.Basic
import Mathlib.Data.List.Nodup
import Mathlib.Data.Fintype.Basic

set_option linter.dupNamespace false

namespace Baresip.Ua

open Library

def maxCalls : Nat := 4

abbrev CallId := Nat

inductive CmdTable
  | cmdv | callcmdv | other (module : Nat)
  deriving DecidableEq, Repr

structure Cmdl where
  blocks : List CmdTable
  nodup : blocks.Nodup

def Cmdl.register (cmdl : Cmdl) (table : CmdTable) : Cmdl :=
  if found : table ∈ cmdl.blocks then cmdl
  else ⟨cmdl.blocks ++ [table], List.nodup_append.mpr
    ⟨cmdl.nodup, List.nodup_singleton table, by
      intro a member b same
      rw [List.mem_singleton] at same
      rintro rfl
      exact found (same ▸ member)⟩⟩

def Cmdl.unregister (cmdl : Cmdl) (table : CmdTable) : Cmdl :=
  ⟨cmdl.blocks.erase table, cmdl.nodup.erase table⟩

def menuSetIncall (cmdl : Cmdl) (incall : Bool) : Cmdl :=
  if incall then cmdl.register .callcmdv else cmdl.unregister .callcmdv

structure Uag (n : Nat) where
  calls : Fin n → List CallId
  cur : Option (Fin n)
  cmdl : Cmdl

/-- A transfer names the call that it creates, unless that call could not be created and connected. -/
inductive CallEvent
  | incoming | ringing | progress | established | closed
  | transfer (call2 : Option CallId)
  deriving DecidableEq, Repr

inductive Action (n : Nat)
  | event (ua : Fin n) (call : CallId) (ev : CallEvent)
  | connect (ua : Fin n) (call : Option CallId)
  | accept (ua : Fin n) (mnat : Bool) (call : Option CallId)
  | hangup (ua : Fin n)
  | next
  | load (module : Nat)
  | unload (module : Nat)
  deriving DecidableEq, Repr

variable {n : Nat}

def Uag.setCalls (s : Uag n) (ua : Fin n) (calls : List CallId) : Uag n :=
  { s with calls := Function.update s.calls ua calls }

def Uag.append (s : Uag n) (ua : Fin n) (call : CallId) : Uag n := s.setCalls ua (s.calls ua ++ [call])

def activeCalls (s : Uag n) (ua : Fin n) : Bool := !(s.calls ua).isEmpty

def Uag.showMenu (s : Uag n) (ua : Fin n) : Uag n :=
  { s with cmdl := menuSetIncall s.cmdl (activeCalls s ua) }

def callEventHandler (s : Uag n) (ua : Fin n) (call : CallId) (ev : CallEvent) : Uag n :=
  let s := match ev with
    | .closed => s.setCalls ua ((s.calls ua).erase call)
    | .transfer (some call2) => s.append ua call2
    | _ => s
  s.showMenu ua

/-- `call` is the connected call, or nothing where it could not be allocated or connected. -/
def uaConnect (s : Uag n) (ua : Fin n) (call : Option CallId) : Uag n :=
  match call with
  | none => s
  | some call => s.append ua call

/-- With media NAT traversal the event of the incoming call waits for the traversal. -/
def sipsessConnHandler (s : Uag n) (ua : Fin n) (mnat : Bool) (call : Option CallId) : Uag n :=
  if (s.calls ua).length + 1 > maxCalls then s
  else
    match call with
    | none => s
    | some call =>
      let s := s.append ua call
      if mnat then s else callEventHandler s ua call .incoming

def uaHangup (s : Uag n) (ua : Fin n) : Uag n :=
  match (s.calls ua).getLast? with
  | none => s
  | some _ => (s.setCalls ua (s.calls ua).dropLast).showMenu ua

def uaCur (s : Uag n) : Option (Fin n) :=
  match s.cur with
  | some ua => some ua
  | none => if h : 0 < n then some ⟨0, h⟩ else none

def uaNext (s : Uag n) : Uag n :=
  match uaCur s with
  | none => s
  | some ua =>
    if h : ua.val + 1 < n then { s with cur := some ⟨ua.val + 1, h⟩ }
    else { s with cur := some ⟨0, Nat.lt_of_le_of_lt (Nat.zero_le _) ua.isLt⟩ }

def step (s : Uag n) : Action n → Uag n
  | .event ua call ev => if call ∈ s.calls ua then callEventHandler s ua call ev else s
  | .connect ua call => uaConnect s ua call
  | .accept ua mnat call => sipsessConnHandler s ua mnat call
  | .hangup ua => uaHangup s ua
  | .next => uaNext s
  | .load module => { s with cmdl := s.cmdl.register (.other module) }
  | .unload module => { s with cmdl := s.cmdl.unregister (.other module) }

def initial : Uag n := ⟨fun _ => [], none, ⟨[.cmdv], List.nodup_singleton _⟩⟩

def AnyActive (s : Uag n) : Prop := ∃ ua, activeCalls s ua = true

def MenuShown (s : Uag n) : Prop := .callcmdv ∈ s.cmdl.blocks ↔ AnyActive s

def OthersActive (s : Uag n) (ua : Fin n) : Prop := ∃ other, other ≠ ua ∧ activeCalls s other = true

/-- What an action needs of the state before it: the last call of a user agent ends only when no other
    one has a call, and a call begins without an event only when there is a call already. -/
def MenuFollows (s : Uag n) : Action n → Prop
  | .event ua call .closed => s.calls ua = [call] → ¬ OthersActive s ua
  | .event _ _ _ => True
  | .connect _ call => call ≠ none → AnyActive s
  | .accept ua mnat call =>
    mnat = true → call ≠ none → (s.calls ua).length + 1 ≤ maxCalls → AnyActive s
  | .hangup ua => (s.calls ua).length = 1 → ¬ OthersActive s ua
  | .next => True
  | .load _ => True
  | .unload _ => True

instance (s : Uag n) : Decidable (AnyActive s) :=
  inferInstanceAs (Decidable (∃ ua, activeCalls s ua = true))

instance : DecidablePred (@MenuShown n) := fun s =>
  inferInstanceAs (Decidable (.callcmdv ∈ s.cmdl.blocks ↔ AnyActive s))

theorem Cmdl.register_mem (cmdl : Cmdl) (table other : CmdTable) :
    other ∈ (cmdl.register table).blocks ↔ other ∈ cmdl.blocks ∨ other = table := by
  unfold Cmdl.register
  by_cases found : table ∈ cmdl.blocks
  · have already : other = table → other ∈ cmdl.blocks := by
      rintro rfl
      exact found
    simpa [found] using already
  · simp [found]

theorem Cmdl.unregister_mem (cmdl : Cmdl) (table other : CmdTable) :
    other ∈ (cmdl.unregister table).blocks ↔ other ≠ table ∧ other ∈ cmdl.blocks :=
  cmdl.nodup.mem_erase_iff

theorem menuSetIncall_mem (cmdl : Cmdl) (incall : Bool) :
    .callcmdv ∈ (menuSetIncall cmdl incall).blocks ↔ incall = true := by
  cases incall with
  | true => simp [menuSetIncall, Cmdl.register_mem]
  | false => simp [menuSetIncall, Cmdl.unregister_mem]

theorem activeCalls_setCalls (s : Uag n) (ua : Fin n) (calls : List CallId) :
    activeCalls (s.setCalls ua calls) ua = !calls.isEmpty := by
  simp [activeCalls, Uag.setCalls]

theorem activeCalls_setCalls_other (s : Uag n) {ua other : Fin n} (calls : List CallId)
    (differ : other ≠ ua) : activeCalls (s.setCalls ua calls) other = activeCalls s other := by
  simp [activeCalls, Uag.setCalls, Function.update_of_ne differ]

theorem anyActive_iff (s : Uag n) (ua : Fin n) :
    AnyActive s ↔ activeCalls s ua = true ∨ OthersActive s ua := by
  constructor
  · rintro ⟨other, active⟩
    by_cases same : other = ua
    · subst same
      exact .inl active
    · exact .inr ⟨other, same, active⟩
  · rintro (active | ⟨other, -, active⟩)
    · exact ⟨ua, active⟩
    · exact ⟨other, active⟩

theorem othersActive_setCalls (s : Uag n) (ua : Fin n) (calls : List CallId) :
    OthersActive (s.setCalls ua calls) ua ↔ OthersActive s ua := by
  unfold OthersActive
  constructor
  · rintro ⟨other, differ, active⟩
    rw [activeCalls_setCalls_other s calls differ] at active
    exact ⟨other, differ, active⟩
  · rintro ⟨other, differ, active⟩
    rw [← activeCalls_setCalls_other s calls differ] at active
    exact ⟨other, differ, active⟩

theorem anyActive_setCalls (s : Uag n) (ua : Fin n) (calls : List CallId) :
    AnyActive (s.setCalls ua calls) ↔ calls ≠ [] ∨ OthersActive s ua := by
  rw [anyActive_iff _ ua, activeCalls_setCalls, othersActive_setCalls]
  cases calls <;> simp

theorem menuShown_showMenu (s : Uag n) (ua : Fin n) :
    MenuShown (s.showMenu ua) ↔ (activeCalls s ua = false → ¬ OthersActive s ua) := by
  have any : AnyActive (s.showMenu ua) ↔ AnyActive s := Iff.rfl
  unfold MenuShown
  rw [any, anyActive_iff s ua]
  simp only [Uag.showMenu, menuSetIncall_mem]
  cases activeCalls s ua <;> simp

theorem menuShown_append {s : Uag n} (shown : MenuShown s) (ua : Fin n) (call : CallId) :
    MenuShown (s.append ua call) ↔ AnyActive s := by
  have active : AnyActive (s.append ua call) := by
    rw [Uag.append, anyActive_setCalls]
    exact .inl (by simp)
  have same : .callcmdv ∈ (s.append ua call).cmdl.blocks ↔ .callcmdv ∈ s.cmdl.blocks := Iff.rfl
  unfold MenuShown at shown ⊢
  rw [same, shown]
  exact iff_true_right active

theorem activeCalls_append (s : Uag n) (ua : Fin n) (call : CallId) :
    activeCalls (s.append ua call) ua = true := by
  rw [Uag.append, activeCalls_setCalls]
  simp

theorem menuShown_event {s : Uag n} {ua : Fin n} {call : CallId} (member : call ∈ s.calls ua)
    (ev : CallEvent) : MenuShown (callEventHandler s ua call ev) ↔ MenuFollows s (.event ua call ev) := by
  have active : activeCalls s ua = true := by
    simp [activeCalls, List.ne_nil_of_mem member]
  unfold callEventHandler
  rw [menuShown_showMenu]
  cases ev with
  | closed =>
    simp only [activeCalls_setCalls, othersActive_setCalls, MenuFollows]
    have last : (!((s.calls ua).erase call).isEmpty) = false ↔ s.calls ua = [call] := by
      rw [Bool.not_eq_false', List.isEmpty_iff, List.erase_eq_nil_iff]
      constructor
      · rintro (empty | single)
        · rw [empty] at member
          contradiction
        · exact single
      · exact .inr
    rw [last]
  | transfer call2 =>
    cases call2 with
    | none => simp [active, MenuFollows]
    | some call2 => simp [activeCalls_append, MenuFollows]
  | incoming => simp [active, MenuFollows]
  | ringing => simp [active, MenuFollows]
  | progress => simp [active, MenuFollows]
  | established => simp [active, MenuFollows]

theorem menuShown_hangup {s : Uag n} (shown : MenuShown s) (ua : Fin n) :
    MenuShown (uaHangup s ua) ↔ MenuFollows s (.hangup ua) := by
  unfold uaHangup
  cases last : (s.calls ua).getLast? with
  | none =>
    rw [List.getLast?_eq_none_iff] at last
    simp [MenuFollows, last, shown]
  | some call =>
    simp only [menuShown_showMenu, activeCalls_setCalls, othersActive_setCalls, MenuFollows]
    have some_ : s.calls ua ≠ [] := by
      intro empty
      rw [empty] at last
      contradiction
    have positive := List.length_pos_iff.mpr some_
    have single : (!(s.calls ua).dropLast.isEmpty) = false ↔ (s.calls ua).length = 1 := by
      rw [Bool.not_eq_false', List.isEmpty_iff, ← List.length_eq_zero_iff, List.length_dropLast]
      omega
    rw [single]

theorem menuShown_connect {s : Uag n} (shown : MenuShown s) (ua : Fin n) (call : Option CallId) :
    MenuShown (uaConnect s ua call) ↔ MenuFollows s (.connect ua call) := by
  cases call with
  | none => simp [uaConnect, MenuFollows, shown]
  | some call => simp [uaConnect, MenuFollows, menuShown_append shown]

theorem menuShown_accept {s : Uag n} (shown : MenuShown s) (ua : Fin n) (mnat : Bool)
    (call : Option CallId) :
    MenuShown (sipsessConnHandler s ua mnat call) ↔ MenuFollows s (.accept ua mnat call) := by
  unfold sipsessConnHandler
  by_cases full : (s.calls ua).length + 1 > maxCalls
  · simp [full, MenuFollows, shown, Nat.not_le.mpr full]
  · have room : (s.calls ua).length + 1 ≤ maxCalls := Nat.not_lt.mp full
    rw [if_neg full]
    cases call with
    | none => simp [MenuFollows, shown]
    | some call =>
      cases mnat with
      | true => simp [MenuFollows, menuShown_append shown, room]
      | false =>
        have member : call ∈ (s.append ua call).calls ua := by
          simp [Uag.append, Uag.setCalls]
        have follows := menuShown_event member .incoming
        simpa [MenuFollows] using follows

theorem menuShown_next {s : Uag n} (shown : MenuShown s) : MenuShown (uaNext s) := by
  unfold uaNext
  cases uaCur s with
  | none => exact shown
  | some ua =>
    simp only
    split
    · exact shown
    · exact shown

theorem menuShown_cmdl {s : Uag n} (shown : MenuShown s) {cmdl : Cmdl}
    (same : .callcmdv ∈ cmdl.blocks ↔ .callcmdv ∈ s.cmdl.blocks) : MenuShown { s with cmdl := cmdl } :=
  same.trans shown

theorem menuShown_step_iff (s : Uag n) (a : Action n) (shown : MenuShown s) :
    MenuShown (step s a) ↔ MenuFollows s a := by
  cases a with
  | event ua call ev =>
    by_cases member : call ∈ s.calls ua
    · simp only [step, if_pos member]
      exact menuShown_event member ev
    · have foreign : MenuFollows s (.event ua call ev) := by
        cases ev with
        | closed =>
          intro single
          simp [single] at member
        | incoming | ringing | progress | established | transfer _ => trivial
      simp only [step, if_neg member]
      exact iff_of_true shown foreign
  | connect ua call => exact menuShown_connect shown ua call
  | accept ua mnat call => exact menuShown_accept shown ua mnat call
  | hangup ua => exact menuShown_hangup shown ua
  | next => exact iff_of_true (menuShown_next shown) trivial
  | load module =>
    have same := s.cmdl.register_mem (.other module) .callcmdv
    exact iff_of_true (menuShown_cmdl shown (by simpa using same)) trivial
  | unload module =>
    have same := s.cmdl.unregister_mem (.other module) .callcmdv
    exact iff_of_true (menuShown_cmdl shown (by simpa using same)) trivial

theorem menuShown_initial : MenuShown (initial : Uag n) := by
  simp [MenuShown, AnyActive, activeCalls, initial]

/-- The menu is registered exactly while there is a call in those runs in which no step leaves the call
    of one user agent behind the back of another. -/
theorem menu_follows_calls_iff (n : Nat) (as : List (Action n)) :
    Throughout step MenuShown initial as ↔ Along step MenuFollows initial as :=
  throughout_iff_along menuShown_step_iff menuShown_initial

theorem menu_lost_with_other_call :
    ¬ Throughout step MenuShown (initial : Uag 2)
      [.accept 0 false (some 1), .accept 1 false (some 2), .event 1 2 .closed] := by
  decide

end Baresip.Ua
