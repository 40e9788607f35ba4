import Baresip.Mnat.Gathering

set_option linter.dupNamespace false

namespace Baresip.Ice

open Re Library

/-- A selected address that is not the one in the session description. -/
def MnatMedia.differs (m : MnatMedia) (addrs : Addrs) : Bool :=
  (m.sock1 && addrs.1.any fun addr => !m.addr1.cmp addr .all) ||
    (m.sock2 && addrs.2.any fun addr => !m.addr2.cmp addr .all)

def changed (call : Call) (c : Conncheck) : Bool :=
  match call.mnats.medial[c.i]? with
  | none => false
  | some m => decide (c.err = 0) && m.differs c.addrs

def run (call : Call) (cs : List Conncheck) : Call := cs.foldl conncheck call

/-- The establish handler is not called before the last completion, and then once if it is `expected`. -/
structure Reports (call : Call) (cs : List Conncheck) (expected : Bool) : Prop where
  waits : ∀ n < cs.length, (run call (cs.take n)).estabs = call.estabs
  once : (run call cs).estabs = call.estabs ++ if expected then [(0, 0)] else []

def controllingAtEnd (cs : List Conncheck) : Bool := cs.getLast?.any fun c => c.update

/-- No address differs, or the agent is never the controlling one, or no check fails but the last. -/
def Undisturbed (call : Call) (cs : List Conncheck) : Prop :=
  (∀ c ∈ cs, changed call c = false) ∨ (∀ c ∈ cs, c.update = false) ∨ ∀ c ∈ cs.dropLast, c.err = 0

theorem refreshLaddr_changed (m : MnatMedia) (addrs : Addrs) : (refreshLaddr m addrs).1 = m.differs addrs := by
  rcases addrs with ⟨addr1, addr2⟩
  cases addr1 <;> cases addr2 <;> cases sock1 : m.sock1 <;> cases sock2 : m.sock2 <;>
    simp [refreshLaddr, MnatMedia.differs, sock1, sock2]

theorem refreshLaddr_complete (m : MnatMedia) (addrs : Addrs) :
    (refreshLaddr m addrs).2.complete = m.complete := by
  unfold refreshLaddr
  dsimp only
  split <;> split <;> (try split) <;> (try split) <;> rfl

/-- Whether a completion is followed by a report to the session. -/
def reportsAt (call : Call) (c : Conncheck) : Bool :=
  (call.mnats.sendReinvite || changed call c) && c.update &&
    (decide (c.err ≠ 0) || !(conncheck call c).mnats.medial.any fun m => !m.complete)

theorem conncheck_failed {call : Call} {c : Conncheck} (failed : c.err ≠ 0) {m : MnatMedia}
    (here : call.mnats.medial[c.i]? = some m) :
    conncheck call c =
      if call.mnats.sendReinvite && c.update then
        { estabh call 0 0 with mnats := { call.mnats with sendReinvite := false } }
      else call := by
  simp [conncheck, here, conncheckHandler, failed, estabh]

theorem conncheck_succeeded {call : Call} {c : Conncheck} (success : c.err = 0) {m : MnatMedia}
    (here : call.mnats.medial[c.i]? = some m) :
    conncheck call c =
      let (changed, m) := refreshLaddr { m with complete := true } c.addrs
      let call := call.setMedia c.i m
      let call := { call with mnats := { call.mnats with sendReinvite := call.mnats.sendReinvite || changed } }
      if call.mnats.medial.any fun mx => !mx.complete then call
      else if call.mnats.sendReinvite && c.update then
        { estabh call 0 0 with mnats := { call.mnats with sendReinvite := false } }
      else call := by
  simp [conncheck, here, conncheckHandler, success, estabh]

theorem conncheck_medial (call : Call) (c : Conncheck) {m : MnatMedia} (here : call.mnats.medial[c.i]? = some m) :
    (conncheck call c).mnats.medial =
      if c.err ≠ 0 then call.mnats.medial
      else call.mnats.medial.set c.i (refreshLaddr { m with complete := true } c.addrs).2 := by
  by_cases success : c.err = 0
  · rw [conncheck_succeeded success here, if_neg (not_not.mpr success)]
    dsimp only [Call.setMedia]
    split
    · rfl
    · split <;> rfl
  · rw [conncheck_failed success here, if_pos success]
    split <;> rfl

theorem conncheck_report (call : Call) (c : Conncheck) (inside : c.i < call.mnats.medial.length) :
    (conncheck call c).estabs = call.estabs ++ (if reportsAt call c then [(0, 0)] else []) ∧
    (conncheck call c).mnats.sendReinvite =
      ((call.mnats.sendReinvite || changed call c) && !reportsAt call c) := by
  have here := List.getElem?_eq_getElem inside
  generalize call.mnats.medial[c.i] = m at here
  unfold reportsAt
  rw [conncheck_medial call c here]
  by_cases success : c.err = 0
  · have same : changed call c = (refreshLaddr { m with complete := true } c.addrs).1 := by
      rw [refreshLaddr_changed]
      simp [changed, here, success, MnatMedia.differs]
    have fine : decide (c.err ≠ 0) = false := decide_eq_false (not_not.mpr success)
    rw [conncheck_succeeded success here, same, fine, if_neg (not_not.mpr success)]
    simp only [Call.setMedia]
    rcases refreshLaddr { m with complete := true } c.addrs with ⟨now, m'⟩
    dsimp only
    rcases Bool.eq_false_or_eq_true ((call.mnats.medial.set c.i m').any fun m => !m.complete) with waits | done
    · simp only [waits, if_true, Bool.not_true, Bool.or_false, Bool.and_false, Bool.false_eq_true, if_false]
      exact ⟨(List.append_nil _).symm, (Bool.and_true _).symm⟩
    · rcases Bool.eq_false_or_eq_true ((call.mnats.sendReinvite || now) && c.update) with again | silent
      · simp [done, again, estabh]
      · simp [done, silent]
  · have unchanged : changed call c = false := by simp [changed, here, success]
    rw [conncheck_failed success here, unchanged]
    cases again : call.mnats.sendReinvite <;> cases c.update <;> simp [estabh, success, again]

theorem conncheck_elsewhere (call : Call) (c : Conncheck) {j : Nat} (other : j ≠ c.i) :
    (conncheck call c).mnats.medial[j]? = call.mnats.medial[j]? := by
  cases here : call.mnats.medial[c.i]? with
  | none => simp [conncheck, here]
  | some m =>
    rw [conncheck_medial call c here]
    split
    · rfl
    · exact List.getElem?_set_ne other.symm

theorem conncheck_length (call : Call) (c : Conncheck) :
    (conncheck call c).mnats.medial.length = call.mnats.medial.length := by
  cases here : call.mnats.medial[c.i]? with
  | none => simp [conncheck, here]
  | some m =>
    rw [conncheck_medial call c here]
    split
    · rfl
    · exact List.length_set

theorem changed_elsewhere (call : Call) {c d : Conncheck} (other : d.i ≠ c.i) :
    changed (conncheck call c) d = changed call d := by
  rw [changed, changed, conncheck_elsewhere call c other]

theorem any_changed_elsewhere (call : Call) {c : Conncheck} {cs : List Conncheck}
    (once : c.i ∉ cs.map fun c => c.i) : cs.any (changed (conncheck call c)) = cs.any (changed call) := by
  induction cs with
  | nil => rfl
  | cons d cs ih =>
    rw [List.map_cons, List.mem_cons, not_or] at once
    rw [List.any_cons, List.any_cons, ih once.2, changed_elsewhere call fun same => once.1 same.symm]

theorem quiet_of_unchanged {call : Call} {cs : List Conncheck} (again : call.mnats.sendReinvite = false)
    (once : (cs.map fun c => c.i).Nodup) (inside : ∀ c ∈ cs, c.i < call.mnats.medial.length)
    (unchanged : ∀ c ∈ cs, changed call c = false) : (run call cs).estabs = call.estabs := by
  induction cs generalizing call with
  | nil => rfl
  | cons c cs ih =>
    rw [List.map_cons, List.nodup_cons] at once
    rw [List.forall_mem_cons] at inside unchanged
    obtain ⟨estabs, next⟩ := conncheck_report call c inside.1
    have silent : reportsAt call c = false := by simp [reportsAt, again, unchanged.1]
    rw [silent] at estabs next
    have step : (run (conncheck call c) cs).estabs = (conncheck call c).estabs := by
      apply ih
      · rw [next, again, unchanged.1]
        rfl
      · exact once.2
      · intro d member
        rw [conncheck_length]
        exact inside.2 d member
      · intro d member
        rw [changed_elsewhere call]
        · exact unchanged.2 d member
        · intro same
          exact once.1 (same ▸ List.mem_map_of_mem member)
    exact step.trans (estabs.trans (List.append_nil _))

theorem quiet_of_controlled {call : Call} {cs : List Conncheck}
    (inside : ∀ c ∈ cs, c.i < call.mnats.medial.length) (controlled : ∀ c ∈ cs, c.update = false) :
    (run call cs).estabs = call.estabs := by
  induction cs generalizing call with
  | nil => rfl
  | cons c cs ih =>
    rw [List.forall_mem_cons] at inside controlled
    obtain ⟨estabs, -⟩ := conncheck_report call c inside.1
    have silent : reportsAt call c = false := by simp [reportsAt, controlled.1]
    rw [silent] at estabs
    have step : (run (conncheck call c) cs).estabs = (conncheck call c).estabs := by
      apply ih
      · intro d member
        rw [conncheck_length]
        exact inside.2 d member
      · exact controlled.2
    exact step.trans (estabs.trans (List.append_nil _))

theorem reports_of_quiet {call : Call} {cs : List Conncheck} {expected : Bool} (never : expected = false)
    (quiet : ∀ n, (run call (cs.take n)).estabs = call.estabs) : Reports call cs expected := by
  constructor
  · exact fun n _ => quiet n
  · have all := quiet cs.length
    rw [List.take_length] at all
    rw [all, never]
    exact (List.append_nil _).symm

/-- The media lines that are not complete are those whose checks are still to end. -/
def Open (call : Call) (cs : List Conncheck) : Prop :=
  ∀ j m, call.mnats.medial[j]? = some m → (m.complete = false ↔ j ∈ cs.map fun c => c.i)

theorem Open.next {call : Call} {c : Conncheck} {cs : List Conncheck} (open_ : Open call (c :: cs))
    (once : c.i ∉ cs.map fun c => c.i) (success : c.err = 0) : Open (conncheck call c) cs := by
  intro j m there
  by_cases here : j = c.i
  · subst here
    have inside := (List.getElem?_eq_some_iff.mp there).1
    rw [conncheck_length] at inside
    rw [conncheck_medial call c (List.getElem?_eq_getElem inside), if_neg (not_not.mpr success),
      List.getElem?_set_self inside] at there
    rw [← Option.some.inj there, refreshLaddr_complete]
    exact iff_of_false nofun once
  · rw [conncheck_elsewhere call c here] at there
    rw [open_ j m there, List.map_cons, List.mem_cons]
    exact or_iff_right here

theorem any_open {call : Call} {cs : List Conncheck} (open_ : Open call cs)
    (inside : ∀ c ∈ cs, c.i < call.mnats.medial.length) :
    (call.mnats.medial.any fun m => !m.complete) = !cs.isEmpty := by
  cases cs with
  | nil =>
    rw [List.isEmpty_nil, Bool.not_true, List.any_eq_false]
    intro m member
    obtain ⟨j, there⟩ := List.mem_iff_getElem?.mp member
    have complete := (not_congr (open_ j m there)).mpr List.not_mem_nil
    simpa using complete
  | cons d cs =>
    have there := List.getElem?_eq_getElem (inside d (List.mem_cons_self ..))
    have incomplete := (open_ _ _ there).mpr (List.mem_cons_self ..)
    rw [List.isEmpty_cons, Bool.not_false, List.any_eq_true]
    exact ⟨_, List.mem_of_getElem? there, by rw [incomplete]; rfl⟩

theorem reports_cons {call : Call} {c : Conncheck} {cs : List Conncheck} {expected : Bool}
    (silent : (conncheck call c).estabs = call.estabs) (rest : Reports (conncheck call c) cs expected) :
    Reports call (c :: cs) expected := by
  constructor
  · intro n less
    cases n with
    | zero => rfl
    | succ n => exact (rest.waits n (Nat.lt_of_succ_lt_succ less)).trans silent
  · exact rest.once.trans (by rw [silent])

theorem reports_of_last {call : Call} {cs : List Conncheck} (open_ : Open call cs)
    (once : (cs.map fun c => c.i).Nodup) (inside : ∀ c ∈ cs, c.i < call.mnats.medial.length)
    (only_last : ∀ c ∈ cs.dropLast, c.err = 0) :
    Reports call cs ((call.mnats.sendReinvite || cs.any (changed call)) && controllingAtEnd cs) := by
  induction cs generalizing call with
  | nil => exact reports_of_quiet (by simp [controllingAtEnd]) fun n => by simp [run]
  | cons c cs ih =>
    rw [List.map_cons, List.nodup_cons] at once
    rw [List.forall_mem_cons] at inside
    obtain ⟨estabs, again⟩ := conncheck_report call c inside.1
    have inside' : ∀ d ∈ cs, d.i < (conncheck call c).mnats.medial.length := by
      intro d member
      rw [conncheck_length]
      exact inside.2 d member
    cases cs with
    | nil =>
      have settled : (decide (c.err ≠ 0) || !(conncheck call c).mnats.medial.any fun m => !m.complete) = true := by
        by_cases success : c.err = 0
        · rw [any_open (open_.next once.1 success) inside']
          exact Bool.or_true _
        · simp [success]
      have reports : reportsAt call c = ((call.mnats.sendReinvite || changed call c) && c.update) := by
        rw [reportsAt, settled, Bool.and_true]
      constructor
      · intro n less
        obtain rfl : n = 0 := by
          rw [List.length_singleton] at less
          omega
        rfl
      · rw [reports] at estabs
        simpa [run, controllingAtEnd] using estabs
    | cons d cs =>
      have success : c.err = 0 := only_last c (by simp)
      have next := open_.next once.1 success
      have silent : reportsAt call c = false := by
        rw [reportsAt, any_open next inside']
        simp [success]
      rw [silent] at estabs again
      have rest := ih next once.2 inside' fun e member => only_last e (List.mem_cons_of_mem c member)
      rw [again, any_changed_elsewhere call once.1] at rest
      apply reports_cons (estabs.trans (List.append_nil _))
      simpa [controllingAtEnd, Bool.or_assoc] using rest

theorem reports_of_undisturbed {call : Call} {cs : List Conncheck} (again : call.mnats.sendReinvite = false)
    (open_ : Open call cs) (once : (cs.map fun c => c.i).Nodup)
    (inside : ∀ c ∈ cs, c.i < call.mnats.medial.length) (undisturbed : Undisturbed call cs) :
    Reports call cs (cs.any (changed call) && controllingAtEnd cs) := by
  have part : ∀ n, ∀ c ∈ cs.take n, c ∈ cs := fun n c member => List.mem_of_mem_take member
  rcases undisturbed with unchanged | controlled | only_last
  · apply reports_of_quiet
    · have none_ : cs.any (changed call) = false := by
        simpa using unchanged
      rw [none_, Bool.false_and]
    · intro n
      apply quiet_of_unchanged again
      · rw [List.map_take]
        exact once.sublist (List.take_sublist ..)
      · exact fun c member => inside c (part n c member)
      · exact fun c member => unchanged c (part n c member)
  · apply reports_of_quiet
    · have none_ : controllingAtEnd cs = false := by
        cases last : cs.getLast? with
        | none => simp [controllingAtEnd, last]
        | some c => simp [controllingAtEnd, last, controlled c (List.mem_of_getLast? last)]
      rw [none_, Bool.and_false]
    · intro n
      apply quiet_of_controlled
      · exact fun c member => inside c (part n c member)
      · exact fun c member => controlled c (part n c member)
  · have reports := reports_of_last open_ once inside only_last
    rw [again, Bool.false_or] at reports
    exact reports

theorem step_flags (call : Call) (a : Action) : (step call a).mnats.sendReinvite = call.mnats.sendReinvite := by
  unfold step
  split
  · rfl
  · cases a with
    | dns err srv starts =>
      dsimp only [report]
      split
      · exact (dnsHandler_flags _ err srv starts).sendReinvite
      · rfl
    | response i r =>
      dsimp only [report]
      split
      · rfl
      · split
        · rfl
        · cases r with
          | again => rfl
          | finished err scode addrs => exact (callGatherHandler_flags ..).sendReinvite

theorem mediaAlloc_flags (call : Call) (line : Line) : SameFlags call (mediaAlloc call line).2 := by
  unfold mediaAlloc
  dsimp only
  have appended : SameFlags call (call.append (.alloc line.rtcpSock)) := ⟨rfl, rfl, rfl⟩
  split
  · have flags := appended.trans (mediaStart_flags _ call.mnats.medial.length (.alloc line.rtcpSock) line.start)
    split
    · exact ⟨flags.mode, flags.dnsq, flags.sendReinvite⟩
    · exact ⟨flags.mode, flags.dnsq, flags.sendReinvite⟩
  · split
    · exact ⟨rfl, rfl, rfl⟩
    · exact ⟨rfl, rfl, rfl⟩

theorem streamAlloc_flags (call : Call) (lines : List Line) : SameFlags call (streamAlloc call lines).2 := by
  induction lines generalizing call with
  | nil => exact .refl call
  | cons line lines ih =>
    unfold streamAlloc
    dsimp only
    split
    · exact mediaAlloc_flags call line
    · exact (mediaAlloc_flags call line).trans (ih _)

theorem callAlloc_flags (mode : IceMode) (numeric : Option Sa) (lines : List Line) :
    (callAlloc mode numeric lines).mnats.sendReinvite = false := by
  have session : (sessionAlloc mode numeric).mnats.sendReinvite = false := by
    cases numeric with
    | none => rfl
    | some srv => rw [sessionAlloc_numeric]
  exact (streamAlloc_flags _ lines).sendReinvite.trans session

/-- A call whose gathering has gone as `as`. -/
def gathered (mode : IceMode) (numeric : Option Sa) (lines : List Line) (as : List Action) : Call :=
  as.foldl step (callAlloc mode numeric lines)

theorem gathered_flags (mode : IceMode) (numeric : Option Sa) (lines : List Line) (as : List Action) :
    (gathered mode numeric lines as).mnats.sendReinvite = false := by
  have kept : Throughout step (fun call => call.mnats.sendReinvite = false) (callAlloc mode numeric lines) as :=
    throughout_of_invariant (fun call a none_ => (step_flags call a).trans none_) (callAlloc_flags ..)
  exact kept.last

theorem iceStart_length (call : Call) (hasMedia : Nat → Bool) :
    (iceStart call hasMedia).mnats.medial.length = call.mnats.medial.length := by
  simp [iceStart]

theorem iceStart_open {call : Call} {hasMedia : Nat → Bool} {cs : List Conncheck}
    (one : (cs.map fun c => c.i).Perm (checking call hasMedia))
    (starts : call.closed = false ∧ call.mnats.mode = .full) : Open (iceStart call hasMedia) cs := by
  intro j m there
  have inside := (List.getElem?_eq_some_iff.mp there).1
  rw [iceStart_length] at inside
  have complete : m.complete = !hasMedia j := by
    simp only [iceStart, List.getElem?_mapIdx, List.getElem?_eq_getElem inside, Option.map_some,
      Option.some.injEq] at there
    rw [← there]
  rw [one.mem_iff, checking, if_pos starts, List.mem_filter, List.mem_range, complete]
  simp [inside]

theorem checking_nodup (call : Call) (hasMedia : Nat → Bool) : (checking call hasMedia).Nodup := by
  unfold checking
  split
  · exact List.nodup_range.filter _
  · exact List.nodup_nil

theorem checking_inside {call : Call} {hasMedia : Nat → Bool} {j : Nat} (member : j ∈ checking call hasMedia) :
    j < call.mnats.medial.length := by
  unfold checking at member
  split at member
  · exact List.mem_range.mp (List.mem_of_mem_filter member)
  · contradiction

/-- Unless a check fails before the last one is over, the session is told once to send a re-INVITE when the
    last check is over, if an address has changed and the agent is then the controlling one. -/
theorem reinvite_once (mode : IceMode) (numeric : Option Sa) (lines : List Line) (as : List Action)
    (hasMedia : Nat → Bool) (cs : List Conncheck)
    (one : (cs.map fun c => c.i).Perm (checking (gathered mode numeric lines as) hasMedia))
    (undisturbed : Undisturbed (iceStart (gathered mode numeric lines as) hasMedia) cs) :
    Reports (iceStart (gathered mode numeric lines as) hasMedia) cs
      (cs.any (changed (iceStart (gathered mode numeric lines as) hasMedia)) && controllingAtEnd cs) := by
  have again := gathered_flags mode numeric lines as
  generalize gathered mode numeric lines as = call at one undisturbed again ⊢
  have again : (iceStart call hasMedia).mnats.sendReinvite = false := again
  by_cases starts : call.closed = false ∧ call.mnats.mode = .full
  · apply reports_of_undisturbed again (iceStart_open one starts)
    · exact one.nodup_iff.mpr (checking_nodup call hasMedia)
    · intro c member
      rw [iceStart_length]
      exact checking_inside (one.mem_iff.mp (List.mem_map_of_mem member))
    · exact undisturbed
  · rw [checking, if_neg starts] at one
    obtain rfl := List.map_eq_nil_iff.mp one.eq_nil
    exact reports_of_quiet rfl fun n => by simp [run]

/-- Two media lines whose gathering is under way. -/
def twoLines : Call :=
  gathered .full none [⟨false, ⟨(0, 0), none, none⟩⟩, ⟨false, ⟨(0, 0), none, none⟩⟩]
    [.dns 0 (.inet 0x0a000001 3478) fun _ => ⟨(0, 0), none, none⟩]

theorem reinvite_once_two_lines :
    Reports (iceStart twoLines fun _ => true)
      [⟨1, 0, true, some (.inet 0x0a000002 4000), none⟩, ⟨0, 110, true, none, none⟩] true :=
  reinvite_once .full none [⟨false, ⟨(0, 0), none, none⟩⟩, ⟨false, ⟨(0, 0), none, none⟩⟩]
    [.dns 0 (.inet 0x0a000001 3478) fun _ => ⟨(0, 0), none, none⟩] (fun _ => true)
    [⟨1, 0, true, some (.inet 0x0a000002 4000), none⟩, ⟨0, 110, true, none, none⟩] (by decide)
    (.inr (.inr (by decide)))

def ReportsChange (call : Call) (cs : List Conncheck) : Prop := Reports call cs (cs.any (changed call))

/-- A check that fails first, or an agent that is controlled, is not followed by a re-INVITE. -/
theorem no_reinvite :
    ¬ ReportsChange (iceStart twoLines fun _ => true)
      [⟨0, 110, true, none, none⟩, ⟨1, 0, true, some (.inet 0x0a000002 4000), none⟩] ∧
    ReportsChange (iceStart twoLines fun _ => true)
      [⟨1, 0, true, some (.inet 0x0a000002 4000), none⟩, ⟨0, 110, true, none, none⟩] ∧
    ¬ ReportsChange (iceStart twoLines fun i => i == 0) [⟨0, 0, false, some (.inet 0x0a000002 4000), none⟩] := by
  refine ⟨?_, ⟨by decide, by decide⟩, ?_⟩
  · intro reports
    exact absurd reports.once (by decide)
  · intro reports
    exact absurd reports.once (by decide)

end Baresip.Ice
