import Baresip.Library.Runs
import Baresip.Mnat.Ice

set_option linter.dupNamespace false

namespace Baresip.Ice

open Re Library

def successes (call : Call) : Nat := call.estabs.count (0, 0)

structure Gathers (call : Call) : Prop where
  nonneg : 0 ≤ call.least
  never_early : (0, 0) ∈ call.estabs → ∀ m ∈ call.mnats.medial, m.gathered = true
  at_most_once : successes call ≤ 1
  once : call.mnats.medial ≠ [] → (∀ m ∈ call.mnats.medial, m.gathered = true) →
    successes call = 1 ∧ call.mnats.mediac = 0

/-- Gathering cannot be reported twice. -/
def MnatMedia.Fresh (m : MnatMedia) : Prop := m.icem.nstun = 0 ∨ m.icem.gh = false ∨ m.gathered = false

def MnatMedia.Unstarted (m : MnatMedia) : Prop := m.gathered = false ∧ m.icem.nstun = 0

structure Counted (call : Call) : Prop where
  counts : CountsDown MnatMedia.gathered call.mnats.medial call.mnats.mediac (successes call)
  nonneg : 0 ≤ call.least
  fresh : ∀ m ∈ call.mnats.medial, m.Fresh

structure Gathering (call : Call) : Prop extends Counted call where
  asked : call.mnats.dnsq = true → ∀ m ∈ call.mnats.medial, m.Unstarted

theorem Counted.gathers {call : Call} (counted : Counted call) : Gathers call where
  nonneg := counted.nonneg
  never_early success := counted.counts.all_done (List.count_pos_iff.mpr success)
  at_most_once := counted.counts.fired_le_one
  once some_ all := by
    refine ⟨counted.counts.fired_once some_ all, ?_⟩
    rw [counted.counts.counter_eq, pending_eq_zero_iff.mpr all]
    rfl

theorem successes_estabh (call : Call) (err scode : Nat) :
    successes (estabh call err scode) = if err = 0 ∧ scode = 0 then successes call + 1 else successes call := by
  by_cases success : err = 0 ∧ scode = 0
  · obtain ⟨rfl, rfl⟩ := success
    simp [successes, estabh]
  · have other : (err, scode) ≠ (0, 0) := by simpa using success
    simp [successes, estabh, success, other]

theorem fresh_set {medial : List MnatMedia} (fresh : ∀ m ∈ medial, m.Fresh) (i : Nat) {m' : MnatMedia}
    (fresh' : m'.Fresh) : ∀ m ∈ medial.set i m', m.Fresh := by
  intro m member
  cases List.mem_or_eq_of_mem_set member with
  | inl old => exact fresh m old
  | inr new =>
    rw [new]
    exact fresh'

theorem Counted.setMedia {call : Call} (counted : Counted call) {i : Nat} {m m' : MnatMedia}
    (here : call.mnats.medial[i]? = some m) (same : m'.gathered = m.gathered) (fresh : m'.Fresh) :
    Counted (call.setMedia i m') where
  counts := counted.counts.same here same
  nonneg := counted.nonneg
  fresh := fresh_set counted.fresh i fresh

theorem Counted.failure {call : Call} (counted : Counted call) {err scode : Nat} (failed : ¬ (err = 0 ∧ scode = 0)) :
    Counted (estabh call err scode) := by
  refine ⟨?_, counted.nonneg, counted.fresh⟩
  rw [successes_estabh, if_neg failed]
  exact counted.counts

/-- The media line at `i` is reported for the first time. -/
theorem gatherHandler_counted {call : Call} (counted : Counted call) {i : Nat} {m m' : MnatMedia}
    (here : call.mnats.medial[i]? = some m) (open_ : m.gathered = false) (same : m'.gathered = m.gathered)
    (quiet : m'.icem.nstun = 0 ∨ m'.icem.gh = false) (err scode : Nat) (addrs : Addrs) :
    Counted (gatherHandler call i m' err scode addrs) := by
  have idle : m'.Fresh := quiet.imp_right Or.inl
  unfold gatherHandler
  by_cases failed : err ≠ 0 ∨ scode ≠ 0
  · rw [if_pos failed]
    exact (counted.setMedia here same idle).failure fun success => by omega
  · rw [if_neg failed]
    simp only
    generalize new : ({ (refreshLaddr m' addrs).2 with gathered := true } : MnatMedia) = m''
    have now : m''.gathered = true := by rw [← new]
    have fresh : m''.Fresh := by
      have icem : m''.icem = m'.icem := by
        rw [← new]
        unfold refreshLaddr
        dsimp only
        split <;> split <;> (try split) <;> (try split) <;> rfl
      unfold MnatMedia.Fresh
      rw [icem]
      exact quiet.imp_right Or.inl
    have counts := counted.counts.complete here open_ now
    have more := counts.nonneg
    have least : 0 ≤ min call.least (call.mnats.mediac - 1) := Int.le_min.mpr ⟨counted.nonneg, more⟩
    have kept := fresh_set counted.fresh i fresh
    have counter : ((call.setMedia i m'').setMediac (call.mnats.mediac - 1)).mnats.mediac =
        call.mnats.mediac - 1 := rfl
    rw [counter]
    by_cases last : call.mnats.mediac - 1 = 0
    · rw [if_neg (not_not.mpr last)]
      rw [if_pos last] at counts
      refine ⟨?_, least, kept⟩
      rw [successes_estabh, if_pos ⟨rfl, rfl⟩]
      exact counts
    · rw [if_pos last]
      rw [if_neg last] at counts
      exact ⟨counts, least, kept⟩

theorem gatherHandler_elsewhere (call : Call) (i : Nat) (m : MnatMedia) (err scode : Nat) (addrs : Addrs)
    {j : Nat} (other : j ≠ i) :
    (gatherHandler call i m err scode addrs).mnats.medial[j]? = call.mnats.medial[j]? := by
  unfold gatherHandler
  split
  · exact List.getElem?_set_ne other.symm
  · dsimp only
    split
    · exact List.getElem?_set_ne other.symm
    · exact List.getElem?_set_ne other.symm

theorem mediaStart_elsewhere (call : Call) (i : Nat) (m : MnatMedia) (start : Start) {j : Nat} (other : j ≠ i) :
    (mediaStart call i m start).2.mnats.medial[j]? = call.mnats.medial[j]? := by
  unfold mediaStart
  cases call.mnats.mode with
  | full => exact List.getElem?_set_ne other.symm
  | lite => exact gatherHandler_elsewhere call i m 0 0 start.addrs other

theorem mediaStart_counted {call : Call} (counted : Counted call) {i : Nat} {m : MnatMedia}
    (here : call.mnats.medial[i]? = some m) (unstarted : m.Unstarted) (start : Start) :
    Counted (mediaStart call i m start).2 := by
  unfold mediaStart
  cases call.mnats.mode with
  | full => exact counted.setMedia here rfl (.inr (.inr unstarted.1))
  | lite => exact gatherHandler_counted counted here unstarted.1 rfl (.inl unstarted.2) 0 0 start.addrs

theorem mediaStartAll_counted {call : Call} (counted : Counted call) (starts : Nat → Start) {is : List Nat}
    (once : is.Nodup) (unstarted : ∀ i ∈ is, ∀ m ∈ call.mnats.medial[i]?, m.Unstarted) :
    Counted (mediaStartAll call starts is).2 := by
  induction is generalizing call with
  | nil => exact counted
  | cons i rest ih =>
    rw [List.nodup_cons] at once
    unfold mediaStartAll
    split
    · exact counted
    · rename_i m here
      have started := mediaStart_counted counted here (unstarted i (List.mem_cons_self ..) m here) (starts i)
      dsimp only
      split
      · exact started
      · apply ih started once.2
        intro j member m' there
        have other : j ≠ i := by
          rintro rfl
          exact once.1 member
        rw [mediaStart_elsewhere call i m (starts i) other] at there
        exact unstarted j (List.mem_cons_of_mem _ member) m' there

theorem dnsHandler_counted {call : Call} (counted : Counted call)
    (unstarted : ∀ m ∈ call.mnats.medial, m.Unstarted) (err : Nat) (srv : Sa) (starts : Nat → Start) :
    Counted (dnsHandler call err srv starts) := by
  unfold dnsHandler
  by_cases found : err = 0
  · rw [if_neg (not_not.mpr found)]
    have resolved : Counted { call with mnats := { call.mnats with srv := srv } } :=
      ⟨counted.counts, counted.nonneg, counted.fresh⟩
    have started := @mediaStartAll_counted _ resolved starts (List.range call.mnats.medial.length)
      List.nodup_range fun i _ m here => unstarted m (List.mem_of_getElem? here)
    dsimp only
    split
    · rename_i failed
      exact started.failure fun success => failed success.1
    · exact started
  · rw [if_pos found]
    exact counted.failure fun success => found success.1

/-- What gathering leaves as it is. -/
structure SameFlags (before after : Call) : Prop where
  mode : after.mnats.mode = before.mnats.mode
  dnsq : after.mnats.dnsq = before.mnats.dnsq
  sendReinvite : after.mnats.sendReinvite = before.mnats.sendReinvite

theorem SameFlags.refl (call : Call) : SameFlags call call := ⟨rfl, rfl, rfl⟩

theorem SameFlags.trans {a b c : Call} (ab : SameFlags a b) (bc : SameFlags b c) : SameFlags a c :=
  ⟨bc.mode.trans ab.mode, bc.dnsq.trans ab.dnsq, bc.sendReinvite.trans ab.sendReinvite⟩

theorem gatherHandler_flags (call : Call) (i : Nat) (m : MnatMedia) (err scode : Nat) (addrs : Addrs) :
    SameFlags call (gatherHandler call i m err scode addrs) := by
  unfold gatherHandler
  split
  · exact ⟨rfl, rfl, rfl⟩
  · dsimp only
    split <;> exact ⟨rfl, rfl, rfl⟩

theorem callGatherHandler_flags (call : Call) (i : Nat) (m : MnatMedia) (err scode : Nat) (addrs : Addrs) :
    SameFlags call (callGatherHandler call i m err scode addrs) := by
  unfold callGatherHandler
  split
  · exact ⟨rfl, rfl, rfl⟩
  · exact gatherHandler_flags ..

theorem mediaStart_flags (call : Call) (i : Nat) (m : MnatMedia) (start : Start) :
    SameFlags call (mediaStart call i m start).2 := by
  unfold mediaStart
  split
  · exact ⟨rfl, rfl, rfl⟩
  · exact gatherHandler_flags call i m 0 0 start.addrs

theorem mediaStartAll_flags (call : Call) (starts : Nat → Start) (is : List Nat) :
    SameFlags call (mediaStartAll call starts is).2 := by
  induction is generalizing call with
  | nil => exact .refl call
  | cons i rest ih =>
    unfold mediaStartAll
    split
    · exact .refl call
    · dsimp only
      split
      · exact mediaStart_flags ..
      · exact (mediaStart_flags ..).trans (ih _)

theorem dnsHandler_flags (call : Call) (err : Nat) (srv : Sa) (starts : Nat → Start) :
    SameFlags call (dnsHandler call err srv starts) := by
  unfold dnsHandler
  split
  · exact ⟨rfl, rfl, rfl⟩
  · have resolved : SameFlags call { call with mnats := { call.mnats with srv := srv } } := ⟨rfl, rfl, rfl⟩
    have started := resolved.trans (mediaStartAll_flags _ starts (List.range call.mnats.medial.length))
    dsimp only
    split
    · exact ⟨started.mode, started.dnsq, started.sendReinvite⟩
    · exact started

theorem callGatherHandler_counted {call : Call} (counted : Counted call) {i : Nat} {m m' : MnatMedia}
    (here : call.mnats.medial[i]? = some m) (same : m'.gathered = m.gathered)
    (fresh : m'.icem.gh = false ∨ m.gathered = false) (err scode : Nat) (addrs : Addrs) :
    Counted (callGatherHandler call i m' err scode addrs) := by
  unfold callGatherHandler
  split
  · refine counted.setMedia here same (.inr ?_)
    rw [same]
    exact fresh
  · rename_i last
    rw [not_or] at last
    apply gatherHandler_counted counted here (fresh.resolve_left last.2)
    · exact same
    · exact .inr rfl

theorem respond_gathering {call : Call} (gathering : Gathering call) {i : Nat} {m : MnatMedia}
    (here : call.mnats.medial[i]? = some m) (out : m.icem.nstun ≠ 0) (r : Response) :
    Gathering (respond call i m r) := by
  have answered : call.mnats.dnsq = false := by
    apply eq_false_of_ne_true
    intro asked
    exact out (gathering.asked asked m (List.mem_of_getElem? here)).2
  have counted := gathering.toCounted
  have fresh := (counted.fresh m (List.mem_of_getElem? here)).resolve_left out
  cases r with
  | again => exact gathering
  | finished err scode addrs =>
    constructor
    · apply callGatherHandler_counted counted here
      · rfl
      · exact fresh
    · intro asked
      dsimp only [respond] at asked
      rw [(callGatherHandler_flags ..).dnsq, answered] at asked
      contradiction

theorem step_gathering (call : Call) (a : Action) (gathering : Gathering call) : Gathering (step call a) := by
  unfold step
  split
  · exact gathering
  · cases a with
    | dns err srv starts =>
      dsimp only [report]
      split
      · rename_i asked
        have counted := gathering.toCounted
        have handled : Counted { call with mnats := { call.mnats with dnsq := false } } :=
          ⟨counted.counts, counted.nonneg, counted.fresh⟩
        refine ⟨dnsHandler_counted handled (gathering.asked asked) err srv starts, fun again => ?_⟩
        rw [(dnsHandler_flags ..).dnsq] at again
        contradiction
      · exact gathering
    | response i r =>
      dsimp only [report]
      split
      · exact gathering
      · split
        · exact gathering
        · exact respond_gathering gathering ‹_› ‹_› r

/-- No gathering is over while the media lines are allocated. -/
structure Allocated (call : Call) : Prop where
  estabs : call.estabs = []
  counted : call.mnats.mediac = call.mnats.medial.length
  nonneg : 0 ≤ call.least
  open_ : ∀ m ∈ call.mnats.medial, m.gathered = false
  asked : call.mnats.dnsq = true → call.mnats.srv.isset .all = false ∧ ∀ m ∈ call.mnats.medial, m.icem.nstun = 0
  waits : call.mnats.mode = .lite → call.mnats.srv.isset .all = false

theorem Allocated.gathering {call : Call} (allocated : Allocated call) : Gathering call where
  counts := by
    rw [allocated.counted, successes, allocated.estabs]
    exact .start allocated.open_
  nonneg := allocated.nonneg
  fresh m member := .inr (.inr (allocated.open_ m member))
  asked asked m member := ⟨allocated.open_ m member, (allocated.asked asked).2 m member⟩

/-- A media line that starts now has not been gathered. -/
theorem mediaAlloc_cases (call : Call) (waits : call.mnats.mode = .lite → call.mnats.srv.isset .all = false)
    (line : Line) :
    (mediaAlloc call line).2 = call ∨
    ∃ m : MnatMedia, m.gathered = false ∧ (call.mnats.srv.isset .all = false → m.icem.nstun = 0) ∧
      (mediaAlloc call line).2 = (call.append m).setMediac (call.mnats.mediac + 1) := by
  cases set : call.mnats.srv.isset .all with
  | false =>
    right
    refine ⟨.alloc line.rtcpSock, rfl, fun _ => rfl, ?_⟩
    simp [mediaAlloc, set, Call.append]
  | true =>
    have full : call.mnats.mode = .full := by
      cases mode : call.mnats.mode with
      | full => rfl
      | lite => exact absurd (waits mode) (by simp [set])
    by_cases sent : (startGathering (.alloc line.rtcpSock) line.start.errs).1 = 0
    · right
      refine ⟨(startGathering (.alloc line.rtcpSock) line.start.errs).2,
        rfl, nofun, ?_⟩
      simp [mediaAlloc, set, mediaStart, full, sent, Call.setMedia, Call.append]
    · left
      simp [mediaAlloc, set, mediaStart, full, sent, Call.setMedia, Call.append]
      rw [← full]

theorem mediaAlloc_allocated {call : Call} (allocated : Allocated call) (line : Line) :
    Allocated (mediaAlloc call line).2 := by
  rcases mediaAlloc_cases call allocated.waits line with same | ⟨m, open_, unsent, same⟩
  · rw [same]
    exact allocated
  · rw [same]
    have counted := allocated.counted
    constructor
    · exact allocated.estabs
    · simp [Call.setMediac, Call.append, counted]
    · have nonneg := allocated.nonneg
      dsimp only [Call.setMediac, Call.append]
      omega
    · intro m' member
      rcases List.mem_append.mp member with member | member
      · exact allocated.open_ m' member
      · rw [List.mem_singleton.mp member]
        exact open_
    · intro asked
      refine ⟨(allocated.asked asked).1, fun m' member => ?_⟩
      rcases List.mem_append.mp member with member | member
      · exact (allocated.asked asked).2 m' member
      · rw [List.mem_singleton.mp member]
        exact unsent (allocated.asked asked).1
    · exact allocated.waits

theorem streamAlloc_allocated {call : Call} (allocated : Allocated call) (lines : List Line) :
    Allocated (streamAlloc call lines).2 := by
  induction lines generalizing call with
  | nil => exact allocated
  | cons line lines ih =>
    unfold streamAlloc
    dsimp only
    split
    · exact mediaAlloc_allocated allocated line
    · exact ih (mediaAlloc_allocated allocated line)

/-- Gathering that waits for nothing is not started while the media lines are allocated. -/
def Waits (mode : IceMode) (numeric : Option Sa) : Prop :=
  mode = .lite → ∀ srv ∈ numeric, srv.isset .all = false

theorem sessionAlloc_numeric (mode : IceMode) (srv : Sa) :
    sessionAlloc mode (some srv) = ⟨⟨mode, srv, false, [], 0, false, false⟩, 0, [], false⟩ := by
  simp [sessionAlloc, dnsHandler, mediaStartAll]

theorem sessionAlloc_allocated {mode : IceMode} {numeric : Option Sa} (waits : Waits mode numeric) :
    Allocated (sessionAlloc mode numeric) := by
  have empty {P : MnatMedia → Prop} : ∀ m ∈ ([] : List MnatMedia), P m := fun _ member =>
    absurd member List.not_mem_nil
  cases numeric with
  | none =>
    constructor
    · rfl
    · rfl
    · exact Int.le_refl 0
    · exact empty
    · exact fun _ => ⟨rfl, empty⟩
    · exact fun _ => rfl
  | some srv =>
    rw [sessionAlloc_numeric]
    constructor
    · rfl
    · rfl
    · exact Int.le_refl 0
    · exact empty
    · exact nofun
    · exact fun lite => waits lite srv rfl

theorem callAlloc_gathering {mode : IceMode} {numeric : Option Sa} (waits : Waits mode numeric)
    (lines : List Line) : Gathering (callAlloc mode numeric lines) := by
  have gathering := (streamAlloc_allocated (sessionAlloc_allocated waits) lines).gathering
  rw [callAlloc]
  exact ⟨⟨gathering.counts, gathering.nonneg, gathering.fresh⟩, gathering.asked⟩

/-- Every media line has been gathered before it was counted. -/
structure Uncounted (call : Call) : Prop where
  lite : call.mnats.mode = .lite
  server : call.mnats.srv.isset .all = true
  counter : call.mnats.mediac = 0
  gathered : ∀ m ∈ call.mnats.medial, m.gathered = true
  estabs : call.estabs = []

theorem mediaAlloc_uncounted {call : Call} (uncounted : Uncounted call) (line : Line) :
    (mediaAlloc call line).1 = 0 ∧ Uncounted (mediaAlloc call line).2 ∧ (mediaAlloc call line).2.mnats.medial ≠ [] := by
  obtain ⟨lite, server, counter, gathered, estabs⟩ := uncounted
  have once : ∃ m : MnatMedia, m.gathered = true ∧ mediaAlloc call line =
      (0, ((call.append m).setMediac (-1)).setMediac 0) := by
    refine ⟨{ (refreshLaddr (.alloc line.rtcpSock) line.start.addrs).2
      with gathered := true }, rfl, ?_⟩
    simp [mediaAlloc, server, mediaStart, lite, gatherHandler, counter, Call.setMedia, Call.setMediac, Call.append]
  obtain ⟨m, now, same⟩ := once
  rw [same]
  refine ⟨rfl, ⟨lite, server, rfl, ?_, estabs⟩, by simp [Call.setMediac, Call.append]⟩
  intro m' member
  rcases List.mem_append.mp member with member | member
  · exact gathered m' member
  · rw [List.mem_singleton.mp member]
    exact now

theorem streamAlloc_uncounted {call : Call} (uncounted : Uncounted call) (lines : List Line) :
    Uncounted (streamAlloc call lines).2 ∧
      (call.mnats.medial ≠ [] ∨ lines ≠ [] → (streamAlloc call lines).2.mnats.medial ≠ []) := by
  induction lines generalizing call with
  | nil => exact ⟨uncounted, fun some_ => some_.resolve_right (not_not.mpr rfl)⟩
  | cons line lines ih =>
    obtain ⟨success, next, some_⟩ := mediaAlloc_uncounted uncounted line
    unfold streamAlloc
    dsimp only
    rw [if_neg (not_not.mpr success)]
    exact ⟨(ih next).1, fun _ => (ih next).2 (.inl some_)⟩

theorem Uncounted.never {call : Call} (uncounted : Uncounted call) (some_ : call.mnats.medial ≠ []) :
    ¬ Gathers call := by
  intro gathers
  have once := (gathers.once some_ uncounted.gathered).1
  rw [successes, uncounted.estabs] at once
  contradiction

theorem callAlloc_uncounted {srv : Sa} (server : srv.isset .all = true) (line : Line) (lines : List Line) :
    ¬ Gathers (callAlloc .lite (some srv) (line :: lines)) := by
  have start : Uncounted (sessionAlloc .lite (some srv)) := by
    rw [sessionAlloc_numeric]
    exact ⟨rfl, server, rfl, List.forall_mem_nil _, rfl⟩
  obtain ⟨uncounted, some_⟩ := streamAlloc_uncounted start (line :: lines)
  rw [callAlloc]
  apply Uncounted.never
  · exact ⟨uncounted.lite, uncounted.server, uncounted.counter, uncounted.gathered, uncounted.estabs⟩
  · exact some_ (.inr (List.cons_ne_nil _ _))

/-- The session reports success once, when all of its media lines have been gathered, if and only if it is
    not a lite agent with a server that is given by a number. -/
theorem gathers_iff (mode : IceMode) (numeric : Option Sa) (line : Line) (lines : List Line)
    (as : List Action) :
    Throughout step Gathers (callAlloc mode numeric (line :: lines)) as ↔ Waits mode numeric := by
  constructor
  · rintro gathers rfl srv rfl
    apply eq_false_of_ne_true
    intro server
    exact callAlloc_uncounted server line lines gathers.first
  · intro waits
    have run : Throughout step Gathering (callAlloc mode numeric (line :: lines)) as :=
      throughout_of_invariant step_gathering (callAlloc_gathering waits (line :: lines))
    exact run.mono fun call gathering => gathering.toCounted.gathers

theorem lite_numeric_never_established :
    ¬ Gathers (callAlloc .lite (some (.inet 0x0a000001 3478)) [⟨true, ⟨(0, 0), none, none⟩⟩]) := by
  intro gathers
  exact absurd (gathers.once (by decide) (by decide)).1 (by decide)

end Baresip.Ice
