import Baresip.Library.Countdown
import Baresip.Library.Runs
import Baresip.Mnat.Mnat

set_option linter.dupNamespace false

namespace Baresip.Mnat

open Re Library
open Baresip.Call (CallState)

def Component.complete (component : Component) : Bool := !component.sock || component.addr.isset .all

def Media.complete (m : Media) : Bool := m.rtp.complete && m.rtcp.complete

def successes (call : Call) : Nat := call.estabs.count (0, 0)

structure Establishes (call : Call) : Prop where
  nonneg : 0 ≤ call.mnats.mediac
  complete : (0, 0) ∈ call.estabs → ∀ m ∈ call.mnats.medial, m.complete = true
  at_most_once : successes call ≤ 1
  once : call.mnats.medial ≠ [] → (∀ m ∈ call.mnats.medial, m.complete = true) → successes call = 1

/-- The address of a component that comes with a success report which reaches the module's handler. -/
def reported (call : Call) : Action → Option (Media × Comp × Sa)
  | .dns _ _ _ => none
  | .timeout _ _ _ => none
  | .stun i c response => do
    let m ← call.mnats.medial[i]?
    match (m.comp c).client with
    | some (.keepalive curmap) =>
      let addr ← response.attr
      if response.err = 0 ∧ response.scode = 0 ∧ curmap.cmp addr .all = false then some (m, c, addr) else none
    | _ => none
  | .turn i c err scode relayAddr => do
    let m ← call.mnats.medial[i]?
    match (m.comp c).client with
    | some .turnc => if err = 0 ∧ scode = 0 then some (m, c, relayAddr) else none
    | _ => none

def Media.othersReady (m : Media) (c : Comp) : Bool :=
  !((m.comp c.other).client.isSome && !(m.comp c.other).addr.isset .all)

/-- The report that settles a line is the first one for its component, and its address is set. -/
def SettlesOnce (call : Call) (a : Action) : Prop :=
  call.closed = false → ∀ r ∈ reported call a, r.1.othersReady r.2.1 = true →
    (r.1.comp r.2.1).addr.isset .all = false ∧ r.2.2.isset .all = true

instance (call : Call) (a : Action) : Decidable (SettlesOnce call a) := by
  unfold SettlesOnce
  infer_instance

@[simp] theorem comp_set (m : Media) (c : Comp) (component : Component) :
    (m.set c component).comp c = component := by
  cases c <;> rfl

@[simp] theorem comp_other_set (m : Media) (c : Comp) (component : Component) :
    (m.set c component).comp c.other = m.comp c.other := by
  cases c <;> rfl

theorem complete_eq (m : Media) (c : Comp) :
    m.complete = ((m.comp c).complete && (m.comp c.other).complete) := by
  cases c with
  | rtp => rfl
  | rtcp => exact Bool.and_comm _ _

structure Media.Ready (m : Media) : Prop where
  rtp : m.rtp.sock = true
  clients : (∀ c, (m.comp c).client = none) ∨ ∀ c, (m.comp c).client.isSome = (m.comp c).sock

theorem Media.Ready.set {m : Media} (ready : m.Ready) (c : Comp) {component : Component}
    (sock : component.sock = (m.comp c).sock)
    (client : component.client.isSome = (m.comp c).client.isSome) : (m.set c component).Ready := by
  constructor
  · cases c with
    | rtp => exact sock.trans ready.rtp
    | rtcp => exact ready.rtp
  · apply ready.clients.imp
    · intro none_ c'
      have nothing : component.client = none := by
        rw [← Option.isNone_iff_eq_none, ← Option.not_isSome, client, none_ c]
        rfl
      cases c <;> cases c' <;> first | exact nothing | exact none_ .rtp | exact none_ .rtcp
    · intro all c'
      have own : component.client.isSome = component.sock := by
        rw [client, sock, all c]
      cases c <;> cases c' <;> first | exact own | exact all .rtp | exact all .rtcp

structure Inv (call : Call) : Prop where
  counts : CountsDown Media.complete call.mnats.medial call.mnats.mediac (successes call)
  ready : call.closed = false → ∀ m ∈ call.mnats.medial, m.Ready

theorem Inv.establishes {call : Call} (inv : Inv call) : Establishes call where
  nonneg := inv.counts.nonneg
  complete success := inv.counts.all_done (List.count_pos_iff.mpr success)
  at_most_once := inv.counts.fired_le_one
  once := inv.counts.fired_once

theorem established_frame (call : Call) :
    call.established.mnats = call.mnats ∧ call.established.estabs = call.estabs ∧
      call.established.closed = call.closed := by
  unfold Call.established
  cases call.mnatWait <;> exact ⟨rfl, rfl, rfl⟩

theorem mnatHandler_mnats (call : Call) (err scode : Nat) : (mnatHandler call err scode).mnats = call.mnats := by
  unfold mnatHandler
  simp only
  split
  · rfl
  · exact (established_frame _).1

theorem mnatHandler_estabs (call : Call) (err scode : Nat) :
    (mnatHandler call err scode).estabs = call.estabs ++ [(err, scode)] := by
  unfold mnatHandler
  simp only
  split
  · rfl
  · exact (established_frame _).2.1

theorem mnatHandler_failure_closed (call : Call) {err scode : Nat} (failed : ¬ (err = 0 ∧ scode = 0)) :
    (mnatHandler call err scode).closed = true := by
  unfold mnatHandler
  rw [Decidable.not_and_iff_or_not] at failed
  simp only [ne_eq, if_pos failed]
  rfl

theorem mnatHandler_failure_inv {call : Call} {err scode : Nat} (failed : ¬ (err = 0 ∧ scode = 0))
    (counts : CountsDown Media.complete call.mnats.medial call.mnats.mediac (successes call)) :
    Inv (mnatHandler call err scode) := by
  constructor
  · have other : (err, scode) ≠ (0, 0) := by
      simpa using failed
    have same : successes (mnatHandler call err scode) = successes call := by
      simp [successes, mnatHandler_estabs, other]
    rw [mnatHandler_mnats, same]
    exact counts
  · intro open_
    rw [mnatHandler_failure_closed call failed] at open_
    contradiction

theorem ready_set {medial : List Media} (ready : ∀ m ∈ medial, m.Ready) (i : Nat) {m' : Media}
    (ready' : m'.Ready) : ∀ m ∈ medial.set i m', m.Ready := by
  intro m member
  cases List.mem_or_eq_of_mem_set member with
  | inl old => exact ready m old
  | inr new =>
    rw [new]
    exact ready'

theorem Inv.setMedia {call : Call} (inv : Inv call) {i : Nat} {m m' : Media}
    (here : call.mnats.medial[i]? = some m) (same : m'.complete = m.complete)
    (ready : call.closed = false → m'.Ready) : Inv (call.setMedia i m') := by
  constructor
  · exact inv.counts.same here same
  · exact fun open_ => ready_set (inv.ready open_) i (ready open_)

theorem setMedia_here {call : Call} {i : Nat} {m : Media} (here : call.mnats.medial[i]? = some m)
    (m' : Media) : (call.setMedia i m').mnats.medial[i]? = some m' := by
  obtain ⟨inside, _⟩ := List.getElem?_eq_some_iff.mp here
  simp [Call.setMedia, inside]

theorem Inv.setCurmap {call : Call} (inv : Inv call) {i : Nat} {m : Media} {c : Comp}
    (open_ : call.closed = false) (here : call.mnats.medial[i]? = some m)
    (started : (m.comp c).client.isSome = true) (curmap : Sa) : Inv (call.setMedia i (m.setCurmap c curmap)) := by
  apply inv.setMedia here
  · rw [complete_eq _ c, complete_eq m c]
    simp [Media.setCurmap, Component.complete]
  · intro _
    have ready := inv.ready open_ m (List.mem_of_getElem? here)
    exact ready.set c rfl started.symm

theorem othersReady_eq {m : Media} {c : Comp} (ready : m.Ready) (started : (m.comp c).client.isSome = true) :
    m.othersReady c = (m.comp c.other).complete ∧ (m.comp c).sock = true := by
  have all : ∀ c, (m.comp c).client.isSome = (m.comp c).sock := by
    apply ready.clients.resolve_left
    intro none_
    rw [none_ c] at started
    contradiction
  constructor
  · simp [Media.othersReady, Component.complete, all c.other]
  · rw [← all c]
    exact started

theorem obtained_inv {call : Call} (inv : Inv call) (open_ : call.closed = false) {i : Nat} {m : Media}
    (here : call.mnats.medial[i]? = some m) {c : Comp} (started : (m.comp c).client.isSome = true)
    {addr : Sa}
    (settles : m.othersReady c = true → (m.comp c).addr.isset .all = false ∧ addr.isset .all = true) :
    Inv (obtained call i m c addr) := by
  have ready := inv.ready open_ m (List.mem_of_getElem? here)
  obtain ⟨others, sock⟩ := othersReady_eq ready started
  unfold obtained
  generalize new : m.set c { m.comp c with laddr := some addr, addr := addr } = m'
  have otherComp : m'.comp c.other = m.comp c.other := by
    rw [← new]
    exact comp_other_set ..
  have ready' : m'.Ready := by
    rw [← new]
    exact ready.set c rfl rfl
  have waits : ((m'.comp c.other).client.isSome && !(m'.comp c.other).addr.isset .all) = !m.othersReady c := by
    rw [otherComp, Media.othersReady, Bool.not_not]
  simp only [waits]
  cases settled : m.othersReady c with
  | false =>
    -- the other component is still missing, before and after
    rw [settled] at others
    rw [if_pos (by rfl)]
    apply inv.setMedia here
    · rw [complete_eq m' c, complete_eq m c, otherComp, ← others, Bool.and_false, Bool.and_false]
    · exact fun _ => ready'
  | true =>
    obtain ⟨fresh, set⟩ := settles settled
    rw [settled] at others
    have incomplete : m.complete = false := by
      rw [complete_eq m c]
      simp [Component.complete, sock, fresh]
    have complete : m'.complete = true := by
      rw [complete_eq m' c, otherComp, ← others, ← new, comp_set]
      simp [Component.complete, set]
    have counts := inv.counts.complete here incomplete complete
    have allReady := ready_set (inv.ready open_) i ready'
    rw [if_neg (by decide)]
    have counter : (call.setMedia i m').countDown.mnats.mediac = call.mnats.mediac - 1 := rfl
    rw [counter]
    by_cases last : call.mnats.mediac - 1 = 0
    · rw [if_neg (not_not.mpr last)]
      rw [if_pos last] at counts
      constructor
      · have once_more : successes (mnatHandler (call.setMedia i m').countDown 0 0) = successes call + 1 := by
          rw [successes, mnatHandler_estabs, List.count_append, List.count_singleton_self]
          rfl
        rw [mnatHandler_mnats, once_more]
        exact counts
      · rw [mnatHandler_mnats]
        exact fun _ => allReady
    · rw [if_pos last]
      rw [if_neg last] at counts
      exact ⟨counts, fun _ => allReady⟩

theorem keepaliveMah_eq (c : Comp) : keepaliveMah c = mappedHandler c := by
  cases c <;> rfl

theorem turncTh_eq (c : Comp) : turncTh c = turnHandler c := by
  cases c <;> rfl

theorem turn_inv {call : Call} (inv : Inv call) (open_ : call.closed = false) {i : Nat} {m : Media}
    (here : call.mnats.medial[i]? = some m) {c : Comp} (started : (m.comp c).client = some .turnc)
    {err scode : Nat} {addr : Sa} (settles : SettlesOnce call (.turn i c err scode addr)) :
    Inv (turnHandler c call i m err scode addr) := by
  unfold turnHandler
  by_cases success : err = 0 ∧ scode = 0
  · rw [if_pos success]
    apply obtained_inv inv open_ here (by simp [started])
    exact settles open_ (m, c, addr) (by simp [reported, here, started, success])
  · rw [if_neg success]
    exact mnatHandler_failure_inv success inv.counts

theorem failure_inv {call : Call} (inv : Inv call) {err : Nat} (failed : err ≠ 0) (i : Nat) (m : Media)
    (c : Comp) (addr : Sa) : Inv (mappedHandler c call i m err addr) := by
  unfold mappedHandler
  rw [if_neg failed]
  exact mnatHandler_failure_inv (fun success => failed success.1) inv.counts

theorem stun_inv {call : Call} (inv : Inv call) (open_ : call.closed = false) {i : Nat} {m : Media}
    (here : call.mnats.medial[i]? = some m) {c : Comp} {curmap : Sa}
    (started : (m.comp c).client = some (.keepalive curmap)) {response : StunResponse}
    (settles : SettlesOnce call (.stun i c response)) :
    Inv (stunResponseHandler call i m c curmap response) := by
  have running : (m.comp c).client.isSome = true := by simp [started]
  have updated := inv.setCurmap open_ here running
  unfold stunResponseHandler
  simp only [keepaliveMah_eq]
  by_cases failed : response.err ≠ 0 ∨ response.scode ≠ 0
  · rw [if_pos failed]
    split
    · rename_i err
      exact failure_inv (updated .init) err i _ c .unspec
    · exact updated .init
  · rw [if_neg failed]
    rw [not_or, not_not, not_not] at failed
    cases attr : response.attr with
    | none => exact failure_inv inv (by decide) i m c .unspec
    | some addr =>
      simp only
      cases known : curmap.cmp addr .all with
      | true => exact inv
      | false =>
        have fresh := settles open_ (m, c, addr) (by simp [reported, here, started, attr, failed, known])
        apply obtained_inv (updated addr) open_ (setMedia_here here _)
        · simp [Media.setCurmap]
        · simpa [Media.setCurmap, Media.othersReady] using fresh

theorem mediaStart_complete (mod : MnatModule) (m : Media) (errs : AllocErrs) :
    (mediaStart mod m errs).2.complete = m.complete := by
  have kept : ∀ (component : Component) err, (component.start mod err).complete = component.complete := by
    intro component err
    unfold Component.start
    split <;> rfl
  simp [mediaStart, Media.complete, kept]

theorem start_client (mod : MnatModule) (component : Component) :
    (component.start mod 0).client.isSome = (component.sock || component.client.isSome) := by
  unfold Component.start
  cases component.sock <;> simp

theorem start_sock (mod : MnatModule) (component : Component) (err : Nat) :
    (component.start mod err).sock = component.sock := by
  unfold Component.start
  split <;> rfl

theorem mediaStart_ready (mod : MnatModule) {m : Media} (ready : m.Ready) {errs : AllocErrs}
    (success : (mediaStart mod m errs).1 = 0) : (mediaStart mod m errs).2.Ready := by
  obtain ⟨err1, err2⟩ := Nat.or_eq_zero_iff.mp success
  have started : ∀ c, ((mediaStart mod m errs).2.comp c) = (m.comp c).start mod 0 := by
    intro c
    cases c with
    | rtp => simp only [mediaStart, Media.comp, err1]
    | rtcp => simp only [mediaStart, Media.comp, err2]
  constructor
  · have sock := start_sock mod m.rtp 0
    rw [ready.rtp] at sock
    exact (congrArg Component.sock (started .rtp)).trans sock
  · right
    intro c
    rw [started c, start_client, start_sock]
    cases ready.clients with
    | inl none_ => simp [none_ c]
    | inr all => rw [all c, Bool.or_self]

theorem mediaStartAll_ready (mod : MnatModule) {medial : List Media} (ready : ∀ m ∈ medial, m.Ready)
    {errs : List AllocErrs} (success : (mediaStartAll mod medial errs).1 = 0) :
    ∀ m ∈ (mediaStartAll mod medial errs).2, m.Ready := by
  induction medial generalizing errs with
  | nil => exact ready
  | cons m medial ih =>
    rw [List.forall_mem_cons] at ready
    unfold mediaStartAll at success ⊢
    simp only at success ⊢
    by_cases started : (mediaStart mod m (errs.headD (0, 0))).1 = 0
    · rw [if_neg (not_not.mpr started)] at success ⊢
      exact List.forall_mem_cons.mpr ⟨mediaStart_ready mod ready.1 started, ih ready.2 success⟩
    · rw [if_pos started] at success
      exact absurd success started

theorem mediaStartAll_complete (mod : MnatModule) (medial : List Media) (errs : List AllocErrs) :
    (mediaStartAll mod medial errs).2.map Media.complete = medial.map Media.complete := by
  induction medial generalizing errs with
  | nil => rfl
  | cons m medial ih =>
    unfold mediaStartAll
    simp only
    split
    · simp [mediaStart_complete]
    · simp [mediaStart_complete, ih]

theorem dnsHandler_inv {call : Call} (inv : Inv call) (open_ : call.closed = false) (err : Nat) (srv : Sa)
    (errs : List AllocErrs) : Inv (dnsHandler call err srv errs) := by
  unfold dnsHandler
  by_cases found : err = 0
  · rw [if_neg (not_not.mpr found)]
    have counts := inv.counts.congr (mediaStartAll_complete call.mnats.mod call.mnats.medial errs)
    simp only
    split
    · rename_i failed
      exact mnatHandler_failure_inv (fun success => failed success.1) counts
    · rename_i success
      rw [not_not] at success
      exact ⟨counts, fun _ => mediaStartAll_ready _ (inv.ready open_) success⟩
  · rw [if_pos found]
    exact mnatHandler_failure_inv (fun success => found success.1) inv.counts

theorem timeout_inv {call : Call} (inv : Inv call) (i : Nat) (m : Media) (c : Comp) (err : Nat) :
    Inv (stunTimeout call i m c err) := by
  unfold stunTimeout
  by_cases failed : err = 0
  · rw [if_pos failed]
    exact inv
  · rw [if_neg failed, keepaliveMah_eq]
    exact failure_inv inv failed i m c .unspec

theorem step_inv (call : Call) (a : Action) (inv : Inv call) (settles : SettlesOnce call a) :
    Inv (step call a) := by
  unfold step
  cases open_ : call.closed with
  | true => exact inv
  | false =>
    rw [if_neg (by decide)]
    cases a with
    | dns err srv errs =>
      unfold report
      simp only
      split
      · have asked : Inv { call with mnats := { call.mnats with dnsq := false } } := ⟨inv.counts, inv.ready⟩
        exact dnsHandler_inv asked open_ err srv errs
      · exact inv
    | stun i c response =>
      unfold report
      simp only
      split
      · exact inv
      · split
        · exact stun_inv inv open_ ‹_› ‹_› settles
        · exact inv
    | timeout i c err =>
      unfold report
      simp only
      split
      · exact inv
      · split
        · exact timeout_inv inv i _ c err
        · exact inv
    | turn i c err scode relayAddr =>
      unfold report
      simp only [turncTh_eq]
      split
      · exact inv
      · split
        · exact turn_inv inv open_ ‹_› ‹_› settles
        · exact inv

structure Fresh (sess : Sess) : Prop where
  counter : sess.mediac = sess.medial.length
  incomplete : ∀ m ∈ sess.medial, m.complete = false
  ready : ∀ m ∈ sess.medial, m.Ready

theorem mediaAlloc_fresh {sess : Sess} (fresh : Fresh sess) (sock2 : Bool) (errs : AllocErrs) :
    Fresh (mediaAlloc sess true sock2 errs).2 := by
  unfold mediaAlloc
  simp only
  generalize line : (⟨⟨true, .unspec, none, none⟩, ⟨sock2, .unspec, none, none⟩⟩ : Media) = m
  have incomplete : m.complete = false := by
    rw [← line]
    rfl
  have ready : m.Ready := by
    rw [← line]
    exact ⟨rfl, .inl fun c => by cases c <;> rfl⟩
  generalize alloc : (if sess.srv.isset .all then mediaStart sess.mod m errs else (0, m)) = result
  have new : result.2.complete = false ∧ (result.1 = 0 → result.2.Ready) := by
    rw [← alloc]
    split
    · rw [mediaStart_complete]
      exact ⟨incomplete, mediaStart_ready sess.mod ready⟩
    · exact ⟨incomplete, fun _ => ready⟩
  split
  · exact fresh
  · rename_i success
    constructor
    · simp [fresh.counter]
    · simpa [or_imp, forall_and, new.1] using fresh.incomplete
    · simpa [or_imp, forall_and, new.2 (not_not.mp success)] using fresh.ready

theorem streamAlloc_fresh {sess : Sess} (fresh : Fresh sess) (lines : List Line) :
    Fresh (streamAlloc sess lines).2 := by
  induction lines generalizing sess with
  | nil => exact fresh
  | cons line lines ih =>
    have next := mediaAlloc_fresh fresh line.rtcpSock line.errs
    unfold streamAlloc
    simp only
    split
    · exact next
    · exact ih next

theorem callAlloc_inv (mod : MnatModule) (numeric : Option Sa) (state : CallState) (lines : List Line) :
    Inv (callAlloc mod numeric state lines) := by
  have begins : Fresh (sessionAlloc mod numeric) := by
    cases numeric <;> exact ⟨rfl, by simp [sessionAlloc], by simp [sessionAlloc]⟩
  have fresh := streamAlloc_fresh begins lines
  constructor
  · have counts := CountsDown.start fresh.incomplete
    rw [← fresh.counter] at counts
    exact counts
  · exact fun _ => fresh.ready

/-- A session reports success when all of its lines have their addresses, once and only then, in every
    run in which no line is settled a second time. -/
theorem session_establishes (mod : MnatModule) (numeric : Option Sa) (state : CallState)
    (lines : List Line) (as : List Action)
    (settles : Along step SettlesOnce (callAlloc mod numeric state lines) as) :
    Throughout step Establishes (callAlloc mod numeric state lines) as := by
  have start := callAlloc_inv mod numeric state lines
  exact (throughout_of_guarded step_inv start settles).mono fun _ inv => inv.establishes

def server : Sa := .inet 0x0a000001 3478

def mapped (port : BitVec 16) : StunResponse := ⟨0, 0, some (.inet 0xc0000201 port)⟩

theorem session_establishes_two_lines :
    Along step SettlesOnce (callAlloc .stun none .outgoing [⟨true, 0, 0⟩, ⟨false, 0, 0⟩])
        [.dns 0 server [], .stun 0 .rtp (mapped 4000), .stun 1 .rtp (mapped 4002),
          .stun 0 .rtcp (mapped 4001), .stun 0 .rtcp (mapped 4001)] ∧
      Throughout step Establishes (callAlloc .stun none .outgoing [⟨true, 0, 0⟩, ⟨false, 0, 0⟩])
        [.dns 0 server [], .stun 0 .rtp (mapped 4000), .stun 1 .rtp (mapped 4002),
          .stun 0 .rtcp (mapped 4001), .stun 0 .rtcp (mapped 4001)] := by
  have settles : Along step SettlesOnce (callAlloc .stun none .outgoing [⟨true, 0, 0⟩, ⟨false, 0, 0⟩])
      [.dns 0 server [], .stun 0 .rtp (mapped 4000), .stun 1 .rtp (mapped 4002),
        .stun 0 .rtcp (mapped 4001), .stun 0 .rtcp (mapped 4001)] := by decide
  exact ⟨settles, session_establishes .stun none .outgoing _ _ settles⟩

theorem session_established_too_early :
    ¬ Throughout step Establishes (callAlloc .stun (some server) .outgoing [⟨false, 0, 0⟩, ⟨false, 0, 0⟩])
      [.stun 0 .rtp (mapped 4000), .stun 0 .rtp (mapped 4010)] := by
  intro establishes
  have complete := establishes.last.complete (by decide)
  revert complete
  decide

end Baresip.Mnat
