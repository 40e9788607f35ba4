import Baresip.Reg.Sipreg
import Mathlib.Data.List.TakeWhile

set_option linter.dupNamespace false

namespace Baresip.Reg

open Re Sip

/-- The part of the log that begins with the owner's release. -/
def since (log : List Out) : List Out := log.dropWhile (· ≠ .released)

theorem since_append {log : List Out} (released : .released ∈ log) (more : List Out) :
    since (log ++ more) = since log ++ more := by
  induction log with
  | nil => exact absurd released List.not_mem_nil
  | cons out log ih =>
    by_cases here : out = .released
    · simp [since, here]
    · have later := (List.mem_cons.mp released).resolve_left (Ne.symm here)
      have rest := ih later
      simpa [since, here] using rest

theorem since_released {log : List Out} (before : .released ∉ log) (more : List Out) :
    since (log ++ .released :: more) = .released :: more := by
  induction log with
  | nil => simp [since]
  | cons out log ih =>
    have here : out ≠ .released := fun same => before (same ▸ List.mem_cons_self)
    have rest := ih fun among => before (List.mem_cons_of_mem _ among)
    simpa [since, here] using rest

theorem since_before {log : List Out} (before : .released ∉ log) : since log = [] := by
  rw [since, List.dropWhile_eq_nil_iff]
  intro out among
  exact decide_eq_true fun same => before (same ▸ among)

/-- Nothing is said to the owner, no interval is asked for again, and one that still goes out does so before
    the request that was outstanding has completed. -/
structure Quiet (after : List Out) : Prop where
  silent : ∀ err scode, .resph err scode ∉ after
  zero : ∀ expires err, .request expires err ∈ after → expires = 0
  late : ∀ mid expires rest, after = mid ++ .sent expires :: rest → expires ≠ 0 → .completed ∉ mid

def Calm (after : List Out) : Out → Prop
  | .resph _ _ => False
  | .request expires _ => expires = 0
  | .sent expires => expires ≠ 0 → .completed ∉ after
  | _ => True

theorem Quiet.say {after : List Out} (quiet : Quiet after) {out : Out} (calm : Calm after out) :
    Quiet (after ++ [out]) := by
  constructor
  · intro err scode among
    rcases List.mem_append.mp among with among | last
    · exact quiet.silent err scode among
    · rw [List.mem_singleton] at last
      subst last
      exact calm
  · intro expires err among
    rcases List.mem_append.mp among with among | last
    · exact quiet.zero expires err among
    · rw [List.mem_singleton] at last
      subst last
      exact calm
  · intro mid expires rest split nonzero
    rcases List.eq_nil_or_concat rest with rfl | ⟨rest, last, rfl⟩
    · obtain ⟨same, last⟩ := List.append_inj' split rfl
      rw [List.singleton_inj] at last
      subst last
      rw [← same]
      exact calm nonzero
    · rw [List.concat_eq_append, ← List.cons_append, ← List.append_assoc] at split
      exact quiet.late mid expires rest (List.append_inj' split rfl).1 nonzero

def Confirmed (log : List Out) : Prop := ∃ scode, 200 ≤ scode ∧ scode < 300 ∧ .answered scode ∈ log

def Unregistered (log : List Out) : Prop := ∃ err, .request 0 err ∈ log

theorem confirmed_append {log : List Out} (out : Out)
    (other : ∀ scode, 200 ≤ scode → scode < 300 → out ≠ .answered scode) :
    Confirmed (log ++ [out]) ↔ Confirmed log := by
  constructor
  · rintro ⟨scode, low, high, among⟩
    rcases List.mem_append.mp among with among | last
    · exact ⟨scode, low, high, among⟩
    · exact absurd (List.mem_singleton.mp last).symm (other scode low high)
  · rintro ⟨scode, low, high, among⟩
    exact ⟨scode, low, high, List.mem_append_left _ among⟩

theorem unregistered_append {log : List Out} (out : Out) (other : ∀ err, out ≠ .request 0 err) :
    Unregistered (log ++ [out]) ↔ Unregistered log := by
  constructor
  · rintro ⟨err, among⟩
    rcases List.mem_append.mp among with among | last
    · exact ⟨err, among⟩
    · exact absurd (List.mem_singleton.mp last).symm (other err)
  · rintro ⟨err, among⟩
    exact ⟨err, List.mem_append_left _ among⟩

/-- What the phases of a registration depend on. -/
structure View where
  owned : Bool
  terminated : Bool
  resph : Bool
  nrefs : Nat
  expires : Seconds
  registered : Bool
  req : Bool
  tmr : Option Seconds
  ka : Bool
  log : List Out

def Sipreg.view (s : Sipreg) : View :=
  ⟨s.owned, s.terminated, s.resph, s.nrefs, s.expires, s.registered, s.req, s.tmr, s.ka, s.log⟩

/-- The owner holds the registration. -/
structure Active (v : View) : Prop where
  owned : v.owned = true
  open_ : v.terminated = false
  resph : v.resph = true
  nrefs : v.nrefs = 1
  interval : v.expires ≠ 0
  unreleased : .released ∉ v.log
  alive : .freed ∉ v.log
  unasked : ¬ Unregistered v.log
  confirmed : v.registered = true ↔ Confirmed v.log

/-- The owner has released it, and a handler runs to decide how it goes on. -/
structure Retiring (v : View) : Prop where
  released : v.owned = false
  terminated : v.terminated = true
  mute : v.resph = false
  nrefs : v.nrefs = 1
  stopped : v.tmr = none
  marked : .released ∈ v.log
  quiet : Quiet (since v.log)
  alive : .freed ∉ v.log
  asked : Unregistered v.log ↔ v.expires = 0
  earned : v.expires = 0 → v.registered = true
  confirmed : v.registered = true ↔ Confirmed v.log

/-- The owner has released it, and its reference is kept for the outstanding request. -/
structure Waiting (v : View) : Prop extends Retiring v where
  req : v.req = true
  first : v.expires ≠ 0 → .completed ∉ since v.log

structure Gone (v : View) : Prop where
  released : v.owned = false
  stopped : v.tmr = none
  idle : v.req = false
  quietened : v.ka = false
  marked : .released ∈ v.log
  quiet : Quiet (since v.log)
  freed : ∃ before, v.log = before ++ [.freed] ∧ .freed ∉ before
  asked : Unregistered v.log ↔ Confirmed v.log

theorem Retiring.calm {v : View} (retiring : Retiring v) {out : Out} (calm : Calm (since v.log) out) :
    Quiet (since (v.log ++ [out])) := by
  rw [since_append retiring.marked]
  exact retiring.quiet.say calm

theorem memDeref_retiring {s : Sipreg} (retiring : Retiring s.view) (idle : s.req = false)
    (over_ : s.expires = 0 ∨ s.registered = false) (res : Option Errno) : Gone (s.memDeref res).view := by
  have last : s.nrefs = 1 := retiring.nrefs
  have terminated : s.terminated = true := retiring.terminated
  have ends : s.memDeref res =
      { s with nrefs := 0, tmr := none, ka := false, log := s.log ++ [.freed] } := by
    simp only [Sipreg.memDeref, last, Sipreg.destructor, terminated, Sipreg.free, Sipreg.say]
    rfl
  rw [ends]
  refine ⟨retiring.released, rfl, idle, rfl, List.mem_append_left _ retiring.marked, retiring.calm trivial, ⟨s.log, rfl, retiring.alive⟩, ?_⟩
  show Unregistered (s.log ++ [.freed]) ↔ Confirmed (s.log ++ [.freed])
  rw [unregistered_append .freed nofun, confirmed_append .freed nofun]
  have asked : Unregistered s.log ↔ s.expires = 0 := retiring.asked
  have confirmed : s.registered = true ↔ Confirmed s.log := retiring.confirmed
  have earned : s.expires = 0 → s.registered = true := retiring.earned
  rw [asked, ← confirmed]
  constructor
  · exact earned
  · intro registered
    rcases over_ with zero | never
    · exact zero
    · rw [never] at registered
      contradiction

theorem request_retiring {s : Sipreg} (retiring : Retiring s.view) (registered : s.registered = true)
    (resetLs : Bool) (res : Option Errno) : Retiring (s.request resetLs res).view ∧
      (s.request resetLs res).expires = 0 ∧ (s.request resetLs res).registered = true := by
  have terminated : s.terminated = true := retiring.terminated
  have view : (s.request resetLs res).view = { s.view with
      expires := 0, req := s.req || res.isNone, log := s.log ++ [.request 0 res] } := by
    cases resetLs <;> simp [Sipreg.request, terminated, Sipreg.say, Sipreg.view]
  have zero : (s.request resetLs res).expires = 0 := congrArg View.expires view
  have stays : (s.request resetLs res).registered = true := (congrArg View.registered view).trans registered
  have confirmed : s.registered = true ↔ Confirmed s.log := retiring.confirmed
  refine ⟨?_, zero, stays⟩
  rw [view]
  refine ⟨retiring.released, terminated, retiring.mute, retiring.nrefs, retiring.stopped,
    List.mem_append_left _ retiring.marked, retiring.calm rfl, ?_, ?_, fun _ => registered, ?_⟩
  · intro among
    rcases List.mem_append.mp among with among | last
    · exact retiring.alive among
    · exact absurd (List.mem_singleton.mp last) nofun
  · exact ⟨fun _ => rfl, fun _ => ⟨res, List.mem_append_right _ (List.mem_singleton.mpr rfl)⟩⟩
  · show s.registered = true ↔ Confirmed (s.log ++ [.request 0 res])
    rw [confirmed_append (.request 0 res) nofun]
    exact confirmed

theorem request_req (s : Sipreg) (resetLs : Bool) : (s.request resetLs none).req = true := by
  cases resetLs <;> simp [Sipreg.request, Sipreg.say]

theorem request_idle (s : Sipreg) (resetLs : Bool) (err : Errno) :
    (s.request resetLs (some err)).req = s.req := by
  cases resetLs <;> cases terminated : s.terminated <;> simp [Sipreg.request, Sipreg.say, terminated]

theorem request_failc (s : Sipreg) (resetLs : Bool) (res : Option Errno) :
    (s.request resetLs res).ls = if resetLs then .reset else s.ls := by
  cases resetLs <;> cases terminated : s.terminated <;> simp [Sipreg.request, Sipreg.say, terminated]

/-- How a handler leaves a released registration: freed, or with an un-REGISTER on its way. -/
def Settled (s s' : Sipreg) : Prop :=
  Gone s'.view ∨ Waiting s'.view ∧ s'.expires = 0 ∧ (s.expires = 0 → s'.ls.failc = s.ls.failc)

theorem finish_retiring {s : Sipreg} (retiring : Retiring s.view) (idle : s.req = false)
    (err : Option Errno) (scode : Option Nat) (res : Option Errno) :
    Gone (s.finish err scode res).view ∨
      s.expires ≠ 0 ∧ Waiting (s.finish err scode res).view ∧ (s.finish err scode res).expires = 0 := by
  have terminated : s.terminated = true := retiring.terminated
  unfold Sipreg.finish
  by_cases zero : s.expires = 0
  · rw [if_pos zero]
    exact Or.inl (memDeref_retiring retiring idle (Or.inl zero) res)
  · rw [if_neg zero, if_pos terminated]
    cases registered : s.registered with
    | false => exact Or.inl (memDeref_retiring retiring idle (Or.inr registered) res)
    | true =>
      obtain ⟨retiring', zero', -⟩ := request_retiring retiring registered true res
      cases res with
      | some e =>
        exact Or.inl (memDeref_retiring retiring' ((request_idle s true e).trans idle) (Or.inl zero') _)
      | none =>
        exact Or.inr ⟨zero, ⟨retiring', request_req s true, fun nonzero => absurd zero' nonzero⟩, zero'⟩

theorem finish_settled {s : Sipreg} (retiring : Retiring s.view) (idle : s.req = false)
    (err : Option Errno) (scode : Option Nat) (res : Option Errno) : Settled s (s.finish err scode res) := by
  rcases finish_retiring retiring idle err scode res with gone | ⟨nonzero, waiting, zero⟩
  · exact Or.inl gone
  · exact Or.inr ⟨waiting, zero, fun same => absurd same nonzero⟩

theorem again_settled {s : Sipreg} (retiring : Retiring s.view) (idle : s.req = false)
    (registered : s.registered = true) (scode : Nat) (res : Option Errno) : Settled s (s.again scode res) := by
  obtain ⟨retiring', zero', -⟩ := request_retiring retiring registered false res
  cases res with
  | none =>
    refine Or.inr ⟨⟨retiring', request_req s false, fun nonzero => absurd zero' nonzero⟩, zero', fun _ => ?_⟩
    exact congrArg Loopstate.failc (request_failc s false none)
  | some e =>
    have idle' := (request_idle s false e).trans idle
    rcases finish_retiring (s := { s.request false (some e) with failc := (s.request false (some e)).failc + 1 })
      retiring' idle' (some e) (some scode) (some e) with gone | ⟨nonzero, -, -⟩
    · exact Or.inl gone
    · exact absurd zero' nonzero

theorem refused_settled {s : Sipreg} (retiring : Retiring s.view) (idle : s.req = false)
    (err : Option Errno) (scode : Nat) (res : Option Errno) : Settled s (s.refused err scode res) :=
  finish_settled (s := { s with failc := s.failc + 1 }) retiring idle err (some scode) res

theorem failure_settled {s : Sipreg} (retiring : Retiring s.view) (idle : s.req = false) (msg : Msg)
    (res : Option Errno) : Settled s (s.failure msg res) := by
  have terminated : s.terminated = true := retiring.terminated
  unfold Sipreg.failure
  by_cases registered : s.registered = true
  · have goes : ¬ (s.terminated && !s.registered) = true := by
      rw [registered]
      simp
    rw [if_neg goes]
    split_ifs
    · cases msg.auth with
      | authenticated => exact again_settled retiring idle registered msg.scode res
      | eauth => exact refused_settled retiring idle none msg.scode res
      | failed err => exact refused_settled retiring idle (some err) msg.scode res
    · cases msg.minExpires with
      | none => exact refused_settled retiring idle none msg.scode res
      | some minexp =>
        by_cases useless : minexp = 0 ∨ s.expires = 0
        · simp only [if_pos useless]
          exact refused_settled retiring idle none msg.scode res
        · simp only [if_neg useless]
          obtain ⟨useful, nonzero⟩ := not_or.mp useless
          have asked : Unregistered s.log ↔ s.expires = 0 := retiring.asked
          have retiring' : Retiring { s with expires := minexp }.view :=
            { retiring with
              asked := ⟨fun among => absurd (asked.mp among) nonzero, fun same => absurd same useful⟩
              earned := fun _ => registered }
          rcases again_settled retiring' idle registered msg.scode res with gone | ⟨waiting, zero, -⟩
          · exact Or.inl gone
          · exact Or.inr ⟨waiting, zero, fun same => absurd same nonzero⟩
    · exact refused_settled retiring idle none msg.scode res
  · have stops : (s.terminated && !s.registered) = true := by
      rw [terminated, Bool.eq_false_iff.mpr registered]
      rfl
    rw [if_pos stops]
    exact finish_settled retiring idle none (some msg.scode) res

theorem Retiring.say {s : Sipreg} (retiring : Retiring s.view) (out : Out) (calm : Calm (since s.log) out)
    (alive : out ≠ .freed) (unasked : ∀ err, out ≠ .request 0 err)
    (plain : ∀ scode, 200 ≤ scode → scode < 300 → out ≠ .answered scode) : Retiring (s.say out).view := by
  have asked : Unregistered s.log ↔ s.expires = 0 := retiring.asked
  have confirmed : s.registered = true ↔ Confirmed s.log := retiring.confirmed
  refine { retiring with
    marked := List.mem_append_left _ retiring.marked
    quiet := retiring.calm calm
    alive := ?_
    asked := (unregistered_append out unasked).trans asked
    confirmed := confirmed.trans (confirmed_append out plain).symm }
  intro among
  rcases List.mem_append.mp among with among | last
  · exact retiring.alive among
  · exact alive (List.mem_singleton.mp last).symm

theorem Retiring.confirm {s : Sipreg} (retiring : Retiring s.view) {scode : Nat} (low : 200 ≤ scode)
    (high : scode < 300) : Retiring { s.say (.answered scode) with registered := true }.view := by
  have asked : Unregistered s.log ↔ s.expires = 0 := retiring.asked
  refine { retiring with
    marked := List.mem_append_left _ retiring.marked
    quiet := retiring.calm trivial
    alive := ?_
    asked := (unregistered_append (.answered scode) nofun).trans asked
    earned := fun _ => rfl
    confirmed := ⟨fun _ => ⟨scode, low, high, List.mem_append_right _ (List.mem_singleton.mpr rfl)⟩,
      fun _ => rfl⟩ }
  intro among
  rcases List.mem_append.mp among with among | last
  · exact retiring.alive among
  · exact absurd (List.mem_singleton.mp last) nofun

/-- An un-REGISTER is sent again at most for as long as its responses do not go in circles; the request that
    was outstanding at the release comes before. -/
def rank (s : Sipreg) : Nat := if s.expires = 0 then 16 - s.ls.failc else 17

theorem rank_zero {s : Sipreg} (zero : s.expires = 0) : rank s ≤ 16 := by
  rw [rank, if_pos zero]
  omega

theorem rank_first {s : Sipreg} (nonzero : s.expires ≠ 0) : rank s = 17 := if_neg nonzero

/-- The state in which a final response is handled. -/
def completed (s : Sipreg) (response : Response) : Sipreg := { answer s response with req := false }.say .completed

theorem Retiring.idle {s : Sipreg} (retiring : Retiring s.view) : Retiring { s with req := false }.view :=
  { retiring with }

theorem Waiting.completed_err {s : Sipreg} (waiting : Waiting s.view) (err : Errno) :
    Retiring (completed s (.err err)).view :=
  waiting.toRetiring.idle.say .completed trivial nofun nofun nofun

theorem Waiting.completed_msg {s : Sipreg} (waiting : Waiting s.view) {m : Msg}
    (other : ¬ (200 ≤ m.scode ∧ m.scode < 300)) : Retiring (completed s (.msg m)).view := by
  have answered : Retiring (s.say (.answered m.scode)).view := by
    apply waiting.toRetiring.say (.answered m.scode) trivial nofun nofun
    intro scode low high same
    cases same
    exact other ⟨low, high⟩
  exact answered.idle.say .completed trivial nofun nofun nofun

theorem Waiting.completed_confirms {s : Sipreg} (waiting : Waiting s.view) {m : Msg} (low : 200 ≤ m.scode)
    (high : m.scode < 300) : Retiring { completed s (.msg m) with registered := true }.view :=
  (waiting.toRetiring.confirm low high).idle.say .completed trivial nofun nofun nofun

/-- The final response is the last one that a released registration waits for, or a later un-REGISTER is. -/
def Shrinks (s s' : Sipreg) : Prop := Gone s'.view ∨ Waiting s'.view ∧ rank s' < rank s

theorem finish_shrinks {s t : Sipreg} (same : t.expires = s.expires) (retiring : Retiring t.view)
    (idle : t.req = false) (err : Option Errno) (scode : Option Nat) (res : Option Errno) :
    Shrinks s (t.finish err scode res) := by
  rcases finish_retiring retiring idle err scode res with gone | ⟨nonzero, waiting, zero⟩
  · exact Or.inl gone
  · have least := rank_zero zero
    rw [same] at nonzero
    exact Or.inr ⟨waiting, by rw [rank_first nonzero]; omega⟩

theorem success_shrinks {s t : Sipreg} (same : t.expires = s.expires)
    (retiring : Retiring { t with registered := true }.view) (idle : t.req = false) (m : Msg)
    (res : Option Errno) : Shrinks s (t.success m res) := by
  have terminated : t.terminated = true := retiring.terminated
  have quietly : (t.regid && !t.terminated && !t.ka) = false := by
    rw [terminated]
    simp
  simp only [Sipreg.success, quietly]
  refine finish_shrinks (s := s) ?_ ?_ ?_ none (some m.scode) res
  · exact same
  · exact retiring
  · exact idle

theorem response_waiting {s : Sipreg} (waiting : Waiting s.view) {response : Response}
    (final : response.final = true) (rand : BitVec 16) (res : Option Errno) :
    Shrinks s ((completed s response).responseHandler response rand res) := by
  cases response with
  | err err =>
    exact finish_shrinks (t := { completed s (.err err) with
        wait := failwait ((completed s (.err err)).failc + 1) rand
        failc := (completed s (.err err)).failc + 1 })
      rfl (waiting.completed_err err) rfl (some err) none res
  | msg m =>
    have ended : 200 ≤ m.scode := of_decide_eq_true final
    simp only [Sipreg.responseHandler]
    by_cases ok : m.scode < 300
    · have straight : requestLoops (completed s (.msg m)).ls m.scode = (false, ⟨0, m.scode⟩) := by
        rw [requestLoops, if_neg (by omega), if_pos ok]
      simp only [straight, Bool.false_eq_true, ite_false, if_neg (Nat.not_lt.mpr ended), if_pos ok]
      refine success_shrinks (s := s) ?_ ?_ ?_ m res
      · rfl
      · exact waiting.completed_confirms ended ok
      · rfl
    · have retiring := waiting.completed_msg fun both => ok both.2
      cases loops : (requestLoops (completed s (.msg m)).ls m.scode).1 with
      | true =>
        simp only [if_true]
        refine finish_shrinks (s := s) ?_ ?_ ?_ none (some m.scode) res
        · rfl
        · exact retiring
        · rfl
      | false =>
        obtain ⟨counted, few⟩ := requestLoops_counts (Nat.not_lt.mp ok) loops
        simp only [Bool.false_eq_true, ite_false, if_neg (Nat.not_lt.mpr ended), if_neg ok]
        rcases failure_settled (s := { completed s (.msg m) with
            wait := failwait ((completed s (.msg m)).failc + 1) rand
            ls := (requestLoops (completed s (.msg m)).ls m.scode).2 }) retiring rfl m res with
          gone | ⟨next, zero, keeps⟩
        · exact Or.inl gone
        · refine Or.inr ⟨next, ?_⟩
          by_cases first : s.expires = 0
          · have grown := (keeps first).trans counted
            have here : (completed s (.msg m)).ls.failc = s.ls.failc := rfl
            rw [rank, rank, if_pos zero, if_pos first, grown]
            omega
          · rw [rank_first first]
            exact Nat.lt_succ_of_le (rank_zero zero)

theorem Waiting.say {s : Sipreg} (waiting : Waiting s.view) (out : Out) (calm : Calm (since s.log) out)
    (alive : out ≠ .freed) (unasked : ∀ err, out ≠ .request 0 err)
    (plain : ∀ scode, 200 ≤ scode → scode < 300 → out ≠ .answered scode) (outstanding : out ≠ .completed) :
    Waiting (s.say out).view := by
  refine ⟨waiting.toRetiring.say out calm alive unasked plain, waiting.req, ?_⟩
  intro nonzero
  have marked : .released ∈ s.log := waiting.marked
  show .completed ∉ since (s.log ++ [out])
  rw [since_append marked, List.mem_append, List.mem_singleton]
  rintro (among | last)
  · exact waiting.first nonzero among
  · exact outstanding last.symm

theorem provisional_waiting {s : Sipreg} (waiting : Waiting s.view) {response : Response}
    (provisional : response.final = false) (rand : BitVec 16) (res : Option Errno) :
    Waiting ((answer s response).responseHandler response rand res).view ∧
      rank ((answer s response).responseHandler response rand res) = rank s := by
  cases response with
  | err err => contradiction
  | msg m =>
    have early : m.scode < 200 := Nat.lt_of_not_le (of_decide_eq_false provisional)
    have answered : Waiting (s.say (.answered m.scode)).view := by
      apply waiting.say (.answered m.scode) trivial nofun nofun
      · intro scode low _ same
        cases same
        omega
      · exact nofun
    have same : requestLoops (s.say (.answered m.scode)).ls m.scode = (false, s.ls) :=
      requestLoops_provisional early
    simp only [answer, Sipreg.responseHandler, same, Bool.false_eq_true, ite_false, if_pos early]
    exact ⟨answered, rfl⟩

theorem step_waiting {s : Sipreg} (waiting : Waiting s.view) (event : Event) :
    (event.final = true → Shrinks s (step s event)) ∧
      (event.final = false → Waiting (step s event).view ∧ rank (step s event) = rank s) := by
  have req : s.req = true := waiting.req
  have released : s.owned = false := waiting.released
  have stopped : s.tmr = none := waiting.stopped
  have terminated : s.terminated = true := waiting.terminated
  cases event with
  | response response rand res =>
    cases final : response.final with
    | true =>
      refine ⟨fun _ => ?_, fun other => absurd (final.symm.trans other) (by decide)⟩
      simp only [step, req, final]
      exact response_waiting waiting final rand res
    | false =>
      refine ⟨fun other => absurd (final.symm.trans other) (by decide), fun _ => ?_⟩
      simp only [step, req, final]
      exact provisional_waiting waiting final rand res
  | timer rand res =>
    refine ⟨nofun, fun _ => ?_⟩
    simp only [step, stopped]
    exact ⟨waiting, rfl⟩
  | keepalive err rand =>
    refine ⟨nofun, fun _ => ?_⟩
    cases ka : s.ka with
    | false =>
      simp only [step, ka]
      exact ⟨waiting, rfl⟩
    | true =>
      have ignored : (s.req || s.terminated) = true := by
        rw [req]
        rfl
      simp only [step, ka, Sipreg.keepaliveHandler, ignored, if_true]
      exact ⟨{ waiting with }, rfl⟩
  | transmit =>
    refine ⟨nofun, fun _ => ?_⟩
    simp only [step, req, if_true]
    exact ⟨waiting.say (.sent s.expires) waiting.first nofun nofun nofun nofun, rfl⟩
  | release res =>
    refine ⟨nofun, fun _ => ?_⟩
    simp only [step, released]
    exact ⟨waiting, rfl⟩

theorem step_gone {s : Sipreg} (gone : Gone s.view) (event : Event) : step s event = s := by
  have idle : s.req = false := gone.idle
  have released : s.owned = false := gone.released
  have stopped : s.tmr = none := gone.stopped
  have quietened : s.ka = false := gone.quietened
  cases event with
  | response response rand res => simp [step, idle]
  | timer rand res => simp [step, stopped]
  | keepalive err rand => simp [step, quietened]
  | transmit => simp [step, idle]
  | release res => simp [step, released]

theorem Active.say {s : Sipreg} (active : Active s.view) (out : Out) (unreleased : out ≠ .released)
    (alive : out ≠ .freed) (unasked : ∀ err, out ≠ .request 0 err)
    (plain : ∀ scode, 200 ≤ scode → scode < 300 → out ≠ .answered scode) : Active (s.say out).view := by
  have confirmed : s.registered = true ↔ Confirmed s.log := active.confirmed
  refine { active with unreleased := ?_, alive := ?_, unasked := ?_, confirmed := ?_ }
  · intro among
    rcases List.mem_append.mp among with among | last
    · exact active.unreleased among
    · exact unreleased (List.mem_singleton.mp last).symm
  · intro among
    rcases List.mem_append.mp among with among | last
    · exact active.alive among
    · exact alive (List.mem_singleton.mp last).symm
  · exact fun asked => active.unasked ((unregistered_append out unasked).mp asked)
  · exact confirmed.trans (confirmed_append out plain).symm

theorem Active.request {s : Sipreg} (active : Active s.view) (resetLs : Bool) (res : Option Errno) :
    Active (s.request resetLs res).view := by
  have open_ : s.terminated = false := active.open_
  have interval : s.expires ≠ 0 := active.interval
  have told : Active (s.say (.request s.expires res)).view :=
    active.say (.request s.expires res) nofun nofun (fun _ same => interval (Out.request.inj same).1) nofun
  have view : (s.request resetLs res).view = { (s.say (.request s.expires res)).view with
      req := s.req || res.isNone } := by
    cases resetLs <;> simp [Sipreg.request, open_, Sipreg.say, Sipreg.view]
  rw [view]
  exact { told with }

theorem Active.callResph {s : Sipreg} (active : Active s.view) (err : Option Errno) (scode : Option Nat) :
    Active (s.callResph err scode).view := by
  unfold Sipreg.callResph
  split
  · exact active.say (.resph err scode) nofun nofun nofun nofun
  · exact active

theorem Active.finish {s : Sipreg} (active : Active s.view) (err : Option Errno) (scode : Option Nat)
    (res : Option Errno) : Active (s.finish err scode res).view := by
  have open_ : s.terminated = false := active.open_
  have interval : s.expires ≠ 0 := active.interval
  have timed : Active { s with tmr := some s.wait }.view := { active with }
  have goes : ¬ s.terminated = true := by
    rw [open_]
    decide
  unfold Sipreg.finish
  rw [if_neg interval, if_neg goes]
  exact timed.callResph err scode

theorem Active.again {s : Sipreg} (active : Active s.view) (scode : Nat) (res : Option Errno) :
    Active (s.again scode res).view := by
  have asked := active.request false res
  unfold Sipreg.again
  cases res with
  | none => exact asked
  | some e => exact Active.finish (s := { s.request false (some e) with
      failc := (s.request false (some e)).failc + 1 }) asked (some e) (some scode) (some e)

theorem Active.refused {s : Sipreg} (active : Active s.view) (err : Option Errno) (scode : Nat)
    (res : Option Errno) : Active (s.refused err scode res).view :=
  Active.finish (s := { s with failc := s.failc + 1 }) active err (some scode) res

theorem Active.failure {s : Sipreg} (active : Active s.view) (msg : Msg) (res : Option Errno) :
    Active (s.failure msg res).view := by
  have open_ : s.terminated = false := active.open_
  have goes : ¬ (s.terminated && !s.registered) = true := by
    rw [open_]
    simp
  unfold Sipreg.failure
  rw [if_neg goes]
  split_ifs
  · cases msg.auth with
    | authenticated => exact active.again msg.scode res
    | eauth => exact active.refused none msg.scode res
    | failed err => exact active.refused (some err) msg.scode res
  · cases msg.minExpires with
    | none => exact active.refused none msg.scode res
    | some minexp =>
      by_cases useless : minexp = 0 ∨ s.expires = 0
      · simp only [if_pos useless]
        exact active.refused none msg.scode res
      · simp only [if_neg useless]
        have longer : Active { s with expires := minexp }.view :=
          { active with interval := (not_or.mp useless).1 }
        exact longer.again msg.scode res
  · exact active.refused none msg.scode res

theorem Active.success {s : Sipreg} (active : Active { s with registered := true }.view) (m : Msg)
    (res : Option Errno) : Active (s.success m res).view := by
  have done : Active { s with registered := true, wait := Sipreg.contactWait m s.expires * 900, failc := 0 }.view :=
    active
  simp only [Sipreg.success]
  split
  · unfold Sipreg.startOutbound
    split
    · have kept : Active { s with registered := true, wait := Sipreg.contactWait m s.expires * 900, failc := 0, ka := m.keepalive }.view :=
        { done with }
      exact kept.finish none (some m.scode) res
    · exact done.finish none (some m.scode) res
  · exact done.finish none (some m.scode) res

theorem Active.confirm {s : Sipreg} (active : Active s.view) {scode : Nat} (low : 200 ≤ scode)
    (high : scode < 300) : Active { s.say (.answered scode) with registered := true }.view := by
  refine { active with
    unreleased := ?_, alive := ?_, unasked := ?_
    confirmed := ⟨fun _ => ⟨scode, low, high, List.mem_append_right _ (List.mem_singleton.mpr rfl)⟩,
      fun _ => rfl⟩ }
  · intro among
    rcases List.mem_append.mp among with among | last
    · exact active.unreleased among
    · exact absurd (List.mem_singleton.mp last) nofun
  · intro among
    rcases List.mem_append.mp among with among | last
    · exact active.alive among
    · exact absurd (List.mem_singleton.mp last) nofun
  · exact fun asked => active.unasked ((unregistered_append (.answered scode) nofun).mp asked)

theorem Active.idle {s : Sipreg} (active : Active s.view) : Active { s with req := false }.view :=
  { active with }

theorem Active.responded {s : Sipreg} {response : Response} (confirms : ∀ m, response = .msg m →
      200 ≤ m.scode → m.scode < 300 → Active { s with registered := true }.view)
    (otherwise_ : (∀ m, response = .msg m → ¬ (200 ≤ m.scode ∧ m.scode < 300)) → Active s.view)
    (rand : BitVec 16) (res : Option Errno) : Active (s.responseHandler response rand res).view := by
  cases response with
  | err err =>
    have active : Active { s with wait := failwait (s.failc + 1) rand, failc := s.failc + 1 }.view :=
      otherwise_ nofun
    exact active.finish (some err) none res
  | msg m =>
    simp only [Sipreg.responseHandler]
    by_cases ok : 200 ≤ m.scode ∧ m.scode < 300
    · have straight : requestLoops s.ls m.scode = (false, ⟨0, m.scode⟩) := by
        rw [requestLoops, if_neg (by omega), if_pos ok.2]
      simp only [straight, Bool.false_eq_true, ite_false, if_neg (Nat.not_lt.mpr ok.1), if_pos ok.2]
      refine Active.success ?_ m res
      exact confirms m rfl ok.1 ok.2
    · have active : Active s.view := otherwise_ fun m' same both => by cases same; exact ok both
      split_ifs with loops early confirmed
      · exact Active.finish (s := { s with
          wait := failwait (s.failc + 1) rand
          ls := (requestLoops s.ls m.scode).2
          failc := s.failc + 1 }) active none (some m.scode) res
      · exact active
      · exact absurd ⟨Nat.not_lt.mp early, confirmed⟩ ok
      · exact Active.failure (s := { s with
          wait := failwait (s.failc + 1) rand
          ls := (requestLoops s.ls m.scode).2 }) active m res

/-- The state that the destructor leaves when the owner's reference was the last one. -/
def retired (s : Sipreg) : Sipreg :=
  { s with owned := false, log := s.log ++ [.released], tmr := none, resph := false, terminated := true }

theorem release_active {s : Sipreg} (active : Active s.view) (res : Option Errno) :
    step s (.release res) = if s.req then retired s else (retired s).finish none none res := by
  have owned : s.owned = true := active.owned
  have open_ : s.terminated = false := active.open_
  have nrefs : s.nrefs = 1 := active.nrefs
  have interval : ¬ s.expires = 0#32 := active.interval
  cases req : s.req <;> cases registered : s.registered <;> cases res <;>
    simp [step, owned, Sipreg.memDeref, Sipreg.say, nrefs, Sipreg.destructor, open_, req, registered, retired,
      Sipreg.finish, interval, Sipreg.request, Sipreg.free]

theorem retired_retiring {s : Sipreg} (active : Active s.view) : Retiring (retired s).view := by
  have confirmed : s.registered = true ↔ Confirmed s.log := active.confirmed
  have interval : s.expires ≠ 0 := active.interval
  have alone : since (s.log ++ [.released]) = [.released] := since_released active.unreleased []
  refine ⟨rfl, rfl, rfl, active.nrefs, rfl, List.mem_append_right _ (List.mem_singleton.mpr rfl), ?_, ?_, ?_,
    fun zero => absurd zero interval, confirmed.trans (confirmed_append .released nofun).symm⟩
  · show Quiet (since (s.log ++ [.released]))
    rw [alone]
    have empty : Quiet [] := ⟨fun _ _ => List.not_mem_nil, fun _ _ among => absurd among List.not_mem_nil,
      fun mid _ _ split => absurd split.symm (by simp)⟩
    exact @Quiet.say [] empty .released trivial
  · intro among
    rcases List.mem_append.mp among with among | last
    · exact active.alive among
    · exact absurd (List.mem_singleton.mp last) nofun
  · exact ⟨fun asked => absurd ((unregistered_append .released nofun).mp asked) active.unasked,
      fun zero => absurd zero interval⟩

theorem release_settles {s : Sipreg} (active : Active s.view) (res : Option Errno) :
    Waiting (step s (.release res)).view ∨ Gone (step s (.release res)).view := by
  have retiring := retired_retiring active
  rw [release_active active]
  cases req : s.req with
  | true =>
    refine Or.inl ⟨retiring, req, fun _ => ?_⟩
    have alone : since (s.log ++ [.released]) = [.released] := since_released active.unreleased []
    show .completed ∉ since (s.log ++ [.released])
    rw [alone]
    exact nofun
  | false =>
    rcases finish_retiring retiring req none none res with gone | ⟨-, waiting, -⟩
    · exact Or.inr gone
    · exact Or.inl waiting

theorem step_active {s : Sipreg} (active : Active s.view) {event : Event} (kept : ∀ res, event ≠ .release res) :
    Active (step s event).view := by
  have open_ : s.terminated = false := active.open_
  cases event with
  | response response rand res =>
    simp only [step]
    split
    · have plain : (∀ m, response = .msg m → ¬ (200 ≤ m.scode ∧ m.scode < 300)) → Active (answer s response).view := by
        intro other
        cases response with
        | err err => exact active
        | msg m =>
          refine active.say (.answered m.scode) nofun nofun nofun ?_
          intro scode low high same
          cases same
          exact other m rfl ⟨low, high⟩
      have confirms : ∀ m, response = .msg m → 200 ≤ m.scode → m.scode < 300 →
          Active { answer s response with registered := true }.view := by
        rintro m rfl low high
        exact active.confirm low high
      split
      · refine Active.responded ?_ ?_ rand res
        · intro m same low high
          exact (confirms m same low high).idle.say .completed nofun nofun nofun nofun
        · intro other
          exact (plain other).idle.say .completed nofun nofun nofun nofun
      · exact Active.responded confirms plain rand res
    · exact active
  | timer rand res =>
    simp only [step]
    split
    · have stopped : Active { s with tmr := none }.view := { active with }
      have asked := stopped.request true res
      unfold Sipreg.tmrHandler
      split
      · exact Active.callResph (s := { Sipreg.request { s with tmr := none } true res with
          failc := (Sipreg.request { s with tmr := none } true res).failc + 1
          tmr := some (failwait ((Sipreg.request { s with tmr := none } true res).failc + 1) rand) })
          { asked with } res none
      · exact asked
    · exact active
  | keepalive err rand =>
    simp only [step]
    split
    · have quietened : Active { s with ka := false }.view := { active with }
      unfold Sipreg.keepaliveHandler
      split
      · exact quietened
      · exact Active.callResph (s := { s with
          ka := false
          failc := s.failc + 1
          tmr := some (failwait (s.failc + 1) rand) }) { quietened with } (some err) none
    · exact active
  | transmit =>
    simp only [step]
    split
    · exact active.say (.sent s.expires) nofun nofun nofun nofun
    · exact active
  | release res => exact absurd rfl (kept res)

/-- Every state of a registration is in one of its phases. -/
def Phase (s : Sipreg) : Prop := Active s.view ∨ Waiting s.view ∨ Gone s.view

theorem step_phase {s : Sipreg} (phase : Phase s) (event : Event) : Phase (step s event) := by
  rcases phase with active | waiting | gone
  · cases event with
    | release res => exact Or.inr (release_settles active res)
    | response response rand res => exact Or.inl (step_active active nofun)
    | timer rand res => exact Or.inl (step_active active nofun)
    | keepalive err rand => exact Or.inl (step_active active nofun)
    | transmit => exact Or.inl (step_active active nofun)
  · obtain ⟨ended, kept⟩ := step_waiting waiting event
    cases final : event.final with
    | true =>
      rcases ended final with gone | ⟨next, -⟩
      · exact Or.inr (Or.inr gone)
      · exact Or.inr (Or.inl next)
    | false => exact Or.inr (Or.inl (kept final).1)
  · rw [step_gone gone]
    exact Or.inr (Or.inr gone)

theorem run_phase {s : Sipreg} (phase : Phase s) (events : List Event) : Phase (run s events) := by
  induction events generalizing s with
  | nil => exact phase
  | cons event events ih => exact ih (step_phase phase event)

theorem run_gone {s : Sipreg} (gone : Gone s.view) (events : List Event) : run s events = s := by
  induction events with
  | nil => rfl
  | cons event events ih => rw [run, List.foldl_cons, step_gone gone, ← run, ih]

theorem run_frees {s : Sipreg} (waiting : Waiting s.view) {events : List Event}
    (enough : rank s < events.countP Event.final) : Gone (run s events).view := by
  induction events generalizing s with
  | nil => exact absurd enough (Nat.not_lt_zero _)
  | cons event events ih =>
    obtain ⟨ended, kept⟩ := step_waiting waiting event
    cases final : event.final with
    | true =>
      rw [List.countP_cons_of_pos final] at enough
      rcases ended final with gone | ⟨next, lower⟩
      · have stays := run_gone gone events
        show Gone (run (step s event) events).view
        rw [stays]
        exact gone
      · exact ih next (by omega)
    | false =>
      obtain ⟨next, same⟩ := kept final
      rw [List.countP_cons_of_neg (by rw [final]; decide)] at enough
      exact ih next (by rw [same]; exact enough)

theorem register_active {expires : Seconds} {regid : Bool} {res : Option Errno} {s : Sipreg}
    (registered : sipregRegister expires regid res = .ok s) : Active s.view := by
  unfold sipregRegister at registered
  by_cases zero : expires = 0
  · rw [if_pos zero] at registered
    contradiction
  · rw [if_neg zero] at registered
    cases res with
    | some err => contradiction
    | none =>
      have fresh : Active (Sipreg.view
          ⟨.reset, none, false, false, true, expires, 0, 0, false, false, regid, 1, true, []⟩) :=
        ⟨rfl, rfl, rfl, rfl, zero, List.not_mem_nil, List.not_mem_nil,
          fun ⟨_, among⟩ => absurd among List.not_mem_nil,
          nofun, fun ⟨_, _, _, among⟩ => absurd among List.not_mem_nil⟩
      cases registered
      exact fresh.request true none

/-- What the log of a registration says about its release. -/
structure Retires (s : Sipreg) : Prop where
  quiet : Quiet (since s.log)
  unasked : .released ∉ s.log → ¬ Unregistered s.log
  earned : Unregistered s.log → Confirmed s.log
  owed : .freed ∈ s.log → Confirmed s.log → Unregistered s.log
  once : s.log.count .freed ≤ 1
  last : .freed ∈ s.log → .released ∈ s.log ∧ s.req = false ∧ ∃ before, s.log = before ++ [.freed]
  kept : .released ∈ s.log → .freed ∉ s.log → s.req = true

theorem Phase.retires {s : Sipreg} (phase : Phase s) : Retires s := by
  rcases phase with active | waiting | gone
  · have none_ : since s.log = [] := since_before active.unreleased
    constructor
    · rw [none_]
      exact ⟨fun _ _ => List.not_mem_nil, fun _ _ among => absurd among List.not_mem_nil,
        fun mid _ _ split => absurd split.symm (by simp)⟩
    · exact fun _ => active.unasked
    · exact fun asked => absurd asked active.unasked
    · exact fun freed => absurd freed active.alive
    · have alive : .freed ∉ s.log := active.alive
      rw [List.count_eq_zero_of_not_mem alive]
      exact Nat.zero_le 1
    · exact fun freed => absurd freed active.alive
    · exact fun released => absurd released active.unreleased
  · have asked : Unregistered s.log ↔ s.expires = 0 := waiting.asked
    constructor
    · exact waiting.quiet
    · exact fun unreleased => absurd waiting.marked unreleased
    · exact fun among => waiting.confirmed.mp (waiting.earned (asked.mp among))
    · exact fun freed => absurd freed waiting.alive
    · have alive : .freed ∉ s.log := waiting.alive
      rw [List.count_eq_zero_of_not_mem alive]
      exact Nat.zero_le 1
    · exact fun freed => absurd freed waiting.alive
    · exact fun _ _ => waiting.req
  · have asked : Unregistered s.log ↔ Confirmed s.log := gone.asked
    obtain ⟨before, log, fresh⟩ := gone.freed
    have ends : s.log = before ++ [.freed] := log
    constructor
    · exact gone.quiet
    · exact fun unreleased => absurd gone.marked unreleased
    · exact asked.mp
    · exact fun _ => asked.mpr
    · rw [ends, List.count_append, List.count_eq_zero_of_not_mem fresh]
      exact Nat.le_refl 1
    · exact fun _ => ⟨gone.marked, gone.idle, before, ends⟩
    · exact fun _ alive => absurd (ends ▸ List.mem_append_right _ (List.mem_singleton.mpr rfl)) alive

/-- Whatever happens to a registration and whenever the owner releases it, it retires as it should, and is
    freed once the requests that are outstanding from then on have had their final responses. -/
theorem sipreg_retires {expires : Seconds} {regid : Bool} {res : Option Errno} {s : Sipreg}
    (registered : sipregRegister expires regid res = .ok s) (events : List Event) :
    Retires (run s events) ∧ ∀ later, .released ∈ (run s events).log → 18 ≤ later.countP Event.final →
      .freed ∈ (run s (events ++ later)).log := by
  have phase := run_phase (Or.inl (register_active registered)) events
  refine ⟨phase.retires, fun later released enough => ?_⟩
  have further : run s (events ++ later) = run (run s events) later := List.foldl_append
  have freed : Gone (run (run s events) later).view := by
    rcases phase with active | waiting | gone
    · exact absurd released active.unreleased
    · have most : rank (run s events) ≤ 17 := by
        unfold rank
        split <;> omega
      exact run_frees waiting (by omega)
    · rw [run_gone gone]
      exact gone
  obtain ⟨before, log, -⟩ := freed.freed
  have ends : (run (run s events) later).log = before ++ [.freed] := log
  rw [further, ends]
  exact List.mem_append_right _ (List.mem_singleton.mpr rfl)

def okMsg : Msg := ⟨200, [⟨true, some 600⟩], none, none, false, false, .authenticated⟩

def registration (regid : Bool) : Sipreg :=
  ⟨.reset, none, false, true, true, 3600, 0, 0, false, false, regid, 1, true, [.request 3600 none]⟩

theorem sipreg_retires_confirmed :
    sipregRegister 3600 false none = .ok (registration false) ∧
      Retires (run (registration false) [.transmit, .release none, .response (.msg okMsg) 0 none]) ∧
      .request 0 none ∈ (run (registration false) [.transmit, .release none, .response (.msg okMsg) 0 none]).log :=
  ⟨rfl, (sipreg_retires (show sipregRegister 3600 false none = .ok (registration false) from rfl)
    [.transmit, .release none, .response (.msg okMsg) 0 none]).1, by decide⟩

/-- The request that is outstanding at the release still goes out with its interval. -/
theorem sipreg_sends_late :
    sipregRegister 3600 false none = .ok (registration false) ∧
      .sent 3600 ∈ since (run (registration false) [.release none, .transmit]).log :=
  ⟨rfl, by decide⟩

end Baresip.Reg
