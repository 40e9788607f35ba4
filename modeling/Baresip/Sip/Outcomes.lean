import Baresip.Sip.Client
import Baresip.Library.Histories
import Baresip.Library.Runs

set_option linter.dupNamespace false

namespace Baresip.Sip.Client

open Re Library
open SipRequest (requestAddrs requestSrvs orFail)

section
variable {A : Type}

namespace Out

/-- The handler is told how the request ended. -/
def final : Out A → Bool
  | .resph err scode => err.isSome || scode.any fun code => decide (200 ≤ code)
  | _ => false

def transmits : Out A → Bool
  | .transmitted _ _ _ _ => true
  | _ => false

def asks : Out A → Bool
  | .canceled => true
  | _ => false

def cancels : Out A → Bool
  | .cancel _ _ => true
  | _ => false

def ends : Out A → Bool
  | .completed => true
  | _ => false

/-- A provisional response of this transaction. -/
def early (id : Nat) : Out A → Bool
  | .received id' scode => id' == id && decide (scode < 200)
  | _ => false

def late (id : Nat) : Out A → Bool
  | .received id' scode => id' == id && decide (200 ≤ scode)
  | _ => false

end Out

/-- Whether a request may be seen to do this after what was seen of it before. -/
def Allowed (prompt : Prop) (before : List (Out A)) : Out A → Prop
  | .transmitted _ _ _ _ =>
    before.any Out.ends = false ∧ (prompt → before.any Out.asks = true → before.any Out.transmits = true)
  | .resph _ _ => before.any Out.final = false
  | .cancel id _ =>
    before.any Out.asks = true ∧ before.any (Out.early id) = true ∧ before.any (Out.late id) = false ∧
      before.any Out.ends = false ∧ before.any Out.cancels = false
  | _ => True

structure Logged (prompt : Prop) (r : SipRequest A) : Prop where
  fine : Each (Allowed prompt) r.log
  canceled : r.log.any Out.asks = r.canceled
  sent : r.log.any Out.transmits = decide (0 < r.next)
  final : r.log.any Out.final = true → r.completed = true
  ended : r.log.any Out.ends = true → r.completed = true
  early : ∀ id, r.next ≤ id → r.log.any (Out.early id) = false
  late : ∀ id, r.next ≤ id → r.log.any (Out.late id) = false
  cancels : r.log.any Out.cancels = true → r.canceled = true

/-- What holds of a request, but for the CANCEL that it may owe. -/
structure Near (prompt : Prop) (r : SipRequest A) : Prop where
  logged : Logged prompt r
  fresh : ∀ id, r.next ≤ id → r.ctrans id = none
  kind : ∀ id c, r.ctrans id = some c → c.invite = r.invite
  live : ∀ id c, r.ctrans id = some c → c.state ≠ .completed → r.ct = some id
  current : ∀ id, r.ct = some id →
    ∃ c, r.ctrans id = some c ∧ c.state ≠ .completed ∧ (r.provrecv = true ↔ c.state = .proceeding)
  busy : r.ct ≠ none → r.dnsq = none ∧ r.dnsq2 = false ∧ r.completed = false
  ended : r.completed = true → r.dnsq = none ∧ r.dnsq2 = false ∧ r.owned = false
  heard : ∀ id, r.ct = some id → r.log.any (Out.early id) = r.provrecv ∧ r.log.any (Out.late id) = false
  cancels : r.log.any Out.cancels = true → r.completed = true ∨ (r.ct ≠ none ∧ r.provrecv = true)
  pair : r.dnsq2 = true → r.dnsq = none ∨ r.dnsq = some .addr

structure Inv (prompt : Prop) (r : SipRequest A) : Prop extends Near prompt r where
  owed : r.invite = true → r.canceled = true → r.provrecv = true → r.ct ≠ none → r.log.any Out.cancels = true

/-- A request that is at no transport and has not ended. -/
structure Pending (prompt : Prop) (r : SipRequest A) : Prop where
  logged : Logged prompt r
  fresh : ∀ id, r.next ≤ id → r.ctrans id = none
  kind : ∀ id c, r.ctrans id = some c → c.invite = r.invite
  ct : r.ct = none
  dead : ∀ id c, r.ctrans id = some c → c.state = .completed
  running : r.completed = false

/-- The next thing to do is to ask for addresses, or to send. -/
structure Waiting (prompt : Prop) (r : SipRequest A) : Prop extends Pending prompt r where
  dns : r.dnsq = none ∧ r.dnsq2 = false
  uncanceled : r.log.any Out.cancels = false

/-- It may be handed to the next transport. -/
structure Ready (prompt : Prop) (r : SipRequest A) : Prop extends Waiting prompt r where
  timely : prompt → r.canceled = true → 0 < r.next

variable {prompt : Prop} {r r' : SipRequest A} {out : Out A}

/-- One more entry in the log, and the flags that go with it. -/
theorem Logged.next (logged : Logged prompt r) (log : r'.log = r.log ++ [out]) (fine : Allowed prompt r.log out)
    (canceled : r'.canceled = (r.canceled || out.asks))
    (sent : decide (0 < r'.next) = (decide (0 < r.next) || out.transmits)) (ahead : r.next ≤ r'.next)
    (ended : r.completed = true ∨ out.final = true ∨ out.ends = true → r'.completed = true)
    (known : ∀ id, r'.next ≤ id → out.early id = false ∧ out.late id = false)
    (cancels : out.cancels = true → r'.canceled = true) : Logged prompt r' := by
  have any_ (p : Out A → Bool) : r'.log.any p = (r.log.any p || p out) := by
    rw [log, List.any_append, List.any_cons, List.any_nil, Bool.or_false]
  refine ⟨?_, ?_, ?_, fun final => ?_, fun ends => ?_, fun id new => ?_, fun id new => ?_, fun cancel => ?_⟩
  · rw [log]
    exact logged.fine.concat fine
  · rw [any_, logged.canceled, canceled]
  · rw [any_, logged.sent, sent]
  · rw [any_, Bool.or_eq_true] at final
    exact ended (final.imp logged.final Or.inl)
  · rw [any_, Bool.or_eq_true] at ends
    exact ended (ends.imp logged.ended Or.inr)
  · rw [any_, logged.early id (Nat.le_trans ahead new), (known id new).1]
    rfl
  · rw [any_, logged.late id (Nat.le_trans ahead new), (known id new).2]
    rfl
  · rw [any_, Bool.or_eq_true] at cancel
    rcases cancel with before | last
    · rw [canceled, logged.cancels before]
      rfl
    · exact cancels last

/-- What is said in passing. -/
def Out.plain : Out A → Bool
  | .retransmitted _ => true
  | .ack _ => true
  | .released => true
  | _ => false

theorem Logged.plain (logged : Logged prompt r) (plain : out.plain = true) : Logged prompt (r.say out) := by
  cases out with
  | retransmitted _ | ack _ | released =>
    exact logged.next rfl trivial (Bool.or_false _).symm (Bool.or_false _).symm (Nat.le_refl _) (by simp [Out.final, Out.ends, SipRequest.say])
      (fun _ _ => ⟨rfl, rfl⟩) (fun never => absurd never Bool.false_ne_true)
  | _ => exact absurd plain Bool.false_ne_true

theorem Logged.received (logged : Logged prompt r) {id : Nat} (known : id < r.next) (scode : Nat) :
    Logged prompt (r.say (.received id scode)) := by
  have other {id' : Nat} (new : r.next ≤ id') : (id == id') = false :=
    beq_eq_false_iff_ne.mpr (Nat.ne_of_lt (Nat.lt_of_lt_of_le known new))
  refine logged.next rfl trivial (Bool.or_false _).symm (Bool.or_false _).symm (Nat.le_refl _)
    (by simp [Out.final, Out.ends, SipRequest.say]) (fun id' new => ?_) (fun never => absurd never Bool.false_ne_true)
  rw [Out.early, Out.late, other new]
  exact ⟨rfl, rfl⟩

/-- `terminate` tells the handler, which was not told before, and is the end. -/
theorem Logged.terminate (logged : Logged prompt r) (running : r.completed = false) (err : Option RequestErr)
    (scode : Option Nat) : Logged prompt (r.terminate err scode) := by
  have untold : r.log.any Out.final = false := by
    refine Bool.eq_false_iff.mpr fun told => ?_
    rw [logged.final told] at running
    contradiction
  have done : Logged prompt { r with completed := true } :=
    { logged with final := fun _ => rfl, ended := fun _ => rfl }
  unfold SipRequest.terminate
  by_cases told : r.resph = true
  · simp only [if_pos told]
    have tells : Logged prompt ({ r with completed := true }.say (.resph err scode)) :=
      done.next rfl untold (Bool.or_false _).symm (Bool.or_false _).symm (Nat.le_refl _) (fun _ => rfl)
        (fun _ _ => ⟨rfl, rfl⟩) (fun never => absurd never Bool.false_ne_true)
    exact tells.next rfl trivial (Bool.or_false _).symm (Bool.or_false _).symm (Nat.le_refl _) (fun _ => rfl)
      (fun _ _ => ⟨rfl, rfl⟩) (fun never => absurd never Bool.false_ne_true)
  · simp only [if_neg told]
    exact done.next rfl trivial (Bool.or_false _).symm (Bool.or_false _).symm (Nat.le_refl _) (fun _ => rfl)
      (fun _ _ => ⟨rfl, rfl⟩) (fun never => absurd never Bool.false_ne_true)

theorem terminate_frame (r : SipRequest A) (err : Option RequestErr) (scode : Option Nat) :
    (r.terminate err scode).ct = r.ct ∧ (r.terminate err scode).ctrans = r.ctrans ∧
      (r.terminate err scode).next = r.next ∧ (r.terminate err scode).invite = r.invite := by
  unfold SipRequest.terminate
  by_cases told : r.resph = true
  · simp only [if_pos told]
    exact ⟨rfl, rfl, rfl, rfl⟩
  · simp only [if_neg told]
    exact ⟨rfl, rfl, rfl, rfl⟩

theorem terminate_ends (r : SipRequest A) (err : Option RequestErr) (scode : Option Nat) :
    (r.terminate err scode).completed = true ∧ (r.terminate err scode).dnsq = none ∧
      (r.terminate err scode).dnsq2 = false ∧ (r.terminate err scode).owned = false := by
  unfold SipRequest.terminate
  by_cases told : r.resph = true
  · simp only [if_pos told]
    exact ⟨rfl, rfl, rfl, rfl⟩
  · simp only [if_neg told]
    exact ⟨rfl, rfl, rfl, rfl⟩

theorem Pending.terminate (pending : Pending prompt r) (err : Option RequestErr) (scode : Option Nat) :
    Inv prompt (r.terminate err scode) := by
  obtain ⟨ct, ctrans, next, invite⟩ := terminate_frame r err scode
  have ended := terminate_ends r err scode
  have none_ : (r.terminate err scode).ct = none := ct.trans pending.ct
  refine ⟨⟨pending.logged.terminate pending.running err scode, ?_, ?_, ?_, ?_, ?_, fun _ => ended.2, ?_, ?_,
    fun _ => Or.inl ended.2.1⟩, ?_⟩
  · rw [next, ctrans]
    exact pending.fresh
  · rw [ctrans, invite]
    exact pending.kind
  · rw [ctrans]
    exact fun id c here live => absurd (pending.dead id c here) live
  · intro id some_
    rw [none_] at some_
    contradiction
  · exact fun some_ => absurd none_ some_
  · intro id some_
    rw [none_] at some_
    contradiction
  · exact fun _ => Or.inl ended.1
  · exact fun _ _ _ some_ => absurd none_ some_

/-- A request that waits for DNS. -/
theorem Waiting.waits (waiting : Waiting prompt r) {dnsq : Option Query} {dnsq2 : Bool}
    (pair : dnsq2 = true → dnsq = none ∨ dnsq = some .addr) :
    Inv prompt { r with dnsq := dnsq, dnsq2 := dnsq2 } := by
  have none_ : r.ct = none := waiting.ct
  refine ⟨⟨{ waiting.logged with }, waiting.fresh, waiting.kind, ?_, ?_, fun some_ => absurd none_ some_, ?_, ?_, ?_,
    pair⟩, ?_⟩
  · exact fun id c here live => absurd (waiting.dead id c here) live
  · exact fun id some_ => absurd (none_.symm.trans some_) (by simp)
  · exact fun completed => absurd (waiting.running.symm.trans completed) Bool.false_ne_true
  · exact fun id some_ => absurd (none_.symm.trans some_) (by simp)
  · exact fun cancels => absurd (waiting.uncanceled.symm.trans cancels) Bool.false_ne_true
  · exact fun _ _ _ some_ => absurd none_ some_

/-- What a step towards the next transport comes to: the request goes on, or it is to be ended. -/
def Goes (prompt : Prop) (res : SipRequest A × Option RequestErr) : Prop :=
  (res.2 = none → Inv prompt res.1 ∧ res.1.completed = false) ∧ (res.2 ≠ none → Pending prompt res.1)

theorem setCtrans_self (r : SipRequest A) (id : Nat) (c : Option Ctrans) : (r.setCtrans id c).ctrans id = c :=
  if_pos rfl

theorem setCtrans_other (r : SipRequest A) {id id' : Nat} (c : Option Ctrans) (other : id' ≠ id) :
    (r.setCtrans id c).ctrans id' = r.ctrans id' := if_neg other

theorem request_unsent (r : SipRequest A) {env : Env} {n : Nat} {err : RequestErr} (unsent : env.send n = some err)
    (addr : A) (port : BitVec 16) : r.request env n addr port = ({ r with provrecv := false }, some err) := by
  simp only [SipRequest.request, unsent]

theorem allocCtrans_state (r : SipRequest A) :
    r.allocCtrans.state ≠ .completed ∧ r.allocCtrans.state ≠ .proceeding ∧ r.allocCtrans.invite = r.invite := by
  unfold SipRequest.allocCtrans
  cases r.invite <;> exact ⟨by simp, by simp, rfl⟩

theorem Ready.logged_sent (ready : Ready prompt r) (id : Nat) (tp : Transp) (addr : A) (port : BitVec 16)
    (ctrans : Nat → Option Ctrans) :
    Logged prompt (({ r with provrecv := false, ct := some r.next, next := r.next + 1, ctrans := ctrans } :
      SipRequest A).say (.transmitted id tp addr port)) := by
  refine ready.logged.next rfl ⟨?_, ?_⟩ (Bool.or_false _).symm ?_ (Nat.le_succ _) ?_ (fun _ _ => ⟨rfl, rfl⟩)
    (fun never => absurd never Bool.false_ne_true)
  · exact Bool.eq_false_iff.mpr fun ends => absurd (ready.running.symm.trans (ready.logged.ended ends)) Bool.false_ne_true
  · intro strict asks
    rw [ready.logged.canceled] at asks
    rw [ready.logged.sent, decide_eq_true_eq]
    exact ready.timely strict asks
  · rw [Out.transmits, Bool.or_true]
    exact decide_eq_true (Nat.succ_pos _)
  · rintro (completed | final | ends)
    · exact completed
    · exact absurd final Bool.false_ne_true
    · exact absurd ends Bool.false_ne_true

theorem request_sent (ready : Ready prompt r) {env : Env} {n : Nat} (sent : env.send n = none) (addr : A)
    (port : BitVec 16) : (r.request env n addr port).2 = none ∧ Inv prompt (r.request env n addr port).1 ∧
      (r.request env n addr port).1.completed = false := by
  simp only [SipRequest.request, sent]
  refine ⟨trivial, ?_, ready.running⟩
  obtain ⟨alive, silent, kind⟩ := allocCtrans_state
    ({ r with provrecv := false, ct := some r.next, next := r.next + 1 } : SipRequest A)
  have heard (p : Out A → Bool) (none_ : r.log.any p = false) (plain : p (.transmitted r.next r.tp addr port) = false) :
      (r.log ++ [Out.transmitted r.next r.tp addr port]).any p = false := by
    rw [List.any_append, none_, List.any_cons, plain]
    rfl
  refine ⟨⟨?_, ?_, ?_, ?_, ?_, ?_, ?_, ?_, ?_, fun _ => Or.inl ready.dns.1⟩, ?_⟩
  · exact ready.logged_sent _ _ addr port _
  · intro id new
    exact (if_neg (Nat.ne_of_gt new)).trans (ready.fresh id (Nat.le_of_succ_le new))
  · intro id c here
    by_cases mine : id = r.next
    · obtain rfl := Option.some.inj ((if_pos mine).symm.trans here)
      exact kind
    · exact ready.kind id c ((if_neg mine).symm.trans here)
  · intro id c here live
    by_cases mine : id = r.next
    · exact congrArg some mine.symm
    · exact absurd (ready.dead id c ((if_neg mine).symm.trans here)) live
  · intro id some_
    obtain rfl := Option.some.inj some_
    exact ⟨_, if_pos rfl, alive, fun never => absurd never Bool.false_ne_true, fun early => absurd early silent⟩
  · exact fun _ => ⟨ready.dns.1, ready.dns.2, ready.running⟩
  · exact fun completed => absurd (ready.running.symm.trans completed) Bool.false_ne_true
  · intro id some_
    obtain rfl := Option.some.inj some_
    exact ⟨heard _ (ready.logged.early _ (Nat.le_refl _)) rfl, heard _ (ready.logged.late _ (Nat.le_refl _)) rfl⟩
  · exact fun cancels => absurd ((heard _ ready.uncanceled rfl).symm.trans cancels) Bool.false_ne_true
  · exact fun _ _ never _ => absurd never Bool.false_ne_true

theorem addrLookup_frame (r : SipRequest A) (cfg : Config) (env : Env) :
    ∃ dnsq dnsq2, (r.addrLookup cfg env).1 = { r with dnsq := dnsq, dnsq2 := dnsq2 } ∧
      (dnsq = r.dnsq ∨ dnsq = some .addr) := by
  unfold SipRequest.addrLookup
  by_cases v4 : cfg.supported4 r.tp = true <;> by_cases v6 : cfg.supported6 r.tp = true <;>
    simp only [v4, v6, Bool.false_eq_true, false_and, true_and, if_true, if_false] <;>
    split_ifs <;> first | exact ⟨_, _, rfl, Or.inl rfl⟩ | exact ⟨_, _, rfl, Or.inr rfl⟩

theorem Pending.queried (pending : Pending prompt r) (dnsq : Option Query) (dnsq2 : Bool) :
    Pending prompt { r with dnsq := dnsq, dnsq2 := dnsq2 } :=
  { pending with logged := { pending.logged with } }

theorem addrLookup_goes (waiting : Waiting prompt r) (cfg : Config) (env : Env) :
    Goes prompt (r.addrLookup cfg env) := by
  obtain ⟨dnsq, dnsq2, frame, kinds⟩ := addrLookup_frame r cfg env
  rw [waiting.dns.1] at kinds
  refine ⟨fun _ => ?_, fun _ => ?_⟩
  · rw [frame]
    exact ⟨waiting.waits fun _ => kinds, waiting.running⟩
  · rw [frame]
    exact waiting.toPending.queried dnsq dnsq2

theorem srvLookup_goes (waiting : Waiting prompt r) (env : Env) : Goes prompt (r.srvLookup env) := by
  unfold SipRequest.srvLookup
  by_cases failed : env.query.isSome = true
  · rw [if_pos failed]
    refine ⟨fun sent => ?_, fun _ => waiting.toPending⟩
    rw [show env.query = none from sent] at failed
    exact absurd failed Bool.false_ne_true
  · rw [if_neg failed]
    refine ⟨fun _ => ⟨waiting.waits fun second => ?_, waiting.running⟩, fun failed => absurd rfl failed⟩
    exact absurd (waiting.dns.2.symm.trans second) Bool.false_ne_true

/-- The lists, the transport and the port are the request's own. -/
theorem Waiting.listed (waiting : Waiting prompt r) (addrl : List A) (srvl : List (Srv A)) (tp : Transp)
    (tpSelected : Bool) (port : BitVec 16) :
    Waiting prompt { r with addrl := addrl, srvl := srvl, tp := tp, tpSelected := tpSelected, port := port } :=
  { waiting with logged := { waiting.logged with } }

theorem Ready.listed (ready : Ready prompt r) (addrl : List A) (srvl : List (Srv A)) (tp : Transp)
    (tpSelected : Bool) (port : BitVec 16) :
    Ready prompt { r with addrl := addrl, srvl := srvl, tp := tp, tpSelected := tpSelected, port := port } :=
  { ready with logged := { ready.logged with } }

theorem Ready.unsent (ready : Ready prompt r) : Ready prompt { r with provrecv := false } :=
  { ready with logged := { ready.logged with } }

theorem requestAddrs_goes {env : Env} {srvl : List (Srv A)}
    {next : Nat → SipRequest A → SipRequest A × Option RequestErr}
    (goes : ∀ n (r : SipRequest A), Ready prompt r → Goes prompt (next n r)) (addrl : List A) (n : Nat)
    (ready : Ready prompt r) : Goes prompt (requestAddrs env srvl next addrl n r) := by
  induction addrl generalizing n r with
  | nil => exact goes n r ready
  | cons addr addrl ih =>
    have listed : Ready prompt { r with addrl := addrl } := ready.listed addrl _ _ _ _
    unfold requestAddrs
    cases sent : env.send n with
    | none =>
      obtain ⟨none_, inv⟩ := request_sent listed sent addr r.port
      simp only [none_, Option.isSome_none, Bool.false_and, Bool.false_eq_true, if_false]
      exact ⟨fun _ => inv, fun failed => absurd rfl failed⟩
    | some err =>
      simp only [request_unsent _ sent, Option.isSome_some, Bool.true_and]
      by_cases more : (!addrl.isEmpty || !srvl.isEmpty) = true
      · rw [if_pos more]
        exact ih (n + 1) listed.unsent
      · rw [if_neg more]
        exact ⟨fun sent => absurd sent (by simp), fun _ => listed.unsent.toPending⟩

theorem requestSrvs_goes (cfg : Config) (env : Env) (srvl : List (Srv A)) (n : Nat) (ready : Ready prompt r) :
    Goes prompt (requestSrvs cfg env srvl n r) := by
  induction srvl generalizing n r with
  | nil => exact ⟨fun sent => absurd sent (by simp [requestSrvs]), fun _ => ready.toPending⟩
  | cons srv srvl ih =>
    have listed : Ready prompt { r with port := srv.port, srvl := srvl } := ready.listed _ srvl _ _ srv.port
    unfold requestSrvs
    by_cases uncached : srv.cached.isEmpty = true
    · simp only [if_pos uncached]
      exact addrLookup_goes listed.toWaiting cfg env
    · simp only [if_neg uncached]
      exact requestAddrs_goes (fun n r ready => ih n ready) srv.cached n listed

theorem requestNext_goes (ready : Ready prompt r) (cfg : Config) (env : Env) : Goes prompt (r.requestNext cfg env) :=
  requestAddrs_goes (fun n _ ready => requestSrvs_goes cfg env r.srvl n ready) r.addrl 0 ready

theorem orFail_inv {res : SipRequest A × Option RequestErr} (goes : Goes prompt res) : Inv prompt (orFail res) := by
  unfold orFail SipRequest.fail
  by_cases failed : res.2.isSome = true
  · rw [if_pos failed]
    exact (goes.2 (Option.isSome_iff_ne_none.mp failed)).terminate res.2 none
  · rw [if_neg failed]
    exact (goes.1 (Option.not_isSome_iff_eq_none.mp failed)).1

/-- The transaction is gone: the request goes to the next transport or ends. -/
theorem outcome_inv (pending : Pending prompt { r with ct := none }) (dns : r.dnsq = none ∧ r.dnsq2 = false)
    (cfg : Config) (env : Env) (err : Option RequestErr) (scode : Option Nat) :
    Inv prompt (r.outcome cfg env err scode) := by
  unfold SipRequest.outcome
  by_cases again : (!r.canceled && (err.isSome || scode == some 503) && (!r.addrl.isEmpty || !r.srvl.isEmpty)) = true
  · simp only [if_pos again]
    rw [Bool.and_eq_true, Bool.and_eq_true, Bool.not_eq_true'] at again
    have canceled : r.canceled = false := again.1.1
    have uncanceled : r.log.any Out.cancels = false :=
      Bool.eq_false_iff.mpr fun cancels => absurd (canceled.symm.trans (pending.logged.cancels cancels)) Bool.false_ne_true
    have goes := requestNext_goes (Ready.mk ⟨pending, dns, uncanceled⟩
      (fun _ asked => absurd (canceled.symm.trans asked) Bool.false_ne_true)) cfg env
    by_cases gone : (SipRequest.requestNext { r with ct := none } cfg env).2.isNone = true
    · rw [if_pos gone]
      exact (goes.1 (Option.isNone_iff_eq_none.mp gone)).1
    · rw [if_neg gone]
      exact (goes.2 fun none_ => gone (Option.isNone_iff_eq_none.mpr none_)).terminate _ scode
  · simp only [if_neg again]
    exact pending.terminate err scode

theorem Inv.running (inv : Inv prompt r) {id : Nat} {c : Ctrans} (here : r.ctrans id = some c)
    (live : c.state ≠ .completed) : r.ct = some id ∧ r.dnsq = none ∧ r.dnsq2 = false ∧ r.completed = false := by
  have ct := inv.live id c here live
  exact ⟨ct, inv.busy (by rw [ct]; exact Option.some_ne_none id)⟩

theorem Inv.known (inv : Inv prompt r) {id : Nat} {c : Ctrans} (here : r.ctrans id = some c) : id < r.next := by
  refine Nat.lt_of_not_le fun new => ?_
  rw [inv.fresh id new] at here
  contradiction

/-- The transaction at work leaves the table, or stays in it as a completed one. -/
theorem Inv.gone (inv : Inv prompt r) {id : Nat} {c : Ctrans} (here : r.ctrans id = some c)
    (live : c.state ≠ .completed) {kept : Option Ctrans}
    (over_ : ∀ c, kept = some c → c.state = .completed ∧ c.invite = r.invite) :
    Pending prompt { r.setCtrans id kept with ct := none } := by
  obtain ⟨ct, -, -, running⟩ := inv.running here live
  refine ⟨{ inv.logged with }, fun id' new => ?_, fun id' c' there => ?_, rfl, fun id' c' there => ?_, running⟩
  · exact (setCtrans_other r kept (Nat.ne_of_gt (Nat.lt_of_lt_of_le (inv.known here) new))).trans (inv.fresh id' new)
  · by_cases mine : id' = id
    · rw [mine] at there
      exact (over_ c' ((setCtrans_self r id kept).symm.trans there)).2
    · exact inv.kind id' c' ((setCtrans_other r kept mine).symm.trans there)
  · by_cases mine : id' = id
    · rw [mine] at there
      exact (over_ c' ((setCtrans_self r id kept).symm.trans there)).1
    · by_contra alive
      have other := inv.live id' c' ((setCtrans_other r kept mine).symm.trans there) alive
      exact mine (Option.some.inj (other.symm.trans ct))

theorem Pending.say {ct : Option Nat} (pending : Pending prompt { r with ct := ct })
    (logged : Logged prompt (r.say out)) : Pending prompt { r.say out with ct := ct } :=
  { pending with logged := { logged with } }

theorem Logged.ct {ct : Option Nat} (logged : Logged prompt { r with ct := ct }) : Logged prompt r :=
  { logged with }

/-- A final response. -/
theorem pass_final (pending : Pending prompt { r with ct := none }) (dns : r.dnsq = none ∧ r.dnsq2 = false)
    (cfg : Config) (env : Env) {id scode : Nat} (known : id < r.next) (final : ¬ scode < 200) :
    Inv prompt (r.pass cfg env id scode) := by
  have logged : Logged prompt (r.say (.received id scode)) := Logged.received (Logged.ct pending.logged) known scode
  unfold SipRequest.pass
  rw [if_neg final]
  exact outcome_inv (pending.say logged) dns cfg env none (some scode)

/-- Only the timers of a transaction change, or it leaves the table once it is completed. -/
theorem Near.setCtrans (near : Near prompt r) {id : Nat} {c : Ctrans} (here : r.ctrans id = some c)
    {kept : Option Ctrans} (same : ∀ c', kept = some c' → c'.invite = c.invite ∧ c'.state = c.state)
    (done : kept = none → c.state = .completed) : Near prompt (r.setCtrans id kept) := by
  have known : id < r.next := by
    refine Nat.lt_of_not_le fun new => ?_
    rw [near.fresh id new] at here
    contradiction
  have before (id' : Nat) (c' : Ctrans) (there : (r.setCtrans id kept).ctrans id' = some c') :
      ∃ c, r.ctrans id' = some c ∧ c'.invite = c.invite ∧ c'.state = c.state := by
    by_cases mine : id' = id
    · rw [mine, setCtrans_self] at there
      exact ⟨c, by rw [mine]; exact here, same c' there⟩
    · exact ⟨c', (setCtrans_other r kept mine).symm.trans there, rfl, rfl⟩
  refine { near with logged := { near.logged with }, fresh := ?_, kind := ?_, live := ?_, current := ?_ }
  · intro id' new
    exact (setCtrans_other r kept (Nat.ne_of_gt (Nat.lt_of_lt_of_le known new))).trans (near.fresh id' new)
  · intro id' c' there
    obtain ⟨c, here, invite, -⟩ := before id' c' there
    exact invite.trans (near.kind id' c here)
  · intro id' c' there live
    obtain ⟨c, here, -, state⟩ := before id' c' there
    exact near.live id' c here (state ▸ live)
  · intro id' ct
    obtain ⟨c', there, alive, proceeds⟩ := near.current id' ct
    by_cases mine : id' = id
    · obtain rfl := Option.some.inj (there.symm.trans (mine ▸ here))
      cases kept with
      | none => exact absurd (done rfl) alive
      | some c' =>
        have state := (same c' rfl).2
        refine ⟨c', by rw [mine]; exact setCtrans_self r id _, ?_, ?_⟩
        · rw [state]
          exact alive
        · rw [state]
          exact proceeds
    · exact ⟨c', (setCtrans_other r kept mine).trans there, alive, proceeds⟩

theorem Inv.setCtrans (inv : Inv prompt r) {id : Nat} {c : Ctrans} (here : r.ctrans id = some c)
    {kept : Option Ctrans} (same : ∀ c', kept = some c' → c'.invite = c.invite ∧ c'.state = c.state)
    (done : kept = none → c.state = .completed) : Inv prompt (r.setCtrans id kept) :=
  ⟨inv.toNear.setCtrans here same done, inv.owed⟩

theorem endCtrans_inv (inv : Inv prompt r) (cfg : Config) (env : Env) {id : Nat} {c : Ctrans}
    (here : r.ctrans id = some c) (err : RequestErr) : Inv prompt (r.endCtrans cfg env id c err) := by
  have never {P : Ctrans → Prop} : ∀ c', (none : Option Ctrans) = some c' → P c' :=
    fun _ none_ => absurd none_.symm (Option.some_ne_none _)
  unfold SipRequest.endCtrans
  by_cases done : c.state = .completed
  · simp only [if_pos done]
    exact inv.setCtrans here never fun _ => done
  · simp only [if_neg done]
    obtain ⟨-, dnsq, dnsq2, -⟩ := inv.running here done
    exact outcome_inv (inv.gone here done never) ⟨dnsq, dnsq2⟩ cfg env (some err) none

/-- A plain entry, or that the handler hears of a provisional response. -/
theorem Near.say (near : Near prompt r) (logged : Logged prompt (r.say out))
    (passes : out.cancels = false ∧ ∀ id, out.early id = false ∧ out.late id = false) :
    Near prompt (r.say out) := by
  refine { near with logged := logged, heard := fun id ct => ?_, cancels := fun cancels => ?_ }
  · have heard := near.heard id ct
    show (r.log ++ [out]).any _ = _ ∧ (r.log ++ [out]).any _ = _
    simp only [List.any_append, List.any_cons, List.any_nil, (passes.2 id).1, (passes.2 id).2, Bool.or_false]
    exact heard
  · refine near.cancels ?_
    have cancels : (r.log ++ [out]).any Out.cancels = true := cancels
    simpa only [List.any_append, List.any_cons, List.any_nil, passes.1, Bool.or_false] using cancels

theorem Inv.say (inv : Inv prompt r) (logged : Logged prompt (r.say out))
    (passes : out.cancels = false ∧ ∀ id, out.early id = false ∧ out.late id = false) : Inv prompt (r.say out) := by
  refine ⟨inv.toNear.say logged passes, fun invite canceled early ct => ?_⟩
  show (r.log ++ [out]).any _ = true
  rw [List.any_append, inv.owed invite canceled early ct]
  rfl

theorem Inv.plain (inv : Inv prompt r) (plain : out.plain = true) : Inv prompt (r.say out) := by
  refine inv.say (inv.logged.plain plain) ?_
  cases out with
  | retransmitted _ | ack _ | released => exact ⟨rfl, fun _ => ⟨rfl, rfl⟩⟩
  | _ => exact absurd plain Bool.false_ne_true

theorem Near.ct_running (near : Near prompt r) {id : Nat} (ct : r.ct = some id) : r.completed = false :=
  (near.busy (by rw [ct]; exact Option.some_ne_none id)).2.2

/-- The CANCEL of a request that was asked to cancel, once it has heard of its transaction. -/
theorem ctransCancel_inv (near : Near prompt r) (env : Env) (asked : r.canceled = true) (early : r.provrecv = true)
    (none_ : r.log.any Out.cancels = false) : Inv prompt (r.ctransCancel env) := by
  unfold SipRequest.ctransCancel
  cases ct : r.ct with
  | none => exact ⟨near, fun _ _ _ some_ => absurd ct some_⟩
  | some id =>
    obtain ⟨c, here, alive, proceeds⟩ := near.current id ct
    simp only [here]
    by_cases other : (!c.invite) = true
    · rw [if_pos other]
      rw [Bool.not_eq_true', near.kind id c here] at other
      exact ⟨near, fun invite => absurd (other.symm.trans invite) Bool.false_ne_true⟩
    · rw [if_neg other, if_pos (proceeds.mp early)]
      have timed : Near prompt (r.setCtrans id (some { c with tmr := some (64 * t1) })) := by
        refine near.setCtrans here (fun c' same => ?_) fun none_ => absurd none_ (Option.some_ne_none _)
        rw [← Option.some.inj same]
        exact ⟨rfl, rfl⟩
      have running := near.ct_running ct
      have heard := near.heard id ct
      have logged : Logged prompt ((r.setCtrans id (some { c with tmr := some (64 * t1) })).say (.cancel id env.cancel)) := by
        refine timed.logged.next rfl ⟨?_, ?_, heard.2, ?_, none_⟩ (Bool.or_false _).symm (Bool.or_false _).symm
          (Nat.le_refl _) ?_ (fun _ _ => ⟨rfl, rfl⟩) fun _ => asked
        · exact near.logged.canceled.trans asked
        · exact heard.1.trans early
        · exact Bool.eq_false_iff.mpr fun ends => absurd (running.symm.trans (near.logged.ended ends)) Bool.false_ne_true
        · rintro (completed | final | ends)
          · exact completed
          · exact absurd final Bool.false_ne_true
          · exact absurd ends Bool.false_ne_true
      refine ⟨{ timed with logged := logged, heard := fun id' ct' => ?_, cancels := fun _ => Or.inr ⟨?_, early⟩ },
        fun _ _ _ _ => ?_⟩
      · have heard' := near.heard id' ct'
        show (r.log ++ [_]).any _ = _ ∧ (r.log ++ [_]).any _ = _
        simp only [List.any_append, List.any_cons, List.any_nil, Out.early, Out.late, Bool.or_false]
        exact heard'
      · show r.ct ≠ none
        rw [ct]
        exact Option.some_ne_none id
      · show (r.log ++ [_]).any _ = true
        rw [List.any_append, List.any_cons, Out.cancels, Bool.true_or, Bool.or_true]

/-- The transaction at work has heard a provisional response. -/
theorem Inv.hears (inv : Inv prompt r) {id : Nat} {c c' : Ctrans} (here : r.ctrans id = some c)
    (live : c.state ≠ .completed) (state : c'.state = .proceeding) (kind : c'.invite = c.invite) {scode : Nat}
    (provisional : scode < 200) :
    Near prompt { (r.setCtrans id (some c')).say (.received id scode) with provrecv := true } := by
  obtain ⟨ct, dnsq, dnsq2, running⟩ := inv.running here live
  have known := inv.known here
  have logged : Logged prompt ((r.setCtrans id (some c')).say (.received id scode)) := by
    have same : Logged prompt (r.setCtrans id (some c')) := { inv.logged with }
    exact same.received known scode
  refine ⟨{ logged with }, fun id' new => ?_, fun id' c'' there => ?_, fun id' c'' there alive => ?_,
    fun id' ct' => ?_, fun _ => ⟨dnsq, dnsq2, running⟩, ?_, fun id' ct' => ?_, fun _ => Or.inr ⟨?_, rfl⟩,
    fun _ => Or.inl dnsq⟩
  · exact (setCtrans_other r _ (Nat.ne_of_gt (Nat.lt_of_lt_of_le known new))).trans (inv.fresh id' new)
  · by_cases mine : id' = id
    · rw [mine] at there
      rw [← Option.some.inj ((setCtrans_self r id _).symm.trans there), kind]
      exact inv.kind id c here
    · exact inv.kind id' c'' ((setCtrans_other r _ mine).symm.trans there)
  · by_cases mine : id' = id
    · rw [mine]
      exact ct
    · exact inv.live id' c'' ((setCtrans_other r _ mine).symm.trans there) alive
  · obtain rfl := Option.some.inj (ct.symm.trans ct')
    refine ⟨c', setCtrans_self r id _, ?_, fun _ => state, fun _ => rfl⟩
    rw [state]
    simp
  · exact fun completed => absurd (running.symm.trans completed) Bool.false_ne_true
  · obtain rfl := Option.some.inj (ct.symm.trans ct')
    have heard := (inv.heard id ct).2
    show (r.log ++ [_]).any _ = true ∧ (r.log ++ [_]).any _ = false
    simp [heard, Out.early, Out.late, provisional]
  · show r.ct ≠ none
    rw [ct]
    exact Option.some_ne_none id

theorem Inv.tells (inv : Inv prompt r) (running : r.completed = false) {scode : Nat} (provisional : scode < 200) :
    Inv prompt (if r.resph then r.say (.resph none (some scode)) else r) := by
  by_cases told : r.resph = true
  · rw [if_pos told]
    have untold : r.log.any Out.final = false :=
      Bool.eq_false_iff.mpr fun final => absurd (running.symm.trans (inv.logged.final final)) Bool.false_ne_true
    have early : (Out.resph none (some scode) : Out A).final = false := by
      simp [Out.final, provisional]
    refine inv.say ?_ ⟨rfl, fun _ => ⟨rfl, rfl⟩⟩
    refine inv.logged.next rfl untold (Bool.or_false _).symm (Bool.or_false _).symm (Nat.le_refl _) ?_
      (fun _ _ => ⟨rfl, rfl⟩) fun never => absurd never Bool.false_ne_true
    rintro (completed | final | ends)
    · exact completed
    · exact absurd (early.symm.trans final) Bool.false_ne_true
    · exact absurd ends Bool.false_ne_true
  · rw [if_neg told]
    exact inv

theorem ctransCancel_frame (r : SipRequest A) (env : Env) : (r.ctransCancel env).completed = r.completed := by
  unfold SipRequest.ctransCancel
  cases r.ct with
  | none => rfl
  | some id =>
    cases here : r.ctrans id with
    | none => simp only [here]
    | some c =>
      simp only [here]
      split_ifs <;> rfl

theorem pass_provisional (inv : Inv prompt r) {id : Nat} {c c' : Ctrans} (here : r.ctrans id = some c)
    (live : c.state ≠ .completed) (state : c'.state = .proceeding) (kind : c'.invite = c.invite) (cfg : Config)
    (env : Env) {scode : Nat} (provisional : scode < 200) :
    Inv prompt ((r.setCtrans id (some c')).pass cfg env id scode) := by
  have near := inv.hears here live state kind provisional
  obtain ⟨ct, -, -, running⟩ := inv.running here live
  unfold SipRequest.pass SipRequest.provisional
  rw [if_pos provisional]
  by_cases early : r.provrecv = true
  · have same : ({ (r.setCtrans id (some c')).say (.received id scode) with provrecv := true } : SipRequest A) =
        (r.setCtrans id (some c')).say (.received id scode) := by
      show _ = ({ (r.setCtrans id (some c')).say (.received id scode) with provrecv := r.provrecv } : SipRequest A)
      rw [early]
    rw [same] at near
    have heard : ((r.setCtrans id (some c')).say (.received id scode)).provrecv = true := early
    simp only [if_pos heard]
    refine Inv.tells ⟨near, fun invite canceled _ some_ => ?_⟩ running provisional
    show (r.log ++ [_]).any _ = true
    rw [List.any_append, inv.owed invite canceled early some_]
    rfl
  · have unheard : ¬ ((r.setCtrans id (some c')).say (.received id scode)).provrecv = true := early
    simp only [if_neg unheard]
    have none_ : r.log.any Out.cancels = false := by
      refine Bool.eq_false_iff.mpr fun cancels => ?_
      rcases inv.cancels cancels with completed | ⟨-, heard⟩
      · exact absurd (running.symm.trans completed) Bool.false_ne_true
      · exact early heard
    by_cases asked : r.canceled = true
    · have asks : ((r.setCtrans id (some c')).say (.received id scode)).canceled = true := asked
      simp only [if_pos asks]
      refine Inv.tells (ctransCancel_inv near env asked rfl ?_) ((ctransCancel_frame _ env).trans running) provisional
      show (r.log ++ [_]).any _ = false
      rw [List.any_append, none_]
      rfl
    · have asks : ¬ ((r.setCtrans id (some c')).say (.received id scode)).canceled = true := asked
      simp only [if_neg asks]
      exact Inv.tells ⟨near, fun _ canceled => absurd canceled asked⟩ running provisional

theorem inviteResponse_inv (inv : Inv prompt r) (cfg : Config) (env : Env) {id : Nat} {c : Ctrans}
    (here : r.ctrans id = some c) (scode : Nat) : Inv prompt (r.inviteResponse cfg env id c scode) := by
  unfold SipRequest.inviteResponse
  by_cases works : c.state = .calling ∨ c.state = .proceeding
  · rw [if_pos works]
    have live : c.state ≠ .completed := by
      rcases works with state | state <;> rw [state] <;> simp
    have kind := inv.kind id c here
    have stopped : (if c.state = .calling then { c with tmr := none, tmre := none } else c).invite = c.invite := by
      split_ifs <;> rfl
    generalize (if c.state = .calling then { c with tmr := none, tmre := none } else c) = c' at stopped ⊢
    obtain ⟨-, dnsq, dnsq2, -⟩ := inv.running here live
    simp only
    by_cases provisional : scode < 200
    · rw [if_pos provisional]
      refine pass_provisional inv here live ?_ ?_ cfg env provisional
      · rfl
      · exact stopped
    rw [if_neg provisional]
    by_cases success : scode < 300
    · rw [if_pos success]
      exact pass_final (inv.gone here live fun _ none_ => absurd none_.symm (Option.some_ne_none _)) ⟨dnsq, dnsq2⟩ cfg env
        (inv.known here) provisional
    · rw [if_neg success]
      have pending : Pending prompt { r.setCtrans id
          (if c'.reliable then none else some { c' with state := .completed, tmr := some 32000 }) with ct := none } := by
        refine inv.gone here live fun c'' kept => ?_
        split_ifs at kept
        rw [← Option.some.inj kept]
        exact ⟨rfl, stopped.trans kind⟩
      exact pass_final (pending.say ((Logged.ct pending.logged).plain rfl)) ⟨dnsq, dnsq2⟩ cfg env (inv.known here) provisional
  · rw [if_neg works]
    split_ifs
    · exact inv
    · exact inv.plain rfl
    · exact inv

theorem otherResponse_inv (inv : Inv prompt r) (cfg : Config) (env : Env) {id : Nat} {c : Ctrans}
    (here : r.ctrans id = some c) (scode : Nat) : Inv prompt (r.otherResponse cfg env id c scode) := by
  unfold SipRequest.otherResponse
  by_cases works : c.state = .trying ∨ c.state = .proceeding
  · rw [if_pos works]
    have live : c.state ≠ .completed := by
      rcases works with state | state <;> rw [state] <;> simp
    obtain ⟨-, dnsq, dnsq2, -⟩ := inv.running here live
    by_cases provisional : scode < 200
    · rw [if_pos provisional]
      refine pass_provisional inv here live ?_ ?_ cfg env provisional
      · rfl
      · rfl
    · rw [if_neg provisional]
      refine pass_final (inv.gone here live ?_) ⟨dnsq, dnsq2⟩ cfg env (inv.known here) provisional
      intro c'' kept
      split_ifs at kept
      rw [← Option.some.inj kept]
      exact ⟨rfl, inv.kind id c here⟩
  · rw [if_neg works]
    exact inv

theorem retransmitHandler_inv (inv : Inv prompt r) (cfg : Config) (env : Env) {id : Nat} {c : Ctrans}
    (here : r.ctrans id = some c) : Inv prompt (r.retransmitHandler cfg env id c) := by
  have timed (c' : Ctrans) (invite : c'.invite = c.invite) (state : c'.state = c.state) :
      Inv prompt (r.setCtrans id (some c')) := by
    refine inv.setCtrans here (fun c'' same => ?_) fun none_ => absurd none_ (Option.some_ne_none _)
    rw [← Option.some.inj same]
    exact ⟨invite, state⟩
  unfold SipRequest.retransmitHandler
  by_cases done : c.state = .completed
  · simp only [if_pos done]
    exact timed _ rfl rfl
  · simp only [if_neg done]
    cases env.resend with
    | none =>
      apply Inv.plain
      · exact timed _ rfl rfl
      · rfl
    | some err =>
      refine endCtrans_inv ?_ cfg env (setCtrans_self r id _) err
      exact timed _ rfl rfl

/-- The DNS answer is one after which there is a destination to try. -/
def Event.Resolves (cfg : Config) (r : SipRequest A) : Event A → Prop
  | .naptr rrs _ => r.dnsq = some .naptr ∧
      ∃ rr, (rrs.find? fun rr => rr.service.any cfg.supported) = some rr ∧ r.srvl ++ rr.srvl ≠ []
  | .srv ansl _ => r.dnsq = some .srv ∧ r.srvl ++ ansl ≠ []
  | .addr false _ ansl _ => r.dnsq = some .addr ∧ r.dnsq2 = false ∧ (r.addrl ++ ansl ≠ [] ∨ r.srvl ≠ [])
  | .addr true _ ansl _ => r.dnsq2 = true ∧ r.dnsq = none ∧ (r.addrl ++ ansl ≠ [] ∨ r.srvl ≠ [])
  | _ => False

/-- No DNS answer with a destination comes for a request that was cancelled before it was handed to a transport. -/
def Timely (cfg : Config) (r : SipRequest A) (event : Event A) : Prop :=
  r.canceled = true → r.log.any Out.transmits = false → ¬ event.Resolves cfg r

theorem Inv.timely (inv : Inv prompt r) {cfg : Config} {event : Event A} (timely : prompt → Timely cfg r event)
    (resolves : event.Resolves cfg r) : prompt → r.canceled = true → 0 < r.next := by
  intro strict canceled
  rw [← decide_eq_true_eq (p := 0 < r.next), ← inv.logged.sent]
  by_contra unsent
  exact timely strict canceled (Bool.eq_false_iff.mpr unsent) resolves

/-- An answer of one of the two queries; the other may still be out. -/
theorem Inv.answered (inv : Inv prompt r) (query : r.dnsq ≠ none ∨ r.dnsq2 = true) : r.ct = none ∧ r.completed = false := by
  constructor
  · by_contra some_
    obtain ⟨dnsq, dnsq2, -⟩ := inv.busy some_
    rcases query with first | second
    · exact first dnsq
    · exact absurd (dnsq2.symm.trans second) Bool.false_ne_true
  · refine Bool.eq_false_iff.mpr fun completed => ?_
    obtain ⟨dnsq, dnsq2, -⟩ := inv.ended completed
    rcases query with first | second
    · exact first dnsq
    · exact absurd (dnsq2.symm.trans second) Bool.false_ne_true

theorem Inv.waiting (inv : Inv prompt r) (query : r.dnsq ≠ none ∨ r.dnsq2 = true) :
    Waiting prompt { r with dnsq := none, dnsq2 := false } := by
  obtain ⟨ct, running⟩ := inv.answered query
  refine ⟨⟨{ inv.logged with }, inv.fresh, inv.kind, ct, fun id c here => ?_, running⟩, ⟨rfl, rfl⟩, ?_⟩
  · by_contra live
    exact absurd (ct.symm.trans (inv.live id c here live)) (by simp)
  · refine Bool.eq_false_iff.mpr fun cancels => ?_
    rcases inv.cancels cancels with completed | ⟨some_, -⟩
    · exact absurd (running.symm.trans completed) Bool.false_ne_true
    · exact some_ ct

theorem naptrHandler_inv (waiting : Waiting prompt r) (cfg : Config) (env : Env) (rrs : List (Naptr A))
    (timely : ∀ rr, (rrs.find? fun rr => rr.service.any cfg.supported) = some rr → r.srvl ++ rr.srvl ≠ [] →
      prompt → r.canceled = true → 0 < r.next) : Inv prompt (r.naptrHandler cfg env rrs) := by
  unfold SipRequest.naptrHandler
  cases found : rrs.find? fun rr => rr.service.any cfg.supported with
  | none => exact orFail_inv (srvLookup_goes waiting env)
  | some rr =>
    have listed : Waiting prompt
        { r with tp := rr.service.getD r.tp, tpSelected := true, srvl := r.srvl ++ rr.srvl } :=
      waiting.listed _ (r.srvl ++ rr.srvl) _ true _
    by_cases empty : (r.srvl ++ rr.srvl).isEmpty = true
    · simp only [if_pos empty]
      exact orFail_inv (srvLookup_goes listed env)
    · simp only [if_neg empty]
      have some_ : r.srvl ++ rr.srvl ≠ [] := fun none_ => empty (List.isEmpty_iff.mpr none_)
      exact orFail_inv (requestNext_goes ⟨listed, timely rr found some_⟩ cfg env)

theorem Waiting.fail (waiting : Waiting prompt r) (err : Option RequestErr) : Inv prompt (r.fail err) :=
  waiting.toPending.terminate err none

theorem srvHandler_inv (waiting : Waiting prompt r) (cfg : Config) (env : Env) (ansl : List (Srv A))
    (timely : r.srvl ++ ansl ≠ [] → prompt → r.canceled = true → 0 < r.next) :
    Inv prompt (r.srvHandler cfg env ansl) := by
  have listed (tp : Transp) (port : BitVec 16) :
      Waiting prompt { r with srvl := r.srvl ++ ansl, tp := tp, port := port } :=
    waiting.listed _ (r.srvl ++ ansl) tp _ port
  unfold SipRequest.srvHandler
  by_cases some_ : (!(r.srvl ++ ansl).isEmpty) = true
  · simp only [if_pos some_]
    rw [Bool.not_eq_true', List.isEmpty_eq_false_iff] at some_
    exact orFail_inv (requestNext_goes ⟨listed r.tp r.port, timely some_⟩ cfg env)
  · simp only [if_neg some_]
    by_cases selected : r.tpSelected = true
    · simp only [if_pos selected]
      exact orFail_inv (addrLookup_goes (listed r.tp _) cfg env)
    · simp only [if_neg selected]
      cases transpNext cfg (some r.tp) with
      | some tp => exact orFail_inv (srvLookup_goes (listed tp r.port) env)
      | none =>
        cases transpNext cfg none with
        | none => exact (listed r.tp r.port).fail _
        | some tp => exact orFail_inv (addrLookup_goes (listed tp _) cfg env)

/-- A request that is just asked to cancel owes a CANCEL at once if its transaction has been heard of. -/
theorem Near.asked (near : Near prompt r) (env : Env) (canceled : r.canceled = true)
    (none_ : r.log.any Out.cancels = false) : Inv prompt (if !r.provrecv then r else r.ctransCancel env) := by
  by_cases unheard : (!r.provrecv) = true
  · rw [if_pos unheard]
    rw [Bool.not_eq_true'] at unheard
    exact ⟨near, fun _ _ heard => absurd (unheard.symm.trans heard) Bool.false_ne_true⟩
  · rw [if_neg unheard]
    rw [Bool.not_eq_true', Bool.not_eq_false] at unheard
    exact ctransCancel_inv near env canceled unheard none_

theorem cancel_inv (inv : Inv prompt r) (env : Env) : Inv prompt (r.cancel env) := by
  unfold SipRequest.cancel
  by_cases canceled : r.canceled = true
  · rw [if_pos canceled]
    exact inv
  rw [if_neg canceled]
  have logged : Logged prompt ({ r with canceled := true }.say .canceled) := by
    refine inv.logged.next rfl trivial (Bool.or_true _).symm (Bool.or_false _).symm (Nat.le_refl _) ?_
      (fun _ _ => ⟨rfl, rfl⟩) fun never => absurd never Bool.false_ne_true
    rintro (completed | final | ends)
    · exact completed
    · exact absurd final Bool.false_ne_true
    · exact absurd ends Bool.false_ne_true
  have asked : Near prompt ({ r with canceled := true }.say .canceled) := by
    refine { inv.toNear with logged := logged, heard := fun id ct => ?_, cancels := fun cancels => ?_ }
    · have heard := inv.heard id ct
      show (r.log ++ [_]).any _ = _ ∧ (r.log ++ [_]).any _ = _
      simp only [List.any_append, List.any_cons, List.any_nil, Out.early, Out.late, Bool.or_false]
      exact heard
    · refine inv.cancels ?_
      have cancels : (r.log ++ [Out.canceled]).any Out.cancels = true := cancels
      simpa only [List.any_append, List.any_cons, List.any_nil, Out.cancels, Bool.or_false] using cancels
  refine asked.asked env rfl ?_
  have none_ : r.log.any Out.cancels = false := Bool.eq_false_iff.mpr fun cancels => canceled (inv.logged.cancels cancels)
  show (r.log ++ [_]).any _ = false
  rw [List.any_append, none_]
  rfl

theorem release_inv (inv : Inv prompt r) (env : Env) : Inv prompt (r.release env) := by
  have released : Inv prompt { r with owned := false, resph := false } :=
    { inv with logged := { inv.logged with }, ended := fun completed => ⟨(inv.ended completed).1, (inv.ended completed).2.1, rfl⟩ }
  have plain : (Out.released : Out A).plain = true := rfl
  exact cancel_inv (released.plain plain) env

theorem closeHandler_inv (inv : Inv prompt r) (running : r.completed = false) : Inv prompt r.closeHandler := by
  unfold SipRequest.closeHandler
  apply Pending.terminate
  refine ⟨{ inv.logged with }, fun id new => ?_, fun id c here => ?_, rfl, fun id c here => ?_, running⟩
  · show (if r.ct = some id then none else r.ctrans id) = none
    rw [inv.fresh id new, ite_self]
  · have here : (if r.ct = some id then none else r.ctrans id) = some c := here
    split_ifs at here
    exact inv.kind id c here
  · have here : (if r.ct = some id then none else r.ctrans id) = some c := here
    split_ifs at here with mine
    by_contra live
    exact mine (inv.live id c here live)

theorem onCtrans_inv (inv : Inv prompt r) (id : Nat) {f : Ctrans → SipRequest A}
    (keeps : ∀ c, r.ctrans id = some c → Inv prompt (f c)) : Inv prompt (onCtrans r id f) := by
  unfold onCtrans
  cases here : r.ctrans id with
  | none => exact inv
  | some c => exact keeps c here

theorem addrHandler_inv (inv : Inv prompt r)
    (waiting : Waiting prompt { r with dnsq := none, dnsq2 := false }) (cfg : Config) (env : Env) (err : Option RequestErr) (ansl : List A)
    (timely : r.dnsq = none → r.dnsq2 = false → r.addrl ++ ansl ≠ [] ∨ r.srvl ≠ [] →
      prompt → r.canceled = true → 0 < r.next) : Inv prompt (r.addrHandler cfg env err ansl) := by
  unfold SipRequest.addrHandler
  by_cases other : (r.dnsq.isSome || r.dnsq2) = true
  · simp only [if_pos other]
    exact { inv with logged := { inv.logged with } }
  · simp only [if_neg other]
    rw [Bool.or_eq_true, not_or, Option.not_isSome_iff_eq_none, Bool.not_eq_true] at other
    have waiting : Waiting prompt { r with addrl := r.addrl ++ ansl } := by
      have same : ({ r with dnsq := none, dnsq2 := false } : SipRequest A) = r := by
        rw [← other.1, ← other.2]
      rw [same] at waiting
      exact waiting.listed (r.addrl ++ ansl) r.srvl r.tp _ r.port
    by_cases empty : ((r.addrl ++ ansl).isEmpty && r.srvl.isEmpty) = true
    · simp only [if_pos empty]
      exact waiting.fail _
    · simp only [if_neg empty]
      rw [Bool.and_eq_true, not_and_or, List.isEmpty_iff, List.isEmpty_iff] at empty
      exact orFail_inv (requestNext_goes ⟨waiting, timely other.1 other.2 empty⟩ cfg env)

/-- The queries that are out are taken back one by one. -/
theorem Inv.unasked (inv : Inv prompt r) {dnsq : Option Query} {dnsq2 : Bool} (first : dnsq = none ∨ dnsq = r.dnsq)
    (second : dnsq2 = false ∨ dnsq2 = r.dnsq2) : Inv prompt { r with dnsq := dnsq, dnsq2 := dnsq2 } := by
  have fewer (none_ : r.dnsq = none ∧ r.dnsq2 = false) : dnsq = none ∧ dnsq2 = false :=
    ⟨first.elim id fun same => same.trans none_.1, second.elim id fun same => same.trans none_.2⟩
  refine { inv with logged := { inv.logged with }, busy := fun some_ => ?_, ended := fun completed => ?_,
                    pair := fun asked => ?_ }
  · obtain ⟨none_, none2, running⟩ := inv.busy some_
    exact ⟨(fewer ⟨none_, none2⟩).1, (fewer ⟨none_, none2⟩).2, running⟩
  · obtain ⟨none_, none2, owned⟩ := inv.ended completed
    exact ⟨(fewer ⟨none_, none2⟩).1, (fewer ⟨none_, none2⟩).2, owned⟩
  · rcases first with none_ | same
    · exact Or.inl none_
    · rcases second with none2 | same2
      · exact absurd (none2.symm.trans asked) Bool.false_ne_true
      · have kinds := inv.pair (same2.symm.trans asked)
        rw [← same] at kinds
        exact kinds

theorem Inv.alone (inv : Inv prompt r) {query : Query} (first : r.dnsq = some query) (other : query ≠ .addr) :
    ({ r with dnsq := none } : SipRequest A) = { r with dnsq := none, dnsq2 := false } := by
  have none_ : r.dnsq2 = false := by
    refine Bool.eq_false_iff.mpr fun second => ?_
    have kinds := inv.pair second
    rw [first] at kinds
    rcases kinds with none_ | addr
    · exact absurd none_ (Option.some_ne_none _)
    · exact other (Option.some.inj addr)
  rw [← none_]

theorem step_inv (inv : Inv prompt r) (cfg : Config) (event : Event A) (timely : prompt → Timely cfg r event) :
    Inv prompt (step cfg r event) := by
  cases event with
  | naptr rrs env =>
    by_cases query : r.dnsq = some .naptr
    · have waiting := inv.waiting (Or.inl (by rw [query]; exact Option.some_ne_none _))
      simp only [step, if_pos query, inv.alone query (by simp)]
      exact naptrHandler_inv waiting cfg env rrs fun rr found some_ => inv.timely timely ⟨query, rr, found, some_⟩
    · simp only [step, if_neg query]
      exact inv
  | srv ansl env =>
    by_cases query : r.dnsq = some .srv
    · have waiting := inv.waiting (Or.inl (by rw [query]; exact Option.some_ne_none _))
      simp only [step, if_pos query, inv.alone query (by simp)]
      exact srvHandler_inv waiting cfg env ansl fun some_ => inv.timely timely ⟨query, some_⟩
    · simp only [step, if_neg query]
      exact inv
  | addr second err ansl env =>
    cases second with
    | false =>
      by_cases query : r.dnsq = some .addr
      · have waiting := inv.waiting (Or.inl (by rw [query]; exact Option.some_ne_none _))
        simp only [step, if_pos query]
        have taken : Inv prompt { r with dnsq := none } := inv.unasked (Or.inl rfl) (Or.inr rfl)
        refine addrHandler_inv taken waiting cfg env err ansl fun _ none2 some_ => ?_
        exact inv.timely timely ⟨query, none2, some_⟩
      · simp only [step, if_neg query]
        exact inv
    | true =>
      by_cases query : r.dnsq2 = true
      · have waiting := inv.waiting (Or.inr query)
        simp only [step, if_pos query]
        have taken : Inv prompt { r with dnsq2 := false } := inv.unasked (Or.inr rfl) (Or.inl rfl)
        refine addrHandler_inv taken waiting cfg env err ansl fun none_ _ some_ => ?_
        exact inv.timely timely ⟨query, none_, some_⟩
      · simp only [step, if_neg query]
        exact inv
  | response id scode env =>
    refine onCtrans_inv inv id fun c here => ?_
    unfold response
    split_ifs
    · exact inviteResponse_inv inv cfg env here scode
    · exact otherResponse_inv inv cfg env here scode
  | timer id env =>
    refine onCtrans_inv inv id fun c here => ?_
    split_ifs
    · exact endCtrans_inv inv cfg env here _
    · exact inv
  | retransmit id env =>
    refine onCtrans_inv inv id fun c here => ?_
    split_ifs
    · exact retransmitHandler_inv inv cfg env here
    · exact inv
  | transport id err env => exact onCtrans_inv inv id fun c here => endCtrans_inv inv cfg env here err
  | cancel env =>
    simp only [step]
    split_ifs
    · exact cancel_inv inv env
    · exact inv
  | release env =>
    simp only [step]
    split_ifs
    · exact release_inv inv env
    · exact inv
  | close =>
    by_cases completed : r.completed = true
    · simp only [step, if_pos completed]
      exact inv
    · simp only [step, if_neg completed]
      exact closeHandler_inv inv (Bool.eq_false_iff.mpr completed)

theorem run_inv (cfg : Config) (inv : Inv prompt r) (events : List (Event A))
    (timely : prompt → Along (step cfg) (Timely cfg) r events) : Inv prompt (run cfg r events) := by
  induction events generalizing r with
  | nil => exact inv
  | cons event events ih => exact ih (step_inv inv cfg event fun strict => (timely strict).1) fun strict => (timely strict).2

/-- A request that is just allocated. -/
theorem fresh_ready (invite : Bool) (tp : Transp) (tpSelected : Bool) (port : BitVec 16) :
    Ready prompt (⟨invite, none, fun _ => none, 0, [], [], none, false, tp, tpSelected, port, false, false, true,
      false, false, []⟩ : SipRequest A) := by
  refine ⟨⟨⟨⟨each_nil, rfl, rfl, ?_, ?_, fun _ _ => rfl, fun _ _ => rfl, ?_⟩, fun _ _ => rfl, ?_, rfl, ?_, rfl⟩,
    ⟨rfl, rfl⟩, rfl⟩, ?_⟩
  · exact fun never => absurd never Bool.false_ne_true
  · exact fun never => absurd never Bool.false_ne_true
  · exact fun never => absurd never Bool.false_ne_true
  · exact fun _ _ here => absurd here.symm (Option.some_ne_none _)
  · exact fun _ _ here => absurd here.symm (Option.some_ne_none _)
  · exact fun _ never => absurd never Bool.false_ne_true

theorem Goes.started {res : SipRequest A × Option RequestErr} (goes : Goes prompt res) {started : SipRequest A}
    (ok : (res.2.elim (.ok { res.1 with owned := true }) .error : Except RequestErr (SipRequest A)) = .ok started) :
    Inv prompt started := by
  cases failed : res.2 with
  | some err =>
    rw [failed] at ok
    exact absurd ok (by simp)
  | none =>
    rw [failed] at ok
    obtain ⟨inv, running⟩ := goes.1 failed
    rw [← Except.ok.inj ok]
    exact { inv with
      logged := { inv.logged with }, ended := fun completed => absurd (running.symm.trans completed) Bool.false_ne_true }

theorem request_goes (ready : Ready prompt r) (env : Env) (n : Nat) (addr : A) (port : BitVec 16) :
    Goes prompt (r.request env n addr port) := by
  cases sent : env.send n with
  | none =>
    obtain ⟨none_, inv⟩ := request_sent ready sent addr port
    exact ⟨fun _ => inv, fun failed => absurd none_ failed⟩
  | some err =>
    rw [request_unsent r sent]
    exact ⟨fun none_ => absurd none_ (by simp), fun _ => ready.unsent.toPending⟩

theorem start_inv {cfg : Config} {env : Env} {invite : Bool} {route : Route A}
    (started : sipRequest cfg env invite route = .ok r) : Inv prompt r := by
  unfold sipRequest at started
  cases selected : (if route.transp.isSome = true then route.transp.join.filter cfg.supported else transpNext cfg none) with
  | none =>
    simp only [selected] at started
    exact absurd started (by simp)
  | some tp =>
    simp only [selected] at started
    refine Goes.started ?_ started
    have ready (port : BitVec 16) : Ready prompt _ := fresh_ready (A := A) invite tp route.transp.isSome port
    cases route.numeric with
    | some addr => exact request_goes (ready 0) env 0 addr _
    | none =>
      simp only
      split_ifs with port selected failed
      · exact addrLookup_goes (ready _).toWaiting cfg env
      · exact srvLookup_goes (ready 0).toWaiting env
      · refine ⟨fun none_ => ?_, fun _ => (ready 0).toPending⟩
        rw [show env.query = none from none_] at failed
        exact absurd failed Bool.false_ne_true
      · exact ⟨fun _ => ⟨(ready 0).toWaiting.waits fun never => absurd never Bool.false_ne_true, rfl⟩,
          fun failed => absurd rfl failed⟩

/-- The handler is told of the end at most once and of nothing after it, a CANCEL is sent at most once, after a
    provisional response of its transaction and before a final one, and not after the end; and it is sent to the
    transaction of an INVITE that was cancelled, once that has answered. With `prompt`, a request that was
    cancelled before it was handed to a transport is not transmitted. -/
structure Orderly (prompt : Prop) (r : SipRequest A) : Prop where
  allowed : Each (Allowed prompt) r.log
  cancels : r.invite = true → r.canceled = true → ∀ id, r.ct = some id → r.log.any (Out.early id) = true →
    r.log.any Out.cancels = true

theorem Inv.orderly (inv : Inv prompt r) : Orderly prompt r := by
  refine ⟨inv.logged.fine, fun invite canceled id ct early => inv.owed invite canceled ?_ ?_⟩
  · exact (inv.heard id ct).1.symm.trans early
  · rw [ct]
    exact Option.some_ne_none id

theorem request_orderly (cfg : Config) (env : Env) (invite : Bool) (route : Route A) (r : SipRequest A)
    (started : sipRequest cfg env invite route = .ok r) (events : List (Event A)) :
    Orderly False (run cfg r events) ∧
      (Along (step cfg) (Timely cfg) r events → Orderly True (run cfg r events)) :=
  ⟨(run_inv cfg (start_inv started) events False.elim).orderly,
    fun timely => (run_inv cfg (start_inv started) events fun _ => timely).orderly⟩

end

def udpOnly : Config := ⟨fun tp => tp == .udp, fun tp => tp == .udp, fun _ => false⟩

def succeeds : Env := ⟨fun _ => none, none, none, none, none⟩

/-- The address of the host is asked for. -/
def asking : SipRequest Nat :=
  ⟨true, none, fun _ => none, 0, [], [], some .addr, false, .udp, false, 5070, false, false, true, true, false, []⟩

theorem request_orderly_ringing : Orderly True (run udpOnly asking
      [.addr false none [7] succeeds, .response 0 180 succeeds, .cancel succeeds, .response 0 487 succeeds]) ∧
    (run udpOnly asking [.addr false none [7] succeeds, .response 0 180 succeeds, .cancel succeeds,
      .response 0 487 succeeds]).log =
      [.transmitted 0 .udp 7 5070, .received 0 180, .resph none (some 180), .canceled, .cancel 0 none, .ack 0,
        .received 0 487, .resph none (some 487), .completed] := by
  refine ⟨(request_orderly udpOnly succeeds true ⟨none, none, 5070⟩ asking rfl _).2 ?_, rfl⟩
  refine ⟨?_, ?_, ?_, ?_, trivial⟩
  · exact fun canceled => absurd canceled Bool.false_ne_true
  · exact fun canceled => absurd canceled Bool.false_ne_true
  · exact fun canceled => absurd canceled Bool.false_ne_true
  · exact fun _ _ => id

/-- The address comes in after the request was cancelled. -/
theorem request_sends_canceled : ¬ Orderly True (run udpOnly asking [.cancel succeeds, .addr false none [7] succeeds]) := by
  intro orderly
  have whole : (run udpOnly asking [.cancel succeeds, .addr false none [7] succeeds]).log =
      [.canceled] ++ .transmitted 0 .udp 7 5070 :: [] := rfl
  have sent := (orderly.allowed _ _ _ whole).2 trivial rfl
  exact Bool.false_ne_true sent

end Baresip.Sip.Client
