import Baresip.Sip.Strans
import Mathlib.Data.List.Nodup
import Mathlib.Data.List.Pairwise

set_option linter.dupNamespace false

namespace Baresip.Sip

open Re

section
variable {A : Type}

/-- The response with which a transaction ended was a 2xx. -/
def Answered (st : Strans A) : Prop := ∃ reply ∈ st.replies, 200 ≤ reply.1 ∧ reply.1 < 300

/-- No final response has been sent. -/
def Open (st : Strans A) : Prop := ∀ reply ∈ st.replies, reply.1 < 200

/-- A request whose CSeq method is its own. -/
def Request.Consistent (msg : Request) : Prop := msg.met = msg.cseqMet

instance (msg : Request) : Decidable msg.Consistent := inferInstanceAs (Decidable (msg.met = msg.cseqMet))

/-- What the state of a transaction says about the responses it has sent. -/
structure Sane (st : Strans A) : Prop where
  consistent : st.msg.Consistent
  notAck : st.msg.met ≠ ACK
  invite : st.invite = decide (st.msg.met = INVITE)
  early : st.state = .trying ∨ st.state = .proceeding → Open st
  last : st.state = .proceeding ∨ st.state = .completed → ∃ scode, st.replies.getLast? = some (scode, st.mb)
  accepted : st.state = .accepted → Answered st
  refused : st.state = .completed ∨ st.state = .confirmed → st.invite = true → ¬ Answered st
  owned : st.owned = true → st.state = .trying ∨ st.state = .proceeding

structure Inv (s : Transactions A) : Prop where
  sane : ∀ st ∈ s.strans, Sane st
  ids : (s.strans.map Strans.id).Nodup
  fresh : ∀ st ∈ s.strans, st.id < s.next
  keys : s.strans.Pairwise fun st later => cmpHandler st.msg later.msg = false

theorem Inv.same {s : Transactions A} (inv : Inv s) {st st' : Strans A} (here : st ∈ s.strans)
    (there : st' ∈ s.strans) (same : st.id = st'.id) : st = st' :=
  List.inj_on_of_nodup_map inv.ids here there same

theorem inv_remove {s : Transactions A} (inv : Inv s) (id : Nat) : Inv (s.remove id) := by
  have part : (s.remove id).strans.Sublist s.strans := List.filter_sublist
  exact ⟨fun st among => inv.sane st (part.subset among), inv.ids.sublist (part.map _),
    fun st among => inv.fresh st (part.subset among), inv.keys.sublist part⟩

theorem inv_modify {s : Transactions A} (inv : Inv s) (id : Nat) (f : Strans A → Strans A)
    (keeps : ∀ st ∈ s.strans, st.id = id → (f st).id = st.id ∧ (f st).msg = st.msg ∧ Sane (f st)) :
    Inv (s.modify id f) := by
  have kept : ∀ st ∈ s.strans, (if st.id = id then f st else st).id = st.id ∧
      (if st.id = id then f st else st).msg = st.msg ∧ Sane (if st.id = id then f st else st) := by
    intro st among
    by_cases here : st.id = id
    · rw [if_pos here]
      exact keeps st among here
    · rw [if_neg here]
      exact ⟨rfl, rfl, inv.sane st among⟩
  have ids : (s.modify id f).strans.map Strans.id = s.strans.map Strans.id := by
    rw [Transactions.modify, List.map_map]
    exact List.map_congr_left fun st among => (kept st among).1
  constructor
  · intro st among
    obtain ⟨st, before, rfl⟩ := List.mem_map.mp among
    exact (kept st before).2.2
  · rw [ids]
    exact inv.ids
  · intro st among
    obtain ⟨st, before, rfl⟩ := List.mem_map.mp among
    rw [(kept st before).1]
    exact inv.fresh st before
  · refine List.pairwise_map.mpr (inv.keys.imp_of_mem ?_)
    intro st later before among apart
    rw [(kept st before).2.1, (kept later among).2.1]
    exact apart

theorem inv_alloc {s : Transactions A} (inv : Inv s) {msg : Request} (consistent : msg.Consistent)
    (notAck : msg.met ≠ ACK) (new : ∀ st ∈ s.strans, cmpHandler st.msg msg = false) : Inv (stransAlloc s msg) := by
  have sane : Sane (⟨s.next, msg, [], none, .trying, 0, decide (msg.met = INVITE), none, none, true, []⟩ : Strans A) := by
    refine ⟨consistent, notAck, rfl, fun _ _ none_ => absurd none_ List.not_mem_nil, ?_, ?_, ?_, fun _ => Or.inl rfl⟩
    · exact fun state => absurd state (by simp)
    · exact fun state => absurd state (by simp)
    · exact fun state => absurd state (by simp)
  constructor
  · intro st among
    rcases List.mem_append.mp among with among | last
    · exact inv.sane st among
    · rw [List.mem_singleton.mp last]
      exact sane
  · rw [stransAlloc, List.map_append, List.nodup_append]
    refine ⟨inv.ids, List.nodup_singleton _, ?_⟩
    intro id among id' last
    obtain ⟨st, before, rfl⟩ := List.mem_map.mp among
    rw [List.map_cons, List.map_nil, List.mem_singleton] at last
    rw [last]
    exact Nat.ne_of_lt (inv.fresh st before)
  · intro st among
    rcases List.mem_append.mp among with among | last
    · exact Nat.lt_succ_of_lt (inv.fresh st among)
    · rw [List.mem_singleton.mp last]
      exact Nat.lt_succ_self s.next
  · refine List.pairwise_append.mpr ⟨inv.keys, List.pairwise_singleton _ _, ?_⟩
    intro st among later last
    rw [List.mem_singleton.mp last]
    exact new st among

theorem find_some {s : Transactions A} {cmp : Request → Request → Bool} {msg : Request} {st : Strans A}
    (found : s.find cmp msg = some st) : st ∈ s.strans ∧ cmp st.msg msg = true :=
  ⟨List.mem_of_find?_eq_some found, List.find?_some (p := fun st : Strans A => cmp st.msg msg) found⟩

theorem find_none {s : Transactions A} {cmp : Request → Request → Bool} {msg : Request}
    (found : s.find cmp msg = none) {st : Strans A} (among : st ∈ s.strans) : cmp st.msg msg = false :=
  Bool.eq_false_iff.mpr (List.find?_eq_none.mp found st among)

theorem has_some {s : Transactions A} {id : Nat} {p : Strans A → Bool} {st : Strans A}
    (found : s.has id p = some st) : st ∈ s.strans ∧ st.id = id ∧ p st = true := by
  have here := List.find?_some found
  rw [Bool.and_eq_true, decide_eq_true_eq] at here
  exact ⟨List.mem_of_find?_eq_some found, here.1, here.2⟩

theorem Sane.invites {st : Strans A} (sane : Sane st) : st.invite = true ↔ st.msg.cseqMet = INVITE := by
  have consistent : st.msg.met = st.msg.cseqMet := sane.consistent
  rw [sane.invite, decide_eq_true_eq, consistent]

/-- The INVITE transaction that answered with a 2xx is the one in this state. -/
theorem Sane.answered_iff {st : Strans A} (sane : Sane st) (invite : st.invite = true) :
    Answered st ↔ st.state = .accepted := by
  constructor
  · rintro ⟨reply, among, low, high⟩
    cases state : st.state with
    | accepted => rfl
    | trying => exact absurd (sane.early (Or.inl state) reply among) (by omega)
    | proceeding => exact absurd (sane.early (Or.inr state) reply among) (by omega)
    | completed => exact absurd ⟨reply, among, low, high⟩ (sane.refused (Or.inl state) invite)
    | confirmed => exact absurd ⟨reply, among, low, high⟩ (sane.refused (Or.inr state) invite)
  · exact sane.accepted

theorem Sane.confirmed {st : Strans A} (sane : Sane st) (state : st.state = .completed) :
    Sane { st with tmr := some t4, tmrg := none, state := .confirmed } := by
  refine { sane with early := ?_, last := ?_, accepted := ?_, refused := ?_, owned := ?_ }
  · exact fun early => absurd early (by simp)
  · exact fun last => absurd last (by simp)
  · exact fun accepted => absurd accepted (by simp)
  · exact fun _ => sane.refused (Or.inl state)
  · intro owned
    have early := sane.owned owned
    rw [state] at early
    exact absurd early (by simp)

theorem ackHandler_inv {s : Transactions A} (inv : Inv s) (msg : Request) : Inv (ackHandler s msg).1 := by
  unfold ackHandler
  cases found : s.find cmpAckHandler msg with
  | none => exact inv
  | some st =>
    obtain ⟨here, -⟩ := find_some found
    cases state : st.state with
    | accepted => simpa only [state] using inv
    | trying => simpa only [state] using inv
    | proceeding => simpa only [state] using inv
    | confirmed => simpa only [state] using inv
    | completed =>
      simp only [state]
      split
      · exact inv_remove inv st.id
      · refine inv_modify inv st.id _ fun st' among same => ⟨rfl, rfl, ?_⟩
        obtain rfl := inv.same among here same
        exact (inv.sane st' among).confirmed state

theorem ackHandler_passes {s : Transactions A} {msg : Request} (passes : (ackHandler s msg).2 = false) :
    (ackHandler s msg).1 = s := by
  unfold ackHandler at passes ⊢
  cases found : s.find cmpAckHandler msg with
  | none => rfl
  | some st =>
    rw [found] at passes
    cases state : st.state with
    | completed =>
      simp only [state] at passes
      split at passes <;> contradiction
    | _ => simp only [state]

theorem requestHandler_inv {s : Transactions A} (inv : Inv s) (msg : Request) : Inv (requestHandler s msg).1 := by
  unfold requestHandler
  by_cases ack : msg.met = ACK
  · rw [if_pos ack]
    exact ackHandler_inv inv msg
  · rw [if_neg ack]
    cases s.find cmpHandler msg with
    | some st => cases state : st.state <;> simpa only [state] using inv
    | none =>
      simp only
      split_ifs <;> exact inv

/-- A request is passed on as it came: nothing is sent, and no transaction is there for it unless it is an ACK. -/
theorem requestHandler_passes {s : Transactions A} {msg : Request} (passes : (requestHandler s msg).2.2 = false) :
    (requestHandler s msg).1 = s ∧ (msg.met = ACK ∨ s.find cmpHandler msg = none) := by
  unfold requestHandler at passes ⊢
  by_cases ack : msg.met = ACK
  · rw [if_pos ack] at passes ⊢
    exact ⟨ackHandler_passes passes, Or.inl ack⟩
  · rw [if_neg ack] at passes ⊢
    cases found : s.find cmpHandler msg with
    | some st =>
      rw [found] at passes
      cases state : st.state <;> simp only [state] at passes <;> contradiction
    | none =>
      refine ⟨?_, Or.inr rfl⟩
      simp only
      split_ifs <;> rfl

theorem mem_concat_iff {replies : List (Nat × List Byte)} {reply last : Nat × List Byte} :
    reply ∈ replies ++ [last] ↔ reply ∈ replies ∨ reply = last := by
  rw [List.mem_append, List.mem_singleton]

theorem stransReply_sane {st st' : Strans A} (sane : Sane st) (owned : st.owned = true) {dst : A} {scode : Nat}
    {mb : List Byte} {err : Option Errno} (kept : stransReply st dst scode mb err = some st') :
    st'.id = st.id ∧ st'.msg = st.msg ∧ Sane st' := by
  have open_ : Open st := sane.early (sane.owned owned)
  have last : (st.replies ++ [(scode, mb)]).getLast? = some (scode, mb) := List.getLast?_concat
  have early : scode < 200 → ∀ reply ∈ st.replies ++ [(scode, mb)], reply.1 < 200 := by
    intro provisional reply among
    rcases mem_concat_iff.mp among with before | rfl
    · exact open_ reply before
    · exact provisional
  have refused : 300 ≤ scode → ¬ ∃ reply ∈ st.replies ++ [(scode, mb)], 200 ≤ reply.1 ∧ reply.1 < 300 := by
    rintro failure ⟨reply, among, low, high⟩
    rcases mem_concat_iff.mp among with before | rfl
    · exact absurd (open_ reply before) (by omega)
    · omega
  simp only [stransReply] at kept
  by_cases failed : err.isSome = true
  · rw [if_pos failed] at kept
    contradiction
  rw [if_neg failed] at kept
  by_cases provisional : scode < 200
  · have goes : st' = { st with mb := mb, dst := some dst, owned := decide (scode < 200), state := .proceeding,
                                replies := st.replies ++ [(scode, mb)] } := by
      split_ifs at kept <;> exact (Option.some.inj kept).symm
    subst goes
    exact ⟨rfl, rfl, sane.consistent, sane.notAck, sane.invite, fun _ => early provisional, fun _ => ⟨scode, last⟩,
      fun state => absurd state (by simp), fun state => absurd state (by simp), fun _ => Or.inr rfl⟩
  · have mine : ¬ decide (scode < 200) = true := fun mine => provisional (of_decide_eq_true mine)
    simp only [if_neg provisional] at kept
    by_cases invite : st.invite = true
    · rw [if_pos invite] at kept
      by_cases success : scode < 300
      · rw [if_pos success] at kept
        cases kept
        refine ⟨rfl, rfl, sane.consistent, sane.notAck, sane.invite, fun state => absurd state (by simp),
          fun state => absurd state (by simp), fun _ => ?_, fun state => absurd state (by simp),
          fun owned => absurd owned mine⟩
        exact ⟨(scode, mb), mem_concat_iff.mpr (Or.inr rfl), Nat.not_lt.mp provisional, success⟩
      · rw [if_neg success] at kept
        cases kept
        exact ⟨rfl, rfl, sane.consistent, sane.notAck, sane.invite, fun state => absurd state (by simp),
          fun _ => ⟨scode, last⟩, fun state => absurd state (by simp),
          fun _ _ => refused (Nat.not_lt.mp success), fun owned => absurd owned mine⟩
    · rw [if_neg invite] at kept
      split_ifs at kept
      cases kept
      exact ⟨rfl, rfl, sane.consistent, sane.notAck, sane.invite, fun state => absurd state (by simp),
        fun _ => ⟨scode, last⟩, fun state => absurd state (by simp),
        fun _ other => absurd other invite, fun owned => absurd owned mine⟩

theorem retransmit_sane {st : Strans A} (sane : Sane st) : Sane (retransmitHandler st) := { sane with }

/-- The requests of an event are consistent. -/
def StransEvent.Consistent : StransEvent A → Prop
  | .request msg _ => msg.Consistent
  | _ => True

theorem step_inv {s : Transactions A} (inv : Inv s) {event : StransEvent A} (consistent : event.Consistent) :
    Inv (stransStep s event).1 := by
  cases event with
  | request msg take =>
    simp only [stransStep]
    cases handled : (requestHandler s msg).2.2 with
    | true => exact requestHandler_inv inv msg
    | false =>
      obtain ⟨same, new⟩ := requestHandler_passes handled
      rw [same]
      by_cases taken : take = true ∧ msg.met ≠ ACK
      · simp only [if_pos taken]
        exact inv_alloc inv consistent taken.2 fun st among => find_none (new.resolve_left taken.2) among
      · simp only [if_neg taken]
        exact inv
  | reply id dst scode mb err =>
    simp only [stransStep]
    cases found : s.has id Strans.owned with
    | none => exact inv
    | some st =>
      obtain ⟨here, same, owned⟩ := has_some found
      cases kept : stransReply st dst scode mb err with
      | none => simpa only [kept] using inv_remove inv id
      | some st' =>
        simp only [kept]
        obtain ⟨ids, msgs, sane⟩ := stransReply_sane (inv.sane st here) owned kept
        refine inv_modify inv id _ fun other among its => ?_
        obtain rfl := inv.same among here (its.trans same.symm)
        exact ⟨ids, msgs, sane⟩
  | timer id =>
    simp only [stransStep]
    cases s.has id fun st => st.tmr.isSome with
    | none => exact inv
    | some st => exact inv_remove inv id
  | retransmit id =>
    simp only [stransStep]
    cases s.has id fun st => st.tmrg.isSome with
    | none => exact inv
    | some st => exact inv_modify inv id _ fun other among _ => ⟨rfl, rfl, retransmit_sane (inv.sane other among)⟩
  | release id =>
    simp only [stransStep]
    cases s.has id Strans.owned with
    | none => exact inv
    | some st => exact inv_remove inv id

theorem run_inv (events : List (StransEvent A)) (consistent : ∀ event ∈ events, event.Consistent) :
    Inv (stransRun events) := by
  suffices runs : ∀ s : Transactions A, Inv s → Inv (events.foldl (fun s event => (stransStep s event).1) s) from
    runs ⟨[], 0⟩ ⟨fun _ none_ => absurd none_ List.not_mem_nil, List.nodup_nil,
      fun _ none_ => absurd none_ List.not_mem_nil, List.Pairwise.nil⟩
  induction events with
  | nil => exact fun s inv => inv
  | cons event events ih =>
    intro s inv
    exact ih (fun later among => consistent later (List.mem_cons_of_mem _ among)) _
      (step_inv inv (consistent event List.mem_cons_self))

theorem cmpHandler_iff {msg1 msg2 : Request} : cmpHandler msg1 msg2 = true ↔
    msg1.branch = msg2.branch ∧ msg1.sentby = msg2.sentby ∧ msg1.cseqMet = msg2.cseqMet := by
  simp only [cmpHandler, stransCmp, Bool.and_eq_true, beq_iff_eq, and_assoc]

theorem cmpAckHandler_iff {msg1 msg2 : Request} : cmpAckHandler msg1 msg2 = true ↔
    msg1.branch = msg2.branch ∧ msg1.sentby = msg2.sentby ∧ msg1.cseqMet = INVITE := by
  simp only [cmpAckHandler, stransCmp, Bool.and_eq_true, beq_iff_eq, and_assoc]

theorem Inv.unique {s : Transactions A} (inv : Inv s) {st st' : Strans A} (here : st ∈ s.strans)
    (there : st' ∈ s.strans) (matched : cmpHandler st.msg st'.msg = true) : st = st' := by
  by_contra different
  have symmetric : Std.Symm fun st later : Strans A => cmpHandler st.msg later.msg = false := by
    refine ⟨fun st later apart => Bool.eq_false_iff.mpr fun other => ?_⟩
    rw [cmpHandler_iff] at other
    exact absurd (cmpHandler_iff.mpr ⟨other.1.symm, other.2.1.symm, other.2.2.symm⟩) (Bool.eq_false_iff.mp apart)
  exact absurd matched (Bool.eq_false_iff.mp (inv.keys.forall here there different))

/-- How a request is dealt with while these transactions exist, and what that sends. -/
structure Absorbs (s : Transactions A) (msg : Request) (sent : List (Sent A)) : Prop where
  absorbed : (∃ st ∈ s.strans, cmpHandler st.msg msg = true) → .passed msg ∉ sent
  resends : ∀ st ∈ s.strans, cmpHandler st.msg msg = true → st.state = .proceeding ∨ st.state = .completed →
    ∃ scode, st.replies.getLast? = some (scode, st.mb) ∧ sent = [.response st.id st.dst st.mb]
  acks : msg.met = ACK →
    (.passed msg ∈ sent ↔ ∀ st ∈ s.strans, cmpAckHandler st.msg msg = true → Answered st)
  cancels : ∀ id, .cancelled id ∈ sent → ∃ st ∈ s.strans, st.id = id ∧ Open st

theorem ack_passes {s : Transactions A} (inv : Inv s) (msg : Request) : (ackHandler s msg).2 = false ↔
    ∀ st ∈ s.strans, cmpAckHandler st.msg msg = true → Answered st := by
  unfold ackHandler
  cases found : s.find cmpAckHandler msg with
  | none => exact ⟨fun _ st among matched => absurd matched (Bool.eq_false_iff.mp (find_none found among)), fun _ => rfl⟩
  | some st =>
    obtain ⟨here, matched⟩ := find_some found
    have key := cmpAckHandler_iff.mp matched
    have exact_ := (inv.sane st here).answered_iff ((inv.sane st here).invites.mpr key.2.2)
    have alone : ∀ st' ∈ s.strans, cmpAckHandler st'.msg msg = true → st' = st := by
      intro st' there matched'
      have key' := cmpAckHandler_iff.mp matched'
      exact inv.unique there here (cmpHandler_iff.mpr ⟨key'.1.trans key.1.symm, key'.2.1.trans key.2.1.symm,
        key'.2.2.trans key.2.2.symm⟩)
    have all : (∀ st' ∈ s.strans, cmpAckHandler st'.msg msg = true → Answered st') ↔ st.state = .accepted := by
      rw [← exact_]
      refine ⟨fun every => every st here matched, fun answered st' there matched' => ?_⟩
      rw [alone st' there matched']
      exact answered
    rw [all]
    cases state : st.state with
    | accepted => simp only [state]
    | completed =>
      simp only [state]
      split <;> simp
    | trying => simp [state]
    | proceeding => simp [state]
    | confirmed => simp [state]

theorem cancelHandler_open {s : Transactions A} (inv : Inv s) (msg : Request) {id : Nat}
    (cancelled : .cancelled id ∈ (cancelHandler s msg).1) : ∃ st ∈ s.strans, st.id = id ∧ Open st := by
  unfold cancelHandler at cancelled
  cases found : s.find cmpCancelHandler msg with
  | none =>
    rw [found] at cancelled
    exact absurd cancelled List.not_mem_nil
  | some st =>
    obtain ⟨here, -⟩ := find_some found
    rw [found] at cancelled
    cases state : st.state with
    | trying =>
      simp only [state, List.mem_cons, reduceCtorEq, Sent.cancelled.injEq, List.not_mem_nil, or_false, false_or] at cancelled
      exact ⟨st, here, cancelled.symm, (inv.sane st here).early (Or.inl state)⟩
    | proceeding =>
      simp only [state, List.mem_cons, reduceCtorEq, Sent.cancelled.injEq, List.not_mem_nil, or_false, false_or] at cancelled
      exact ⟨st, here, cancelled.symm, (inv.sane st here).early (Or.inr state)⟩
    | accepted => simp [state] at cancelled
    | completed => simp [state] at cancelled
    | confirmed => simp [state] at cancelled

theorem cancelHandler_quiet (s : Transactions A) (msg other : Request) :
    .passed other ∉ (cancelHandler s msg).1 := by
  unfold cancelHandler
  cases s.find cmpCancelHandler msg with
  | none => exact List.not_mem_nil
  | some st => cases state : st.state <;> simp [state]

theorem cmpHandler_trans {msg1 msg2 msg3 : Request} (first : cmpHandler msg1 msg3 = true)
    (second : cmpHandler msg2 msg3 = true) : cmpHandler msg1 msg2 = true := by
  rw [cmpHandler_iff] at first second ⊢
  exact ⟨first.1.trans second.1.symm, first.2.1.trans second.2.1.symm, first.2.2.trans second.2.2.symm⟩

/-- No transaction is that of an ACK. -/
theorem Inv.notAck {s : Transactions A} (inv : Inv s) {msg : Request} (consistent : msg.Consistent) {st : Strans A}
    (here : st ∈ s.strans) (matched : cmpHandler st.msg msg = true) : msg.met ≠ ACK := by
  have own : st.msg.met = st.msg.cseqMet := (inv.sane st here).consistent
  have its : msg.met = msg.cseqMet := consistent
  rw [its, ← (cmpHandler_iff.mp matched).2.2, ← own]
  exact (inv.sane st here).notAck

/-- A request of a transaction is answered by that transaction alone. -/
theorem requestHandler_own {s : Transactions A} (inv : Inv s) {msg : Request} (consistent : msg.Consistent)
    {st : Strans A} (here : st ∈ s.strans) (matched : cmpHandler st.msg msg = true) :
    requestHandler s msg =
      (s, if st.state = .proceeding ∨ st.state = .completed then [.response st.id st.dst st.mb] else [], true) := by
  unfold requestHandler
  rw [if_neg (inv.notAck consistent here matched)]
  cases found : s.find cmpHandler msg with
  | none => exact absurd matched (Bool.eq_false_iff.mp (find_none found here))
  | some st' =>
    obtain ⟨there, matched'⟩ := find_some found
    obtain rfl := inv.unique here there (cmpHandler_trans matched matched')
    cases state : st.state <;> simp [state]

theorem requestHandler_ack {s : Transactions A} {msg : Request} (ack : msg.met = ACK) :
    (requestHandler s msg).2 = ([], (ackHandler s msg).2) := by
  rw [requestHandler, if_pos ack]

theorem requestHandler_cancelled {s : Transactions A} (inv : Inv s) {msg : Request} {id : Nat}
    (cancelled : .cancelled id ∈ (requestHandler s msg).2.1) : ∃ st ∈ s.strans, st.id = id ∧ Open st := by
  by_cases ack : msg.met = ACK
  · rw [requestHandler_ack ack] at cancelled
    exact absurd cancelled List.not_mem_nil
  · unfold requestHandler at cancelled
    rw [if_neg ack] at cancelled
    cases found : s.find cmpHandler msg with
    | some st =>
      rw [found] at cancelled
      cases state : st.state <;> simp [state] at cancelled
    | none =>
      simp only [found] at cancelled
      split_ifs at cancelled
      · simp at cancelled
      · exact cancelHandler_open inv msg cancelled
      · simp at cancelled

theorem step_sent (s : Transactions A) (msg : Request) (take : Bool) : (stransStep s (.request msg take)).2 =
    (requestHandler s msg).2.1 ++ if (requestHandler s msg).2.2 = true then [] else [.passed msg] := by
  simp only [stransStep]
  split
  · rw [List.append_nil]
  · rfl

/-- While the requests have the CSeq method of their request line: those of a transaction go no further, in
    PROCEEDING and COMPLETED they have its last response sent again, the ACKs of an INVITE go on unless a
    transaction is there that was not answered with a 2xx, and only an unanswered transaction is cancelled. -/
theorem strans_absorbs (events : List (StransEvent A)) (consistent : ∀ event ∈ events, event.Consistent)
    (msg : Request) (own : msg.Consistent) (take : Bool) :
    Absorbs (stransRun events) msg (stransStep (stransRun events) (.request msg take)).2 := by
  have inv := run_inv events consistent
  constructor
  · rintro ⟨st, here, matched⟩
    rw [step_sent, requestHandler_own inv own here matched]
    split <;> simp
  · intro st here matched state
    rw [step_sent, requestHandler_own inv own here matched]
    obtain ⟨scode, last⟩ := (inv.sane st here).last state
    refine ⟨scode, last, ?_⟩
    rw [if_pos state, if_pos rfl, List.append_nil]
  · intro ack
    rw [step_sent, requestHandler_ack ack, ← ack_passes inv msg]
    cases (ackHandler (stransRun events) msg).2 <;> simp
  · intro id cancelled
    rw [step_sent, List.mem_append] at cancelled
    rcases cancelled with cancelled | last
    · exact requestHandler_cancelled inv cancelled
    · split at last <;> simp at last

end

/-- A request of one branch over UDP. -/
def request (met cseqMet : List Byte) : Request :=
  ⟨met, ascii "sip:b@b", ascii "z9hG4bK1", ascii "a", ascii "c1", ascii "t1", [], cseqMet, 1#32, false⟩

theorem strans_absorbs_ringing :
    Absorbs (stransRun [.request (request INVITE INVITE) true, .reply 0 () 180 (ascii "180") none])
        (request INVITE INVITE) [.response 0 (some ()) (ascii "180")] ∧
      ∃ st ∈ (stransRun [.request (request INVITE INVITE) true, .reply 0 () 180 (ascii "180") none]).strans,
        cmpHandler st.msg (request INVITE INVITE) = true ∧ st.state = .proceeding := by
  refine ⟨?_, by decide⟩
  have consistent : ∀ event ∈ ([.request (request INVITE INVITE) true, .reply 0 () 180 (ascii "180") none] :
      List (StransEvent Unit)), event.Consistent := by
    intro event among
    rcases List.mem_cons.mp among with rfl | among
    · exact rfl
    · obtain rfl := List.mem_singleton.mp among
      trivial
  exact strans_absorbs _ consistent (request INVITE INVITE) rfl false

/-- An INFO with an INVITE in its CSeq, answered with a 200, has the ACK of that INVITE. -/
theorem strans_keeps_ack :
    ¬ Absorbs (stransRun [.request (request (ascii "INFO") INVITE) true, .reply 0 () 200 (ascii "200") none])
      (request ACK ACK)
      (stransStep (stransRun [.request (request (ascii "INFO") INVITE) true, .reply 0 () 200 (ascii "200") none])
        (.request (request ACK ACK) false)).2 := by
  intro absorbs
  have passed := (absorbs.acks rfl).mpr (by
    intro st here _
    have alone : st.replies = [(200, ascii "200")] := by
      revert st
      decide
    refine ⟨(200, ascii "200"), ?_, by decide, by decide⟩
    rw [alone]
    exact List.mem_singleton_self _)
  exact absurd passed (by decide)

end Baresip.Sip
