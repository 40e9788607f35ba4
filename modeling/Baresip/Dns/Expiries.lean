import Baresip.Dns.Events

set_option linter.dupNamespace false

namespace Baresip.Dns

open Re Library

def expiries (s : Dnsc) (q : Nat) : Nat := s.log.countP (Out.expires q)

/-- The timer of the query has expired, and no server has been tried since. -/
def Frame.Owes (q : Nat) : Frame → Prop
  | sendUdp q' 0 _ _ => q' = q
  | sent .udp q' _ (some _) _ => q' = q
  | _ => False

/-- The error that is returned when there is no server. -/
def Frame.Failing : Frame → Prop
  | sendUdp _ _ err _ => err ≠ none
  | _ => True

/-- A server is tried each time the timer of a query expires. -/
structure Paid (s : Dnsc) : Prop where
  bound (q : Nat) : expiries s q ≤ NTX_MAX + 1
  unborn : ∀ q, s.nextQuery ≤ q → expiries s q = 0
  few : ∀ x ∈ s.queries, expiries s x.ref ≤ NTX_MAX
  owed : ∀ x ∈ s.queries, expiries s x.ref ≤ x.ntx + 1
  paid : ∀ x ∈ s.queries, (∀ frame ∈ s.stack, ¬ frame.Owes x.ref) → expiries s x.ref ≤ x.ntx
  failing : ∀ frame ∈ s.stack, frame.Failing

section
variable {s s' : Dnsc} {q tries tc : Nat} {x : DnsQuery} {err result : Option DnsErr} {sender : Sender} {top : Frame}
  {rest : List Frame} {proto : Proto}

/-- A step without an expiry. What a query owed is paid when the frame on top is left. -/
theorem Paid.of (paid : Paid s) (frames : List Frame) (stack : s.stack = top :: rest) (stack' : s'.stack = frames ++ rest)
    (log : ∀ q, expiries s' q = expiries s q) (nextQuery : s'.nextQuery = s.nextQuery)
    (queries : ∀ y ∈ s'.queries, ∃ x ∈ s.queries, x.ref = y.ref ∧ x.ntx ≤ y.ntx ∧
      (top.Owes y.ref → (∃ frame ∈ frames, frame.Owes y.ref) ∨ x.ntx < y.ntx))
    (failing : ∀ frame ∈ frames, frame.Failing) : Paid s' := by
  refine ⟨?_, ?_, ?_, ?_, ?_, ?_⟩
  · intro q
    rw [log]
    exact paid.bound q
  · intro q unborn
    rw [log]
    exact paid.unborn q (nextQuery ▸ unborn)
  · intro y inside
    obtain ⟨x, member, ref, -⟩ := queries y inside
    rw [log, ← ref]
    exact paid.few x member
  · intro y inside
    obtain ⟨x, member, ref, le, -⟩ := queries y inside
    have owed := paid.owed x member
    rw [log, ← ref]
    omega
  · intro y inside free
    obtain ⟨x, member, ref, le, pays⟩ := queries y inside
    rw [log, ← ref]
    by_cases owes : top.Owes y.ref
    · rcases pays owes with ⟨frame, here, still⟩ | more
      · exact absurd still (free frame (stack' ▸ List.mem_append_left _ here))
      · have owed := paid.owed x member
        omega
    · refine Nat.le_trans (paid.paid x member ?_) le
      rw [stack, List.forall_mem_cons, ref]
      exact ⟨owes, fun frame there => free frame (stack' ▸ List.mem_append_right _ there)⟩
  · intro frame inside
    rw [stack'] at inside
    rcases List.mem_append.mp inside with new | old
    · exact failing frame new
    · exact paid.failing frame (stack ▸ List.mem_cons_of_mem _ old)

theorem update_next (s : Dnsc) (q : Nat) :
    ∀ y ∈ (s.updateQuery q fun x => { x with ntx := x.ntx + 1 }).queries, ∃ x ∈ s.queries, x.ref = y.ref ∧
      x.ntx ≤ y.ntx ∧ (y.ref = q → x.ntx < y.ntx) := by
  intro y inside
  obtain ⟨x, member, rfl⟩ := update_mem inside
  refine ⟨x, member, ?_⟩
  split
  · exact ⟨rfl, Nat.le_succ _, fun _ => Nat.lt_succ_self _⟩
  · rename_i other
    exact ⟨rfl, Nat.le_refl _, fun here => absurd here other⟩

theorem update_kept {f : DnsQuery → DnsQuery} (s : Dnsc) (q : Nat) (keeps : ∀ x, (f x).ref = x.ref)
    (tries : ∀ x, (f x).ntx = x.ntx) :
    ∀ y ∈ (s.updateQuery q f).queries, ∃ x ∈ s.queries, x.ref = y.ref ∧ x.ntx = y.ntx := by
  intro y inside
  obtain ⟨x, member, rfl⟩ := update_mem inside
  refine ⟨x, member, ?_⟩
  split
  · exact ⟨(keeps x).symm, (tries x).symm⟩
  · exact ⟨rfl, rfl⟩

theorem without_expiries (q : Nat) {outs : List Out} (none_ : ∀ q', outs.countP (Out.expires q') = 0) (q' : Nat) :
    expiries (s.without q outs) q' = expiries s q' := by
  show (s.log ++ outs).countP (Out.expires q') = _
  rw [List.countP_append, none_]
  rfl

theorem closeNext_paid (sound : Sound s) (paid : Paid s) (stack : s.stack = .close tc err :: rest) :
    Paid (closeNext s tc err) := by
  have same (y : DnsQuery) (inside : y ∈ s.queries) (frames : List Frame) : ∃ x ∈ s.queries, x.ref = y.ref ∧
      x.ntx ≤ y.ntx ∧ ((Frame.close tc err).Owes y.ref → (∃ frame ∈ frames, frame.Owes y.ref) ∨ x.ntx < y.ntx) :=
    ⟨y, inside, rfl, Nat.le_refl _, fun owes => owes.elim⟩
  cases found : s.links.find? fun link => link.1 = tc with
  | none =>
    rw [closeNext_none found, stack]
    exact paid.of [] stack rfl (fun _ => rfl) rfl (fun y inside => same y inside []) (List.forall_mem_nil _)
  | some link =>
    have linked : link.2 ∈ s.linked := List.mem_map_of_mem (List.mem_of_find?_eq_some found)
    obtain ⟨x, member⟩ := refs_query (sound.busy.alive link.2 (List.mem_append_right _ linked))
    rw [closeNext_some found member]
    refine paid.of [failFrame s x err, .close tc err] stack (congrArg _ stack) (fun _ => rfl) rfl
      (fun y inside => same y inside _) ?_
    rw [List.forall_mem_cons, List.forall_mem_singleton]
    refine ⟨?_, trivial⟩
    unfold failFrame
    split <;> trivial

theorem sendTcpNext_paid (sound : Sound s) (paid : Paid s) (stack : s.stack = .sendTcp q err sender :: rest) :
    Paid (sendTcpNext s q err sender result) := by
  obtain ⟨x, member⟩ := sound.busy.sendsTcp stack
  have cases_ := @sendTcpNext_cases s q x err result sender rest stack member
  generalize sendTcpNext s q err sender result = s' at cases_ ⊢
  have next (y : DnsQuery) (inside : y ∈ (s.updateQuery q fun x => { x with ntx := x.ntx + 1 }).queries)
      (frames : List Frame) : ∃ x ∈ s.queries, x.ref = y.ref ∧ x.ntx ≤ y.ntx ∧
        ((Frame.sendTcp q err sender).Owes y.ref → (∃ frame ∈ frames, frame.Owes y.ref) ∨ x.ntx < y.ntx) := by
    obtain ⟨x, inside', ref, le, -⟩ := update_next s q y inside
    exact ⟨x, inside', ref, le, fun owes => owes.elim⟩
  cases cases_ with
  | exhausted all =>
    refine paid.of [.sent .tcp q 0 err sender] stack rfl (fun _ => rfl) rfl (fun y inside => ?_) ?_
    · exact ⟨y, inside, rfl, Nat.le_refl _, fun owes => owes.elim⟩
    · exact List.forall_mem_singleton.mpr trivial
  | refused _ none_ =>
    exact paid.of [.sendTcp q _ sender] stack rfl (fun _ => rfl) rfl (fun y inside => next y inside _)
      (List.forall_mem_singleton.mpr trivial)
  | connects _ none_ =>
    exact paid.of [.sent .tcp q 0 none sender] stack rfl (fun _ => rfl) rfl (fun y inside => next y inside _)
      (List.forall_mem_singleton.mpr trivial)
  | failed _ found connected =>
    refine paid.of [.close _ _, .sendTcp q _ sender] stack rfl (fun _ => rfl) rfl (fun y inside => next y inside _) ?_
    exact List.forall_mem_cons.mpr ⟨trivial, List.forall_mem_singleton.mpr trivial⟩
  | sent _ found connected =>
    exact paid.of [.sent .tcp q 0 none sender] stack rfl (fun _ => rfl) rfl (fun y inside => next y inside _)
      (List.forall_mem_singleton.mpr trivial)
  | joined _ found connecting =>
    exact paid.of [.sent .tcp q 0 err sender] stack rfl (fun _ => rfl) rfl (fun y inside => next y inside _)
      (List.forall_mem_singleton.mpr trivial)

theorem sendUdpNext_paid (sound : Sound s) (paid : Paid s) (stack : s.stack = .sendUdp q tries err sender :: rest) :
    Paid (sendUdpNext s q tries err sender result) := by
  obtain ⟨x, member⟩ := sound.busy.sendsUdp stack
  have failing : (Frame.sendUdp q tries err sender).Failing := paid.failing _ (stack ▸ List.mem_cons_self ..)
  have cases_ := @sendUdpNext_cases s q tries x err result sender rest stack member
  generalize sendUdpNext s q tries err sender result = s' at cases_ ⊢
  have owner (q' : Nat) (owes : (Frame.sendUdp q tries err sender).Owes q') : q' = q := by
    cases tries with
    | zero => exact Eq.symm owes
    | succ tries => exact owes.elim
  have next (y : DnsQuery) (inside : y ∈ (s.updateQuery q fun x => { x with ntx := x.ntx + 1 }).queries)
      (frames : List Frame) : ∃ x ∈ s.queries, x.ref = y.ref ∧ x.ntx ≤ y.ntx ∧
        ((Frame.sendUdp q tries err sender).Owes y.ref → (∃ frame ∈ frames, frame.Owes y.ref) ∨ x.ntx < y.ntx) := by
    obtain ⟨x, inside', ref, le, pays⟩ := update_next s q y inside
    exact ⟨x, inside', ref, le, fun owes => .inr (pays (owner _ owes))⟩
  cases cases_ with
  | exhausted all =>
    refine paid.of [.sent .udp q tries err sender] stack rfl (fun _ => rfl) rfl (fun y inside => ?_) ?_
    · refine ⟨y, inside, rfl, Nat.le_refl _, fun owes => .inl ⟨_, List.mem_singleton_self _, ?_⟩⟩
      cases err with
      | none => exact absurd rfl failing
      | some e => exact (owner _ owes).symm
    · exact List.forall_mem_singleton.mpr trivial
  | failed _ =>
    exact paid.of [.sendUdp q (tries + 1) _ sender] stack rfl (fun _ => rfl) rfl (fun y inside => next y inside _)
      (List.forall_mem_singleton.mpr nofun)
  | sent _ =>
    exact paid.of [.sent .udp q (tries + 1) none sender] stack rfl (fun _ => rfl) rfl
      (fun y inside => next y inside _) (List.forall_mem_singleton.mpr trivial)

theorem sentNext_paid (sound : Sound s) (paid : Paid s) (stack : s.stack = .sent proto q tries err sender :: rest) :
    Paid (sentNext s proto q err sender) := by
  have dropped (outs : List Out) (none_ : ∀ q', outs.countP (Out.expires q') = 0) :
      Paid { s.without q outs with stack := rest } := by
    refine paid.of [] stack rfl (fun q' => without_expiries q none_ q') rfl (fun y inside => ?_) (List.forall_mem_nil _)
    obtain ⟨member, other⟩ := List.mem_filter.mp inside
    refine ⟨y, member, rfl, Nat.le_refl _, fun owes => ?_⟩
    have here : q = y.ref := by
      cases proto with
      | tcp => exact owes.elim
      | udp =>
        cases err with
        | none => exact owes.elim
        | some e => exact owes
    exact absurd here.symm (of_decide_eq_true other)
  have cases_ := sentNext_cases sound stack
  generalize sentNext s proto q err sender = s' at cases_ ⊢
  cases cases_ with
  | refused => exact dropped _ fun _ => rfl
  | called => exact dropped _ fun _ => rfl
  | started tmr keeps =>
    refine paid.of [] stack rfl (fun _ => rfl) rfl (fun y inside => ?_) (List.forall_mem_nil _)
    obtain ⟨x, member, ref, same⟩ := update_kept s q (fun x => (keeps x).1) (fun x => (keeps x).2.2.1) y inside
    refine ⟨x, member, ref, Nat.le_of_eq same, fun owes => ?_⟩
    cases proto <;> exact owes.elim
  | waits tcp =>
    subst tcp
    refine paid.of [] stack rfl (fun _ => rfl) rfl (fun y inside => ?_) (List.forall_mem_nil _)
    exact ⟨y, inside, rfl, Nat.le_refl _, fun owes => owes.elim⟩

theorem goOn_paid (sound : Sound s) (paid : Paid s) (result : Option DnsErr) : Paid (goOn s result) := by
  unfold goOn
  split
  · exact paid
  · rename_i stack
    exact closeNext_paid sound paid stack
  · rename_i stack
    exact sendTcpNext_paid sound paid stack
  · rename_i stack
    exact sendUdpNext_paid sound paid stack
  · rename_i stack
    exact sentNext_paid sound paid stack

/-- An event without an expiry. -/
theorem Paid.event (paid : Paid s) (idle : s.stack = []) (log : ∀ q, expiries s' q = expiries s q)
    (nextQuery : s'.nextQuery = s.nextQuery)
    (queries : ∀ y ∈ s'.queries, ∃ x ∈ s.queries, x.ref = y.ref ∧ x.ntx = y.ntx)
    (failing : ∀ frame ∈ s'.stack, frame.Failing) : Paid s' := by
  have free (x : DnsQuery) (inside : x ∈ s.queries) : expiries s x.ref ≤ x.ntx :=
    paid.paid x inside (by rw [idle]; exact List.forall_mem_nil _)
  have all (y : DnsQuery) (inside : y ∈ s'.queries) : expiries s' y.ref ≤ NTX_MAX ∧ expiries s' y.ref ≤ y.ntx := by
    obtain ⟨x, member, ref, same⟩ := queries y inside
    rw [log, ← ref, ← same]
    exact ⟨paid.few x member, free x member⟩
  refine ⟨?_, ?_, fun y inside => (all y inside).1, fun y inside => Nat.le_succ_of_le (all y inside).2,
    fun y inside _ => (all y inside).2, failing⟩
  · intro q
    rw [log]
    exact paid.bound q
  · intro q unborn
    rw [log]
    exact paid.unborn q (nextQuery ▸ unborn)

theorem Paid.released (paid : Paid s) (idle : s.stack = []) {outs : List Out}
    (none_ : ∀ q', outs.countP (Out.expires q') = 0) : Paid (s.without q outs) := by
  refine paid.event idle (fun q' => without_expiries q none_ q') rfl (fun y inside => ?_) ?_
  · exact ⟨y, (List.mem_filter.mp inside).1, rfl, rfl⟩
  · show ∀ frame ∈ s.stack, frame.Failing
    rw [idle]
    exact List.forall_mem_nil _

theorem Paid.update (paid : Paid s) (idle : s.stack = []) {f : DnsQuery → DnsQuery} (keeps : ∀ x, (f x).ref = x.ref)
    (tries : ∀ x, (f x).ntx = x.ntx) : Paid (s.updateQuery q f) := by
  refine paid.event idle (fun _ => rfl) rfl (update_kept s q keeps tries) ?_
  show ∀ frame ∈ s.stack, frame.Failing
  rw [idle]
  exact List.forall_mem_nil _

theorem tcpconnClose_paid (paid : Paid s) (idle : s.stack = []) (tc : Nat) (err : Option DnsErr) :
    Paid (tcpconnClose s tc err) := by
  refine paid.event idle (fun _ => rfl) rfl (fun y inside => ⟨y, inside, rfl, rfl⟩) ?_
  show ∀ frame ∈ Frame.close tc err :: s.stack, frame.Failing
  rw [idle]
  exact List.forall_mem_singleton.mpr trivial

theorem replyRecv_paid (msg : List Byte) (holds : (Sound s ∧ s.stack = []) ∧ Paid s) :
    (Sound (replyRecv s msg).2 ∧ (replyRecv s msg).2.stack = []) ∧ Paid (replyRecv s msg).2 := by
  refine ⟨replyRecv_sound msg holds.1, ?_⟩
  obtain ⟨⟨sound, idle⟩, paid⟩ := holds
  have live := @replyVerdict_refs s
  have finished (q : Nat) (inside : q ∈ s.refs) (err : Option DnsErr) (reply : Option (Dnshdr × RrLists)) :
      Paid (finish s q err reply) := by
    obtain ⟨x, found⟩ := refs_query inside
    rw [finish_without found (sound.books.handled x (query_mem found).1)]
    exact paid.released idle fun _ => rfl
  unfold replyRecv
  generalize verdict_eq : replyVerdict s msg = verdict
  cases verdict with
  | unknown err => exact paid
  | nextServer q =>
    dsimp only
    split
    · exact paid
    · exact paid.update idle (fun _ => rfl) fun _ => rfl
  | malformed q err => exact finished q (@live q msg (by rw [verdict_eq]; rfl)) (some err) none
  | more q rrlv => exact paid.update idle (fun _ => rfl) fun _ => rfl
  | answer q hdr rrlv => exact finished q (@live q msg (by rw [verdict_eq]; rfl)) none (some (hdr, rrlv))

theorem tcpRecv_paid (sound : Sound s) (idle : s.stack = []) (paid : Paid s) (x : Tcpconn) (segment : List Byte) :
    Paid (tcpRecv s x segment) := by
  unfold tcpRecv
  split
  · exact paid
  · rename_i tc err result
    obtain ⟨⟨-, idle'⟩, paid'⟩ := tcpRecvHandler_kept (fun s => (Sound s ∧ s.stack = []) ∧ Paid s)
      (fun s msg => replyRecv_paid msg) ⟨⟨sound, idle⟩, paid⟩ result
    have updated : Paid (tc.dnsc.updateTcpconn x.ref fun x => { x with flen := tc.flen, mb := tc.mb }) :=
      ⟨paid'.bound, paid'.unborn, paid'.few, paid'.owed, paid'.paid, paid'.failing⟩
    dsimp only
    split
    · exact updated
    · exact tcpconnClose_paid updated idle' _ _

theorem query_paid (sound : Sound s) (idle : s.stack = []) (paid : Paid s) (args : QueryArgs) (id : BitVec 16) :
    Paid (query s args id) := by
  have cases_ := query_cases sound.books args id
  have born : Paid (bornState s args id) := by
    have zero := paid.unborn s.nextQuery (Nat.le_refl _)
    have old (x : DnsQuery) (inside : x ∈ s.queries) : expiries s x.ref ≤ x.ntx :=
      paid.paid x inside (by rw [idle]; exact List.forall_mem_nil _)
    have all (y : DnsQuery) (inside : y ∈ (bornState s args id).queries) :
        expiries s y.ref ≤ NTX_MAX ∧ expiries s y.ref ≤ y.ntx := by
      rcases List.mem_append.mp inside with inside | new
      · exact ⟨paid.few y inside, old y inside⟩
      · rw [List.mem_singleton.mp new]
        show expiries s s.nextQuery ≤ NTX_MAX ∧ expiries s s.nextQuery ≤ 0
        rw [zero]
        exact ⟨Nat.zero_le _, Nat.le_refl 0⟩
    refine ⟨paid.bound, ?_, fun y inside => (all y inside).1, fun y inside => Nat.le_succ_of_le (all y inside).2,
      fun y inside _ => (all y inside).2, paid.failing⟩
    intro q unborn
    exact paid.unborn q (Nat.le_of_succ_le unborn)
  have idle' : (bornState s args id).stack = [] := idle
  have pushed (frame : Frame) (failing : frame.Failing) : Paid ((bornState s args id).push frame) := by
    refine born.event idle' (fun _ => rfl) rfl (fun y inside => ⟨y, inside, rfl, rfl⟩) ?_
    show ∀ frame' ∈ frame :: s.stack, frame'.Failing
    rw [idle]
    exact List.forall_mem_singleton.mpr failing
  generalize query s args id = s' at cases_ ⊢
  cases cases_ with
  | noServer => exact paid
  | refused e => exact born.released idle' fun _ => rfl
  | tcp => exact pushed _ trivial
  | udp => exact pushed _ nofun

theorem expired_count (s : Dnsc) (q q' : Nat) :
    expiries (s.emit (.expired q)) q' = expiries s q' + if q' = q then 1 else 0 := by
  show (s.log ++ [Out.expired q]).countP (Out.expires q') = _
  rw [List.countP_append]
  simp [expiries, Out.expires, eq_comm]

theorem queryTimeout_paid (sound : Sound s) (idle : s.stack = []) (paid : Paid s) (member : s.query? q = some x)
    (tmr : x.tmr = some proto) : Paid (queryTimeout s x proto) := by
  have cases_ := queryTimeout_cases sound.books member tmr
  obtain ⟨inside, rfl⟩ := query_mem member
  have known := sound.books.known x.ref (List.mem_map_of_mem inside)
  have free (y : DnsQuery) (member : y ∈ s.queries) : expiries s y.ref ≤ y.ntx :=
    paid.paid y member (by rw [idle]; exact List.forall_mem_nil _)
  have counted (q : Nat) : expiries (s.emit (.expired x.ref)) q = expiries s q + if q = x.ref then 1 else 0 :=
    expired_count s x.ref q
  have bound (q : Nat) : expiries (s.emit (.expired x.ref)) q ≤ NTX_MAX + 1 := by
    rw [counted]
    split
    · rename_i here
      rw [here]
      exact Nat.succ_le_succ (paid.few x inside)
    · exact paid.bound q
  have unborn (q : Nat) (later : s.nextQuery ≤ q) : expiries (s.emit (.expired x.ref)) q = 0 := by
    rw [counted, paid.unborn q later, if_neg (by omega)]
  generalize queryTimeout s x proto = s' at cases_ ⊢
  cases cases_ with
  | ended =>
    have same (q : Nat) : expiries ((s.emit (.expired x.ref)).without x.ref
        [.called x.ref (some (.errno .ETIMEDOUT)) none, .released x.ref]) q = expiries (s.emit (.expired x.ref)) q :=
      without_expiries x.ref (fun _ => rfl) q
    have others (y : DnsQuery) (member : y ∈ s.queries.filter fun y => y.ref ≠ x.ref) :
        expiries (s.emit (.expired x.ref)) y.ref ≤ NTX_MAX ∧ expiries (s.emit (.expired x.ref)) y.ref ≤ y.ntx := by
      obtain ⟨member, other⟩ := List.mem_filter.mp member
      rw [counted, if_neg (of_decide_eq_true other)]
      exact ⟨paid.few y member, free y member⟩
    refine ⟨?_, ?_, ?_, ?_, ?_, paid.failing⟩
    · intro q
      rw [same]
      exact bound q
    · intro q later
      rw [same]
      exact unborn q later
    · intro y member
      rw [same]
      exact (others y member).1
    · intro y member
      rw [same]
      exact Nat.le_succ_of_le (others y member).2
    · intro y member _
      rw [same]
      exact (others y member).2
  | again udp few =>
    have less := Nat.lt_of_le_of_lt (free x inside) few
    have all (y : DnsQuery) (member : y ∈ (s.updateQuery x.ref fun x => { x with tmr := none }).queries) :
        expiries (s.emit (.expired x.ref)) y.ref ≤ NTX_MAX ∧ expiries (s.emit (.expired x.ref)) y.ref ≤ y.ntx + 1 ∧
          (y.ref ≠ x.ref → expiries (s.emit (.expired x.ref)) y.ref ≤ y.ntx) := by
      obtain ⟨y', member', ref, same⟩ :=
        update_kept (f := fun x => { x with tmr := none }) s x.ref (fun _ => rfl) (fun _ => rfl) y member
      have few' := paid.few y' member'
      have free' := free y' member'
      rw [counted, ← ref, ← same]
      by_cases here : y'.ref = x.ref
      · rw [here] at free'
        rw [if_pos here, here]
        exact ⟨less, Nat.succ_le_succ free', fun other => absurd rfl other⟩
      · rw [if_neg here]
        exact ⟨few', Nat.le_succ_of_le free', fun _ => free'⟩
    refine ⟨bound, unborn, fun y member => (all y member).1, fun y member => (all y member).2.1, ?_, ?_⟩
    · intro y member plain
      exact (all y member).2.2 fun here => plain _ (List.mem_cons_self ..) here.symm
    · show ∀ frame ∈ Frame.sendUdp x.ref 0 (some (.errno .ETIMEDOUT)) .handler :: s.stack, frame.Failing
      rw [idle]
      exact List.forall_mem_singleton.mpr nofun

theorem event_paid (sound : Sound s) (idle : s.stack = []) (paid : Paid s) (a : Action) : Paid (event s a) := by
  cases a with
  | query args id => exact query_paid sound idle paid args id
  | goOn result => exact paid
  | udpRecv msg => exact (replyRecv_paid msg ⟨⟨sound, idle⟩, paid⟩).2
  | tcpRecv tc segment =>
    unfold event
    dsimp only
    split
    · exact paid
    · split
      · exact tcpRecv_paid sound idle paid _ segment
      · exact paid
  | tcpEstab tc results =>
    unfold event
    dsimp only
    split
    · exact paid
    · split
      · exact paid
      · unfold tcpEstabHandler
        dsimp only
        split
        · exact tcpconnClose_paid paid idle tc _
        · exact ⟨paid.bound, paid.unborn, paid.few, paid.owed, paid.paid, paid.failing⟩
  | tcpClose tc err =>
    unfold event
    dsimp only
    split
    · exact paid
    · exact tcpconnClose_paid paid idle tc err
  | tcpTimeout tc =>
    unfold event
    dsimp only
    split
    · exact paid
    · exact tcpconnClose_paid paid idle tc _
  | queryTimeout q =>
    unfold event
    dsimp only
    split
    · exact paid
    · rename_i member
      split
      · exact paid
      · rename_i tmr
        exact queryTimeout_paid sound idle paid member tmr
  | cancel q =>
    unfold event
    dsimp only
    split
    · exact paid
    · split
      · rw [queryDestructor_without, without_emit]
        exact paid.released idle fun _ => rfl
      · exact paid
  | srvSet srvv => exact ⟨paid.bound, paid.unborn, paid.few, paid.owed, paid.paid, paid.failing⟩

theorem step_paid (s : Dnsc) (a : Action) (holds : Sound s ∧ Paid s) : Sound (step s a) ∧ Paid (step s a) := by
  refine ⟨step_sound s a holds.1, ?_⟩
  have idle (a : Action) : Paid (if s.stack = [] then event s a else s) := by
    split
    · exact event_paid holds.1 ‹_› holds.2 a
    · exact holds.2
  cases a with
  | goOn result => exact goOn_paid holds.1 holds.2 result
  | _ => exact idle _

theorem initial_paid (srvv : List Sa) : Paid (initial srvv) :=
  ⟨fun _ => Nat.zero_le _, fun _ _ => rfl, List.forall_mem_nil _, List.forall_mem_nil _, List.forall_mem_nil _,
    List.forall_mem_nil _⟩

end

end Baresip.Dns
