import Baresip.Dns.Queries
import Mathlib.Data.List.Nodup

set_option linter.dupNamespace false

namespace Baresip.Dns

open Re Library

structure Sound (s : Dnsc) : Prop where
  books : Books s
  busy : Busy s
  armed : Armed s
  apart : Apart s

section
variable {s s' : Dnsc} {q tries tc : Nat} {x : DnsQuery} {err result : Option DnsErr} {sender : Sender} {top : Frame}
  {rest : List Frame} {proto : Proto} {link : Nat × Nat}

/-- The frames on top are new, and those below them wait as before. -/
theorem Busy.of (frames rest : List Frame) (stack : s'.stack = frames ++ rest) (calls : ∀ frame ∈ rest, frame.Calls)
    (below : ∀ frame ∈ frames.tail, frame.Calls) (nodup : (waiting (frames ++ rest) ++ s'.linked).Nodup)
    (alive : ∀ q ∈ waiting (frames ++ rest) ++ s'.linked, q ∈ s'.refs)
    (top : ∀ proto q tries err sender, frames.head? = some (.sent proto q tries err sender) →
      q ∈ s'.refs ∧ q ∉ waiting (frames ++ rest) ∧ (proto = .udp → q ∉ s'.linked)) : Busy s' := by
  rw [← stack] at nodup alive top
  refine ⟨nodup, alive, ?_, ?_⟩
  · intro proto q tries err sender rest' eq
    rw [stack] at eq
    cases frames with
    | nil =>
      subst eq
      exact (calls _ (List.mem_cons_self ..)).elim
    | cons frame frames =>
      obtain ⟨rfl, -⟩ := List.cons.inj eq
      exact top _ _ _ _ _ rfl
  · intro frame inside
    rw [stack] at inside
    cases frames with
    | nil => exact calls frame (List.mem_of_mem_tail inside)
    | cons top frames =>
      rcases List.mem_append.mp inside with here | there
      · exact below frame here
      · exact calls frame there

theorem Armed.of (armed : Armed s) (frames : List Frame) (stack : s.stack = top :: rest)
    (stack' : s'.stack = frames ++ rest)
    (starts : ∀ y ∈ s'.queries, y.tmr = none → ∃ x ∈ s.queries, x.ref = y.ref ∧ x.tmr = none ∧
      (top.Starts y.ref → ∃ frame ∈ frames, frame.Starts y.ref)) : Armed s' := by
  intro y inside stopped
  obtain ⟨x, member, same, stopped', on⟩ := starts y inside stopped
  obtain ⟨frame, there, starting⟩ := armed x member stopped'
  rw [same] at starting
  rw [stack] at there
  rw [stack']
  rcases List.mem_cons.mp there with rfl | behind
  · obtain ⟨frame', here, starting'⟩ := on starting
    exact ⟨frame', List.mem_append_left _ here, starting'⟩
  · exact ⟨frame, List.mem_append_right _ behind, starting⟩

theorem Apart.of (apart : Apart s) (frames : List Frame) (stack : s.stack = top :: rest)
    (stack' : s'.stack = frames ++ rest)
    (tmrs : ∀ y ∈ s'.queries, y.tmr = some .udp → ∃ x ∈ s.queries, x.ref = y.ref ∧ x.tmr = some .udp)
    (links : ∀ q ∈ s'.linked, q ∈ s.linked ∨ top.SendsTcp q)
    (sends : ∀ frame ∈ frames, ∀ q, frame.SendsTcp q → top.SendsTcp q) : Apart s' := by
  intro y inside udp
  obtain ⟨x, member, same, udp'⟩ := tmrs y inside udp
  obtain ⟨unlinked, plain⟩ := apart x member udp'
  rw [same] at unlinked plain
  rw [stack, List.forall_mem_cons] at plain
  constructor
  · intro linked
    rcases links y.ref linked with old | new
    · exact unlinked old
    · exact plain.1 new
  · intro frame there sending
    rw [stack'] at there
    rcases List.mem_append.mp there with new | old
    · exact plain.1 (sends frame new y.ref sending)
    · exact plain.2 frame old sending

theorem linked_unlinked {waiting linked : List Nat} (nodup : (waiting ++ linked).Nodup) (inside : q ∈ linked) :
    q ∉ waiting ∧ (q :: waiting ++ linked.filter (· ≠ q)).Nodup := by
  obtain ⟨first, second, apart⟩ := List.nodup_append.mp nodup
  have outside : q ∉ waiting := fun there => apart q there q inside rfl
  refine ⟨outside, ?_⟩
  rw [List.cons_append, List.nodup_cons]
  constructor
  · rw [List.mem_append, List.mem_filter]
    simp [outside]
  · exact (List.Sublist.append_left List.filter_sublist _).nodup nodup

theorem closeNext_none (none_ : s.links.find? (fun link => link.1 = tc) = none) :
    closeNext s tc err =
      { s with tcpconns := s.tcpconns.filter (fun x => x.ref ≠ tc), stack := s.stack.tail } := by
  unfold closeNext
  rw [none_]

/-- What is done next with a query of a connection that is closed. -/
def failFrame (s : Dnsc) (x : DnsQuery) (err : Option DnsErr) : Frame :=
  if (s.servers x).length ≤ x.ntx then .sent .tcp x.ref 0 (some (err.getD .ECONNREFUSED)) .handler
  else .sendTcp x.ref none .handler

theorem closeNext_some (found : s.links.find? (fun link => link.1 = tc) = some link)
    (member : s.query? link.2 = some x) : closeNext s tc err = (s.unlink link.2).push (failFrame s x err) := by
  have member' : (s.unlink link.2).query? link.2 = some x := member
  obtain ⟨-, ref⟩ := query_mem member
  unfold closeNext failFrame
  rw [found]
  dsimp only
  rw [member', ref]
  exact (apply_ite (s.unlink link.2).push _ _ _).symm

theorem closeNext_sound (sound : Sound s) (stack : s.stack = .close tc err :: rest) : Sound (closeNext s tc err) := by
  have calls := sound.busy.calls
  have nodup := sound.busy.nodup
  have alive := sound.busy.alive
  rw [stack] at calls nodup alive
  cases found : s.links.find? fun link => link.1 = tc with
  | none =>
    rw [closeNext_none found, stack]
    refine ⟨sound.books.keep rfl rfl rfl, .of [] rest rfl calls (List.forall_mem_nil _) nodup alive nofun, ?_, ?_⟩
    · exact sound.armed.of [] stack rfl fun y inside stopped => ⟨y, inside, rfl, stopped, nofun⟩
    · exact sound.apart.of [] stack rfl (fun y inside udp => ⟨y, inside, rfl, udp⟩) (fun q linked => .inl linked)
        (List.forall_mem_nil _)
  | some link =>
    have linked : link.2 ∈ s.linked := List.mem_map_of_mem (List.mem_of_find?_eq_some found)
    have live := alive link.2 (List.mem_append_right _ linked)
    obtain ⟨x, member⟩ := refs_query live
    obtain ⟨-, ref⟩ := query_mem member
    obtain ⟨outside, nodup'⟩ := linked_unlinked nodup linked
    have kept : ∀ frame ∈ Frame.close tc err :: rest, frame.Calls := by
      rw [List.forall_mem_cons]
      exact ⟨trivial, calls⟩
    have sub : ∀ q ∈ waiting (.close tc err :: rest) ++ (s.unlink link.2).linked, q ∈ s.refs := by
      rw [unlink_linked]
      intro q inside
      exact alive q ((List.Sublist.append_left List.filter_sublist _).mem inside)
    have starts (frame : Frame) : Armed ((s.unlink link.2).push frame) := by
      intro y inside stopped
      obtain ⟨frame', there, starting⟩ := sound.armed y inside stopped
      exact ⟨frame', List.mem_cons_of_mem _ there, starting⟩
    rw [← unlink_linked] at nodup'
    rw [closeNext_some found member]
    have apart (frame : Frame) (sends : ∀ q, frame.SendsTcp q → q = link.2) : Apart ((s.unlink link.2).push frame) := by
      intro y inside udp
      obtain ⟨unlinked, plain⟩ := sound.apart y inside udp
      constructor
      · show y.ref ∉ (s.unlink link.2).linked
        rw [unlink_linked]
        exact fun there => unlinked (List.mem_filter.mp there).1
      · show ∀ frame' ∈ frame :: s.stack, ¬ frame'.SendsTcp y.ref
        rw [List.forall_mem_cons]
        exact ⟨fun here => unlinked (sends _ here ▸ linked), plain⟩
    refine ⟨sound.books.keep rfl rfl rfl, ?_, starts _, apart _ ?_⟩
    rotate_left
    · unfold failFrame
      rw [ref]
      split
      · exact fun q here => Eq.symm here
      · exact fun q here => Eq.symm here
    unfold failFrame
    rw [ref]
    split
    · refine .of [.sent .tcp link.2 0 (some (err.getD .ECONNREFUSED)) .handler] (.close tc err :: rest)
        (congrArg _ stack) kept (List.forall_mem_nil _) (List.nodup_cons.mp nodup').2 sub ?_
      rintro proto q tries err sender ⟨⟩
      exact ⟨live, outside, nofun⟩
    · refine .of [.sendTcp link.2 none .handler] (.close tc err :: rest) (congrArg _ stack) kept (List.forall_mem_nil _)
        nodup' ?_ nofun
      intro q inside
      rcases List.mem_cons.mp inside with rfl | inside
      · exact live
      · exact sub q inside

/-- What sending a query may change of the queries: how many servers have been tried. -/
structure Tried (s s' : Dnsc) : Prop where
  books : Books s'
  refs : s'.refs = s.refs
  tmrs : ∀ y ∈ s'.queries, ∃ x ∈ s.queries, x.ref = y.ref ∧ x.tmr = y.tmr

theorem Tried.same (sound : Sound s) (queries : s'.queries = s.queries) (nextQuery : s'.nextQuery = s.nextQuery)
    (log : s'.log = s.log) : Tried s s' := by
  refine ⟨sound.books.keep queries nextQuery log, congrArg (List.map DnsQuery.ref) queries, ?_⟩
  intro y inside
  exact ⟨y, queries ▸ inside, rfl, rfl⟩

theorem Tried.next (sound : Sound s) (q : Nat)
    (queries : s'.queries = (s.updateQuery q fun x => { x with ntx := x.ntx + 1 }).queries)
    (nextQuery : s'.nextQuery = s.nextQuery) (log : s'.log = s.log) : Tried s s' := by
  have updated := sound.books.update (f := fun x => { x with ntx := x.ntx + 1 }) q (fun _ => rfl) fun _ => rfl
  refine ⟨updated.keep queries nextQuery log, ?_, ?_⟩
  · have refs := update_refs (s := s) (q := q) (f := fun x => { x with ntx := x.ntx + 1 }) fun _ => rfl
    exact (congrArg (List.map DnsQuery.ref) queries).trans refs
  · intro y inside
    rw [queries] at inside
    obtain ⟨x, member, rfl⟩ := update_mem inside
    refine ⟨x, member, ?_, ?_⟩ <;> split <;> rfl

/-- The loop goes on with the query, and may have called another function. -/
theorem Sound.turns (sound : Sound s) (stack : s.stack = top :: rest) (tried : Tried s s') (frames : List Frame)
    (stack' : s'.stack = frames ++ rest) (links : s'.links = s.links) (sends : waiting frames = waiting [top])
    (below : ∀ frame ∈ frames.tail, frame.Calls) (loops : ∀ proto q tries err sender,
      frames.head? ≠ some (.sent proto q tries err sender))
    (starts : ∀ q, top.Starts q → ∃ frame ∈ frames, frame.Starts q)
    (tcp : ∀ frame ∈ frames, ∀ q, frame.SendsTcp q → top.SendsTcp q) : Sound s' := by
  have calls := sound.busy.calls
  have nodup := sound.busy.nodup
  have alive := sound.busy.alive
  have linked : s'.linked = s.linked := congrArg (List.map Prod.snd) links
  have same : waiting (frames ++ rest) ++ s'.linked = waiting (top :: rest) ++ s.linked := by
    rw [linked, waiting, List.filterMap_append]
    show waiting frames ++ waiting rest ++ s.linked = _
    rw [sends, waiting, waiting, ← List.filterMap_append]
    rfl
  rw [stack] at calls nodup alive
  refine ⟨tried.books, ?_, ?_, ?_⟩
  · refine .of frames rest stack' calls below (same ▸ nodup) ?_ ?_
    · rw [same, tried.refs]
      exact alive
    · intro proto q tries err sender head
      exact absurd head (loops proto q tries err sender)
  · refine sound.armed.of frames stack stack' fun y inside stopped => ?_
    obtain ⟨x, member, ref, tmr⟩ := tried.tmrs y inside
    exact ⟨x, member, ref, tmr.trans stopped, starts y.ref⟩
  · refine sound.apart.of frames stack stack' (fun y inside udp => ?_) (fun q there => .inl (linked ▸ there)) tcp
    obtain ⟨x, member, ref, tmr⟩ := tried.tmrs y inside
    exact ⟨x, member, ref, tmr.trans udp⟩

/-- The loop is left, and the query may have been linked to a connection. -/
theorem Sound.returns (sound : Sound s) (stack : s.stack = top :: rest) (sends : top.sends = some q)
    (tried : Tried s s') (stack' : s'.stack = .sent proto q tries err sender :: rest)
    (links : s'.linked = s.linked ∨ proto = .tcp ∧ s'.linked = s.linked ++ [q])
    (starts : ∀ q', top.Starts q' → Frame.Starts q' (.sent proto q tries err sender))
    (tcp : proto = .tcp → top.SendsTcp q) : Sound s' := by
  have calls := sound.busy.calls
  have nodup := sound.busy.nodup
  have alive := sound.busy.alive
  rw [stack] at calls nodup alive
  have head : waiting (top :: rest) = q :: waiting rest := List.filterMap_cons_some sends
  rw [head] at nodup alive
  obtain ⟨fresh, nodup'⟩ := List.nodup_cons.mp nodup
  have perm : ∀ linked, linked = s.linked ∨ linked = s.linked ++ [q] →
      (waiting rest ++ linked).Nodup ∧ ∀ q' ∈ waiting rest ++ linked, q' ∈ s.refs := by
    rintro linked (rfl | rfl)
    · exact ⟨nodup', fun q' inside => alive q' (List.mem_cons_of_mem _ inside)⟩
    · rw [← List.append_assoc, List.nodup_append_comm, List.singleton_append]
      refine ⟨nodup, ?_⟩
      intro q' inside
      rcases List.mem_append.mp inside with inside | here
      · exact alive q' (List.mem_cons_of_mem _ inside)
      · rw [List.mem_singleton.mp here]
        exact alive q (List.mem_cons_self ..)
  obtain ⟨nodup'', alive'⟩ := perm s'.linked (links.imp_right And.right)
  refine ⟨tried.books, ?_, ?_, ?_⟩
  · refine .of [.sent proto q tries err sender] rest stack' calls (List.forall_mem_nil _) nodup'' ?_ ?_
    · rw [tried.refs]
      exact alive'
    · rintro proto' q' tries' err' sender' ⟨⟩
      rw [tried.refs]
      refine ⟨alive q (List.mem_cons_self ..), fun there => fresh (List.mem_append_left _ there), ?_⟩
      rintro rfl there
      rcases links with same | ⟨other, -⟩
      · exact fresh (List.mem_append_right _ (same ▸ there))
      · contradiction
  · refine sound.armed.of [.sent proto q tries err sender] stack stack' fun y inside stopped => ?_
    obtain ⟨x, member, ref, tmr⟩ := tried.tmrs y inside
    exact ⟨x, member, ref, tmr.trans stopped, fun on => ⟨_, List.mem_singleton_self _, starts y.ref on⟩⟩
  · refine sound.apart.of [.sent proto q tries err sender] stack stack' (fun y inside udp => ?_) ?_ ?_
    · obtain ⟨x, member, ref, tmr⟩ := tried.tmrs y inside
      exact ⟨x, member, ref, tmr.trans udp⟩
    · intro q' there
      rcases links with same | ⟨rfl, more⟩
      · exact .inl (same ▸ there)
      · rw [more] at there
        rcases List.mem_append.mp there with old | new
        · exact .inl old
        · exact .inr (List.mem_singleton.mp new ▸ tcp rfl)
    · intro frame here q' sending
      obtain rfl := List.mem_singleton.mp here
      cases proto with
      | udp => exact sending.elim
      | tcp => exact (show q = q' from sending) ▸ tcp rfl

theorem Busy.sendsTcp (busy : Busy s) (stack : s.stack = .sendTcp q err sender :: rest) : ∃ x, s.query? q = some x := by
  have alive := busy.alive
  rw [stack] at alive
  exact refs_query (alive q (List.mem_append_left _ (List.mem_cons_self ..)))

theorem Busy.sendsUdp (busy : Busy s) (stack : s.stack = .sendUdp q tries err sender :: rest) :
    ∃ x, s.query? q = some x := by
  have alive := busy.alive
  rw [stack] at alive
  exact refs_query (alive q (List.mem_append_left _ (List.mem_cons_self ..)))

/-- What one turn of the loop of `send_tcp` does. -/
inductive SendTcp (s : Dnsc) (q : Nat) (x : DnsQuery) (err : Option DnsErr) (sender : Sender) (rest : List Frame) :
    Option DnsErr → Dnsc → Prop
  | exhausted {result : Option DnsErr} (all : (s.servers x).length ≤ x.ntx) :
      SendTcp s q x err sender rest result { s with stack := .sent .tcp q 0 err sender :: rest }
  | refused {srv : Sa} {e : DnsErr} (next : (s.servers x)[x.ntx]? = some srv)
      (none_ : s.tcpconns.find? (tcpconnCmpHandler srv) = none) :
      SendTcp s q x err sender rest (some e)
        { s.updateQuery q (fun x => { x with ntx := x.ntx + 1 }) with stack := .sendTcp q (some e) sender :: rest }
  | connects {srv : Sa} (next : (s.servers x)[x.ntx]? = some srv)
      (none_ : s.tcpconns.find? (tcpconnCmpHandler srv) = none) :
      SendTcp s q x err sender rest none
        { s.updateQuery q (fun x => { x with ntx := x.ntx + 1 }) with
          tcpconns := s.tcpconns ++ [⟨s.nextTcpconn, srv, true, false, 0, Mbuf.alloc 1500⟩]
          links := s.links ++ [(s.nextTcpconn, q)]
          nextTcpconn := s.nextTcpconn + 1
          stack := .sent .tcp q 0 none sender :: rest }
  | failed {srv : Sa} {e : DnsErr} {tc : Tcpconn} (next : (s.servers x)[x.ntx]? = some srv)
      (found : s.tcpconns.find? (tcpconnCmpHandler srv) = some tc) (connected : tc.connected = true) :
      SendTcp s q x err sender rest (some e)
        { (s.updateQuery q (fun x => { x with ntx := x.ntx + 1 })).updateTcpconn tc.ref
            (fun x => { x with conn := false }) with
          stack := .close tc.ref (some e) :: .sendTcp q (some e) sender :: rest }
  | sent {srv : Sa} {tc : Tcpconn} (next : (s.servers x)[x.ntx]? = some srv)
      (found : s.tcpconns.find? (tcpconnCmpHandler srv) = some tc) (connected : tc.connected = true) :
      SendTcp s q x err sender rest none
        { s.updateQuery q (fun x => { x with ntx := x.ntx + 1 }) with
          links := s.links ++ [(tc.ref, q)]
          stack := .sent .tcp q 0 none sender :: rest }
  | joined {result : Option DnsErr} {srv : Sa} {tc : Tcpconn} (next : (s.servers x)[x.ntx]? = some srv)
      (found : s.tcpconns.find? (tcpconnCmpHandler srv) = some tc) (connecting : tc.connected = false) :
      SendTcp s q x err sender rest result
        { s.updateQuery q (fun x => { x with ntx := x.ntx + 1 }) with
          links := s.links ++ [(tc.ref, q)]
          stack := .sent .tcp q 0 err sender :: rest }

theorem sendTcpNext_cases (stack : s.stack = .sendTcp q err sender :: rest) (member : s.query? q = some x) :
    SendTcp s q x err sender rest result (sendTcpNext s q err sender result) := by
  have tail : s.stack.tail = rest := by rw [stack]; rfl
  unfold sendTcpNext
  dsimp only
  rw [member, tail]
  dsimp only
  cases next : (s.servers x)[x.ntx]? with
  | none => exact .exhausted (List.getElem?_eq_none_iff.mp next)
  | some srv =>
    dsimp only
    cases found : s.tcpconns.find? (tcpconnCmpHandler srv) with
    | none =>
      cases result with
      | none => exact .connects next found
      | some e => exact .refused next found
    | some tc =>
      dsimp only
      cases connected : tc.connected with
      | false => exact .joined next found connected
      | true =>
        cases result with
        | none => exact .sent next found connected
        | some e => exact .failed next found connected

theorem sendTcpNext_sound (sound : Sound s) (stack : s.stack = .sendTcp q err sender :: rest) :
    Sound (sendTcpNext s q err sender result) := by
  obtain ⟨x, member⟩ := sound.busy.sendsTcp stack
  have cases_ := @sendTcpNext_cases s q x err result sender rest stack member
  generalize sendTcpNext s q err sender result = s' at cases_ ⊢
  cases cases_ with
  | exhausted all =>
    exact sound.returns stack rfl (.same sound rfl rfl rfl) rfl (.inl rfl) (fun q' starts => starts) fun _ => rfl
  | refused next none_ =>
    refine sound.turns stack (.next sound q rfl rfl rfl) [.sendTcp q _ sender] rfl rfl rfl (List.forall_mem_nil _) nofun
      (fun q' starts => ⟨_, List.mem_singleton_self _, starts⟩) ?_
    rw [List.forall_mem_singleton]
    exact fun q' sending => sending
  | connects next none_ =>
    exact sound.returns stack rfl (.next sound q rfl rfl rfl) rfl (.inr ⟨rfl, List.map_append⟩)
      (fun q' starts => starts) fun _ => rfl
  | failed next found connected =>
    refine sound.turns stack (.next sound q rfl rfl rfl) [.close _ _, .sendTcp q _ sender] rfl rfl rfl ?_ nofun
      (fun q' starts => ⟨_, List.mem_cons_of_mem _ (List.mem_singleton_self _), starts⟩) ?_
    · intro frame inside
      rw [List.mem_singleton.mp inside]
      trivial
    · rw [List.forall_mem_cons, List.forall_mem_singleton]
      exact ⟨fun q' sending => sending.elim, fun q' sending => sending⟩
  | sent next found connected =>
    exact sound.returns stack rfl (.next sound q rfl rfl rfl) rfl (.inr ⟨rfl, List.map_append⟩)
      (fun q' starts => starts) fun _ => rfl
  | joined next found connecting =>
    exact sound.returns stack rfl (.next sound q rfl rfl rfl) rfl (.inr ⟨rfl, List.map_append⟩)
      (fun q' starts => starts) fun _ => rfl

/-- What one turn of the loop of `send_udp` does. -/
inductive SendUdp (s : Dnsc) (q tries : Nat) (x : DnsQuery) (err : Option DnsErr) (sender : Sender) (rest : List Frame) :
    Option DnsErr → Dnsc → Prop
  | exhausted {result : Option DnsErr} (all : (s.servers x).length ≤ tries) :
      SendUdp s q tries x err sender rest result { s with stack := .sent .udp q tries err sender :: rest }
  | failed {e : DnsErr} (next : tries < (s.servers x).length) :
      SendUdp s q tries x err sender rest (some e)
        { s.updateQuery q (fun x => { x with ntx := x.ntx + 1 }) with
          stack := .sendUdp q (tries + 1) (some e) sender :: rest }
  | sent (next : tries < (s.servers x).length) :
      SendUdp s q tries x err sender rest none
        { s.updateQuery q (fun x => { x with ntx := x.ntx + 1 }) with
          stack := .sent .udp q (tries + 1) none sender :: rest }

theorem sendUdpNext_cases (stack : s.stack = .sendUdp q tries err sender :: rest) (member : s.query? q = some x) :
    SendUdp s q tries x err sender rest result (sendUdpNext s q tries err sender result) := by
  have tail : s.stack.tail = rest := by rw [stack]; rfl
  unfold sendUdpNext
  dsimp only
  rw [member, tail]
  dsimp only
  by_cases next : tries < (s.servers x).length
  · rw [if_pos next]
    cases result with
    | none => exact .sent next
    | some e => exact .failed next
  · rw [if_neg next]
    exact .exhausted (Nat.not_lt.mp next)

theorem sendUdpNext_sound (sound : Sound s) (stack : s.stack = .sendUdp q tries err sender :: rest) :
    Sound (sendUdpNext s q tries err sender result) := by
  obtain ⟨x, member⟩ := sound.busy.sendsUdp stack
  have cases_ := @sendUdpNext_cases s q tries x err result sender rest stack member
  generalize sendUdpNext s q tries err sender result = s' at cases_ ⊢
  cases cases_ with
  | exhausted all =>
    exact sound.returns stack rfl (.same sound rfl rfl rfl) rfl (.inl rfl) (fun q' starts => starts) nofun
  | failed next =>
    refine sound.turns stack (.next sound q rfl rfl rfl) [.sendUdp q _ _ sender] rfl rfl rfl (List.forall_mem_nil _) nofun
      (fun q' starts => ⟨_, List.mem_singleton_self _, starts⟩) ?_
    rw [List.forall_mem_singleton]
    exact fun q' sending => sending.elim
  | sent next =>
    exact sound.returns stack rfl (.next sound q rfl rfl rfl) rfl (.inl rfl) (fun q' starts => starts) nofun

/-- What is done with what a sending function returned. -/
inductive SentNext (s : Dnsc) (proto : Proto) (q : Nat) (rest : List Frame) : Option DnsErr → Sender → Dnsc → Prop
  | refused {e : DnsErr} {qp : Bool} :
      SentNext s proto q rest (some e) (.query qp) { s.without q [.released q, .refused q e] with stack := rest }
  | called {e : DnsErr} :
      SentNext s proto q rest (some e) .handler { s.without q [.called q (some e) none, .released q] with stack := rest }
  | started {sender : Sender} {f : DnsQuery → DnsQuery} (tmr : ∀ x, (f x).tmr = some proto)
      (keeps : ∀ x, (f x).ref = x.ref ∧ (f x).own = x.own ∧ (f x).ntx = x.ntx ∧ (f x).qh = x.qh) :
      SentNext s proto q rest none sender { s.updateQuery q f with stack := rest }
  | waits (tcp : proto = .tcp) : SentNext s proto q rest none .handler { s with stack := rest }

theorem sentNext_cases (sound : Sound s) (stack : s.stack = .sent proto q tries err sender :: rest) :
    SentNext s proto q rest err sender (sentNext s proto q err sender) := by
  have tail : s.stack.tail = rest := by rw [stack]; rfl
  unfold sentNext
  dsimp only
  rw [tail]
  cases err with
  | some e =>
    cases sender with
    | query qp =>
      dsimp only
      rw [queryDestructor_without, without_emit]
      exact .refused
    | handler =>
      obtain ⟨x, found⟩ := refs_query (sound.busy.top _ _ _ _ _ _ stack).1
      have found' : Dnsc.query? { s with stack := rest } q = some x := found
      dsimp only
      rw [finish_without found' (sound.books.handled x (query_mem found).1)]
      exact .called
  | none =>
    cases sender with
    | query qp => exact .started (fun _ => rfl) fun _ => ⟨rfl, rfl, rfl, rfl⟩
    | handler =>
      cases proto with
      | udp => exact .started (fun _ => rfl) fun _ => ⟨rfl, rfl, rfl, rfl⟩
      | tcp => exact .waits rfl

/-- A query that no loop is about to send is released. -/
theorem Sound.without (sound : Sound s) {outs : List Out} (books : Books (s.without q outs)) (stack : List Frame)
    (calls : ∀ frame ∈ stack, frame.Calls) (fresh : q ∉ waiting stack) (same : waiting s.stack = waiting stack)
    (starts : ∀ frame ∈ s.stack, ∀ q', q' ≠ q → frame.Starts q' → frame ∈ stack) (sub : stack ⊆ s.stack) :
    Sound { s.without q outs with stack := stack } := by
  have nodup := sound.busy.nodup
  have alive := sound.busy.alive
  rw [same] at nodup alive
  have linked : Dnsc.linked { s.without q outs with stack := stack } = s.linked.filter (· ≠ q) := without_linked s q outs
  have refs : Dnsc.refs { s.without q outs with stack := stack } = s.refs.filter (· ≠ q) := without_refs s q outs
  refine ⟨books.keep rfl rfl rfl, ?_, ?_, ?_⟩
  · refine .of [] stack rfl calls (List.forall_mem_nil _) ?_ ?_ nofun
    · rw [linked]
      exact (List.Sublist.append_left List.filter_sublist _).nodup nodup
    · rw [linked, refs]
      intro q' inside
      rcases List.mem_append.mp inside with inside | inside
      · have other : q' ≠ q := fun here => fresh (here ▸ inside)
        exact List.mem_filter.mpr ⟨alive q' (List.mem_append_left _ inside), decide_eq_true other⟩
      · obtain ⟨inside, other⟩ := List.mem_filter.mp inside
        exact List.mem_filter.mpr ⟨alive q' (List.mem_append_right _ inside), other⟩
  · intro y inside stopped
    obtain ⟨inside, other⟩ := List.mem_filter.mp inside
    obtain ⟨frame, there, starting⟩ := sound.armed y inside stopped
    exact ⟨frame, starts frame there y.ref (of_decide_eq_true other) starting, starting⟩
  · intro y inside udp
    obtain ⟨unlinked, plain⟩ := sound.apart y (List.mem_filter.mp inside).1 udp
    rw [linked]
    exact ⟨fun there => unlinked (List.mem_filter.mp there).1, fun frame there => plain frame (sub there)⟩

theorem calls_sends {frame : Frame} {stack : List Frame} (calls : frame.Calls) (sending : frame.SendsTcp q)
    (there : frame ∈ stack) : q ∈ waiting stack := by
  cases frame with
  | close => exact sending.elim
  | sendTcp q' err sender =>
    obtain rfl : q' = q := sending
    exact List.mem_filterMap.mpr ⟨_, there, rfl⟩
  | sendUdp => exact calls.elim
  | sent => exact calls.elim

theorem sentNext_sound (sound : Sound s) (stack : s.stack = .sent proto q tries err sender :: rest) :
    Sound (sentNext s proto q err sender) := by
  obtain ⟨live, fresh, unlinked⟩ := sound.busy.top _ _ _ _ _ _ stack
  have calls := sound.busy.calls
  have tail : s.stack.tail = rest := by rw [stack]; rfl
  have same : waiting s.stack = waiting rest := by rw [stack]; rfl
  rw [tail] at calls
  rw [same] at fresh
  have others : ∀ frame ∈ s.stack, ∀ q', q' ≠ q → frame.Starts q' → frame ∈ rest := by
    intro frame inside q' other starts
    rw [stack] at inside
    rcases List.mem_cons.mp inside with rfl | behind
    · cases proto
      · exact absurd starts.symm other
      · exact absurd starts.1.symm other
    · exact behind
  have behind : rest ⊆ s.stack := by
    rw [stack]
    exact List.subset_cons_self _ _
  have below : Busy { s with stack := rest } := by
    have nodup := sound.busy.nodup
    have alive := sound.busy.alive
    rw [same] at nodup alive
    exact .of [] rest rfl calls (List.forall_mem_nil _) nodup alive nofun
  have updated (f : DnsQuery → DnsQuery) (keeps : ∀ x, (f x).ref = x.ref) (handles : ∀ x, (f x).qh = x.qh)
      (started : ∀ x, (f x).tmr = some proto) : Sound { s.updateQuery q f with stack := rest } := by
    have refs : Dnsc.refs { s.updateQuery q f with stack := rest } = s.refs := update_refs keeps
    refine ⟨(sound.books.update q keeps handles).keep rfl rfl rfl, ?_, ?_, ?_⟩
    · refine .of [] rest rfl calls (List.forall_mem_nil _) below.nodup ?_ nofun
      rw [refs]
      exact below.alive
    · intro y inside stopped
      obtain ⟨x, member, rfl⟩ := update_mem inside
      split at stopped
      · rw [started] at stopped
        contradiction
      · rename_i other
        obtain ⟨frame, there, starting⟩ := sound.armed x member stopped
        rw [if_neg other]
        exact ⟨frame, others frame there x.ref other starting, starting⟩
    · intro y inside udp
      obtain ⟨x, member, rfl⟩ := update_mem inside
      split at udp
      · rename_i here
        rw [started] at udp
        rw [if_pos here, keeps, here]
        refine ⟨unlinked (Option.some.inj udp), ?_⟩
        intro frame there sending
        exact fresh (calls_sends (calls frame there) sending there)
      · rename_i other
        rw [if_neg other]
        obtain ⟨apart, plain⟩ := sound.apart x member udp
        exact ⟨apart, fun frame there => plain frame (behind there)⟩
  have cases_ := sentNext_cases sound stack
  generalize sentNext s proto q err sender = s' at cases_ ⊢
  cases cases_ with
  | @refused e qp =>
    have books := sound.books.destroyed live (.refused q e) (fun _ => rfl) fun _ => rfl
    rw [queryDestructor_without, without_emit] at books
    exact sound.without books rest calls fresh same others behind
  | @called e =>
    have books := sound.books.finish live (some e) none
    obtain ⟨x, found⟩ := refs_query live
    rw [finish_without found (sound.books.handled x (query_mem found).1)] at books
    exact sound.without books rest calls fresh same others behind
  | started tmr keeps => exact updated _ (fun x => (keeps x).1) (fun x => (keeps x).2.2.2) tmr
  | waits tcp =>
    refine ⟨sound.books.keep rfl rfl rfl, below, ?_, ?_⟩
    · refine sound.armed.of [] stack rfl fun y inside stopped => ⟨y, inside, rfl, stopped, ?_⟩
      subst tcp
      rintro ⟨-, handler⟩
      exact absurd rfl handler
    · exact sound.apart.of [] stack rfl (fun y inside udp => ⟨y, inside, rfl, udp⟩) (fun q linked => .inl linked)
        (List.forall_mem_nil _)

theorem goOn_sound (sound : Sound s) (result : Option DnsErr) : Sound (goOn s result) := by
  unfold goOn
  split
  · exact sound
  · rename_i stack
    exact closeNext_sound sound stack
  · rename_i stack
    exact sendTcpNext_sound sound stack
  · rename_i stack
    exact sendUdpNext_sound sound stack
  · rename_i stack
    exact sentNext_sound sound stack

end

end Baresip.Dns
