import Baresip.Dns.Expiries
import Baresip.Dns.Returning
import Baresip.Library.Runs

set_option linter.dupNamespace false

namespace Baresip.Dns

open Re Library

/-- A connection that has not been closed has the query. -/
def Pending (s : Dnsc) (q : Nat) : Prop := ∃ tc ∈ s.tcpconns, tc.conn = true ∧ (tc.ref, q) ∈ s.links

/-- There is no server left for the query. -/
def Exhausted (s : Dnsc) (q tries : Nat) (x : DnsQuery) : Proto → Prop
  | .tcp => (s.servers x).length ≤ x.ntx ∧ ¬ Pending s q
  | .udp => (s.servers x).length ≤ tries

/-- An error of a connection or of a socket that is about to be reported. -/
def Justified (s : Dnsc) : Prop := ∀ proto q tries e sender rest x,
  s.stack = .sent proto q tries (some e) sender :: rest → s.query? q = some x → Exhausted s q tries x proto

/-- The next server of a query that has failed at an earlier one has a connection that is still being established. -/
inductive JoinsAfterError (s : Dnsc) : Action → Prop
  | intro {q : Nat} {e : DnsErr} {sender : Sender} {rest : List Frame} {x : DnsQuery} {srv : Sa} {tc : Tcpconn}
      (result : Option DnsErr) (stack : s.stack = .sendTcp q (some e) sender :: rest) (member : s.query? q = some x)
      (next : (s.servers x)[x.ntx]? = some srv) (found : s.tcpconns.find? (tcpconnCmpHandler srv) = some tc)
      (connecting : tc.connected = false) : JoinsAfterError s (.goOn result)

/-- What is to hold of the queries of a client. -/
structure Settled (s : Dnsc) : Prop where
  live : ∀ q ∈ s.refs, s.log.countP (Out.ends q) = 0 ∧ s.log.countP (Out.frees q) = 0 ∧ expiries s q ≤ NTX_MAX
  gone : ∀ q < s.nextQuery, q ∉ s.refs → s.log.countP (Out.ends q) = 1 ∧ s.log.countP (Out.frees q) = 1
  patient (q : Nat) : expiries s q ≤ NTX_MAX + 1
  armed : s.stack = [] → ∀ x ∈ s.queries, x.tmr ≠ none
  returns : ∃ n, ∀ results : List (Option DnsErr), n ≤ results.length → (results.foldl goOn s).stack = []

section
variable {s s' : Dnsc} {q tries tc : Nat} {x : DnsQuery} {err result : Option DnsErr} {sender : Sender} {a : Action}
  {rest : List Frame} {proto : Proto}

theorem Sound.settled (sound : Sound s) (paid : Paid s) : Settled s where
  live q inside := by
    have freed := sound.books.freed q
    rw [if_pos inside, if_pos (sound.books.known q inside)] at freed
    have zero : s.log.countP (Out.frees q) = 0 := Nat.succ.inj freed
    obtain ⟨x, member, rfl⟩ := List.mem_map.mp inside
    exact ⟨(sound.books.ended x.ref).trans zero, zero, paid.few x member⟩
  gone q born released := by
    have freed := sound.books.freed q
    rw [if_neg released, if_pos born] at freed
    exact ⟨(sound.books.ended q).trans freed, freed⟩
  patient := paid.bound
  armed idle x inside stopped := by
    obtain ⟨frame, there, -⟩ := sound.armed x inside stopped
    rw [idle] at there
    contradiction
  returns := ⟨work s, fun results enough => goOn_returns sound results enough⟩

theorem justified_of_calls (stack : s.stack = rest) (calls : ∀ frame ∈ rest, frame.Calls) : Justified s := by
  intro proto q tries e sender rest' x top
  rw [stack] at top
  subst top
  exact (calls _ (List.mem_cons_self ..)).elim

theorem justified_of_top {top : Frame} (stack : s.stack = top :: rest)
    (plain : ∀ proto q tries e sender, top ≠ .sent proto q tries (some e) sender) : Justified s := by
  intro proto q tries e sender rest' x there
  rw [stack] at there
  exact absurd (List.cons.inj there).1 (plain proto q tries e sender)

theorem not_pending (unlinked : q ∉ s.linked) : ¬ Pending s q := by
  rintro ⟨tc, -, -, inside⟩
  exact unlinked (List.mem_map_of_mem inside)

theorem closeNext_justified (sound : Sound s) (stack : s.stack = .close tc err :: rest) :
    Justified (closeNext s tc err) := by
  have calls := sound.busy.calls
  have alive := sound.busy.alive
  rw [stack] at calls
  cases found : s.links.find? fun link => link.1 = tc with
  | none =>
    rw [closeNext_none found]
    exact justified_of_calls (congrArg List.tail stack) calls
  | some link =>
    have linked : link.2 ∈ s.linked := List.mem_map_of_mem (List.mem_of_find?_eq_some found)
    obtain ⟨x, member⟩ := refs_query (alive link.2 (List.mem_append_right _ linked))
    obtain ⟨-, ref⟩ := query_mem member
    rw [closeNext_some found member]
    unfold failFrame
    rw [ref]
    split
    · rename_i all
      intro proto q tries e sender rest' y top member'
      obtain ⟨⟨⟩, -⟩ := List.cons.inj top
      obtain rfl := Option.some.inj (member.symm.trans member')
      refine ⟨all, not_pending ?_⟩
      show link.2 ∉ (s.unlink link.2).linked
      rw [unlink_linked]
      exact fun there => absurd rfl (of_decide_eq_true (List.mem_filter.mp there).2)
    · exact justified_of_top rfl nofun

theorem sendTcpNext_justified_iff (sound : Sound s) (stack : s.stack = .sendTcp q err sender :: rest)
    (result : Option DnsErr) :
    Justified (sendTcpNext s q err sender result) ↔ ¬ JoinsAfterError s (.goOn result) := by
  have nodup := sound.busy.nodup
  rw [stack] at nodup
  obtain ⟨x, member⟩ := sound.busy.sendsTcp stack
  have unlinked : q ∉ s.linked := fun there => (List.nodup_append.mp nodup).2.2 q (List.mem_cons_self ..) q there rfl
  have cases_ := @sendTcpNext_cases s q x err result sender rest stack member
  generalize sendTcpNext s q err sender result = s' at cases_ ⊢
  -- a turn that does not join a connection takes the only one that the query could have joined
  have plain (other : ∀ e srv tc, err = some e → (s.servers x)[x.ntx]? = some srv →
      s.tcpconns.find? (tcpconnCmpHandler srv) = some tc → tc.connected = true) :
      ¬ JoinsAfterError s (.goOn result) := by
    rintro ⟨_, stack', member', next, found, connecting⟩
    rw [stack] at stack'
    obtain ⟨⟨⟩, -⟩ := List.cons.inj stack'
    obtain rfl := Option.some.inj (member.symm.trans member')
    rw [other _ _ _ rfl next found] at connecting
    contradiction
  cases cases_ with
  | exhausted all =>
    refine iff_of_true ?_ (plain fun e srv tc _ next _ => ?_)
    · intro proto q' tries e sender' rest' y top member'
      obtain ⟨⟨⟩, -⟩ := List.cons.inj top
      obtain rfl := Option.some.inj (member.symm.trans member')
      exact ⟨all, not_pending unlinked⟩
    · rw [List.getElem?_eq_none_iff.mpr all] at next
      contradiction
  | refused next none_ =>
    refine iff_of_true (justified_of_top rfl nofun) (plain fun e srv tc _ next' found => ?_)
    obtain rfl := Option.some.inj (next.symm.trans next')
    rw [none_] at found
    contradiction
  | connects next none_ =>
    refine iff_of_true (justified_of_top rfl nofun) (plain fun e srv tc _ next' found => ?_)
    obtain rfl := Option.some.inj (next.symm.trans next')
    rw [none_] at found
    contradiction
  | failed next found connected =>
    refine iff_of_true (justified_of_top rfl nofun) (plain fun e srv tc _ next' found' => ?_)
    obtain rfl := Option.some.inj (next.symm.trans next')
    obtain rfl := Option.some.inj (found.symm.trans found')
    exact connected
  | sent next found connected =>
    refine iff_of_true (justified_of_top rfl nofun) (plain fun e srv tc _ next' found' => ?_)
    obtain rfl := Option.some.inj (next.symm.trans next')
    obtain rfl := Option.some.inj (found.symm.trans found')
    exact connected
  | joined next found connecting =>
    rename_i srv tc
    cases err with
    | none =>
      exact iff_of_true (justified_of_top rfl nofun) (plain fun e srv tc none_ => absurd none_ nofun)
    | some e =>
      refine iff_of_false ?_ (not_not.mpr (.intro result stack member next found connecting))
      intro justified
      have member' := query_update (f := fun x => { x with ntx := x.ntx + 1 }) (fun _ => rfl) member
      obtain ⟨-, idle⟩ := justified .tcp q 0 e sender rest _ rfl member'
      have accepted : tcpconnCmpHandler srv tc = true := List.find?_some found
      have open_ : tc.conn = true := (Bool.and_eq_true_iff.mp accepted).1
      exact idle ⟨tc, List.mem_of_find?_eq_some found, open_, List.mem_append_right _ (List.mem_singleton_self _)⟩

theorem sendUdpNext_justified (sound : Sound s) (stack : s.stack = .sendUdp q tries err sender :: rest) :
    Justified (sendUdpNext s q tries err sender result) := by
  obtain ⟨x, member⟩ := sound.busy.sendsUdp stack
  have cases_ := @sendUdpNext_cases s q tries x err result sender rest stack member
  generalize sendUdpNext s q tries err sender result = s' at cases_ ⊢
  cases cases_ with
  | exhausted all =>
    intro proto q' tries' e sender' rest' y top member'
    obtain ⟨⟨⟩, -⟩ := List.cons.inj top
    obtain rfl := Option.some.inj (member.symm.trans member')
    exact all
  | failed next => exact justified_of_top rfl nofun
  | sent next => exact justified_of_top rfl nofun

theorem finish_stack (s : Dnsc) (q : Nat) (err : Option DnsErr) (reply : Option (Dnshdr × RrLists)) :
    (finish s q err reply).stack = s.stack := by
  unfold finish queryHandler
  dsimp only
  split
  · split <;> rfl
  · rfl

theorem sentNext_stack (s : Dnsc) (proto : Proto) (q : Nat) (err : Option DnsErr) (sender : Sender) :
    (sentNext s proto q err sender).stack = s.stack.tail := by
  unfold sentNext
  cases err with
  | some e =>
    cases sender with
    | query qp => rfl
    | handler => exact finish_stack _ _ _ _
  | none =>
    cases sender with
    | query qp => rfl
    | handler => cases proto <;> rfl

theorem goOn_justified_iff (sound : Sound s) (justified : Justified s) (result : Option DnsErr) :
    Justified (goOn s result) ↔ ¬ JoinsAfterError s (.goOn result) := by
  have other (top : Frame) (rest : List Frame) (stack : s.stack = top :: rest)
      (plain : ∀ q e sender, top ≠ .sendTcp q (some e) sender) : ¬ JoinsAfterError s (.goOn result) := by
    rintro ⟨_, stack', -⟩
    rw [stack] at stack'
    exact plain _ _ _ (List.cons.inj stack').1
  unfold goOn
  split
  · rename_i idle
    refine iff_of_true justified ?_
    rintro ⟨_, stack', -⟩
    rw [idle] at stack'
    contradiction
  · rename_i stack
    exact iff_of_true (closeNext_justified sound stack) (other _ _ stack nofun)
  · rename_i stack
    exact sendTcpNext_justified_iff sound stack result
  · rename_i stack
    exact iff_of_true (sendUdpNext_justified sound stack) (other _ _ stack nofun)
  · rename_i stack
    refine iff_of_true (justified_of_calls ?_ sound.busy.calls) (other _ _ stack nofun)
    exact sentNext_stack _ _ _ _ _

theorem justified_idle (idle : s.stack = []) : Justified s := justified_of_calls idle (List.forall_mem_nil _)

theorem event_justified (sound : Sound s) (idle : s.stack = []) (a : Action) : Justified (event s a) := by
  have closed (s : Dnsc) (tc : Nat) (err : Option DnsErr) : Justified (tcpconnClose s tc err) :=
    justified_of_top rfl nofun
  cases a with
  | query args id =>
    have cases_ := query_cases sound.books args id
    show Justified (query s args id)
    generalize query s args id = s' at cases_ ⊢
    cases cases_ with
    | noServer => exact justified_idle idle
    | refused e => exact justified_idle idle
    | tcp => exact justified_of_top rfl nofun
    | udp => exact justified_of_top rfl nofun
  | goOn result => exact justified_idle idle
  | udpRecv msg => exact justified_idle (replyRecv_sound msg ⟨sound, idle⟩).2
  | tcpRecv tc segment =>
    unfold event
    dsimp only
    split
    · exact justified_idle idle
    · split
      · unfold tcpRecv
        split
        · exact justified_idle idle
        · rename_i tc' err result
          obtain ⟨-, idle'⟩ := tcpRecvHandler_kept (fun s => Sound s ∧ s.stack = []) (fun s msg => replyRecv_sound msg)
            ⟨sound, idle⟩ result
          dsimp only
          split
          · exact justified_idle idle'
          · exact closed _ _ _
      · exact justified_idle idle
  | tcpEstab tc results =>
    unfold event
    dsimp only
    split
    · exact justified_idle idle
    · split
      · exact justified_idle idle
      · unfold tcpEstabHandler
        dsimp only
        split
        · exact closed _ _ _
        · exact justified_idle idle
  | tcpClose tc err =>
    unfold event
    dsimp only
    split
    · exact justified_idle idle
    · exact closed _ _ _
  | tcpTimeout tc =>
    unfold event
    dsimp only
    split
    · exact justified_idle idle
    · exact closed _ _ _
  | queryTimeout q =>
    unfold event
    dsimp only
    split
    · exact justified_idle idle
    · rename_i member
      split
      · exact justified_idle idle
      · rename_i tmr
        have cases_ := queryTimeout_cases sound.books member tmr
        generalize queryTimeout s _ _ = s' at cases_ ⊢
        cases cases_ with
        | ended => exact justified_idle idle
        | again udp few => exact justified_of_top rfl nofun
  | cancel q =>
    unfold event
    dsimp only
    split
    · exact justified_idle idle
    · split
      · exact justified_idle idle
      · exact justified_idle idle
  | srvSet srvv => exact justified_idle idle

theorem step_justified_iff (s : Dnsc) (a : Action) (sound : Sound s) (justified : Justified s) :
    Justified (step s a) ↔ ¬ JoinsAfterError s a := by
  have idle (a : Action) (event_ : step s a = if s.stack = [] then event s a else s) : Justified (step s a) := by
    rw [event_]
    split
    · exact event_justified sound ‹_› a
    · exact justified
  cases a with
  | goOn result => exact goOn_justified_iff sound justified result
  | _ => exact iff_of_true (idle _ rfl) nofun

end

def queryOf (own : List Sa) : QueryArgs := ⟨0, ascii "re", 1, 1, none, .tcp, some own, false, true, true⟩

/-- The first query waits for the connection to the second server. The other query loses its connection to the third
    server and cannot connect to the first one. -/
def joining : List Action :=
  [.query (queryOf [.inet 2 53]) 1, .goOn none, .goOn none,
    .query (queryOf [.inet 3 53, .inet 1 53, .inet 2 53]) 2, .goOn none, .goOn none,
    .tcpClose 1 none, .goOn none, .goOn (some .ECONNREFUSED), .goOn none]

end Baresip.Dns
