import Baresip.Dns.Failover

set_option linter.dupNamespace false

namespace Baresip.Dns

open Re Library

section
variable {s s' : Dnsc} {q tc : Nat} {x : DnsQuery} {proto : Proto}

theorem Sound.released (sound : Sound s) (idle : s.stack = []) {outs : List Out} (books : Books (s.without q outs)) :
    Sound (s.without q outs) := by
  have released := sound.without books [] (List.forall_mem_nil _) nofun (by rw [idle])
    (by rw [idle]; exact List.forall_mem_nil _)
    (List.nil_subset _)
  cases s
  cases idle
  exact released

theorem Sound.finish (sound : Sound s) (idle : s.stack = []) (live : q ∈ s.refs) (err : Option DnsErr)
    (reply : Option (Dnshdr × RrLists)) : Sound (finish s q err reply) ∧ (finish s q err reply).stack = [] := by
  obtain ⟨x, found⟩ := refs_query live
  have books := sound.books.finish live err reply
  rw [finish_without found (sound.books.handled x (query_mem found).1)] at books ⊢
  exact ⟨sound.released idle books, idle⟩

theorem Sound.update (sound : Sound s) {f : DnsQuery → DnsQuery} (q : Nat) (keeps : ∀ x, (f x).ref = x.ref)
    (handles : ∀ x, (f x).qh = x.qh) (started : ∀ x, (f x).tmr = none → x.tmr = none)
    (udp : (∀ x, (f x).tmr = some .udp → x.tmr = some .udp) ∨ s.stack = [] ∧ q ∉ s.linked) :
    Sound (s.updateQuery q f) := by
  refine ⟨sound.books.update q keeps handles, ⟨sound.busy.nodup, ?_, ?_, sound.busy.calls⟩, ?_, ?_⟩
  · rw [update_refs keeps]
    exact sound.busy.alive
  · rw [update_refs keeps]
    exact sound.busy.top
  · intro y inside stopped
    obtain ⟨x, member, rfl⟩ := update_mem inside
    split at stopped
    · rename_i here
      rw [if_pos here, keeps]
      exact sound.armed x member (started x stopped)
    · rename_i other
      rw [if_neg other]
      exact sound.armed x member stopped
  · intro y inside again
    obtain ⟨x, member, rfl⟩ := update_mem inside
    split at again
    · rename_i here
      rw [if_pos here, keeps]
      rcases udp with udp | ⟨idle, unlinked⟩
      · exact sound.apart x member (udp x again)
      · rw [here]
        refine ⟨unlinked, ?_⟩
        show ∀ frame ∈ s.stack, ¬ frame.SendsTcp q
        rw [idle]
        exact List.forall_mem_nil _
    · rename_i other
      rw [if_neg other]
      exact sound.apart x member again

theorem tcpconnClose_sound (sound : Sound s) (idle : s.stack = []) (tc : Nat) (err : Option DnsErr) :
    Sound (tcpconnClose s tc err) := by
  have nodup := sound.busy.nodup
  have alive := sound.busy.alive
  rw [idle] at nodup alive
  refine ⟨sound.books.keep rfl rfl rfl, .of [.close tc err] [] (congrArg _ idle) (List.forall_mem_nil _)
    (List.forall_mem_nil _) nodup alive nofun, ?_, ?_⟩
  · intro y inside stopped
    obtain ⟨frame, there, -⟩ := sound.armed y inside stopped
    rw [idle] at there
    contradiction
  · intro y inside udp
    refine ⟨(sound.apart y inside udp).1, ?_⟩
    show ∀ frame ∈ Frame.close tc err :: s.stack, ¬ frame.SendsTcp y.ref
    rw [idle, List.forall_mem_singleton]
    exact fun sending => sending

/-- The query that a reply is for. -/
def Verdict.query : Verdict → Option Nat
  | unknown _ => none
  | nextServer q | malformed q _ | more q _ | answer q _ _ => some q

theorem replyVerdict_refs {msg : List Byte} (known : (replyVerdict s msg).query = some q) : q ∈ s.refs := by
  unfold replyVerdict at known
  split at known
  · contradiction
  · split at known
    · contradiction
    · split at known
      · contradiction
      · split at known
        · contradiction
        · dsimp only at known
          split at known
          · contradiction
          · rename_i x found
            have inside : x.ref ∈ s.refs := List.mem_map_of_mem (List.mem_of_find?_eq_some found)
            split at known
            · exact Option.some.inj known ▸ inside
            · split at known
              · exact Option.some.inj known ▸ inside
              · split at known <;> exact Option.some.inj known ▸ inside

theorem replyRecv_sound (msg : List Byte) (sound : Sound s ∧ s.stack = []) :
    Sound (replyRecv s msg).2 ∧ (replyRecv s msg).2.stack = [] := by
  obtain ⟨sound, idle⟩ := sound
  have live := @replyVerdict_refs s
  unfold replyRecv
  generalize verdict_eq : replyVerdict s msg = verdict
  cases verdict with
  | unknown err => exact ⟨sound, idle⟩
  | nextServer q =>
    dsimp only
    split
    · exact ⟨sound, idle⟩
    · rename_i unlinked
      refine ⟨sound.update q (fun _ => rfl) (fun _ => rfl) nofun (.inr ⟨idle, ?_⟩), idle⟩
      intro inside
      obtain ⟨link, there, rfl⟩ := List.mem_map.mp inside
      exact unlinked (List.any_eq_true.mpr ⟨link, there, decide_eq_true rfl⟩)
  | malformed q err => exact sound.finish idle (@live q msg (by rw [verdict_eq]; rfl)) (some err) none
  | more q rrlv => exact ⟨sound.update q (fun _ => rfl) (fun _ => rfl) (fun _ => id) (.inl fun _ => id), idle⟩
  | answer q hdr rrlv => exact sound.finish idle (@live q msg (by rw [verdict_eq]; rfl)) none (some (hdr, rrlv))

theorem tcpRecv_sound (sound : Sound s) (idle : s.stack = []) (x : Tcpconn) (segment : List Byte) :
    Sound (tcpRecv s x segment) := by
  unfold tcpRecv
  split
  · exact sound
  · rename_i tc err result
    obtain ⟨sound', idle'⟩ := tcpRecvHandler_kept (fun s => Sound s ∧ s.stack = []) (fun s msg => replyRecv_sound msg)
      ⟨sound, idle⟩ result
    have updated : Sound (tc.dnsc.updateTcpconn x.ref fun x => { x with flen := tc.flen, mb := tc.mb }) :=
      ⟨sound'.books.keep rfl rfl rfl, ⟨sound'.busy.nodup, sound'.busy.alive, sound'.busy.top, sound'.busy.calls⟩,
        sound'.armed, sound'.apart⟩
    dsimp only
    split
    · exact updated
    · exact tcpconnClose_sound updated idle' _ _

theorem Books.born (books : Books s) (refs : s'.refs = s.refs ++ [s.nextQuery])
    (handled : ∀ x ∈ s'.queries, x.qh = true) (nextQuery : s'.nextQuery = s.nextQuery + 1) (log : s'.log = s.log) :
    Books s' := by
  have fresh : s.nextQuery ∉ s.refs := fun inside => Nat.lt_irrefl _ (books.known _ inside)
  refine ⟨?_, handled, ?_, ?_⟩
  · intro q inside
    rw [refs] at inside
    rw [nextQuery]
    rcases List.mem_append.mp inside with old | new
    · exact Nat.lt_succ_of_lt (books.known q old)
    · rw [List.mem_singleton.mp new]
      exact Nat.lt_succ_self _
  · rw [log]
    exact books.ended
  · intro q
    have before := books.freed q
    simp only [refs, nextQuery, log, List.mem_append, List.mem_singleton]
    rcases eq_or_ne q s.nextQuery with rfl | other
    · rw [if_neg fresh, if_neg (Nat.lt_irrefl _), Nat.add_zero] at before
      rw [before]
      simp
    · simp only [other, or_false, before]
      have same : q < s.nextQuery + 1 ↔ q < s.nextQuery := by omega
      simp only [same]

/-- The query with its handler, before it is sent. -/
def bornQuery (s : Dnsc) (args : QueryArgs) (id : BitVec 16) : DnsQuery :=
  ⟨s.nextQuery, args.own, 0, id, args.opcode, args.type, args.dnsclass, args.name, none, true, false, ⟨[], [], []⟩⟩

def bornState (s : Dnsc) (args : QueryArgs) (id : BitVec 16) : Dnsc :=
  { s with queries := s.queries ++ [bornQuery s args id], nextQuery := s.nextQuery + 1 }

theorem bornState_books (books : Books s) (args : QueryArgs) (id : BitVec 16) : Books (bornState s args id) := by
  apply books.born
  · exact List.map_append
  · intro x inside
    rcases List.mem_append.mp inside with old | new
    · exact books.handled x old
    · rw [List.mem_singleton.mp new]
      rfl
  · rfl
  · rfl

/-- What `query` does before it sends the message. -/
inductive Query (s : Dnsc) (args : QueryArgs) (id : BitVec 16) : Dnsc → Prop
  | noServer : Query s args id s
  | refused (e : Errno) :
      Query s args id ((bornState s args id).without s.nextQuery [.released s.nextQuery, .refused s.nextQuery (.errno e)])
  | tcp : Query s args id ((bornState s args id).push (.sendTcp s.nextQuery none (.query args.qp)))
  | udp : Query s args id
      ((bornState s args id).push (.sendUdp s.nextQuery 0 (some (.errno .ETIMEDOUT)) (.query args.qp)))

theorem updateQuery_born (books : Books s) (args : QueryArgs) (id : BitVec 16) :
    Dnsc.updateQuery { s with queries := s.queries ++ [{ bornQuery s args id with qh := false }],
                              nextQuery := s.nextQuery + 1 } s.nextQuery (fun x => { x with qh := true }) =
      bornState s args id := by
  have others : s.queries.map (fun x => if x.ref = s.nextQuery then { x with qh := true } else x) = s.queries := by
    conv_rhs => rw [← List.map_id s.queries]
    apply List.map_congr_left
    intro x inside
    have less := books.known x.ref (List.mem_map_of_mem inside)
    exact if_neg (Nat.ne_of_lt less)
  unfold Dnsc.updateQuery bornState
  dsimp only
  rw [List.map_append, others]
  simp [bornQuery]

theorem query_cases (books : Books s) (args : QueryArgs) (id : BitVec 16) :
    Query s args id (query s args id) := by
  have born := updateQuery_born books args id
  unfold query
  split
  · exact .noServer
  · dsimp only
    split
    · rename_i e _
      have dropped : (queryDestructor { s with
          queries := s.queries ++ [{ bornQuery s args id with qh := false }]
          nextQuery := s.nextQuery + 1 } s.nextQuery).emit (.refused s.nextQuery (.errno e)) =
          (bornState s args id).without s.nextQuery [.released s.nextQuery, .refused s.nextQuery (.errno e)] := by
        rw [queryDestructor_without, without_emit, ← born]
        unfold Dnsc.without Dnsc.updateQuery
        dsimp only
        rw [filter_update]
        · rfl
        · exact fun x => rfl
      exact dropped ▸ .refused e
    · have overTcp := @Query.tcp s args id
      have overUdp := @Query.udp s args id
      rw [← born] at overTcp overUdp
      split
      · exact overTcp
      · exact overUdp

theorem query_sound (sound : Sound s) (idle : s.stack = []) (args : QueryArgs) (id : BitVec 16) :
    Sound (query s args id) := by
  have cases_ := query_cases sound.books args id
  have born := bornState_books sound.books args id
  have refs : (bornState s args id).refs = s.refs ++ [s.nextQuery] := List.map_append
  have fresh : s.nextQuery ∉ s.refs := fun inside => Nat.lt_irrefl _ (sound.books.known _ inside)
  have nodup := sound.busy.nodup
  have alive := sound.busy.alive
  have armed := sound.armed
  rw [idle] at nodup alive
  have begins (frame : Frame) (sends : frame.sends = some s.nextQuery) (starts : frame.Starts s.nextQuery)
      (tcp : ∀ q, frame.SendsTcp q → q = s.nextQuery) : Sound ((bornState s args id).push frame) := by
    have plain : ∀ proto q tries err sender, [frame].head? ≠ some (.sent proto q tries err sender) := by
      rintro proto q tries err sender ⟨⟩
      contradiction
    have head : waiting ([frame] ++ []) = [s.nextQuery] := List.filterMap_cons_some sends
    refine ⟨born.keep rfl rfl rfl, .of [frame] [] (congrArg _ idle) (List.forall_mem_nil _) (List.forall_mem_nil _)
      ?_ ?_ ?_, ?_, ?_⟩
    · rw [head, List.singleton_append, List.nodup_cons]
      exact ⟨fun linked => fresh (alive _ linked), nodup⟩
    · rw [head]
      intro q inside
      show q ∈ (bornState s args id).refs
      rw [refs]
      rcases List.mem_cons.mp inside with rfl | linked
      · exact List.mem_append_right _ (List.mem_singleton_self _)
      · exact List.mem_append_left _ (alive q linked)
    · intro proto q tries err sender top
      exact absurd top (plain proto q tries err sender)
    · intro y inside stopped
      rcases List.mem_append.mp inside with old | new
      · obtain ⟨frame', there, -⟩ := armed y old stopped
        rw [idle] at there
        contradiction
      · rw [List.mem_singleton.mp new]
        exact ⟨frame, List.mem_cons_self .., starts⟩
    · intro y inside udp
      rcases List.mem_append.mp inside with old | new
      · refine ⟨(sound.apart y old udp).1, ?_⟩
        show ∀ frame' ∈ frame :: s.stack, ¬ frame'.SendsTcp y.ref
        rw [idle, List.forall_mem_singleton]
        exact fun sending => fresh (tcp _ sending ▸ List.mem_map_of_mem old)
      · rw [List.mem_singleton.mp new] at udp
        contradiction
  generalize query s args id = s' at cases_ ⊢
  cases cases_ with
  | noServer => exact sound
  | refused e =>
    have books : Books ((bornState s args id).without s.nextQuery
        [.released s.nextQuery, .refused s.nextQuery (.errno e)]) := by
      have live : s.nextQuery ∈ (bornState s args id).refs := by
        rw [refs]
        exact List.mem_append_right _ (List.mem_singleton_self _)
      have destroyed := born.destroyed live (.refused s.nextQuery (.errno e)) (fun _ => rfl) fun _ => rfl
      rw [queryDestructor_without, without_emit] at destroyed
      exact destroyed
    refine ⟨books, ?_, ?_, ?_⟩
    · refine .of [] [] idle (List.forall_mem_nil _) (List.forall_mem_nil _) ?_ ?_ nofun
      · rw [without_linked]
        exact (List.Sublist.append_left List.filter_sublist _).nodup nodup
      · rw [without_linked, without_refs, refs]
        intro q inside
        obtain ⟨inside, other⟩ := List.mem_filter.mp inside
        exact List.mem_filter.mpr ⟨List.mem_append_left _ (alive q inside), other⟩
    · intro y inside stopped
      obtain ⟨inside, other⟩ := List.mem_filter.mp inside
      rcases List.mem_append.mp inside with old | new
      · exact armed y old stopped
      · rw [List.mem_singleton.mp new] at other
        exact absurd rfl (of_decide_eq_true other)
    · intro y inside udp
      obtain ⟨inside, other⟩ := List.mem_filter.mp inside
      rcases List.mem_append.mp inside with old | new
      · obtain ⟨unlinked, plain⟩ := sound.apart y old udp
        rw [without_linked]
        exact ⟨fun there => unlinked (List.mem_filter.mp there).1, plain⟩
      · rw [List.mem_singleton.mp new] at other
        exact absurd rfl (of_decide_eq_true other)
  | tcp => exact begins _ rfl ⟨rfl, nofun⟩ fun q sending => Eq.symm sending
  | udp => exact begins _ rfl rfl fun q sending => sending.elim

theorem Sound.expired (sound : Sound s) (q : Nat) : Sound (s.emit (.expired q)) :=
  ⟨sound.books.expired q, ⟨sound.busy.nodup, sound.busy.alive, sound.busy.top, sound.busy.calls⟩, sound.armed, sound.apart⟩

/-- What the timer of a query does when it expires. -/
inductive Expired (s : Dnsc) (x : DnsQuery) : Dnsc → Prop
  | ended : Expired s x
      ((s.emit (.expired x.ref)).without x.ref [.called x.ref (some (.errno .ETIMEDOUT)) none, .released x.ref])
  | again (udp : x.tmr = some .udp) (few : x.ntx < NTX_MAX) : Expired s x
      (((s.emit (.expired x.ref)).updateQuery x.ref fun x => { x with tmr := none }).push
        (.sendUdp x.ref 0 (some (.errno .ETIMEDOUT)) .handler))

theorem queryTimeout_cases (books : Books s) (member : s.query? q = some x) (tmr : x.tmr = some proto) :
    Expired s x (queryTimeout s x proto) := by
  obtain ⟨inside, rfl⟩ := query_mem member
  have found : (s.emit (.expired x.ref)).query? x.ref = some x := member
  unfold queryTimeout
  cases proto with
  | tcp =>
    dsimp only
    rw [finish_without found (books.handled x inside)]
    exact .ended
  | udp =>
    dsimp only
    split
    · have ended : finish ((s.emit (.expired x.ref)).updateQuery x.ref fun x => { x with tmr := none }) x.ref
          (some (.errno .ETIMEDOUT)) none =
          (s.emit (.expired x.ref)).without x.ref [.called x.ref (some (.errno .ETIMEDOUT)) none, .released x.ref] := by
        obtain ⟨y, found'⟩ : ∃ y, ((s.emit (.expired x.ref)).updateQuery x.ref
            fun x => { x with tmr := none }).query? x.ref = some y := by
          apply refs_query
          rw [update_refs]
          · exact query_refs found
          · exact fun _ => rfl
        have updated := (books.expired x.ref).update (f := fun x => { x with tmr := none }) x.ref (fun _ => rfl) fun _ => rfl
        rw [finish_without found' (updated.handled y (query_mem found').1)]
        unfold Dnsc.without Dnsc.updateQuery
        dsimp only
        rw [filter_update]
        exact fun x => rfl
      rw [ended]
      exact .ended
    · rename_i few
      exact .again tmr (Nat.not_le.mp few)

theorem queryTimeout_sound (sound : Sound s) (idle : s.stack = []) (member : s.query? q = some x)
    (tmr : x.tmr = some proto) : Sound (queryTimeout s x proto) := by
  have cases_ := queryTimeout_cases sound.books member tmr
  have live := query_refs member
  obtain ⟨inside, rfl⟩ := query_mem member
  generalize queryTimeout s x proto = s' at cases_ ⊢
  cases cases_ with
  | ended =>
    have ended := ((sound.expired x.ref).finish idle live (some (.errno .ETIMEDOUT)) none).1
    rw [finish_without (s := s.emit (.expired x.ref)) member (sound.books.handled x inside)] at ended
    exact ended
  | again udp few =>
    have refs := update_refs (s := s) (q := x.ref) (f := fun x => { x with tmr := none }) fun _ => rfl
    have nodup := sound.busy.nodup
    have alive := sound.busy.alive
    have unlinked := (sound.apart x inside udp).1
    rw [idle] at nodup alive
    have books := (sound.books.expired x.ref).update (f := fun x => { x with tmr := none }) x.ref (fun _ => rfl)
      fun _ => rfl
    refine ⟨books.keep rfl rfl rfl, .of [.sendUdp x.ref 0 (some (.errno .ETIMEDOUT)) .handler] [] (congrArg _ idle)
      (List.forall_mem_nil _) (List.forall_mem_nil _) (List.nodup_cons.mpr ⟨unlinked, nodup⟩) ?_ nofun, ?_, ?_⟩
    · intro q inside
      show q ∈ (s.updateQuery x.ref fun x => { x with tmr := none }).refs
      rw [refs]
      rcases List.mem_cons.mp inside with rfl | linked
      · exact live
      · exact alive q linked
    · intro y inside stopped
      obtain ⟨x', member', rfl⟩ := update_mem inside
      split at stopped
      · rename_i here
        rw [if_pos here]
        exact ⟨_, List.mem_cons_self .., Eq.symm here⟩
      · obtain ⟨frame, there, -⟩ := sound.armed x' member' stopped
        rw [idle] at there
        contradiction
    · intro y inside udp'
      obtain ⟨x', member', rfl⟩ := update_mem inside
      split at udp'
      · contradiction
      · rename_i other
        rw [if_neg other]
        refine ⟨(sound.apart x' member' udp').1, ?_⟩
        show ∀ frame ∈ Frame.sendUdp x.ref 0 (some (.errno .ETIMEDOUT)) .handler :: s.stack, ¬ frame.SendsTcp x'.ref
        rw [idle, List.forall_mem_singleton]
        exact fun sending => sending

theorem tcpEstabHandler_sound (sound : Sound s) (idle : s.stack = []) (tc : Nat) (results : List (Option DnsErr)) :
    Sound (tcpEstabHandler s tc results) := by
  unfold tcpEstabHandler
  dsimp only
  split
  · exact tcpconnClose_sound sound idle tc _
  · exact ⟨sound.books.keep rfl rfl rfl, ⟨sound.busy.nodup, sound.busy.alive, sound.busy.top, sound.busy.calls⟩,
      sound.armed, sound.apart⟩

theorem event_sound (sound : Sound s) (idle : s.stack = []) (a : Action) : Sound (event s a) := by
  cases a with
  | query args id => exact query_sound sound idle args id
  | goOn result => exact sound
  | udpRecv msg => exact (replyRecv_sound msg ⟨sound, idle⟩).1
  | tcpRecv tc segment =>
    unfold event
    dsimp only
    split
    · exact sound
    · split
      · exact tcpRecv_sound sound idle _ segment
      · exact sound
  | tcpEstab tc results =>
    unfold event
    dsimp only
    split
    · exact sound
    · split
      · exact sound
      · exact tcpEstabHandler_sound sound idle tc results
  | tcpClose tc err =>
    unfold event
    dsimp only
    split
    · exact sound
    · exact tcpconnClose_sound sound idle tc err
  | tcpTimeout tc =>
    unfold event
    dsimp only
    split
    · exact sound
    · exact tcpconnClose_sound sound idle tc _
  | queryTimeout q =>
    unfold event
    dsimp only
    split
    · exact sound
    · rename_i member
      split
      · exact sound
      · rename_i tmr
        exact queryTimeout_sound sound idle member tmr
  | cancel q =>
    unfold event
    dsimp only
    split
    · exact sound
    · rename_i member
      split
      · have destroyed := sound.books.destroyed (query_refs member) (.cancelled q) (fun _ => rfl) fun _ => rfl
        rw [queryDestructor_without, without_emit] at destroyed ⊢
        exact sound.released idle destroyed
      · exact sound
  | srvSet srvv =>
    exact ⟨sound.books.keep rfl rfl rfl, ⟨sound.busy.nodup, sound.busy.alive, sound.busy.top, sound.busy.calls⟩,
      sound.armed, sound.apart⟩

theorem step_sound (s : Dnsc) (a : Action) (sound : Sound s) : Sound (step s a) := by
  have idle (a : Action) : Sound (if s.stack = [] then event s a else s) := by
    split
    · exact event_sound sound ‹_› a
    · exact sound
  cases a with
  | goOn result => exact goOn_sound sound result
  | _ => exact idle _

theorem initial_sound (srvv : List Sa) : Sound (initial srvv) :=
  ⟨⟨List.forall_mem_nil _, List.forall_mem_nil _, fun _ => rfl, fun _ => rfl⟩,
    ⟨.nil, List.forall_mem_nil _, nofun, List.forall_mem_nil _⟩, List.forall_mem_nil _, List.forall_mem_nil _⟩

end

end Baresip.Dns
