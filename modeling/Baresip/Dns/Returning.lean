import Baresip.Dns.Events

set_option linter.dupNamespace false

namespace Baresip.Dns

open Re Library

def total (f : DnsQuery → Nat) : List DnsQuery → Nat
  | [] => 0
  | x :: queries => f x + total f queries

/-- How many servers a query may still be sent to over TCP. -/
def untried (s : Dnsc) (x : DnsQuery) : Nat := (s.servers x).length - x.ntx

def Frame.weight : Frame → Nat
  | close .. | sent .. => 1
  | sendUdp .. => 2
  | sendTcp .. => 3

def weights : List Frame → Nat
  | [] => 0
  | frame :: stack => frame.weight + weights stack

/-- How many servers the loop of `send_udp` on top may still try. -/
def udpLeft (s : Dnsc) : Nat :=
  match s.stack with
  | .sendUdp q tries _ _ :: _ => ((s.query? q).elim 0 fun x => (s.servers x).length) - tries
  | _ => 0

/-- What is left to be done before every function has returned. -/
def work (s : Dnsc) : Nat := 6 * total (untried s) s.queries + 4 * s.links.length + weights s.stack + udpLeft s

section
variable {s s' : Dnsc} {q tries tc : Nat} {x : DnsQuery} {err result : Option DnsErr} {sender : Sender}
  {rest : List Frame} {proto : Proto} {f g : DnsQuery → Nat} {queries : List DnsQuery}

theorem total_le (le : ∀ x, g x ≤ f x) (queries : List DnsQuery) : total g queries ≤ total f queries := by
  induction queries with
  | nil => exact Nat.le_refl 0
  | cons x queries ih => exact Nat.add_le_add (le x) ih

theorem total_lt (le : ∀ x, g x ≤ f x) (inside : x ∈ queries) (lt : g x < f x) : total g queries < total f queries := by
  induction queries with
  | nil => contradiction
  | cons y queries ih =>
    rcases List.mem_cons.mp inside with rfl | inside
    · exact Nat.add_lt_add_of_lt_of_le lt (total_le le queries)
    · exact Nat.add_lt_add_of_le_of_lt (le y) (ih inside)

theorem total_filter (p : DnsQuery → Bool) (queries : List DnsQuery) :
    total f (queries.filter p) ≤ total f queries := by
  induction queries with
  | nil => exact Nat.le_refl 0
  | cons x queries ih =>
    rw [List.filter_cons]
    split
    · exact Nat.add_le_add_left ih _
    · exact Nat.le_trans ih (Nat.le_add_left _ _)

theorem total_map (h : DnsQuery → DnsQuery) (queries : List DnsQuery) :
    total f (queries.map h) = total (fun x => f (h x)) queries := by
  induction queries with
  | nil => rfl
  | cons x queries ih => exact congrArg (f (h x) + ·) ih

/-- One more server has been tried. -/
theorem untried_next (inside : x ∈ s.queries) (ref : x.ref = q) (next : x.ntx < (s.servers x).length) :
    total (untried s) (s.updateQuery q fun x => { x with ntx := x.ntx + 1 }).queries < total (untried s) s.queries := by
  unfold Dnsc.updateQuery
  dsimp only
  rw [total_map]
  refine total_lt (fun y => ?_) inside ?_
  · split
    · exact Nat.sub_le_sub_left (Nat.le_succ _) _
    · exact Nat.le_refl _
  · rw [if_pos ref]
    exact Nat.sub_lt_sub_left next (Nat.lt_succ_self _)

theorem untried_le (q : Nat) :
    total (untried s) (s.updateQuery q fun x => { x with ntx := x.ntx + 1 }).queries ≤ total (untried s) s.queries := by
  unfold Dnsc.updateQuery
  dsimp only
  rw [total_map]
  refine total_le (fun y => ?_) s.queries
  split
  · exact Nat.sub_le_sub_left (Nat.le_succ _) _
  · exact Nat.le_refl _

theorem untried_kept {h : DnsQuery → DnsQuery} (q : Nat) (own : ∀ x, (h x).own = x.own) (ntx : ∀ x, (h x).ntx = x.ntx) :
    total (untried s) (s.updateQuery q h).queries ≤ total (untried s) s.queries := by
  unfold Dnsc.updateQuery
  dsimp only
  rw [total_map]
  refine total_le (fun y => ?_) s.queries
  split
  · unfold untried Dnsc.servers
    rw [own, ntx]
  · exact Nat.le_refl _

theorem udpLeft_calls (stack : s.stack = rest) (calls : ∀ frame ∈ rest, frame.Calls) : udpLeft s = 0 := by
  unfold udpLeft
  rw [stack]
  split
  · exact (calls _ (List.mem_cons_self ..)).elim
  · rfl

theorem unlink_shorter {link : Nat × Nat} (inside : link ∈ s.links) : (s.unlink link.2).links.length < s.links.length :=
  List.length_filter_lt_length_iff_exists.mpr ⟨link, inside, by simp⟩

theorem closeNext_work (sound : Sound s) (stack : s.stack = .close tc err :: rest) : work (closeNext s tc err) < work s := by
  have calls := sound.busy.calls
  have alive := sound.busy.alive
  rw [stack] at calls alive
  have before : work s = 6 * total (untried s) s.queries + 4 * s.links.length + (1 + weights rest) + udpLeft s := by
    unfold work
    rw [stack]
    rfl
  cases found : s.links.find? fun link => link.1 = tc with
  | none =>
    rw [closeNext_none found, before]
    have left : udpLeft { s with tcpconns := s.tcpconns.filter (fun x => x.ref ≠ tc), stack := s.stack.tail } = 0 :=
      udpLeft_calls (congrArg List.tail stack) calls
    show 6 * total (untried s) s.queries + 4 * s.links.length + weights s.stack.tail + udpLeft _ < _
    rw [left, stack, List.tail_cons]
    omega
  | some link =>
    have inside := List.mem_of_find?_eq_some found
    obtain ⟨x, member⟩ := refs_query (alive link.2 (List.mem_append_right _ (List.mem_map_of_mem inside)))
    have shorter := unlink_shorter inside
    rw [closeNext_some found member, before]
    have frame : (failFrame s x err).weight ≤ 3 := by
      unfold failFrame
      split
      · exact Nat.le_add_left 1 2
      · exact Nat.le_refl 3
    have left : udpLeft ((s.unlink link.2).push (failFrame s x err)) = 0 := by
      unfold failFrame
      split <;> rfl
    show 6 * total (untried s) s.queries + 4 * (s.unlink link.2).links.length +
      ((failFrame s x err).weight + weights s.stack) + udpLeft _ < _
    rw [left, stack]
    show _ + (_ + (1 + weights rest)) + 0 < _
    omega

theorem sendTcpNext_work (sound : Sound s) (stack : s.stack = .sendTcp q err sender :: rest) :
    work (sendTcpNext s q err sender result) < work s := by
  obtain ⟨x, member⟩ := sound.busy.sendsTcp stack
  obtain ⟨inside, ref⟩ := query_mem member
  have before : work s = 6 * total (untried s) s.queries + 4 * s.links.length + (3 + weights rest) + 0 := by
    unfold work udpLeft
    rw [stack]
    rfl
  have fewer {srv : Sa} (next : (s.servers x)[x.ntx]? = some srv) :
      total (untried s) (s.updateQuery q fun x => { x with ntx := x.ntx + 1 }).queries <
        total (untried s) s.queries :=
    untried_next inside ref (List.getElem?_eq_some_iff.mp next).1
  have linked (tc : Nat) : (s.links ++ [(tc, q)]).length = s.links.length + 1 := List.length_append
  have cases_ := @sendTcpNext_cases s q x err result sender rest stack member
  rw [before]
  generalize sendTcpNext s q err sender result = s' at cases_ ⊢
  cases cases_ with
  | exhausted all =>
    show 6 * total (untried s) s.queries + 4 * s.links.length + (1 + weights rest) + 0 < _
    omega
  | refused next none_ =>
    have less := fewer next
    show 6 * total (untried s) (s.updateQuery q _).queries + 4 * s.links.length + (3 + weights rest) + 0 < _
    omega
  | connects next none_ =>
    have less := fewer next
    show 6 * total (untried s) (s.updateQuery q _).queries + 4 * (s.links ++ [_]).length + (1 + weights rest) + 0 < _
    rw [linked]
    omega
  | failed next found connected =>
    have less := fewer next
    show 6 * total (untried s) (s.updateQuery q _).queries + 4 * s.links.length + (1 + (3 + weights rest)) + 0 < _
    omega
  | sent next found connected =>
    have less := fewer next
    show 6 * total (untried s) (s.updateQuery q _).queries + 4 * (s.links ++ [_]).length + (1 + weights rest) + 0 < _
    rw [linked]
    omega
  | joined next found connecting =>
    have less := fewer next
    show 6 * total (untried s) (s.updateQuery q _).queries + 4 * (s.links ++ [_]).length + (1 + weights rest) + 0 < _
    rw [linked]
    omega

theorem sendUdpNext_work (sound : Sound s) (stack : s.stack = .sendUdp q tries err sender :: rest) :
    work (sendUdpNext s q tries err sender result) < work s := by
  obtain ⟨x, member⟩ := sound.busy.sendsUdp stack
  have le := @untried_le s q
  have before : work s = 6 * total (untried s) s.queries + 4 * s.links.length + (2 + weights rest) +
      ((s.servers x).length - tries) := by
    unfold work udpLeft
    rw [stack]
    dsimp only
    rw [member]
    rfl
  have cases_ := @sendUdpNext_cases s q tries x err result sender rest stack member
  rw [before]
  generalize sendUdpNext s q tries err sender result = s' at cases_ ⊢
  cases cases_ with
  | exhausted all =>
    show 6 * total (untried s) s.queries + 4 * s.links.length + (1 + weights rest) + 0 < _
    omega
  | failed next =>
    have member' := query_update (f := fun x => { x with ntx := x.ntx + 1 }) (fun _ => rfl) member
    have left : udpLeft { s.updateQuery q (fun x => { x with ntx := x.ntx + 1 }) with
        stack := .sendUdp q (tries + 1) (some ‹_›) sender :: rest } = (s.servers x).length - (tries + 1) :=
      congrArg (fun y : Option DnsQuery => y.elim 0 (fun y => (s.servers y).length) - (tries + 1)) member'
    show 6 * total (untried s) (s.updateQuery q _).queries + 4 * s.links.length + (2 + weights rest) + udpLeft _ < _
    rw [left]
    omega
  | sent next =>
    show 6 * total (untried s) (s.updateQuery q _).queries + 4 * s.links.length + (1 + weights rest) + 0 < _
    omega

theorem sentNext_work (sound : Sound s) (stack : s.stack = .sent proto q tries err sender :: rest) :
    work (sentNext s proto q err sender) < work s := by
  have calls := sound.busy.calls
  rw [stack] at calls
  have before : work s = 6 * total (untried s) s.queries + 4 * s.links.length + (1 + weights rest) + 0 := by
    unfold work udpLeft
    rw [stack]
    rfl
  have after (s' : Dnsc) (stack' : s'.stack = rest) (srvv : s'.srvv = s.srvv)
      (queries : total (untried s) s'.queries ≤ total (untried s) s.queries)
      (links : s'.links.length ≤ s.links.length) : work s' < work s := by
    have left := udpLeft_calls stack' calls
    have same : untried s' = untried s := by
      funext y
      unfold untried Dnsc.servers
      rw [srvv]
    rw [before]
    unfold work
    rw [left, stack', same]
    omega
  have cases_ := sentNext_cases sound stack
  generalize sentNext s proto q err sender = s' at cases_ ⊢
  cases cases_ with
  | refused => exact after _ rfl rfl (total_filter _ _) (List.length_filter_le _ _)
  | called => exact after _ rfl rfl (total_filter _ _) (List.length_filter_le _ _)
  | started tmr keeps =>
    exact after _ rfl rfl (untried_kept q (fun x => (keeps x).2.1) fun x => (keeps x).2.2.1) (Nat.le_refl _)
  | waits tcp => exact after _ rfl rfl (Nat.le_refl _) (Nat.le_refl _)

/-- Every turn brings the functions that run closer to their end. -/
theorem goOn_work (sound : Sound s) (running : s.stack ≠ []) (result : Option DnsErr) : work (goOn s result) < work s := by
  unfold goOn
  split
  · rename_i idle
    exact absurd idle running
  · rename_i stack
    exact closeNext_work sound stack
  · rename_i stack
    exact sendTcpNext_work sound stack
  · rename_i stack
    exact sendUdpNext_work sound stack
  · rename_i stack
    exact sentNext_work sound stack

/-- Whatever connecting and sending return, every function returns. -/
theorem goOn_returns (sound : Sound s) (results : List (Option DnsErr)) (enough : work s ≤ results.length) :
    (results.foldl goOn s).stack = [] := by
  induction results generalizing s with
  | nil =>
    by_cases idle : s.stack = []
    · exact idle
    · have less := goOn_work sound idle none
      rw [List.length_nil] at enough
      omega
  | cons result results ih =>
    rw [List.foldl_cons]
    by_cases idle : s.stack = []
    · have same (results : List (Option DnsErr)) : results.foldl goOn s = s := by
        have stays (result : Option DnsErr) : goOn s result = s := by
          unfold goOn
          rw [idle]
        induction results with
        | nil => rfl
        | cons result results ih => rw [List.foldl_cons, stays, ih]
      have again := same (result :: results)
      rw [List.foldl_cons] at again
      rw [again]
      exact idle
    · have less := goOn_work sound idle result
      rw [List.length_cons] at enough
      exact ih (goOn_sound sound result) (by omega)

end

end Baresip.Dns
