import Baresip.Dns.Client

set_option linter.dupNamespace false

namespace Baresip.Dns

open Re Library

/-- The query has ended for its owner, who does not hear of it again. -/
def Out.ends (q : Nat) : Out → Bool
  | called q' _ _ | cancelled q' | refused q' _ => q' = q
  | _ => false

def Out.frees (q : Nat) : Out → Bool
  | released q' => q' = q
  | _ => false

def Out.expires (q : Nat) : Out → Bool
  | expired q' => q' = q
  | _ => false

/-- The query that a loop is about to send. -/
def Frame.sends : Frame → Option Nat
  | close .. | sent .. => none
  | sendTcp q .. | sendUdp q .. => some q

/-- A loop that calls other functions. -/
def Frame.Calls : Frame → Prop
  | close .. | sendTcp .. => True
  | sendUdp .. | sent .. => False

/-- The timer of the query is started once this is done. -/
def Frame.Starts (q : Nat) : Frame → Prop
  | close .. => False
  | sendTcp q' _ sender | sent .tcp q' _ _ sender => q' = q ∧ sender ≠ .handler
  | sendUdp q' _ _ _ | sent .udp q' _ _ _ => q' = q

/-- The query is sent over a connection. -/
def Frame.SendsTcp (q : Nat) : Frame → Prop
  | sendTcp q' _ _ | sent .tcp q' _ _ _ => q' = q
  | _ => False

def Dnsc.refs (s : Dnsc) : List Nat := s.queries.map (·.ref)

def Dnsc.linked (s : Dnsc) : List Nat := s.links.map (·.2)

def waiting (stack : List Frame) : List Nat := stack.filterMap Frame.sends

/-- A query is there until it has ended, and it ends and is released once. -/
structure Books (s : Dnsc) : Prop where
  known : ∀ q ∈ s.refs, q < s.nextQuery
  handled : ∀ x ∈ s.queries, x.qh = true
  ended (q : Nat) : s.log.countP (Out.ends q) = s.log.countP (Out.frees q)
  freed (q : Nat) : s.log.countP (Out.frees q) + (if q ∈ s.refs then 1 else 0) = if q < s.nextQuery then 1 else 0

/-- A query is sent by one loop or is linked to one connection, and what a loop has returned is dealt with at once. -/
structure Busy (s : Dnsc) : Prop where
  nodup : (waiting s.stack ++ s.linked).Nodup
  alive : ∀ q ∈ waiting s.stack ++ s.linked, q ∈ s.refs
  top : ∀ proto q tries err sender rest, s.stack = .sent proto q tries err sender :: rest →
    q ∈ s.refs ∧ q ∉ waiting s.stack ∧ (proto = .udp → q ∉ s.linked)
  calls : ∀ frame ∈ s.stack.tail, frame.Calls

/-- The timer of a query runs, or is about to be started. -/
def Armed (s : Dnsc) : Prop := ∀ x ∈ s.queries, x.tmr = none → ∃ frame ∈ s.stack, frame.Starts x.ref

/-- A query that is sent again over UDP is not sent over a connection. -/
def Apart (s : Dnsc) : Prop := ∀ x ∈ s.queries, x.tmr = some .udp →
  x.ref ∉ s.linked ∧ ∀ frame ∈ s.stack, ¬ frame.SendsTcp x.ref

/-- The queries without one of them, and what its owner sees. -/
def Dnsc.without (s : Dnsc) (q : Nat) (outs : List Out) : Dnsc :=
  { s with
    queries := s.queries.filter fun x => x.ref ≠ q
    links := s.links.filter fun link => link.2 ≠ q
    log := s.log ++ outs }

section
variable {s : Dnsc} {q : Nat} {x : DnsQuery} {f : DnsQuery → DnsQuery} {err : Option DnsErr}
  {reply : Option (Dnshdr × RrLists)} {outs : List Out}

theorem query_mem (found : s.query? q = some x) : x ∈ s.queries ∧ x.ref = q :=
  ⟨List.mem_of_find?_eq_some found,
    of_decide_eq_true (List.find?_some (p := fun x : DnsQuery => decide (x.ref = q)) found)⟩

theorem query_refs (found : s.query? q = some x) : q ∈ s.refs := by
  obtain ⟨inside, rfl⟩ := query_mem found
  exact List.mem_map_of_mem inside

theorem refs_query (inside : q ∈ s.refs) : ∃ x, s.query? q = some x := by
  obtain ⟨x, member, rfl⟩ := List.mem_map.mp inside
  exact Option.isSome_iff_exists.mp (List.find?_isSome.mpr ⟨x, member, decide_eq_true rfl⟩)

theorem filter_update (queries : List DnsQuery) (q : Nat) (keeps : ∀ x, (f x).ref = x.ref) :
    (queries.map fun x => if x.ref = q then f x else x).filter (fun x => x.ref ≠ q) =
      queries.filter fun x => x.ref ≠ q := by
  induction queries with
  | nil => rfl
  | cons x queries ih =>
    rw [List.map_cons, List.filter_cons, List.filter_cons, ih]
    by_cases here : x.ref = q
    · simp [here, keeps]
    · simp [here]

theorem queryDestructor_without : queryDestructor s q = s.without q [.released q] := by
  unfold queryDestructor queryAbort Dnsc.emit Dnsc.without Dnsc.updateQuery Dnsc.unlink
  dsimp only
  rw [filter_update]
  exact fun x => rfl

theorem finish_without (found : s.query? q = some x) (qh : x.qh = true) :
    finish s q err reply = s.without q [.called q err reply, .released q] := by
  unfold finish
  rw [queryDestructor_without]
  unfold queryHandler queryAbort
  rw [found]
  dsimp only
  rw [if_pos qh]
  unfold Dnsc.without Dnsc.updateQuery Dnsc.unlink Dnsc.emit
  dsimp only
  rw [filter_update, filter_update, List.filter_filter]
  · simp
  all_goals exact fun x => rfl

theorem without_emit (s : Dnsc) (q : Nat) (outs : List Out) (out : Out) :
    (s.without q outs).emit out = s.without q (outs ++ [out]) := by
  unfold Dnsc.without Dnsc.emit
  rw [List.append_assoc]

theorem without_refs (s : Dnsc) (q : Nat) (outs : List Out) : (s.without q outs).refs = s.refs.filter (· ≠ q) := by
  unfold Dnsc.without Dnsc.refs
  rw [List.filter_map]
  rfl

theorem without_linked (s : Dnsc) (q : Nat) (outs : List Out) :
    (s.without q outs).linked = s.linked.filter (· ≠ q) := by
  unfold Dnsc.without Dnsc.linked
  rw [List.filter_map]
  rfl

theorem unlink_linked (s : Dnsc) (q : Nat) : (s.unlink q).linked = s.linked.filter (· ≠ q) := by
  unfold Dnsc.unlink Dnsc.linked
  rw [List.filter_map]
  rfl

theorem update_refs (keeps : ∀ x, (f x).ref = x.ref) : (s.updateQuery q f).refs = s.refs := by
  unfold Dnsc.updateQuery Dnsc.refs
  rw [List.map_map]
  apply List.map_congr_left
  intro x _
  dsimp only [Function.comp]
  split
  · exact keeps x
  · rfl

theorem query_update (keeps : ∀ x, (f x).ref = x.ref) (found : s.query? q = some x) :
    (s.updateQuery q f).query? q = some (f x) := by
  obtain ⟨-, ref⟩ := query_mem found
  have same : ((fun x : DnsQuery => decide (x.ref = q)) ∘ fun x => if x.ref = q then f x else x) =
      fun x => decide (x.ref = q) := by
    funext y
    dsimp only [Function.comp]
    split
    · rw [keeps]
    · rfl
  unfold Dnsc.query? Dnsc.updateQuery at *
  dsimp only
  rw [List.find?_map, same, found, Option.map_some, if_pos ref]

theorem update_mem {y : DnsQuery} (inside : y ∈ (s.updateQuery q f).queries) :
    ∃ x ∈ s.queries, y = if x.ref = q then f x else x := by
  obtain ⟨x, member, rfl⟩ := List.mem_map.mp inside
  exact ⟨x, member, rfl⟩

theorem Books.keep {s' : Dnsc} (books : Books s) (queries : s'.queries = s.queries)
    (nextQuery : s'.nextQuery = s.nextQuery) (log : s'.log = s.log) : Books s' := by
  have refs : s'.refs = s.refs := congrArg (List.map DnsQuery.ref) queries
  refine ⟨?_, ?_, ?_, ?_⟩
  · rw [refs, nextQuery]
    exact books.known
  · rw [queries]
    exact books.handled
  · rw [log]
    exact books.ended
  · rw [refs, nextQuery, log]
    exact books.freed

theorem Books.update (books : Books s) (q : Nat) (keeps : ∀ x, (f x).ref = x.ref) (handles : ∀ x, (f x).qh = x.qh) :
    Books (s.updateQuery q f) := by
  refine ⟨?_, ?_, books.ended, ?_⟩
  · rw [update_refs keeps]
    exact books.known
  · intro y inside
    obtain ⟨x, member, rfl⟩ := update_mem inside
    split
    · rw [handles]
      exact books.handled x member
    · exact books.handled x member
  · rw [update_refs keeps]
    exact books.freed

/-- A query ends and is released. -/
theorem Books.without (books : Books s) (inside : q ∈ s.refs)
    (ends : ∀ q', outs.countP (Out.ends q') = if q' = q then 1 else 0)
    (frees : ∀ q', outs.countP (Out.frees q') = if q' = q then 1 else 0) : Books (s.without q outs) := by
  refine ⟨?_, ?_, ?_, ?_⟩
  · intro q' member
    rw [without_refs] at member
    exact books.known q' (List.mem_filter.mp member).1
  · intro x member
    exact books.handled x (List.mem_filter.mp member).1
  · intro q'
    have before := books.ended q'
    show (s.log ++ outs).countP (Out.ends q') = (s.log ++ outs).countP (Out.frees q')
    rw [List.countP_append, List.countP_append, ends, frees, before]
  · intro q'
    have before := books.freed q'
    rw [without_refs]
    show (s.log ++ outs).countP (Out.frees q') + _ = if q' < s.nextQuery then 1 else 0
    rw [List.countP_append, frees, ← before]
    by_cases here : q' = q
    · subst here
      simp [inside]
    · simp [here]

theorem Books.expired (books : Books s) (q : Nat) : Books (s.emit (.expired q)) := by
  refine ⟨books.known, books.handled, ?_, ?_⟩
  · intro q'
    show (s.log ++ [Out.expired q]).countP (Out.ends q') = (s.log ++ [Out.expired q]).countP (Out.frees q')
    rw [List.countP_append, List.countP_append]
    exact books.ended q'
  · intro q'
    show (s.log ++ [Out.expired q]).countP (Out.frees q') + _ = _
    rw [List.countP_append]
    exact books.freed q'

theorem Books.finish (books : Books s) (inside : q ∈ s.refs) (err : Option DnsErr)
    (reply : Option (Dnshdr × RrLists)) : Books (finish s q err reply) := by
  obtain ⟨x, found⟩ := refs_query inside
  rw [finish_without found (books.handled x (query_mem found).1)]
  apply books.without inside
  · intro q'
    rcases eq_or_ne q' q with rfl | other
    · simp [Out.ends]
    · simp [Out.ends, other, other.symm]
  · intro q'
    rcases eq_or_ne q' q with rfl | other
    · simp [Out.frees]
    · simp [Out.frees, other, other.symm]

/-- A query is released without its handler, for another reason why it ends. -/
theorem Books.destroyed (books : Books s) (inside : q ∈ s.refs) (out : Out)
    (ends : ∀ q', Out.ends q' out = decide (q = q')) (frees : ∀ q', Out.frees q' out = false) :
    Books ((queryDestructor s q).emit out) := by
  rw [queryDestructor_without, without_emit]
  apply books.without inside
  · intro q'
    rw [List.singleton_append, List.countP_cons, List.countP_singleton, ends]
    simp [Out.ends, eq_comm]
  · intro q'
    rw [List.singleton_append, List.countP_cons, List.countP_singleton, frees]
    simp [Out.frees, eq_comm]

end

end Baresip.Dns
