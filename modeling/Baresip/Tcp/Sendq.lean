import Baresip.Library.Runs
import Baresip.Re.Mbuf

set_option linter.dupNamespace false

namespace Baresip.Tcp

open Re Library

def TCP_TXQSZ_DEFAULT : Nat := 524288

inductive TcpErr
  | EINVAL | ENOTCONN | ENOSPC | EBADF
  | system (errno : Nat)
  deriving DecidableEq, Repr

/-- What `send` makes of the bytes it is given: it takes as many as there is room for. -/
inductive Kernel
  | takes (room : Nat)
  | again
  | fails (errno : Nat)
  deriving DecidableEq, Repr

/-- The sending side of a connection. `fdc` tells whether the descriptor is open, and `writes` whether it is polled for
    writing; of a queue entry there is what has not been sent. -/
structure TcpConn where
  fdc : Bool
  connected : Bool
  writes : Bool
  sendh : Bool
  sendq : List (List Byte)
  txqsz : Nat
  txqszMax : Nat
  deriving DecidableEq, Repr

namespace TcpConn

/-- `fd_listen` for reading, and for writing as well or not. When the system fails it stops polling the descriptor. -/
def listen (tc : TcpConn) (writes : Bool) (failure : Option Nat) : Option TcpErr × TcpConn :=
  if tc.fdc then
    match failure with
    | some errno => (some (.system errno), { tc with writes := false })
    | none => (none, { tc with writes := writes })
  else (some .EBADF, tc)

def append (tc : TcpConn) (mb : List Byte) : TcpConn :=
  { tc with sendq := tc.sendq ++ [mb], txqsz := tc.txqsz + mb.length }

def enqueue (tc : TcpConn) (mb : List Byte) (failure : Option Nat) : Option TcpErr × TcpConn :=
  if tc.txqszMax < tc.txqsz + mb.length then (some .ENOSPC, tc)
  else if tc.sendq = [] ∧ tc.sendh = false then
    match tc.listen true failure with
    | (some err, tc) => (some err, tc)
    | (none, tc) => (none, tc.append mb)
  else (none, tc.append mb)

end TcpConn

/-- What a call returns, the connection behind it, and what the kernel has taken in it. -/
structure Sent where
  err : Option TcpErr
  tc : TcpConn
  taken : List Byte
  deriving DecidableEq, Repr

namespace TcpConn

/-- The bytes are those that come out of the helpers. -/
def tcpSend (tc : TcpConn) (mb : List Byte) (kernel : Kernel) (failure : Option Nat) : Sent :=
  if tc.fdc = false then ⟨some .ENOTCONN, tc, []⟩
  else if mb = [] then ⟨some .EINVAL, tc, []⟩
  else if tc.sendq ≠ [] then ⟨(tc.enqueue mb failure).1, (tc.enqueue mb failure).2, []⟩
  else
    match kernel with
    | .again => ⟨(tc.enqueue mb failure).1, (tc.enqueue mb failure).2, []⟩
    | .fails errno => ⟨some (.system errno), tc, []⟩
    | .takes room =>
      if room < mb.length then
        ⟨(tc.enqueue (mb.drop room) failure).1, (tc.enqueue (mb.drop room) failure).2, mb.take room⟩
      else ⟨none, tc, mb⟩

/-- An entry of the queue goes out, as far as the kernel takes it. -/
def dequeue (tc : TcpConn) (qe : List Byte) (rest : List (List Byte)) : Kernel → Sent
  | .again => ⟨none, tc, []⟩
  | .fails errno => ⟨some (.system errno), tc, []⟩
  | .takes room =>
    ⟨none, { tc with
      txqsz := tc.txqsz - min room qe.length
      sendq := if qe.length ≤ min room qe.length then rest else qe.drop (min room qe.length) :: rest },
      qe.take (min room qe.length)⟩

def tcpSetSend (tc : TcpConn) (sendh : Bool) (failure : Option Nat) : Option TcpErr × TcpConn :=
  let tc := { tc with sendh := sendh }
  if tc.sendq ≠ [] ∨ sendh = false then (none, tc) else tc.listen true failure

def tcpConnTxqszSet (tc : TcpConn) (txqsz : Nat) : TcpConn := { tc with txqszMax := txqsz }

/-- `conn_close`. -/
def close (tc : TcpConn) : TcpConn := { tc with fdc := false, writes := false, sendq := [], txqsz := 0 }

end TcpConn

/-- What the owner calls, with how the kernel and `fd_listen` answer. -/
inductive Op
  | send (mb : List Byte) (kernel : Kernel) (failure : Option Nat)
  | setSend (sendh : Bool) (failure : Option Nat)
  | txqszSet (txqsz : Nat)
  deriving DecidableEq, Repr

/-- `taken` is what the kernel has taken so far, and `accepted` what the sends have put into the stream: all their bytes when
    they returned no error, and otherwise those that had gone out by then. -/
structure World where
  tc : TcpConn
  taken : List Byte
  accepted : List Byte
  deriving DecidableEq, Repr

namespace World

def send (w : World) (mb : List Byte) (kernel : Kernel) (failure : Option Nat) : World :=
  let sent := w.tc.tcpSend mb kernel failure
  ⟨sent.tc, w.taken ++ sent.taken, w.accepted ++ if sent.err = none then mb else sent.taken⟩

def op (w : World) : Op → World
  | .send mb kernel failure => w.send mb kernel failure
  | .setSend sendh failure => { w with tc := (w.tc.tcpSetSend sendh failure).2 }
  | .txqszSet txqsz => { w with tc := w.tc.tcpConnTxqszSet txqsz }

def close (w : World) : World := { w with tc := w.tc.close }

/-- `dequeue`, where the send handler of the owner makes its calls when the queue is empty. -/
def dequeue (w : World) (kernel : Kernel) (calls : List Op) : Option TcpErr × World :=
  match w.tc.sendq with
  | [] => (none, if w.tc.sendh then calls.foldl op w else w)
  | qe :: rest =>
    let sent := w.tc.dequeue qe rest kernel
    (sent.err, ⟨sent.tc, w.taken ++ sent.taken, w.accepted⟩)

/-- The receive handler when the descriptor can be written. -/
def writable (w : World) (error : Option Nat) (kernel : Kernel) (calls : List Op) (failure : Option Nat) : World :=
  if error.isSome then w.close
  else if w.tc.connected then
    match w.dequeue kernel calls with
    | (some _, w) => w.close
    | (none, w) =>
      if w.tc.sendq = [] ∧ w.tc.sendh = false then
        match w.tc.listen false failure with
        | (some _, _) => w.close
        | (none, tc) => { w with tc := tc }
      else w
  else
    match ({ w.tc with connected := true } : TcpConn).listen false failure with
    | (some _, tc) => close { w with tc := tc }
    | (none, tc) => { w with tc := tc }

end World

inductive Event
  | op (op : Op)
  | writable (error : Option Nat) (kernel : Kernel) (calls : List Op) (failure : Option Nat)
  | ended
  deriving DecidableEq, Repr

/-- A descriptor that is closed, or not polled for writing, has no such events. -/
def step (w : World) : Event → World
  | .op op => w.op op
  | .writable error kernel calls failure =>
    if w.tc.fdc ∧ w.tc.writes then w.writable error kernel calls failure else w
  | .ended => if w.tc.fdc then w.close else w

/-- Behind `tcp_accept` and `tcp_conn_connect`. -/
def start : World := ⟨⟨true, false, true, false, [], 0, TCP_TXQSZ_DEFAULT⟩, [], []⟩

/-! What a send does. -/

section
variable {tc : TcpConn} {mb : List Byte} {kernel : Kernel} {failure : Option Nat}

inductive Enqueued (tc : TcpConn) (mb : List Byte) : Option TcpErr × TcpConn → Prop
  | refused (err : TcpErr) : Enqueued tc mb (some err, tc)
  | unpolled (errno : Nat) (empty : tc.sendq = []) (none_ : tc.sendh = false) :
    Enqueued tc mb (some (.system errno), { tc with writes := false })
  | polled (empty : tc.sendq = []) (none_ : tc.sendh = false) :
    Enqueued tc mb (none, ({ tc with writes := true } : TcpConn).append mb)
  | queued (more : tc.sendq ≠ [] ∨ tc.sendh = true) : Enqueued tc mb (none, tc.append mb)

theorem enqueue_enqueued (tc : TcpConn) (mb : List Byte) (failure : Option Nat) : Enqueued tc mb (tc.enqueue mb failure) := by
  unfold TcpConn.enqueue TcpConn.listen
  split_ifs with full idle open_
  · exact .refused _
  · cases failure with
    | none => exact .polled idle.1 idle.2
    | some errno => exact .unpolled errno idle.1 idle.2
  · exact .refused _
  · refine .queued ?_
    rw [not_and_or, Bool.not_eq_false] at idle
    exact idle

/-- What cannot go out at once is queued; only an empty queue lets anything go out at once. -/
inductive Sending (tc : TcpConn) (mb : List Byte) : Sent → Prop
  | refused (err : TcpErr) : Sending tc mb ⟨some err, tc, []⟩
  | whole (empty : tc.sendq = []) (open_ : tc.fdc = true) : Sending tc mb ⟨none, tc, mb⟩
  | rest {r : Option TcpErr × TcpConn} (room : Nat) (open_ : tc.fdc = true) (less : room < mb.length)
    (first : tc.sendq ≠ [] → room = 0) (queued : Enqueued tc (mb.drop room) r) :
    Sending tc mb ⟨r.1, r.2, mb.take room⟩

theorem tcpSend_sending (tc : TcpConn) (mb : List Byte) (kernel : Kernel) (failure : Option Nat) :
    Sending tc mb (tc.tcpSend mb kernel failure) := by
  have all : 0 < mb.length → tc.fdc = true →
      Sending tc mb ⟨(tc.enqueue mb failure).1, (tc.enqueue mb failure).2, []⟩ := by
    intro some_ open_
    exact .rest 0 open_ some_ (fun _ => rfl) (enqueue_enqueued tc mb failure)
  unfold TcpConn.tcpSend
  split_ifs with closed none_ more
  · exact .refused _
  · exact .refused _
  · exact all (List.length_pos_iff.mpr none_) (Bool.of_not_eq_false closed)
  · have open_ := Bool.of_not_eq_false closed
    cases kernel with
    | again => exact all (List.length_pos_iff.mpr none_) open_
    | fails errno => exact .refused _
    | takes room =>
      dsimp only
      split_ifs with less
      · exact .rest room open_ less (fun some_ => absurd some_ more) (enqueue_enqueued tc (mb.drop room) failure)
      · exact .whole (not_not.mp more) open_

end

/-! What an event does. -/

/-- What the handler makes of a descriptor that can be written: it closes the connection, goes on with the queue or the send
    handler as long as there are any, or has established the connection. -/
inductive Written (w : World) (kernel : Kernel) (calls : List Op) : World → Prop
  | closed (connected : Bool) : Written w kernel calls (World.close { w with tc := { w.tc with connected := connected } })
  | failed : Written w kernel calls (w.dequeue kernel calls).2.close
  | goes (connected : w.tc.connected = true)
    (more : (w.dequeue kernel calls).2.tc.sendq ≠ [] ∨ (w.dequeue kernel calls).2.tc.sendh = true) :
    Written w kernel calls (w.dequeue kernel calls).2
  | idle (connected : w.tc.connected = true) (empty : (w.dequeue kernel calls).2.tc.sendq = [])
    (none_ : (w.dequeue kernel calls).2.tc.sendh = false) :
    Written w kernel calls
      { (w.dequeue kernel calls).2 with tc := { (w.dequeue kernel calls).2.tc with writes := false } }
  | established (unconnected : w.tc.connected = false) :
    Written w kernel calls { w with tc := { w.tc with connected := true, writes := false } }

theorem writable_written {w : World} (open_ : w.tc.fdc = true) (error : Option Nat) (kernel : Kernel) (calls : List Op)
    (failure : Option Nat) : Written w kernel calls (w.writable error kernel calls failure) := by
  have fails : Written w kernel calls (w.dequeue kernel calls).2.close := .failed
  have goes := @Written.goes w kernel calls
  have idle := @Written.idle w kernel calls
  unfold World.writable
  split_ifs with broken connected
  · exact .closed w.tc.connected
  · generalize w.dequeue kernel calls = result at fails goes idle
    obtain ⟨err, next⟩ := result
    cases err with
    | some err => exact fails
    | none =>
      dsimp only at fails goes idle ⊢
      unfold TcpConn.listen
      split_ifs with nothing_ opened
      · cases failure with
        | some errno => exact fails
        | none => exact idle connected nothing_.1 nothing_.2
      · exact fails
      · rw [not_and_or, Bool.not_eq_false] at nothing_
        exact goes connected nothing_
  · unfold TcpConn.listen
    rw [if_pos open_]
    cases failure with
    | some errno => exact .closed true
    | none => exact .established (Bool.eq_false_iff.mpr connected)

inductive Stepped (w : World) : Event → World → Prop
  | op (o : Op) : Stepped w (.op o) (w.op o)
  | written {kernel : Kernel} {calls : List Op} {next : World} (error failure : Option Nat) (open_ : w.tc.fdc = true)
    (polled : w.tc.writes = true) (written : Written w kernel calls next) :
    Stepped w (.writable error kernel calls failure) next
  | ended : Stepped w .ended w.close
  | ignored (event : Event) : Stepped w event w

theorem step_stepped (w : World) (event : Event) : Stepped w event (step w event) := by
  cases event with
  | op o => exact .op o
  | writable error kernel calls failure =>
    unfold step
    dsimp only
    split_ifs with ready
    · exact .written error failure ready.1 ready.2 (writable_written ready.1 error kernel calls failure)
    · exact .ignored _
  | ended =>
    unfold step
    dsimp only
    split_ifs
    · exact .ended
    · exact .ignored _

/-! The stream. -/

/-- What is accepted goes out in order, and stands in the queue until it does. -/
structure Whole (w : World) : Prop where
  opened : w.tc.fdc = true → w.accepted = w.taken ++ w.tc.sendq.flatten
  closed : w.tc.fdc = false → w.tc.sendq = []
  behind : w.taken <+: w.accepted
  counted : w.tc.txqsz = w.tc.sendq.flatten.length
  entries : ∀ qe ∈ w.tc.sendq, qe ≠ []

variable {w : World}

/-- Nothing but the flags of the connection differs. -/
theorem Whole.flags (whole : Whole w) (connected writes sendh : Bool) (txqszMax : Nat) :
    Whole ⟨⟨w.tc.fdc, connected, writes, sendh, w.tc.sendq, w.tc.txqsz, txqszMax⟩, w.taken, w.accepted⟩ :=
  ⟨whole.opened, whole.closed, whole.behind, whole.counted, whole.entries⟩

theorem Whole.close (whole : Whole w) : Whole w.close where
  opened := nofun
  closed _ := rfl
  behind := whole.behind
  counted := rfl
  entries := nofun

theorem Whole.append (whole : Whole w) (open_ : w.tc.fdc = true) {front back : List Byte} (some_ : back ≠ [])
    (first : w.tc.sendq ≠ [] → front = []) (writes : Bool) :
    Whole ⟨({ w.tc with writes := writes } : TcpConn).append back, w.taken ++ front, w.accepted ++ (front ++ back)⟩ := by
  have stream : w.accepted ++ (front ++ back) = w.taken ++ front ++ (w.tc.sendq ++ [back]).flatten := by
    rw [whole.opened open_, List.flatten_append, List.flatten_singleton]
    by_cases empty : w.tc.sendq = []
    · rw [empty]
      simp
    · rw [first empty]
      simp
  refine ⟨fun _ => stream, fun closed => absurd (open_.symm.trans closed) (by decide), ?_, ?_, ?_⟩
  · exact ⟨_, stream.symm⟩
  · simp [TcpConn.append, whole.counted]
  · intro qe member
    rcases List.mem_append.mp member with old | new
    · exact whole.entries qe old
    · rw [List.mem_singleton.mp new]
      exact some_

/-- What has gone out of a send that failed. -/
theorem Whole.partial_ (whole : Whole w) (open_ : w.tc.fdc = true) {front : List Byte} (first : w.tc.sendq ≠ [] → front = [])
    (writes : Bool) : Whole ⟨{ w.tc with writes := writes }, w.taken ++ front, w.accepted ++ front⟩ := by
  have stream : w.accepted ++ front = w.taken ++ front ++ w.tc.sendq.flatten := by
    rw [whole.opened open_]
    by_cases empty : w.tc.sendq = []
    · rw [empty]
      simp
    · rw [first empty]
      simp
  exact ⟨fun _ => stream, whole.closed, ⟨_, stream.symm⟩, whole.counted, whole.entries⟩

theorem Whole.send (whole : Whole w) (mb : List Byte) (kernel : Kernel) (failure : Option Nat) :
    Whole (w.send mb kernel failure) := by
  unfold World.send
  generalize sent : w.tc.tcpSend mb kernel failure = result
  have sending := tcpSend_sending w.tc mb kernel failure
  rw [sent] at sending
  dsimp only
  cases sending with
  | refused err =>
    rw [if_neg (Option.some_ne_none err), List.append_nil, List.append_nil]
    exact whole
  | whole empty open_ =>
    rw [if_pos rfl]
    exact whole.partial_ open_ (fun some_ => absurd empty some_) w.tc.writes
  | rest room open_ less first queued =>
    have front : w.tc.sendq ≠ [] → mb.take room = [] := by
      intro some_
      rw [first some_, List.take_zero]
    have back : mb.drop room ≠ [] := by
      rw [ne_eq, List.drop_eq_nil_iff]
      exact Nat.not_le_of_lt less
    cases queued with
    | refused err =>
      rw [if_neg (Option.some_ne_none err)]
      exact whole.partial_ open_ front w.tc.writes
    | unpolled errno empty none_ =>
      rw [if_neg (Option.some_ne_none _)]
      exact whole.partial_ open_ front false
    | polled empty none_ =>
      rw [if_pos rfl]
      conv => arg 1; arg 3; rw [← List.take_append_drop room mb]
      exact whole.append open_ back front true
    | queued more =>
      rw [if_pos rfl]
      conv => arg 1; arg 3; rw [← List.take_append_drop room mb]
      exact whole.append open_ back front w.tc.writes

theorem Whole.listen (whole : Whole w) (writes : Bool) (failure : Option Nat) :
    Whole { w with tc := (w.tc.listen writes failure).2 } := by
  unfold TcpConn.listen
  split_ifs
  · cases failure with
    | none => exact whole.flags w.tc.connected writes w.tc.sendh w.tc.txqszMax
    | some errno => exact whole.flags w.tc.connected false w.tc.sendh w.tc.txqszMax
  · exact whole

theorem Whole.op (whole : Whole w) (o : Op) : Whole (w.op o) := by
  cases o with
  | send mb kernel failure => exact whole.send mb kernel failure
  | setSend sendh failure =>
    have set := whole.flags w.tc.connected w.tc.writes sendh w.tc.txqszMax
    unfold World.op TcpConn.tcpSetSend
    dsimp only
    split_ifs
    · exact set
    · exact set.listen true failure
  | txqszSet txqsz => exact whole.flags w.tc.connected w.tc.writes w.tc.sendh txqsz

theorem Whole.calls (whole : Whole w) (calls : List Op) : Whole (calls.foldl World.op w) := by
  induction calls generalizing w with
  | nil => exact whole
  | cons o calls ih => exact ih (whole.op o)

theorem Whole.dequeue (whole : Whole w) (open_ : w.tc.fdc = true) (kernel : Kernel) (calls : List Op) :
    Whole (w.dequeue kernel calls).2 := by
  have stream := whole.opened open_
  have counted := whole.counted
  have entries := whole.entries
  unfold World.dequeue
  cases queue : w.tc.sendq with
  | nil =>
    dsimp only
    split_ifs
    · exact whole.calls calls
    · exact whole
  | cons qe rest =>
    rw [queue, List.flatten_cons] at stream counted
    rw [queue, List.forall_mem_cons] at entries
    cases kernel with
    | again =>
      have same := whole.flags w.tc.connected w.tc.writes w.tc.sendh w.tc.txqszMax
      simp only [TcpConn.dequeue, List.append_nil]
      exact same
    | fails errno =>
      have same := whole.flags w.tc.connected w.tc.writes w.tc.sendh w.tc.txqszMax
      simp only [TcpConn.dequeue, List.append_nil]
      exact same
    | takes room =>
      have lengths : (qe.take (min room qe.length)).length + (qe.drop (min room qe.length)).length = qe.length := by
        rw [← List.length_append, List.take_append_drop]
      have left : (if qe.length ≤ min room qe.length then rest else qe.drop (min room qe.length) :: rest).flatten =
          qe.drop (min room qe.length) ++ rest.flatten := by
        split_ifs with gone
        · rw [List.drop_eq_nil_of_le gone, List.nil_append]
        · rfl
      have after : w.accepted = w.taken ++ qe.take (min room qe.length) ++
          (qe.drop (min room qe.length) ++ rest.flatten) := by
        rw [List.append_assoc, ← List.append_assoc (qe.take _), List.take_append_drop]
        exact stream
      simp only [TcpConn.dequeue]
      refine ⟨fun _ => by rw [left]; exact after, fun closed => absurd (open_.symm.trans closed) (by decide),
        ⟨_, after.symm⟩, ?_, ?_⟩
      · dsimp only
        rw [left, counted, List.length_append, List.length_append, List.length_drop]
        omega
      · intro piece member
        split_ifs at member with gone
        · exact entries.2 piece member
        · rcases List.mem_cons.mp member with rfl | later
          · rw [ne_eq, List.drop_eq_nil_iff]
            exact gone
          · exact entries.2 piece later

theorem Whole.written (whole : Whole w) (open_ : w.tc.fdc = true) {kernel : Kernel} {calls : List Op} {next : World}
    (written : Written w kernel calls next) : Whole next := by
  have dequeued := whole.dequeue open_ kernel calls
  cases written with
  | closed connected => exact (whole.flags connected w.tc.writes w.tc.sendh w.tc.txqszMax).close
  | failed => exact dequeued.close
  | goes connected more => exact dequeued
  | idle connected empty none_ => exact dequeued.flags _ false _ _
  | established unconnected => exact whole.flags true false w.tc.sendh w.tc.txqszMax

theorem Whole.step (whole : Whole w) (event : Event) : Whole (step w event) := by
  have stepped := step_stepped w event
  generalize Tcp.step w event = next at stepped
  cases stepped with
  | op o => exact whole.op o
  | written error failure open_ polled written => exact whole.written open_ written
  | ended => exact whole.close
  | ignored => exact whole

theorem start_whole : Whole start :=
  ⟨fun _ => rfl, nofun, List.prefix_refl _, rfl, nofun⟩

theorem run_whole (events : List Event) : Whole (events.foldl step start) := by
  have kept : Throughout step Whole start events :=
    throughout_of_invariant (fun _ event whole => whole.step event) start_whole
  exact kept.last

/-- However the calls, the events and the answers of the kernel follow one another, and also where the send handler calls
    back, the kernel is given a beginning of what was accepted, in order, and the rest stands in the queue. -/
theorem stream_in_order (events : List Event) :
    let w := events.foldl step start
    w.taken <+: w.accepted ∧ w.tc.txqsz = w.tc.sendq.flatten.length ∧
      (w.tc.fdc = true → w.accepted = w.taken ++ w.tc.sendq.flatten) := by
  have whole := run_whole events
  exact ⟨whole.behind, whole.counted, whole.opened⟩

/-- A send that fails has sent the front of its bytes exactly when the kernel had room for some of them only, and the others
    did not fit the queue or the descriptor could not be polled. -/
theorem failed_send_partial_iff (events : List Event) (mb : List Byte) (kernel : Kernel)
    (failure : Option Nat) :
    let tc := (events.foldl step start).tc
    let sent := tc.tcpSend mb kernel failure
    (sent.err ≠ none ∧ sent.taken ≠ []) ↔
      tc.fdc = true ∧ tc.sendq = [] ∧ ∃ room, kernel = .takes room ∧ 0 < room ∧ room < mb.length ∧
        (tc.txqszMax < mb.length - room ∨ tc.sendh = false ∧ failure ≠ none) := by
  intro tc
  have counted : tc.txqsz = tc.sendq.flatten.length := (run_whole events).counted
  clear_value tc
  unfold TcpConn.tcpSend
  dsimp only
  split_ifs with closed none_ more
  · simp [closed]
  · simp [none_]
  · simp [more]
  · rw [not_not] at more
    rw [Bool.not_eq_false] at closed
    rw [more, List.flatten_nil, List.length_nil] at counted
    cases kernel with
    | again => simp
    | fails errno => simp
    | takes room =>
      dsimp only
      by_cases less : room < mb.length
      · rw [if_pos less]
        have some_ : mb.take room ≠ [] ↔ 0 < room := by
          rw [ne_eq, List.take_eq_nil_iff, not_or, Nat.pos_iff_ne_zero]
          exact and_iff_left none_
        have refused : (tc.enqueue (mb.drop room) failure).1 ≠ none ↔
            tc.txqszMax < mb.length - room ∨ tc.sendh = false ∧ failure ≠ none := by
          unfold TcpConn.enqueue TcpConn.listen
          rw [counted, Nat.zero_add, List.length_drop, if_pos closed]
          by_cases full : tc.txqszMax < mb.length - room
          · rw [if_pos full]
            exact iff_of_true (Option.some_ne_none _) (.inl full)
          · rw [if_neg full, or_iff_right full]
            by_cases handler : tc.sendh = false
            · rw [if_pos ⟨more, handler⟩]
              cases failure <;> simp [handler]
            · rw [if_neg (fun idle => handler idle.2)]
              simp [handler]
        simp only [some_, refused, closed, more, true_and, Kernel.takes.injEq, exists_eq_left', less, and_comm]
      · rw [if_neg less]
        refine iff_of_false (fun failed => failed.1 rfl) ?_
        rintro ⟨-, -, room', same, -, less', -⟩
        obtain rfl := Kernel.takes.inj same
        exact less less'

/-! Polling. -/

/-- Nothing is going to be taken any more: there is a queue, but the descriptor is not polled for writing. -/
def Stuck (w : World) : Prop := w.tc.fdc = true → w.tc.sendq ≠ [] ∧ w.tc.writes = false

theorem Stuck.op (stuck : Stuck w) (o : Op) : Stuck (w.op o) ∧ (w.op o).taken = w.taken := by
  cases o with
  | send mb kernel failure =>
    have sending := tcpSend_sending w.tc mb kernel failure
    show Stuck (w.send mb kernel failure) ∧ (w.send mb kernel failure).taken = w.taken
    unfold World.send
    generalize w.tc.tcpSend mb kernel failure = sent at sending
    dsimp only
    cases sending with
    | refused err => exact ⟨stuck, List.append_nil _⟩
    | whole empty open_ => exact absurd empty (stuck open_).1
    | rest room open_ less first queued =>
      obtain ⟨more, unpolled⟩ := stuck open_
      have none_ : w.taken ++ mb.take room = w.taken := by
        rw [first more, List.take_zero, List.append_nil]
      cases queued with
      | refused err => exact ⟨stuck, none_⟩
      | unpolled errno empty idle => exact absurd empty more
      | polled empty idle => exact absurd empty more
      | queued busy =>
        have longer : w.tc.sendq ++ [mb.drop room] ≠ [] := by simp
        exact ⟨fun _ => ⟨longer, unpolled⟩, none_⟩
  | setSend sendh failure =>
    refine ⟨?_, rfl⟩
    unfold World.op TcpConn.tcpSetSend TcpConn.listen
    dsimp only
    split_ifs with busy open_
    · exact stuck
    · exact absurd (not_or.mp busy).1 (not_not.mpr (stuck open_).1)
    · exact stuck
  | txqszSet txqsz => exact ⟨stuck, rfl⟩

theorem Stuck.step (stuck : Stuck w) (event : Event) : Stuck (step w event) ∧ (Tcp.step w event).taken = w.taken := by
  have stepped := step_stepped w event
  generalize Tcp.step w event = next at stepped
  cases stepped with
  | op o => exact stuck.op o
  | written error failure open_ polled written => exact absurd (polled.symm.trans (stuck open_).2) (by decide)
  | ended => exact ⟨nofun, rfl⟩
  | ignored => exact ⟨stuck, rfl⟩

theorem Stuck.run (stuck : Stuck w) (events : List Event) : (events.foldl Tcp.step w).taken = w.taken := by
  induction events generalizing w with
  | nil => rfl
  | cons event events ih =>
    obtain ⟨kept, same⟩ := stuck.step event
    rw [List.foldl_cons, ih kept, same]

/-- Nothing more is given to the kernel, whatever is called later. -/
def Silent (w : World) : Prop := ∀ later : List Event, (later.foldl step w).taken = w.taken

/-- What is queued when the connection is established is never sent, nor is anything behind it. It is polled for reading only
    from then on, and a send does not poll it for writing while there is a queue. -/
theorem established_silent_iff (events : List Event) (kernel : Kernel) (calls : List Op)
    (open_ : (events.foldl step start).tc.fdc = true)
    (polled : (events.foldl step start).tc.writes = true)
    (unconnected : (events.foldl step start).tc.connected = false) :
    Silent (step (events.foldl step start) (.writable none kernel calls none)) ↔
      (events.foldl step start).tc.sendq ≠ [] := by
  generalize events.foldl step start = before at open_ polled unconnected
  have established : step before (.writable none kernel calls none) =
      { before with tc := { before.tc with connected := true, writes := false } } := by
    simp [step, World.writable, TcpConn.listen, open_, polled, unconnected]
  rw [established]
  constructor
  · intro never empty
    have goes := never [.op (.send [0] (.takes 1) none)]
    simp [step, World.op, World.send, TcpConn.tcpSend, open_, empty] at goes
  · intro more later
    have stuck : Stuck { before with tc := { before.tc with connected := true, writes := false } } := fun _ => ⟨more, rfl⟩
    exact stuck.run later

/-- A send before the connection is established. -/
theorem established_silent_early :
    Silent ([.op (.send [0] .again none), .writable none .again [] none].foldl step start) :=
  (established_silent_iff [.op (.send [0] .again none)] .again [] rfl rfl rfl).mpr (by decide)

/-- A connection that has something to send is polled for writing. -/
def Polled (w : World) : Prop :=
  w.tc.fdc = true → w.tc.connected = true → w.tc.sendq ≠ [] ∨ w.tc.sendh = true → w.tc.writes = true

/-- Setting a handler does not fail to poll the descriptor. -/
def Op.Listens : Op → Prop
  | .setSend true failure => failure = none
  | _ => True

/-- Nothing waits to be sent when the connection is established. -/
def Guard (w : World) : Event → Prop
  | .op o => o.Listens
  | .writable _ _ calls _ =>
    (∀ o ∈ calls, o.Listens) ∧ (w.tc.connected = false → w.tc.sendq = [] ∧ w.tc.sendh = false)
  | .ended => True

theorem Polled.op (polled : Polled w) {o : Op} (listens : o.Listens) : Polled (w.op o) := by
  cases o with
  | send mb kernel failure =>
    have sending := tcpSend_sending w.tc mb kernel failure
    show Polled (w.send mb kernel failure)
    unfold World.send
    generalize w.tc.tcpSend mb kernel failure = sent at sending
    dsimp only
    cases sending with
    | refused err => exact polled
    | whole empty open_ => exact polled
    | rest room open_ less first queued =>
      cases queued with
      | refused err => exact polled
      | unpolled errno empty idle =>
        rintro - - (more | handler)
        · exact absurd empty more
        · exact absurd (handler.symm.trans idle) (by decide)
      | polled empty idle => exact fun _ _ _ => rfl
      | queued busy => exact fun open_ connected _ => polled open_ connected busy
  | setSend sendh failure =>
    unfold World.op TcpConn.tcpSetSend TcpConn.listen
    dsimp only
    split_ifs with busy open_
    · intro open_ connected waits
      rcases busy with more | none_
      · exact polled open_ connected (.inl more)
      · rcases waits with more | handler
        · exact polled open_ connected (.inl more)
        · exact absurd (handler.symm.trans none_) (by decide)
    · rw [not_or, Bool.not_eq_false] at busy
      obtain rfl := busy.2
      obtain rfl : failure = none := listens
      exact fun _ _ _ => rfl
    · exact fun opened => absurd opened open_
  | txqszSet txqsz => exact polled

theorem Polled.calls (polled : Polled w) {calls : List Op} (listen : ∀ o ∈ calls, o.Listens) :
    Polled (calls.foldl World.op w) := by
  induction calls generalizing w with
  | nil => exact polled
  | cons o calls ih =>
    rw [List.forall_mem_cons] at listen
    exact ih (polled.op listen.1) listen.2

theorem Polled.dequeue (polled : Polled w) (writes : w.tc.writes = true) (kernel : Kernel) {calls : List Op}
    (listen : ∀ o ∈ calls, o.Listens) : Polled (w.dequeue kernel calls).2 := by
  unfold World.dequeue
  cases w.tc.sendq with
  | nil =>
    dsimp only
    split_ifs
    · exact polled.calls listen
    · exact polled
  | cons qe rest => cases kernel <;> exact fun _ _ _ => writes

theorem Polled.step (polled : Polled w) {event : Event} (guard : Guard w event) : Polled (step w event) := by
  have stepped := step_stepped w event
  generalize Tcp.step w event = next at stepped
  cases stepped with
  | op o => exact polled.op guard
  | @written kernel calls _ error failure open_ writes written =>
    have dequeued := polled.dequeue writes kernel guard.1
    cases written with
    | closed connected => exact nofun
    | failed => exact nofun
    | goes connected more => exact dequeued
    | idle connected empty none_ =>
      rintro - - (more | handler)
      · exact absurd empty more
      · exact absurd (handler.symm.trans none_) (by decide)
    | established unconnected =>
      obtain ⟨empty, none_⟩ := guard.2 unconnected
      rintro - - (more | handler)
      · exact absurd empty more
      · exact absurd (handler.symm.trans none_) (by decide)
  | ended => exact nofun
  | ignored => exact polled

/-- The kernel has room for something. -/
def Event.Rooms : Event → Prop
  | .writable error kernel _ failure => error = none ∧ failure = none ∧ ∃ room, kernel = .takes (room + 1)
  | _ => False

theorem Whole.emptied (whole : Whole w) (none_ : w.tc.sendq.flatten = []) : w.tc.sendq = [] := by
  apply List.eq_nil_iff_forall_not_mem.mpr
  intro qe member
  exact whole.entries qe member (List.flatten_eq_nil_iff.mp none_ qe member)

/-- What a queue needs to empty. -/
structure Sends (accepted : List Byte) (w : World) : Prop where
  whole : Whole w
  polled : Polled w
  open_ : w.tc.fdc = true
  connected : w.tc.connected = true
  same : w.accepted = accepted

theorem Sends.writable {accepted : List Byte} (sends : Sends accepted w) (more : w.tc.sendq ≠ []) (room : Nat)
    (calls : List Op) :
    Sends accepted (step w (.writable none (.takes (room + 1)) calls none)) ∧
      (step w (.writable none (.takes (room + 1)) calls none)).tc.sendq.flatten.length < w.tc.sendq.flatten.length := by
  have writes := sends.polled sends.open_ sends.connected (.inl more)
  have whole := sends.whole.step (.writable none (.takes (room + 1)) calls none)
  obtain ⟨qe, rest, queue⟩ := List.exists_cons_of_ne_nil more
  have positive : 0 < qe.length := List.length_pos_iff.mpr (sends.whole.entries qe (by rw [queue]; exact List.mem_cons_self))
  have less : (if qe.length ≤ min (room + 1) qe.length then rest else qe.drop (min (room + 1) qe.length) :: rest).flatten.length <
      w.tc.sendq.flatten.length := by
    rw [queue]
    split_ifs
    · simpa using positive
    · simp only [List.flatten_cons, List.length_append, List.length_drop]
      omega
  have result : ∃ sendq writes', step w (.writable none (.takes (room + 1)) calls none) =
      ⟨{ w.tc with
          txqsz := w.tc.txqsz - min (room + 1) qe.length
          sendq := sendq
          writes := writes' }, w.taken ++ qe.take (min (room + 1) qe.length), w.accepted⟩ ∧
      sendq = (if qe.length ≤ min (room + 1) qe.length then rest else qe.drop (min (room + 1) qe.length) :: rest) ∧
      (sendq ≠ [] ∨ w.tc.sendh = true → writes' = true) := by
    simp only [step, sends.open_, writes, and_self, if_true, World.writable, Option.isSome_none, Bool.false_eq_true, if_false,
      sends.connected, World.dequeue, queue, TcpConn.dequeue, TcpConn.listen]
    split_ifs with gone idle idle
    · exact ⟨_, _, rfl, rfl, fun waits => absurd waits (by simp [idle])⟩
    · exact ⟨_, _, rfl, rfl, fun _ => rfl⟩
    · exact absurd idle.1 not_false
    · exact ⟨_, _, rfl, rfl, fun _ => rfl⟩
  obtain ⟨sendq, writes', after, left, waits⟩ := result
  rw [after] at whole ⊢
  exact ⟨⟨whole, fun _ _ => waits, sends.open_, sends.connected, sends.same⟩, by rw [left]; exact less⟩

theorem Sends.goes {accepted : List Byte} (sends : Sends accepted w) (more : w.tc.sendq ≠ []) {event : Event}
    (rooms : event.Rooms) :
    Sends accepted (step w event) ∧ (step w event).tc.sendq.flatten.length < w.tc.sendq.flatten.length := by
  cases event with
  | writable error kernel calls failure =>
    obtain ⟨rfl, rfl, room, rfl⟩ := rooms
    exact sends.writable more room calls
  | op o => exact rooms.elim
  | ended => exact rooms.elim

/-- What is queued goes out with as many of the events as it has bytes, or fewer. -/
theorem Sends.drains {accepted : List Byte} (sends : Sends accepted w) {events : List Event}
    (rooms : ∀ event ∈ events, event.Rooms) (enough : w.tc.sendq.flatten.length ≤ events.length) :
    ∃ n, ((events.take n).foldl Tcp.step w).tc.sendq = [] ∧ ((events.take n).foldl Tcp.step w).taken = accepted := by
  induction events generalizing w with
  | nil =>
    have none_ := List.length_eq_zero_iff.mp (Nat.le_zero.mp enough)
    have sent : w.taken = accepted := by
      rw [← sends.same, sends.whole.opened sends.open_, none_, List.append_nil]
    exact ⟨0, sends.whole.emptied none_, sent⟩
  | cons event events ih =>
    by_cases more : w.tc.sendq = []
    · have sent : w.taken = accepted := by
        rw [← sends.same, sends.whole.opened sends.open_, more, List.flatten_nil, List.append_nil]
      exact ⟨0, more, sent⟩
    · rw [List.forall_mem_cons] at rooms
      obtain ⟨kept, less⟩ := sends.goes more rooms.1
      rw [List.length_cons] at enough
      obtain ⟨n, drained⟩ := ih kept rooms.2 (by omega)
      exact ⟨n + 1, drained⟩

/-- A queue empties, if nothing waited when the connection was established and setting a handler did not fail, with
    as many events as there are bytes in it, and all that was accepted has been sent by then. -/
theorem queue_drains (events : List Event)
    (guarded : Along step Guard start events)
    (open_ : (events.foldl step start).tc.fdc = true)
    (connected : (events.foldl step start).tc.connected = true) (later : List Event)
    (rooms : ∀ event ∈ later, event.Rooms)
    (enough : (events.foldl step start).tc.txqsz ≤ later.length) :
    let w := events.foldl step start
    ∃ n, ((later.take n).foldl step w).tc.sendq = [] ∧ ((later.take n).foldl step w).taken = w.accepted := by
  have polled : Throughout step Polled start events :=
    throughout_of_guarded (fun _ _ polled guard => polled.step guard) nofun guarded
  have whole := run_whole events
  rw [whole.counted] at enough
  exact Sends.drains ⟨whole, polled.last, open_, connected, rfl⟩ rooms enough

/-- One byte of three goes out with the call, and the others with the next two events. -/
theorem queue_drains_three :
    let w := [.writable none .again [] none, .op (.send [1, 2, 3] (.takes 1) none)].foldl step start
    ∃ n, (((List.replicate 2 (.writable none (.takes 1) [] none)).take n).foldl step w).tc.sendq = [] ∧
      (((List.replicate 2 (.writable none (.takes 1) [] none)).take n).foldl step w).taken = w.accepted :=
  queue_drains [.writable none .again [] none, .op (.send [1, 2, 3] (.takes 1) none)]
    ⟨⟨nofun, fun _ => ⟨rfl, rfl⟩⟩, trivial, trivial⟩ rfl rfl (List.replicate 2 (.writable none (.takes 1) [] none))
    (fun _ event => (List.eq_of_mem_replicate event) ▸ ⟨rfl, rfl, 0, rfl⟩) (by decide)

end Baresip.Tcp
