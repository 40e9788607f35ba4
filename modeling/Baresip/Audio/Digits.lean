import Baresip.Library.Runs
import Baresip.Re.Telev
import Mathlib.Data.List.Induction

set_option linter.dupNamespace false

namespace Baresip.Audio

open Re Library

def Dtmf (digit : Int) : Prop :=
  (0x30 ≤ digit ∧ digit ≤ 0x39) ∨ digit = 0x2a ∨ digit = 0x23 ∨ (0x61 ≤ digit ∧ digit ≤ 0x64) ∨
    (0x41 ≤ digit ∧ digit ≤ 0x44)

/-- A key is a digit, or 0 for the release of the last one. -/
structure Key where
  key : Int
  valid : key = 0 ∨ Dtmf key

structure Sender where
  telev : Telev
  curKey : Int
  deriving DecidableEq, Repr

def audioSendDigit (a : Sender) (key : Int) : Sender :=
  let telev :=
    if key > 0 then televSend a.telev (televDigit2code key) false
    else if a.curKey ≠ 0 then televSend a.telev (televDigit2code a.curKey) true
    else a.telev
  ⟨telev, key⟩

/-- What became of a packet: its marker, and what the peer's `telev_recv` made of it. -/
structure Delivery where
  marker : Bool
  report : Except Errno (Byte × Bool)

structure Line where
  audio : Sender
  peer : Telev
  log : List Delivery

def Line.initial (ptime : BitVec 32) : Line := ⟨⟨televAlloc ptime, 0⟩, televAlloc ptime, []⟩

inductive Action
  | key (key : Key)
  | poll

def poll (s : Line) : Line :=
  match televPoll s.audio.telev with
  | (.error _, telev) => { s with audio := { s.audio with telev := telev } }
  | (.ok (marker, packet), telev) =>
    let (report, peer) := televRecv s.peer packet
    ⟨{ s.audio with telev := telev }, peer, s.log ++ [⟨marker, report⟩]⟩

def step (s : Line) : Action → Line
  | .key key => { s with audio := audioSendDigit s.audio key.key }
  | .poll => poll s

def pressed (acts : List Action) : List Byte :=
  acts.filterMap fun
    | .key key => if key.key > 0 then some (BitVec.ofInt 8 (televDigit2code key.key)) else none
    | .poll => none

def reports (log : List Delivery) : List (Byte × Bool) := log.filterMap fun d => d.report.toOption

/-- A begin and an end for each digit. -/
def beginsAndEnds (digits : List Byte) : List (Byte × Bool) := digits.flatMap fun d => [(d, false), (d, true)]

def Drained (s : Line) : Prop := s.audio.telev.state = .idle ∧ s.audio.telev.mb = []

/-- The marker is on the packets whose begin is reported, and on no others. -/
def Marked (log : List Delivery) : Prop :=
  ∀ d ∈ log, d.marker = true ↔ ∃ event, d.report = .ok (event, false)

/-- A queue with the digits it holds. The end of a digit may be missing where another follows, and the
    last digit may still be held. -/
inductive Queued : List Byte → List Byte → Bool → Prop
  | empty : Queued [] [] false
  | held (d : Byte) : Queued [d] [d] true
  | released (d : Byte) {mb ds held} (rest : Queued mb ds held) : Queued (d :: eventEnd :: mb) (d :: ds) held
  | replaced (d : Byte) {e mb ds held} (digit : e ≠ eventEnd) (rest : Queued (e :: mb) ds held) :
      Queued (d :: e :: mb) (d :: ds) held

theorem code_digit {key : Int} (valid : Dtmf key) : BitVec.ofInt 8 (televDigit2code key) ≠ eventEnd := by
  have range : 0 ≤ televDigit2code key ∧ televDigit2code key < 16 := by
    simp only [Dtmf] at valid
    simp only [televDigit2code]
    grind
  intro same
  have value := congrArg BitVec.toNat same
  have end_ : eventEnd.toNat = 255 := rfl
  rw [BitVec.toNat_ofInt, end_] at value
  omega

theorem Queued.press {mb ds : List Byte} {held : Bool} (queue : Queued mb ds held) {d : Byte}
    (digit : d ≠ eventEnd) : Queued (mb ++ [d]) (ds ++ [d]) true := by
  induction queue with
  | empty => exact .held d
  | held e => exact .replaced e digit (.held d)
  | released e _ ih => exact .released e ih
  | replaced e other _ ih => exact .replaced e other ih

theorem Queued.release {mb ds : List Byte} (queue : Queued mb ds true) :
    Queued (mb ++ [eventEnd]) ds false := by
  generalize open_ : true = held at queue
  induction queue with
  | empty => cases open_
  | held e => exact .released e .empty
  | released e _ ih => exact .released e (ih open_)
  | replaced e other _ ih => exact .replaced e other (ih open_)

theorem Queued.drained {ds : List Byte} {held : Bool} (queue : Queued [] ds held) :
    ds = [] ∧ held = false := by
  cases queue
  exact ⟨rfl, rfl⟩

theorem Queued.alone {d : Byte} {ds : List Byte} {held : Bool} (queue : Queued [d] ds held) : held = true := by
  cases queue
  rfl

theorem Queued.first {d : Byte} {mb ds : List Byte} {held : Bool} (queue : Queued (d :: mb) ds held) :
    ∃ rest, ds = d :: rest := by
  cases queue <;> exact ⟨_, rfl⟩

/-- The sender goes on to the end of a digit with the digits behind it still queued. -/
theorem Queued.next {d next : Byte} {mb ds : List Byte} {held : Bool}
    (queue : Queued (d :: next :: mb) (d :: ds) held) :
    Queued (if next = eventEnd then mb else next :: mb) ds held := by
  cases queue with
  | released _ rest =>
    rw [if_pos rfl]
    exact rest
  | replaced _ digit rest =>
    rw [if_neg digit]
    exact rest

/-- Where the sender and its peer are in a list of digits, and what has been reported by then. -/
inductive Phase (tel peer : Telev) : List (Byte × Bool) → List Byte → Bool → Prop
  | idle {past todo held} (state : tel.state = .idle) (queue : Queued tel.mb todo held)
      (heard : peer.rxEvent = none) : Phase tel peer (beginsAndEnds past) (past ++ todo) held
  | sending {past todo held} (state : tel.state = .sending)
      (queue : Queued (tel.event :: tel.mb) (tel.event :: todo) held) (heard : peer.rxEvent = some tel.event)
      (open_ : peer.rxEnd = false) :
      Phase tel peer (beginsAndEnds past ++ [(tel.event, false)]) (past ++ tel.event :: todo) held
  | toEnd {past todo held} (state : tel.state = .ending) (fresh : tel.txc = 0)
      (queue : Queued tel.mb todo held) (open_ : peer.rxEnd = false) :
      Phase tel peer (beginsAndEnds past ++ [(tel.event, false)]) (past ++ tel.event :: todo) held
  | ended {past todo held} (state : tel.state = .ending) (sent : tel.txc = 1 ∨ tel.txc = 2)
      (queue : Queued tel.mb todo held) (heard : peer.rxEvent = none) (closed : peer.rxEnd = true) :
      Phase tel peer (beginsAndEnds past) (past ++ todo) held

def Consistent (s : Line) (digits : List Byte) : Prop :=
  Phase s.audio.telev s.peer (reports s.log) digits (s.audio.curKey ≠ 0) ∧ Marked s.log

@[simp] theorem reports_nil : reports [] = [] := rfl

@[simp] theorem reports_concat (log : List Delivery) (d : Delivery) :
    reports (log ++ [d]) = reports log ++ d.report.toOption.toList := by
  rw [reports, List.filterMap_append]
  cases h : d.report.toOption with
  | none => simp [reports, h]
  | some event => simp [reports, h]

@[simp] theorem beginsAndEnds_concat (digits : List Byte) (d : Byte) :
    beginsAndEnds (digits ++ [d]) = beginsAndEnds digits ++ [(d, false), (d, true)] := by
  simp [beginsAndEnds]

theorem marked_concat {log : List Delivery} {d : Delivery} (marked : Marked log)
    (one : d.marker = true ↔ ∃ event, d.report = .ok (event, false)) : Marked (log ++ [d]) := by
  intro other member
  rcases List.mem_append.mp member with member | member
  · exact marked other member
  · obtain rfl := List.mem_singleton.mp member
    exact one

theorem recv_begin {peer : Telev} {event : Byte} (quiet : peer.rxEvent = none) (dur : BitVec 16) :
    televRecv peer (payloadEncode event false dur) =
      (.ok (event, false), { peer with rxEvent := some event, rxEnd := false }) := by
  simp [televRecv, payloadDecode_encode, quiet]

theorem recv_again {peer : Telev} {event : Byte} (heard : peer.rxEvent = some event) (dur : BitVec 16) :
    televRecv peer (payloadEncode event false dur) = (.error .EALREADY, peer) := by
  simp [televRecv, payloadDecode_encode, heard]

theorem recv_end {peer : Telev} {event : Byte} (open_ : peer.rxEnd = false) (dur : BitVec 16) :
    televRecv peer (payloadEncode event true dur) =
      (.ok (event, true), { peer with rxEvent := none, rxEnd := true }) := by
  simp [televRecv, payloadDecode_encode, open_]

theorem recv_end_again {peer : Telev} {event : Byte} (closed : peer.rxEnd = true) (dur : BitVec 16) :
    televRecv peer (payloadEncode event true dur) = (.error .EALREADY, peer) := by
  simp [televRecv, payloadDecode_encode, closed]

theorem Phase.send {tel peer : Telev} {reported digits more held} {b : Byte} {next : Bool}
    (phase : Phase tel peer reported digits held)
    (grows : ∀ mb ds, Queued mb ds held → Queued (mb ++ [b]) (ds ++ more) next) :
    Phase { tel with mb := tel.mb ++ [b] } peer reported (digits ++ more) next := by
  cases phase with
  | idle state queue heard =>
    rw [List.append_assoc]
    exact .idle state (grows _ _ queue) heard
  | sending state queue heard open_ =>
    rw [List.append_assoc]
    exact @Phase.sending { tel with mb := tel.mb ++ [b] } _ _ _ _ state (grows _ _ queue) heard open_
  | toEnd state fresh queue open_ =>
    rw [List.append_assoc]
    exact @Phase.toEnd { tel with mb := tel.mb ++ [b] } _ _ _ _ state fresh (grows _ _ queue) open_
  | ended state sent queue heard closed =>
    rw [List.append_assoc]
    exact .ended state sent (grows _ _ queue) heard closed

theorem key_consistent {s : Line} {digits : List Byte} (ok : Consistent s digits) (key : Key) :
    Consistent (step s (.key key)) (digits ++ pressed [.key key]) := by
  obtain ⟨phase, marked⟩ := ok
  refine ⟨?_, marked⟩
  rcases key with ⟨key, zero | digit⟩
  · subst zero
    have nothing : pressed [.key ⟨0, .inl rfl⟩] = [] := rfl
    rw [nothing]
    by_cases up : s.audio.curKey = 0
    · have same : audioSendDigit s.audio 0 = s.audio := by
        rcases s with ⟨⟨telev, curKey⟩, peer, log⟩
        obtain rfl : curKey = 0 := up
        rfl
      simp only [step, same, List.append_nil]
      exact phase
    · have sent : audioSendDigit s.audio 0 = ⟨televSend s.audio.telev (televDigit2code s.audio.curKey) true, 0⟩ := by
        simp [audioSendDigit, up]
      simp only [step, sent]
      apply phase.send
      intro mb ds queue
      rw [List.append_nil]
      rw [decide_eq_true up] at queue
      exact queue.release
  · have positive : key > 0 := by
      simp only [Dtmf] at digit
      omega
    have sent : audioSendDigit s.audio key = ⟨televSend s.audio.telev (televDigit2code key) false, key⟩ := by
      simp [audioSendDigit, positive]
    have one : pressed [.key ⟨key, .inr digit⟩] = [BitVec.ofInt 8 (televDigit2code key)] := by
      simp [pressed, positive]
    have down : decide (key ≠ 0) = true := decide_eq_true (by omega)
    simp only [step, sent, one, down]
    exact phase.send fun mb ds queue => queue.press (code_digit digit)

theorem poll_empty {s : Line} (drained : Drained s) : poll s = s := by
  rcases s with ⟨⟨tel, curKey⟩, peer, log⟩
  obtain ⟨state, mb⟩ := drained
  dsimp only at state mb
  simp [poll, televPoll, state, mb]

/-- A poll sends one packet, or finds nothing to send. -/
theorem poll_phase {tel peer : Telev} {reported digits held} (phase : Phase tel peer reported digits held) :
    televPoll tel = (.error .ENOENT, tel) ∧ tel.state = .idle ∧ tel.mb = [] ∨
    ∃ marker packet tel' report peer', televPoll tel = (.ok (marker, packet), tel') ∧
      televRecv peer packet = (report, peer') ∧
      Phase tel' peer' (reported ++ report.toOption.toList) digits held ∧
      (marker = true ↔ ∃ event, report = .ok (event, false)) := by
  cases phase with
  | @idle past todo held state queue heard =>
    cases mb : tel.mb with
    | nil => exact .inl ⟨by simp [televPoll, state, mb], state, rfl⟩
    | cons event rest =>
      right
      rw [mb] at queue
      obtain ⟨later, rfl⟩ := queue.first
      refine ⟨_, _, _, _, _, by simp only [televPoll, state, mb]; rfl, recv_begin heard _, ?_, ?_⟩
      · exact .sending rfl queue rfl rfl
      · simp
  | @sending past todo held state queue heard open_ =>
    right
    by_cases few : tel.txc + 1 < txcDigitMin
    · refine ⟨_, _, _, _, _, by simp only [televPoll, state, few, if_true]; rfl, recv_again heard _, ?_, ?_⟩
      · simp only [Except.toOption, Option.toList, List.append_nil]
        exact .sending rfl queue heard open_
      · simp
    · cases mb : tel.mb with
      | nil =>
        refine ⟨_, _, _, _, _, by simp only [televPoll, state, few, mb, if_false]; rfl, recv_again heard _, ?_, ?_⟩
        · simp only [Except.toOption, Option.toList, List.append_nil]
          rw [mb] at queue
          exact .sending rfl queue heard open_
        · simp
      | cons next rest =>
        refine ⟨_, _, _, _, _, by simp only [televPoll, state, few, mb, if_false]; rfl, recv_again heard _, ?_, ?_⟩
        · simp only [Except.toOption, Option.toList, List.append_nil]
          rw [mb] at queue
          exact .toEnd rfl rfl queue.next open_
        · simp
  | @toEnd past todo held state fresh queue open_ =>
    right
    refine ⟨_, _, _, _, _, by simp only [televPoll, state, fresh]; rfl, recv_end open_ _, ?_, ?_⟩
    · have digits : past ++ tel.event :: todo = (past ++ [tel.event]) ++ todo := by simp
      have heard : beginsAndEnds past ++ [(tel.event, false)] ++ [(tel.event, true)] =
          beginsAndEnds (past ++ [tel.event]) := by simp
      simp only [Except.toOption, Option.toList]
      rw [digits, heard]
      exact .ended rfl (.inl rfl) queue rfl rfl
    · simp
  | @ended past todo held state sent queue heard closed =>
    right
    rcases sent with one | two
    · refine ⟨_, _, _, _, _, by simp only [televPoll, state, one]; rfl, recv_end_again closed _, ?_, ?_⟩
      · simp only [Except.toOption, Option.toList, List.append_nil]
        exact .ended rfl (.inr rfl) queue heard closed
      · simp
    · refine ⟨_, _, _, _, _, by simp only [televPoll, state, two]; rfl, recv_end_again closed _, ?_, ?_⟩
      · simp only [Except.toOption, Option.toList, List.append_nil]
        exact .idle rfl queue heard
      · simp

theorem poll_telev (s : Line) : (poll s).audio = { s.audio with telev := (televPoll s.audio.telev).2 } := by
  unfold poll
  split
  · rename_i polled
    rw [polled]
  · rename_i polled
    rw [polled]

theorem poll_consistent {s : Line} {digits : List Byte} (ok : Consistent s digits) :
    Consistent (poll s) digits := by
  obtain ⟨phase, marked⟩ := ok
  rcases poll_phase phase with ⟨-, idle, empty⟩ | ⟨marker, packet, tel, report, peer, polled, heard, phase', one⟩
  · rw [poll_empty ⟨idle, empty⟩]
    exact ⟨phase, marked⟩
  · have next : poll s = ⟨{ s.audio with telev := tel }, peer, s.log ++ [⟨marker, report⟩]⟩ := by
      simp only [poll, polled, heard]
    rw [next]
    refine ⟨?_, marked_concat marked one⟩
    rw [reports_concat]
    exact phase'

theorem run_consistent (ptime : BitVec 32) (acts : List Action) :
    Consistent (acts.foldl step (Line.initial ptime)) (pressed acts) := by
  induction acts using List.reverseRecOn with
  | nil => exact ⟨@Phase.idle _ _ [] _ _ rfl .empty rfl, nofun⟩
  | append_singleton acts a ih =>
    rw [List.foldl_append, List.foldl_cons, List.foldl_nil, pressed, List.filterMap_append]
    cases a with
    | key key => exact key_consistent ih key
    | poll =>
      rw [List.filterMap_cons_none rfl, List.filterMap_nil, List.append_nil]
      exact poll_consistent ih

/-- The polls until the minimum of packets of a digit is sent. The packet counter wraps. -/
def pollsToMin (txc : BitVec 32) : Nat := if txc = BitVec.allOnes 32 then 9 else 8 - txc.toNat

def pollsLeft (tel : Telev) : Nat :=
  20 * tel.mb.length +
    match tel.state with
    | .idle => 0
    | .sending => pollsToMin tel.txc + 5
    | .ending => 3 - tel.txc.toNat

theorem pollsToMin_lower {txc : BitVec 32} (few : txc + 1 < txcDigitMin) : pollsToMin (txc + 1) < pollsToMin txc := by
  by_cases last : txc = BitVec.allOnes 32
  · subst last
    decide
  · have small := BitVec.lt_def.mp few
    have inside : txc.toNat < 2 ^ 32 - 1 := by
      have bound := txc.isLt
      have other : txc.toNat ≠ 2 ^ 32 - 1 := fun same => last (BitVec.eq_of_toNat_eq same)
      omega
    have next : (txc + 1).toNat = txc.toNat + 1 := by
      rw [BitVec.toNat_add]
      exact Nat.mod_eq_of_lt (Nat.add_lt_of_lt_sub inside)
    have minimum : txcDigitMin.toNat = 9 := rfl
    have more : txc + 1 ≠ BitVec.allOnes 32 := by
      intro same
      rw [same] at next small
      exact absurd small (by decide)
    rw [pollsToMin, pollsToMin, if_neg last, if_neg more, next]
    omega

theorem poll_lowers {tel peer : Telev} {reported digits} (phase : Phase tel peer reported digits false)
    (busy : ¬ (tel.state = .idle ∧ tel.mb = [])) : pollsLeft (televPoll tel).2 < pollsLeft tel := by
  rcases tel with ⟨mb, ptime, state, event, dur, txc, rxEvent, rxEnd⟩
  cases phase with
  | idle idle queue heard =>
    obtain rfl : state = .idle := idle
    cases mb with
    | nil => exact absurd ⟨rfl, rfl⟩ busy
    | cons e rest =>
      have one : pollsToMin 1 = 7 := rfl
      simp only [televPoll, pollsLeft, one, List.length_cons]
      omega
  | sending sending queue heard open_ =>
    obtain rfl : state = .sending := sending
    by_cases few : txc + 1 < txcDigitMin
    · have lower := pollsToMin_lower few
      have polled : pollsLeft (televPoll ⟨mb, ptime, .sending, event, dur, txc, rxEvent, rxEnd⟩).2 =
          20 * mb.length + (pollsToMin (txc + 1) + 5) := by
        simp only [televPoll, few, if_true, pollsLeft]
      rw [polled]
      show _ < 20 * mb.length + (pollsToMin txc + 5)
      omega
    · cases mb with
      | nil => cases queue.alone
      | cons next rest =>
        simp only [televPoll, few, if_false, pollsLeft, List.length_cons]
        by_cases end_ : next = eventEnd
        · simp only [end_, if_true]
          show 20 * rest.length + 3 < _
          omega
        · simp only [end_, if_false]
          show 20 * (rest.length + 1) + 3 < _
          omega
  | toEnd ending fresh queue open_ =>
    obtain rfl : state = .ending := ending
    obtain rfl : txc = 0 := fresh
    show 20 * mb.length + 2 < 20 * mb.length + 3
    omega
  | ended ending sent queue heard closed =>
    obtain rfl : state = .ending := ending
    rcases sent with one | two
    · obtain rfl : txc = 1 := one
      show 20 * mb.length + 1 < 20 * mb.length + 2
      omega
    · obtain rfl : txc = 2 := two
      show 20 * mb.length + 0 < 20 * mb.length + 1
      omega

theorem drained_reports {s : Line} {digits : List Byte} (ok : Consistent s digits) (drained : Drained s) :
    reports s.log = beginsAndEnds digits := by
  obtain ⟨phase, -⟩ := ok
  obtain ⟨idle, empty⟩ := drained
  generalize reports s.log = reported at phase
  cases phase with
  | idle state queue heard =>
    rw [empty] at queue
    obtain ⟨rfl, -⟩ := queue.drained
    rw [List.append_nil]
  | sending state => exact absurd (state.symm.trans idle) nofun
  | toEnd state => exact absurd (state.symm.trans idle) nofun
  | ended state => exact absurd (state.symm.trans idle) nofun

theorem drains {s : Line} {digits : List Byte} (ok : Consistent s digits) (up : s.audio.curKey = 0) :
    ∃ n, Drained ((List.replicate n Action.poll).foldl step s) ∧
      reports ((List.replicate n Action.poll).foldl step s).log = beginsAndEnds digits := by
  refine @reaches_of_rank _ _ step (fun s => Consistent s digits ∧ s.audio.curKey = 0)
    (fun s => Drained s ∧ reports s.log = beginsAndEnds digits) (fun s => pollsLeft s.audio.telev) .poll ?_ s ⟨ok, up⟩
  rintro s ⟨ok, up⟩ busy
  have phase := ok.1
  rw [decide_eq_false (not_not.mpr up)] at phase
  refine ⟨⟨poll_consistent ok, ?_⟩, ?_⟩
  · show (poll s).audio.curKey = 0
    rw [poll_telev]
    exact up
  · show pollsLeft (poll s).audio.telev < pollsLeft s.audio.telev
    rw [poll_telev]
    exact poll_lowers phase fun drained => busy ⟨drained, drained_reports ok drained⟩

/-- Every pressed digit is reported by one begin and then one end, in order, once the sender has nothing more
    to send, which it reaches by polls when the last key is released. -/
theorem digits_reported (ptime : BitVec 32) (acts : List Action) :
    Marked (acts.foldl step (Line.initial ptime)).log ∧
    (Drained (acts.foldl step (Line.initial ptime)) →
      reports (acts.foldl step (Line.initial ptime)).log = beginsAndEnds (pressed acts)) ∧
    ((acts.foldl step (Line.initial ptime)).audio.curKey = 0 →
      ∃ n, Drained ((acts ++ List.replicate n Action.poll).foldl step (Line.initial ptime)) ∧
        reports ((acts ++ List.replicate n Action.poll).foldl step (Line.initial ptime)).log =
          beginsAndEnds (pressed acts)) := by
  have ok := run_consistent ptime acts
  refine ⟨ok.2, drained_reports ok, fun up => ?_⟩
  simp only [List.foldl_append]
  exact drains ok up

example :
    let one : Action := .key ⟨0x31, .inr (.inl (by decide))⟩
    let run := [one, one, .poll, .key ⟨0, .inl rfl⟩] ++ List.replicate 23 .poll
    reports (run.foldl step (Line.initial 50)).log = [(1, false), (1, true), (1, false), (1, true)] := by
  decide

end Baresip.Audio
