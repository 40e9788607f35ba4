import Mathlib.Algebra.Ring.Nat
import Baresip.Re.Mbuf

set_option linter.dupNamespace false

namespace Baresip.Re

def txcDigitMin : BitVec 32 := 9
def txcEnd : BitVec 32 := 3
def eventEnd : Byte := 0xff
def volume : Byte := 10

inductive TelevState
  | idle | sending | ending
  deriving DecidableEq, Repr

structure TelevFmt where
  event : Byte
  end_ : Bool
  vol : Byte
  dur : BitVec 16
  deriving DecidableEq, Repr

/-- `mb` is what is left of the queue, and `rxEvent` is nothing where the source has -1. -/
structure Telev where
  mb : List Byte
  ptime : BitVec 32
  state : TelevState
  event : Byte
  dur : BitVec 16
  txc : BitVec 32
  rxEvent : Option Byte
  rxEnd : Bool
  deriving DecidableEq, Repr

def payloadEncode (event : Byte) (end_ : Bool) (dur : BitVec 16) : List Byte :=
  [event, (if end_ then 0x80 else 0x00) ||| (volume &&& 0x3f), dur.extractLsb' 8 8, dur.extractLsb' 0 8]

def payloadDecode (mb : List Byte) : Except Errno TelevFmt :=
  match mb with
  | event :: b :: hi :: lo :: _ => .ok ⟨event, b &&& 0x80 == 0x80, b &&& 0x3f, hi ++ lo⟩
  | _ => .error .ENOENT

def televAlloc (ptime : BitVec 32) : Telev := ⟨[], ptime, .idle, 0, 0, 0, none, false⟩

def televSend (tel : Telev) (event : Int) (end_ : Bool) : Telev :=
  { tel with mb := tel.mb ++ [if end_ then eventEnd else BitVec.ofInt 8 event] }

def televRecv (tel : Telev) (mb : List Byte) : Except Errno (Byte × Bool) × Telev :=
  match payloadDecode mb with
  | .error err => (.error err, tel)
  | .ok fmt =>
    if fmt.end_ then
      if tel.rxEnd then (.error .EALREADY, tel)
      else (.ok (fmt.event, true), { tel with rxEvent := none, rxEnd := true })
    else if some fmt.event = tel.rxEvent then (.error .EALREADY, tel)
    else (.ok (fmt.event, false), { tel with rxEvent := some fmt.event, rxEnd := false })

def televPoll (tel : Telev) : Except Errno (Bool × List Byte) × Telev :=
  match tel.state with
  | .idle =>
    match tel.mb with
    | [] => (.error .ENOENT, tel)
    | event :: mb =>
      let dur := (tel.ptime * 8).setWidth 16
      (.ok (true, payloadEncode event false dur),
        { tel with mb := mb, event := event, dur := dur, state := .sending, txc := 1 })
  | .sending =>
    let tel := { tel with dur := tel.dur + (tel.ptime * 8).setWidth 16, txc := tel.txc + 1 }
    let out := .ok (false, payloadEncode tel.event false tel.dur)
    if tel.txc < txcDigitMin then (out, tel)
    else
      match tel.mb with
      | [] => (out, tel)
      | next :: mb =>
        (out, { tel with mb := if next = eventEnd then mb else next :: mb, state := .ending, txc := 0 })
  | .ending =>
    let tel := { tel with txc := tel.txc + 1 }
    let out := .ok (false, payloadEncode tel.event true tel.dur)
    if tel.txc < txcEnd then (out, tel) else (out, { tel with state := .idle })

def televDigit2code (digit : Int) : Int :=
  if 0x30 ≤ digit ∧ digit ≤ 0x39 then digit - 0x30
  else if digit = 0x2a then 10
  else if digit = 0x23 then 11
  else if 0x61 ≤ digit ∧ digit ≤ 0x64 then digit - 0x61 + 12
  else if 0x41 ≤ digit ∧ digit ≤ 0x44 then digit - 0x41 + 12
  else -1

theorem payloadDecode_encode (event : Byte) (end_ : Bool) (dur : BitVec 16) :
    payloadDecode (payloadEncode event end_ dur) = .ok ⟨event, end_, volume, dur⟩ := by
  have halves : (dur.extractLsb' 8 8 ++ dur.extractLsb' 0 8 : BitVec 16) = dur := by
    ext i h
    simp only [BitVec.getElem_append, BitVec.getElem_extractLsb']
    split
    · rw [Nat.zero_add, BitVec.getLsbD_eq_getElem h]
    · have high : 8 + (i - 8) = i := by omega
      rw [high, BitVec.getLsbD_eq_getElem h]
  cases end_ <;> simp only [payloadDecode, payloadEncode, halves] <;> rfl

/-! The packets of one event: a key is sent, and after some polls its release. -/

/-- `n` polls, with the packets they leave to send. -/
def televPolls : Nat → Telev → List TelevFmt × Telev
  | 0, tel => ([], tel)
  | n + 1, tel =>
    match televPoll tel with
    | (.ok (_, mb), tel) => ((payloadDecode mb).toOption.toList ++ (televPolls n tel).1, (televPolls n tel).2)
    | (.error _, tel) => televPolls n tel

/-- The key is held for `hold` polls, and the release is followed by `more`. -/
def eventSent (tel : Telev) (key : Int) (hold more : Nat) : List TelevFmt :=
  let (before, tel) := televPolls hold (televSend tel key false)
  before ++ (televPolls more (televSend tel key true)).1

/-- The packets that come before those of the end: the one that finds the release, but not less than the least number. -/
def packetsHeld (hold : Nat) : Nat := max (hold + 1) txcDigitMin.toNat

/-- Durations are whole milliseconds at 8 kHz, and 65528 is the longest of them that the field takes. -/
structure Steady (ptime : BitVec 32) (sent : List TelevFmt) : Prop where
  rises : (sent.map fun fmt => fmt.dur.toNat).Pairwise (· ≤ ·)
  ended : ∃ dur, (sent.filter fun fmt => fmt.end_).map (fun fmt => fmt.dur) = List.replicate 3 dur
  long : ∀ i fmt, sent[i]? = some fmt → fmt.end_ = false → min ((i + 1) * (8 * ptime.toNat)) 65528 ≤ fmt.dur.toNat

section
variable {tel : Telev} {key : Byte} {queue : List Byte} {k : Nat}

def lasted (ptime : BitVec 32) (k : Nat) : BitVec 16 := BitVec.ofNat 16 (k * (8 * ptime.toNat))

def sendingAt (tel : Telev) (key : Byte) (queue : List Byte) (k : Nat) : Telev :=
  { tel with mb := queue, state := .sending, event := key, dur := lasted tel.ptime k, txc := BitVec.ofNat 32 k }

def endingAt (tel : Telev) (key : Byte) (k i : Nat) : Telev :=
  { tel with mb := [], state := .ending, event := key, dur := lasted tel.ptime k, txc := BitVec.ofNat 32 i }

def packet (ptime : BitVec 32) (key : Byte) (k : Nat) : TelevFmt := ⟨key, false, volume, lasted ptime k⟩

theorem lasted_next (ptime : BitVec 32) (k : Nat) :
    lasted ptime k + (ptime * 8).setWidth 16 = lasted ptime (k + 1) := by
  apply BitVec.eq_of_toNat_eq
  have product : (k + 1) * (8 * ptime.toNat) = k * (8 * ptime.toNat) + 8 * ptime.toNat := Nat.succ_mul k _
  have eight : (8 : BitVec 32).toNat = 8 := rfl
  simp only [lasted, BitVec.toNat_add, BitVec.toNat_ofNat, BitVec.toNat_setWidth, BitVec.toNat_mul, product, eight]
  generalize k * (8 * ptime.toNat) = before
  omega

theorem lasted_one (ptime : BitVec 32) : (ptime * 8).setWidth 16 = lasted ptime 1 := by
  have start := lasted_next ptime 0
  have zero : lasted ptime 0 = 0 := by simp [lasted]
  rw [zero] at start
  exact (BitVec.zero_add _).symm.trans start

theorem txc_next (k : Nat) : BitVec.ofNat 32 k + 1 = BitVec.ofNat 32 (k + 1) := by
  rw [BitVec.ofNat_add]
  rfl

theorem polls_ok {tel' : Telev} {marker : Bool} {event : Byte} {end_ : Bool} {dur : BitVec 16} (n : Nat)
    (polled : televPoll tel = (.ok (marker, payloadEncode event end_ dur), tel')) :
    televPolls (n + 1) tel = (⟨event, end_, volume, dur⟩ :: (televPolls n tel').1, (televPolls n tel').2) := by
  rw [televPolls, polled]
  simp only [payloadDecode_encode]
  rfl

theorem poll_starts (idle : tel.state = .idle) (queued : tel.mb = key :: queue) :
    televPoll tel = (.ok (true, payloadEncode key false (lasted tel.ptime 1)), sendingAt tel key queue 1) := by
  rw [televPoll, idle]
  simp only [queued]
  rw [lasted_one]
  rfl

/-- No release yet, or too few packets sent. -/
theorem poll_waits (waits : queue = [] ∨ BitVec.ofNat 32 (k + 1) < txcDigitMin) :
    televPoll (sendingAt tel key queue k) =
      (.ok (false, payloadEncode key false (lasted tel.ptime (k + 1))), sendingAt tel key queue (k + 1)) := by
  rw [televPoll]
  simp only [sendingAt, lasted_next, txc_next]
  split
  · rfl
  next many =>
    have empty := waits.resolve_right many
    subst empty
    rfl

theorem poll_releases (enough : ¬ BitVec.ofNat 32 (k + 1) < txcDigitMin) :
    televPoll (sendingAt tel key [eventEnd] k) =
      (.ok (false, payloadEncode key false (lasted tel.ptime (k + 1))), endingAt tel key (k + 1) 0) := by
  rw [televPoll]
  simp only [sendingAt, lasted_next, txc_next, if_neg enough, if_pos]
  rfl

theorem polls_wait (n : Nat) (waits : queue = [] ∨ ∀ i < n, BitVec.ofNat 32 (k + i + 1) < txcDigitMin) :
    televPolls n (sendingAt tel key queue k) =
      ((List.range n).map fun i => packet tel.ptime key (k + i + 1), sendingAt tel key queue (k + n)) := by
  induction n generalizing k with
  | zero => rfl
  | succ n ih =>
    have now : queue = [] ∨ BitVec.ofNat 32 (k + 1) < txcDigitMin := waits.imp_right fun few => few 0 (Nat.succ_pos n)
    have later : queue = [] ∨ ∀ i < n, BitVec.ofNat 32 (k + 1 + i + 1) < txcDigitMin := by
      refine waits.imp_right fun few i below => ?_
      have behind := few (i + 1) (Nat.succ_lt_succ below)
      rwa [← Nat.add_assoc, Nat.add_right_comm k i 1] at behind
    rw [polls_ok n (poll_waits now), ih later, List.range_succ_eq_map, List.map_cons, List.map_map]
    have shifted : (fun i => packet tel.ptime key (k + 1 + i + 1)) = (fun i => packet tel.ptime key (k + i + 1)) ∘ Nat.succ := by
      funext i
      simp only [Function.comp, Nat.succ_eq_add_one]
      congr 1
      omega
    rw [shifted, Nat.add_right_comm k 1 n]
    rfl

theorem poll_ends {i : Nat} (few : i + 1 < 3) :
    televPoll (endingAt tel key k i) =
      (.ok (false, payloadEncode key true (lasted tel.ptime k)), endingAt tel key k (i + 1)) := by
  have below : BitVec.ofNat 32 (i + 1) < txcEnd := by
    rw [BitVec.lt_def, BitVec.toNat_ofNat]
    show (i + 1) % 2 ^ 32 < 3
    omega
  rw [televPoll]
  simp only [endingAt, txc_next, if_pos below]

theorem poll_last :
    televPoll (endingAt tel key k 2) =
      (.ok (false, payloadEncode key true (lasted tel.ptime k)), { endingAt tel key k 3 with state := .idle }) := rfl

theorem polls_idle (n : Nat) (idle : tel.state = .idle) (empty : tel.mb = []) : televPolls n tel = ([], tel) := by
  induction n with
  | zero => rfl
  | succ n ih =>
    have none_ : televPoll tel = (.error .ENOENT, tel) := by
      rw [televPoll, idle]
      simp only [empty]
    rw [televPolls, none_]
    exact ih

/-- Three end packets, and nothing behind them. -/
theorem polls_end (n : Nat) :
    (televPolls (n + 3) (endingAt tel key k 0)).1 = List.replicate 3 ⟨key, true, volume, lasted tel.ptime k⟩ := by
  rw [polls_ok (n + 2) (poll_ends (by decide)), polls_ok (n + 1) (poll_ends (by decide)), polls_ok n poll_last,
    polls_idle n rfl rfl]
  rfl

theorem polls_add (a b : Nat) (tel : Telev) :
    televPolls (a + b) tel =
      ((televPolls a tel).1 ++ (televPolls b (televPolls a tel).2).1, (televPolls b (televPolls a tel).2).2) := by
  induction a generalizing tel with
  | zero => rw [Nat.zero_add]; rfl
  | succ a ih =>
    rw [Nat.add_right_comm, televPolls, televPolls]
    split
    · rw [ih, List.append_assoc]
    · exact ih _

def packets (ptime : BitVec 32) (key : Byte) (k n : Nat) : List TelevFmt :=
  (List.range n).map fun i => packet ptime key (k + i + 1)

theorem packets_add (ptime : BitVec 32) (key : Byte) (k a b : Nat) :
    packets ptime key k (a + b) = packets ptime key k a ++ packets ptime key (k + a) b := by
  simp only [packets, List.range_add, List.map_append, List.map_map, Nat.add_assoc]
  rfl

def ending (ptime : BitVec 32) (key : Byte) (n : Nat) : List TelevFmt := List.replicate 3 ⟨key, true, volume, lasted ptime n⟩

theorem packetsHeld_bounds (hold : Nat) : hold + 1 ≤ packetsHeld hold ∧ 9 ≤ packetsHeld hold ∧
    (9 < packetsHeld hold → packetsHeld hold = hold + 1) := by
  have least : txcDigitMin.toNat = 9 := rfl
  rw [packetsHeld, least]
  omega

/-- What is sent once the release is queued behind `k` packets. -/
theorem released_sends (tel : Telev) (key : Byte) (k more : Nat) :
    ∃ rest, (televPolls (packetsHeld k - k + more) (sendingAt tel key [eventEnd] k)).1 =
        packets tel.ptime key k (packetsHeld k - k) ++ rest ∧
      (packetsHeld k < 2 ^ 32 → 3 ≤ more → rest = ending tel.ptime key (packetsHeld k)) := by
  obtain ⟨past, least, most⟩ := packetsHeld_bounds k
  obtain ⟨n, total⟩ : ∃ n, packetsHeld k - k = n + 1 := ⟨packetsHeld k - k - 1, by omega⟩
  have few : [eventEnd] = [] ∨ ∀ i < n, BitVec.ofNat 32 (k + i + 1) < txcDigitMin := by
    refine Or.inr fun i below => ?_
    rw [BitVec.lt_def, BitVec.toNat_ofNat]
    show (k + i + 1) % 2 ^ 32 < 9
    omega
  have last : k + n + 1 = packetsHeld k := by omega
  rw [total, Nat.add_assoc, polls_add, polls_wait n few, packets_add]
  dsimp only
  by_cases early : BitVec.ofNat 32 (k + n + 1) < txcDigitMin
  · rw [Nat.add_comm 1 more, polls_ok more (poll_waits (Or.inr early))]
    refine ⟨_, (List.append_assoc _ [_] _).symm, fun small => ?_⟩
    rw [BitVec.lt_def, BitVec.toNat_ofNat, last, Nat.mod_eq_of_lt small] at early
    exact absurd early (Nat.not_lt.mpr least)
  · rw [Nat.add_comm 1 more, polls_ok more (poll_releases early)]
    refine ⟨_, (List.append_assoc _ [_] _).symm, fun small three => ?_⟩
    obtain ⟨m, rfl⟩ : ∃ m, more = m + 3 := ⟨more - 3, by omega⟩
    rw [polls_end, last]
    rfl

/-- What is sent while the key is held. -/
theorem held_sends (idle : tel.state = .idle) (queued : tel.mb = [key]) (hold : Nat) :
    televPolls (hold + 1) tel = (packets tel.ptime key 0 (hold + 1), sendingAt tel key [] (hold + 1)) := by
  have held : televPolls hold (sendingAt tel key [] 1) = _ := polls_wait hold (Or.inl rfl)
  have first : packets tel.ptime key 0 (hold + 1) = packet tel.ptime key 1 :: packets tel.ptime key 1 hold := by
    rw [Nat.add_comm hold 1, packets_add]
    rfl
  rw [polls_ok hold (poll_starts idle queued), held, first, Nat.add_comm 1 hold]
  rfl

theorem eventSent_packets (idle : tel.state = .idle) (empty : tel.mb = []) (event : Int) (hold more : Nat) :
    ∃ rest, eventSent tel event hold (packetsHeld hold - hold + more) =
        packets tel.ptime (.ofInt 8 event) 0 (packetsHeld hold) ++ rest ∧
      (packetsHeld hold < 2 ^ 32 → 3 ≤ more → rest = ending tel.ptime (.ofInt 8 event) (packetsHeld hold)) := by
  cases hold with
  | zero =>
    have queued : (televSend (televSend tel event false) event true).mb = .ofInt 8 event :: [eventEnd] := by
      simp [televSend, empty]
    obtain ⟨rest, sent, whole⟩ := released_sends tel (.ofInt 8 event) 1 more
    refine ⟨rest, ?_, whole⟩
    have waiting : (televSend (televSend tel event false) event true).state = .idle := idle
    have started := polls_ok (packetsHeld 1 - 1 + more) (poll_starts waiting queued)
    have count : packetsHeld 0 - 0 + more = packetsHeld 1 - 1 + more + 1 := by
      show 9 + more = 8 + more + 1
      omega
    show (televPolls _ (televSend (televSend tel event false) event true)).1 = _
    rw [count, started]
    show _ :: (televPolls _ (sendingAt tel _ [eventEnd] 1)).1 = _
    rw [sent]
    rfl
  | succ hold =>
    have queued : (televSend tel event false).mb = [.ofInt 8 event] := by simp [televSend, empty]
    obtain ⟨rest, sent, whole⟩ := released_sends tel (.ofInt 8 event) (hold + 1) more
    refine ⟨rest, ?_, whole⟩
    have past := (packetsHeld_bounds (hold + 1)).1
    have total : packetsHeld (hold + 1) = hold + 1 + (packetsHeld (hold + 1) - (hold + 1)) := by omega
    have split_ := packets_add tel.ptime (.ofInt 8 event) 0 (hold + 1) (packetsHeld (hold + 1) - (hold + 1))
    rw [← total, Nat.zero_add] at split_
    have waiting : (televSend tel event false).state = .idle := idle
    rw [eventSent, held_sends waiting queued, split_, List.append_assoc, ← sent]
    rfl

theorem packets_get {ptime : BitVec 32} {n i : Nat} (inside : i < n) (rest : List TelevFmt) :
    (packets ptime key 0 n ++ rest)[i]? = some (packet ptime key (i + 1)) := by
  have length : (packets ptime key 0 n).length = n := by simp [packets]
  rw [List.getElem?_append_left (length.symm ▸ inside), packets, List.getElem?_map, List.getElem?_range inside,
    Option.map_some, Nat.zero_add]

theorem lasted_fits {ptime : BitVec 32} {n : Nat} (fits : n * (8 * ptime.toNat) < 65536) (within : k ≤ n) :
    (lasted ptime k).toNat = k * (8 * ptime.toNat) := by
  have shorter : k * (8 * ptime.toNat) ≤ n * (8 * ptime.toNat) := Nat.mul_le_mul_right _ within
  rw [lasted, BitVec.toNat_ofNat, Nat.mod_eq_of_lt (by omega)]

theorem sent_rises {ptime : BitVec 32} {n : Nat} (fits : n * (8 * ptime.toNat) < 65536) :
    ((packets ptime key 0 n ++ ending ptime key n).map fun fmt => fmt.dur.toNat).Pairwise (· ≤ ·) := by
  rw [List.map_append, List.pairwise_append]
  refine ⟨?_, ?_, ?_⟩
  · rw [packets, List.map_map, List.pairwise_map]
    refine List.Pairwise.imp_of_mem ?_ List.pairwise_lt_range
    intro a b _ inside lower
    rw [List.mem_range] at inside
    simp only [Function.comp, packet, Nat.zero_add]
    rw [lasted_fits fits (show a + 1 ≤ n by omega), lasted_fits fits inside]
    exact Nat.mul_le_mul_right _ (by omega)
  · rw [ending, List.map_replicate]
    exact List.pairwise_replicate.mpr (Or.inr (Nat.le_refl _))
  · intro a held b last
    rw [ending, List.map_replicate, List.mem_replicate] at last
    rw [packets, List.map_map, List.mem_map] at held
    obtain ⟨i, inside, rfl⟩ := held
    rw [List.mem_range] at inside
    rw [last.2]
    simp only [Function.comp, packet, Nat.zero_add]
    rw [lasted_fits fits inside, lasted_fits fits (Nat.le_refl n)]
    exact Nat.mul_le_mul_right _ inside

theorem sent_ended (ptime : BitVec 32) (n : Nat) :
    ((packets ptime key 0 n ++ ending ptime key n).filter fun fmt => fmt.end_).map (fun fmt => fmt.dur) =
      List.replicate 3 (lasted ptime n) := by
  have held : (packets ptime key 0 n).filter (fun fmt => fmt.end_) = [] := by
    rw [List.filter_eq_nil_iff]
    intro fmt inside
    rw [packets, List.mem_map] at inside
    obtain ⟨i, -, rfl⟩ := inside
    simp [packet]
  rw [List.filter_append, held]
  rfl

theorem sent_long {ptime : BitVec 32} {n : Nat} (fits : n * (8 * ptime.toNat) < 65536) (i : Nat) (fmt : TelevFmt)
    (found : (packets ptime key 0 n ++ ending ptime key n)[i]? = some fmt) (going : fmt.end_ = false) :
    min ((i + 1) * (8 * ptime.toNat)) 65528 ≤ fmt.dur.toNat := by
  by_cases inside : i < n
  · rw [packets_get inside] at found
    cases found
    refine Nat.le_trans (Nat.min_le_left _ _) (Nat.le_of_eq ?_)
    exact (lasted_fits fits inside).symm
  · have length : (packets ptime key 0 n).length = n := by simp [packets]
    rw [List.getElem?_append_right (length.symm ▸ Nat.not_lt.mp inside)] at found
    have last := List.eq_of_mem_replicate (List.mem_of_getElem? found)
    subst last
    cases going

/-- Once the duration wraps, the last two packets of a hold cannot both be as long as the field allows. -/
theorem wrapped_short {n y : Nat} (least : 8 ≤ n) (whole : y % 8 = 0) (wraps : 65536 ≤ (n + 1) * y) :
    (n * y) % 65536 < min (n * y) 65528 ∨ ((n + 1) * y) % 65536 < 65528 := by
  by_contra both
  rw [not_or, Nat.not_lt, Nat.not_lt] at both
  obtain ⟨before, last⟩ := both
  have product : (n + 1) * y = n * y + y := Nat.succ_mul n y
  have eight : 8 * y ≤ n * y := Nat.mul_le_mul_right y least
  have multiple : (n * y) % 8 = 0 := by rw [Nat.mul_mod, whole, Nat.mul_zero, Nat.zero_mod]
  have step : y % 65536 = 0 := by
    rw [product] at last wraps
    generalize n * y = x at *
    omega
  rw [Nat.mul_mod, step, Nat.mul_zero, Nat.zero_mod] at last
  omega

/-- The durations of an event are steady exactly when the longest of them fits into the field. -/
theorem event_steady_iff (idle : tel.state = .idle) (empty : tel.mb = []) (timed : tel.ptime ≠ 0) (event : Int)
    (hold : Nat) {more : Nat} (enough : packetsHeld hold + 3 ≤ hold + more) :
    Steady tel.ptime (eventSent tel event hold more) ↔ packetsHeld hold * (8 * tel.ptime.toNat) < 65536 := by
  have positive : 0 < tel.ptime.toNat := Nat.pos_of_ne_zero fun zero => timed (BitVec.eq_of_toNat_eq zero)
  obtain ⟨past, least, -⟩ := packetsHeld_bounds hold
  obtain ⟨left, rfl⟩ : ∃ left, more = packetsHeld hold - hold + left := ⟨more - (packetsHeld hold - hold), by omega⟩
  obtain ⟨rest, sent, whole⟩ := eventSent_packets idle empty event hold left
  constructor
  · intro steady
    by_contra wraps
    rw [Nat.not_lt] at wraps
    obtain ⟨n, total⟩ : ∃ n, packetsHeld hold = n + 1 := ⟨packetsHeld hold - 1, by omega⟩
    have long := steady.long
    rw [sent, total] at long
    rw [total] at wraps
    have last := long n _ (packets_get (Nat.lt_succ_self n) rest) rfl
    obtain ⟨m, rfl⟩ : ∃ m, n = m + 1 := ⟨n - 1, by omega⟩
    have before := long m _ (packets_get (Nat.lt_succ_of_lt (Nat.lt_succ_self m)) rest) rfl
    simp only [packet, lasted, BitVec.toNat_ofNat] at last before
    have short := wrapped_short (n := m + 1) (y := 8 * tel.ptime.toNat) (by omega) (Nat.mul_mod_right 8 _) wraps
    omega
  · intro fits
    have small : packetsHeld hold < 2 ^ 32 := by
      have bound : packetsHeld hold * 1 ≤ packetsHeld hold * (8 * tel.ptime.toNat) := Nat.mul_le_mul_left _ (by omega)
      omega
    have last := whole small (by omega)
    subst last
    rw [sent]
    exact ⟨sent_rises fits, ⟨_, sent_ended tel.ptime _⟩, sent_long fits⟩

end

theorem event_steady_half_second :
    Steady 50 (eventSent (televAlloc 50) 5 10 4) ↔ packetsHeld 10 * (8 * (50 : BitVec 32).toNat) < 65536 :=
  @event_steady_iff (televAlloc 50) rfl rfl (by decide) 5 10 4 (by decide)

/-- A key is held for a little over eight seconds, and the 164th packet has a duration of eight milliseconds. -/
theorem long_hold_wraps : ¬ Steady 50 (eventSent (televAlloc 50) 5 163 6) := by
  intro steady
  have wrapped : (eventSent (televAlloc 50) 5 163 6)[163]? = some ⟨5, false, 10, 64⟩ := by decide +kernel
  have long := steady.long 163 _ wrapped rfl
  revert long
  decide

end Baresip.Re
