import Baresip.Stream.InOrder

set_option linter.dupNamespace false

namespace Baresip.Stream

open Re

variable {μ : Type}

abbrev JbufPacket (μ : Type) := RtpHeader × μ

def JbufPacket.framed (p : JbufPacket μ) : RtpHeader × Option μ := (p.1, some p.2)

/-- One packet put, and the get that follows it. `overflow` is that the put has dropped the oldest frame. -/
structure Round (μ : Type) where
  err : Option Errno
  overflow : Bool
  got : Option (RtpHeader × Option μ)
  deriving DecidableEq, Repr

def overflows (jb : Jbuf μ) (seq : BitVec 16) : Bool := !jb.late seq && jb.pooll.isEmpty

def round (jb : Jbuf μ) (p : JbufPacket μ) : Option (Round μ × Jbuf μ) :=
  match jbufPut jb p.1 p.2 with
  | none => none
  | some (err, put) =>
    match jbufGet put with
    | none => some (⟨err, overflows jb p.1.seq, none⟩, put)
    | some (out, got) => some (⟨err, overflows jb p.1.seq, some out⟩, got)

/-- The buffer after the first packets. -/
def rounds (jb : Jbuf μ) (packets : Nat → JbufPacket μ) : Nat → Option (Jbuf μ)
  | 0 => some jb
  | k + 1 => (rounds jb packets k).bind fun jb => (round jb (packets k)).map Prod.snd

def roundAt (jb : Jbuf μ) (packets : Nat → JbufPacket μ) (k : Nat) : Option (Round μ) :=
  (rounds jb packets k).bind fun jb => (round jb (packets k)).map Prod.fst

/-- Packets may be missing between two that follow each other. -/
def Rising (packets : Nat → JbufPacket μ) : Prop :=
  ∀ k, seqLess (packets k).1.seq (packets (k + 1)).1.seq = true

def delayed (min : Nat) (packets : Nat → JbufPacket μ) (k : Nat) : Option (RtpHeader × Option μ) :=
  if k < min then none else some (packets (k - min)).framed

/-- No packet is dropped, and each is returned when `min` more have been put. -/
def Delayed (min : Nat) (jb : Jbuf μ) (packets : Nat → JbufPacket μ) : Prop :=
  ∀ k, roundAt jb packets k = some ⟨none, false, delayed min packets k⟩

/-- No packet is so far from the one before it that it passes for a late one when the buffer is full. -/
def Spaced (min : Nat) (packets : Nat → JbufPacket μ) : Prop :=
  ∀ k, seqLess ((packets (k + 1)).1.seq + .ofNat 16 (Min.min (k + 1) min)) (packets k).1.seq = false

/-- The buffer after `k` packets, all of them stored: it holds the last ones. -/
structure Delaying (min max : Nat) (packets : Nat → JbufPacket μ) (k : Nat) (jb : Jbuf μ) : Prop where
  n_eq : jb.n = Min.min k min
  min_eq : jb.min = min
  total : jb.pooll.length + jb.n = max
  frames : jb.framel.map (fun f => (f.hdr, f.mem)) =
    (List.range' (k - jb.n) jb.n).map fun i => (packets i).framed
  running : jb.running = decide (0 < k)
  last : ∀ j, k = j + 1 → jb.seqPut = (packets j).1.seq

theorem Delaying.late {min max k : Nat} {packets : Nat → JbufPacket μ} {jb : Jbuf μ}
    (delaying : Delaying min max packets k jb) (spaced : Spaced min packets) :
    jb.late (packets k).1.seq = false := by
  unfold Jbuf.late
  cases k with
  | zero =>
    rw [delaying.running]
    rfl
  | succ j =>
    rw [delaying.n_eq, delaying.last j rfl, spaced j, Bool.and_false]

theorem Delaying.tail {min max k : Nat} {packets : Nat → JbufPacket μ} {jb : Jbuf μ}
    (delaying : Delaying min max packets k jb) (rising : Rising packets) :
    ∀ tail, jb.framel.getLast? = some tail → seqLess tail.hdr.seq (packets k).1.seq = true := by
  intro tail last
  have frame := congrArg List.getLast? delaying.frames
  rw [List.getLast?_map, List.getLast?_map, last, List.getLast?_range'] at frame
  split at frame
  · contradiction
  · rename_i some_
    have full := delaying.n_eq
    obtain ⟨j, rfl⟩ : ∃ j, k = j + 1 := ⟨k - 1, by omega⟩
    have place : j + 1 - jb.n + jb.n - 1 = j := by omega
    simp only [Option.map_some, place, JbufPacket.framed, Option.some.injEq, Prod.mk.injEq] at frame
    rw [frame.1]
    exact rising j

/-- The buffer after a put at its end. -/
structure Extended (packets : Nat → JbufPacket μ) (k : Nat) (jb jb' : Jbuf μ) : Prop where
  put : jbufPut jb (packets k).1 (packets k).2 = some (none, jb')
  n_eq : jb'.n = jb.n + 1
  min_eq : jb'.min = jb.min
  total : jb'.pooll.length + jb'.n = jb.pooll.length + jb.n
  frames : jb'.framel.map (fun f => (f.hdr, f.mem)) =
    (List.range' (k - jb.n) (jb.n + 1)).map fun i => (packets i).framed
  running : jb'.running = true
  last : jb'.seqPut = (packets k).1.seq

theorem Delaying.extend {min max k : Nat} {packets : Nat → JbufPacket μ} {jb : Jbuf μ}
    (delaying : Delaying min max packets k jb) (rising : Rising packets)
    (onTime : jb.late (packets k).1.seq = false) (room : jb.pooll ≠ []) :
    ∃ jb', Extended packets k jb jb' := by
  obtain ⟨free, pooll, pool⟩ := List.exists_cons_of_ne_nil room
  have full := delaying.n_eq
  have place : k - jb.n + jb.n = k := by omega
  refine ⟨_, jbufPut_last (packets k).2 onTime pool (delaying.tail rising), rfl, rfl, ?_, ?_, rfl, rfl⟩
  · simp only [pool, List.length_cons]
    omega
  · rw [List.range'_concat, Nat.one_mul, place, List.map_append, List.map_append, delaying.frames]
    rfl

theorem Delaying.next {min max k : Nat} {packets : Nat → JbufPacket μ} {jb : Jbuf μ}
    (delaying : Delaying min max packets k jb) (rising : Rising packets)
    (onTime : jb.late (packets k).1.seq = false) (room : jb.pooll ≠ []) :
    ∃ jb', round jb (packets k) = some (⟨none, false, delayed min packets k⟩, jb') ∧
      Delaying min max packets (k + 1) jb' := by
  obtain ⟨put, extended⟩ := delaying.extend rising onTime room
  have full := delaying.n_eq
  have total := delaying.total
  have more := extended.n_eq
  have kept := extended.total
  have last : ∀ j, k + 1 = j + 1 → put.seqPut = (packets j).1.seq := by
    rintro j ⟨⟩
    exact extended.last
  have stored : overflows jb (packets k).1.seq = false := by
    unfold overflows
    rw [List.isEmpty_eq_false_iff.mpr room, Bool.and_false]
  unfold round
  rw [extended.put, stored]
  simp only
  by_cases filling : k < min
  · have waits : put.n ≤ put.min := by
      rw [extended.min_eq, delaying.min_eq]
      omega
    rw [jbufGet_filling waits]
    refine ⟨put, by rw [delayed, if_pos filling], ?_⟩
    constructor
    · omega
    · rw [extended.min_eq, delaying.min_eq]
    · omega
    · have place : k + 1 - put.n = k - jb.n := by omega
      rw [extended.frames, place, more]
    · rw [extended.running]
      simp
    · exact last
  · have frames := extended.frames
    rw [List.range'_succ, List.map_cons] at frames
    obtain ⟨f, rest, buffered, head, tail⟩ := List.map_eq_cons_iff.mp frames
    have plays : put.min < put.n := by
      rw [extended.min_eq, delaying.min_eq]
      omega
    have place : k - jb.n = k - min := by omega
    rw [jbufGet_full buffered plays]
    refine ⟨_, by rw [delayed, if_neg filling, ← place, ← head], ?_⟩
    constructor
    · simp only [Jbuf.release]
      omega
    · simp only [Jbuf.release]
      rw [extended.min_eq, delaying.min_eq]
    · simp only [Jbuf.release, List.length_append, List.length_singleton]
      omega
    · simp only [Jbuf.release, tail]
      have first : k + 1 - (put.n - 1) = k - jb.n + 1 := by omega
      have count : put.n - 1 = jb.n := by omega
      rw [first, count]
    · simp only [Jbuf.release, extended.running]
      simp
    · exact last

theorem new_delaying (min max : Nat) (packets : Nat → JbufPacket μ) : Delaying min max packets 0 (.new min max) := by
  constructor
  · exact (Nat.zero_min min).symm
  · rfl
  · simp [Jbuf.new]
  · rfl
  · rfl
  · intro j same
    cases same

theorem rounds_delaying {min max : Nat} {packets : Nat → JbufPacket μ} (rising : Rising packets)
    (room : min < max) (spaced : Spaced min packets) (k : Nat) :
    ∃ jb, rounds (.new min max) packets k = some jb ∧ Delaying min max packets k jb := by
  induction k with
  | zero => exact ⟨_, rfl, new_delaying min max packets⟩
  | succ k ih =>
    obtain ⟨jb, reached, delaying⟩ := ih
    have free := delaying.total
    have full := delaying.n_eq
    have pool : jb.pooll ≠ [] := by
      intro empty
      rw [empty, List.length_nil] at free
      omega
    obtain ⟨jb', result, next⟩ := delaying.next rising (delaying.late spaced) pool
    exact ⟨jb', by simp [rounds, reached, result], next⟩

theorem stored_of_round {jb jb' : Jbuf μ} {p : JbufPacket μ} {got : Option (RtpHeader × Option μ)}
    (result : round jb p = some (⟨none, false, got⟩, jb')) : jb.late p.1.seq = false ∧ jb.pooll ≠ [] := by
  have fine : ∃ put, jbufPut jb p.1 p.2 = some (none, put) ∧ overflows jb p.1.seq = false := by
    unfold round at result
    split at result
    · contradiction
    · rename_i err put stored
      have same : err = none ∧ overflows jb p.1.seq = false := by
        split at result
        · obtain ⟨same, -⟩ := Prod.mk.inj (Option.some.inj result)
          exact ⟨congrArg Round.err same, congrArg Round.overflow same⟩
        · obtain ⟨same, -⟩ := Prod.mk.inj (Option.some.inj result)
          exact ⟨congrArg Round.err same, congrArg Round.overflow same⟩
      exact ⟨put, same.1 ▸ stored, same.2⟩
  obtain ⟨put, stored, overflow⟩ := fine
  have onTime : jb.late p.1.seq = false := by
    rw [← Bool.not_eq_true]
    intro late
    unfold jbufPut at stored
    rw [if_pos late] at stored
    exact absurd stored (by simp)
  unfold overflows at overflow
  rw [onTime] at overflow
  exact ⟨onTime, List.isEmpty_eq_false_iff.mp overflow⟩

theorem Delayed.delaying {min max : Nat} {packets : Nat → JbufPacket μ} (rising : Rising packets)
    (all : Delayed min (.new min max) packets) (k : Nat) :
    ∃ jb, Delaying min max packets k jb ∧ rounds (.new min max) packets k = some jb ∧
      jb.late (packets k).1.seq = false ∧ jb.pooll ≠ [] := by
  induction k with
  | zero =>
    obtain ⟨⟨r, jb'⟩, result, rfl⟩ := Option.map_eq_some_iff.mp (all 0)
    exact ⟨_, new_delaying min max packets, rfl, stored_of_round result⟩
  | succ k ih =>
    obtain ⟨jb, delaying, reached, onTime, room⟩ := ih
    obtain ⟨jb', result, next⟩ := delaying.next rising onTime room
    have here : rounds (.new min max) packets (k + 1) = some jb' := by simp [rounds, reached, result]
    have this_ := all (k + 1)
    rw [roundAt, here] at this_
    obtain ⟨⟨r, jb''⟩, again, rfl⟩ := Option.map_eq_some_iff.mp this_
    exact ⟨jb', next, here, stored_of_round again⟩

/-- Every packet is returned `min` packets after it was put exactly when a buffer of `max` frames has one to
    spare then, and no packet passes for a late one. -/
theorem delayed_iff {min max : Nat} {jb : Jbuf μ} (alloc : jbufAlloc min max = .ok jb)
    {packets : Nat → JbufPacket μ} (rising : Rising packets) :
    Delayed min jb packets ↔ min < max ∧ Spaced min packets := by
  unfold jbufAlloc at alloc
  split at alloc
  · contradiction
  · obtain rfl := Except.ok.inj alloc
    constructor
    · intro all
      constructor
      · obtain ⟨jb, delaying, -, -, room⟩ := all.delaying rising min
        have total := delaying.total
        have full := delaying.n_eq
        have some_ := List.length_pos_iff.mpr room
        omega
      · intro k
        obtain ⟨jb, delaying, -, onTime, -⟩ := all.delaying rising (k + 1)
        unfold Jbuf.late at onTime
        rw [delaying.running, delaying.n_eq, delaying.last k rfl] at onTime
        simpa using onTime
    · rintro ⟨room, spaced⟩ k
      obtain ⟨jb, reached, delaying⟩ := rounds_delaying rising room spaced k
      have total := delaying.total
      have full := delaying.n_eq
      have pool : jb.pooll ≠ [] := by
        intro empty
        rw [empty, List.length_nil] at total
        omega
      obtain ⟨jb', result, -⟩ := delaying.next rising (delaying.late spaced) pool
      simp [roundAt, reached, result]

/-- Packets numbered one after the other. -/
def consecutive (start : BitVec 16) (mem : μ) (k : Nat) : JbufPacket μ :=
  ({ RtpHeader.zero with seq := start + .ofNat 16 k }, mem)

theorem consecutive_next (start : BitVec 16) (mem : μ) (k : Nat) :
    (consecutive start mem (k + 1)).1.seq = (consecutive start mem k).1.seq + 1 := by
  unfold consecutive
  rw [BitVec.add_assoc]
  apply BitVec.eq_of_toNat_eq
  simp

theorem consecutive_rising (start : BitVec 16) (mem : μ) : Rising (consecutive start mem) := by
  intro k
  rw [consecutive_next]
  exact seqLess_next _

theorem consecutive_spaced {min : Nat} (short : min ≤ 32766) (start : BitVec 16) (mem : μ) :
    Spaced min (consecutive start mem) := by
  intro k
  rw [consecutive_next]
  apply seqLess_filled
  omega

theorem delayed_iff_consecutive : Delayed 2 (.new 2 3) (consecutive 65535 ()) := by
  have alloc : jbufAlloc 2 3 = .ok (.new 2 3 : Jbuf Unit) := rfl
  exact (delayed_iff alloc (consecutive_rising 65535 ())).mpr ⟨by decide, consecutive_spaced (by decide) 65535 ()⟩

/-- A buffer whose `min` is its `max` drops a packet for every one that it is given, and returns none. -/
theorem overflow_when_equal :
    jbufAlloc 1 1 = .ok (.new 1 1 : Jbuf Unit) ∧ Rising (consecutive 0 ()) ∧
      ¬ Delayed 1 (.new 1 1) (consecutive 0 ()) := by
  refine ⟨rfl, consecutive_rising 0 (), ?_⟩
  intro all
  have second := all 1
  revert second
  decide

end Baresip.Stream
