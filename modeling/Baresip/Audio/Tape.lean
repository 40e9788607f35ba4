import Baresip.Audio.Aubuf

set_option linter.dupNamespace false

namespace Baresip.Aubuf

open Re Library

/-- An audio buffer beside everything that has been written to it. -/
structure Tape where
  ab : Aubuf
  written : List Byte

inductive Action
  | write (p : List Byte)
  | read (sz : Nat)
  deriving DecidableEq, Repr

def unset (sz : Nat) : List (Option Byte) := List.replicate sz none

def silence (sz : Nat) : List (Option Byte) := List.replicate sz (some 0)

namespace Tape

def step (t : Tape) : Action → Tape
  | .write p => ⟨t.ab.write p, t.written ++ p⟩
  | .read sz => ⟨(t.ab.read (unset sz)).2, t.written⟩

/-- Where the next byte to be read stands in what has been written. -/
def next (t : Tape) : Nat := passed t.written t.ab.queued

/-- The size is the one of the queue and within its bound, and the queue is what has been written from the
    next byte on. -/
structure Sound (t : Tape) : Prop where
  counted : t.ab.Counted
  bounded : t.ab.maxSz ≠ 0 → t.ab.curSz ≤ t.ab.maxSz
  ordered : t.ab.queued = t.written.drop t.next

instance (t : Tape) : Decidable t.Sound :=
  decidable_of_iff
    (t.ab.curSz = t.ab.queued.length ∧ (t.ab.maxSz ≠ 0 → t.ab.curSz ≤ t.ab.maxSz) ∧
      t.ab.queued = t.written.drop t.next)
    ⟨fun h => ⟨h.1, h.2.1, h.2.2⟩, fun h => ⟨h.counted, h.bounded, h.ordered⟩⟩

/-- A write passes over no byte, or an overrun over the whole oldest frame. A read sets every byte, either
    to silence or to the next bytes, and passes over those. -/
def Serves (t : Tape) : Action → Prop
  | .write p =>
    (t.step (.write p)).next = t.next ∨
      t.ab.Overrun p ∧ (t.step (.write p)).next = t.next + (t.ab.oldest p).length
  | .read sz =>
    none ∉ (t.ab.read (unset sz)).1 ∧
      ((t.ab.read (unset sz)).1 = silence sz ∧ (t.step (.read sz)).next = t.next ∨
        t.next + sz ≤ t.written.length ∧
          (t.ab.read (unset sz)).1 = ((t.written.drop t.next).take sz).map some ∧
          (t.step (.read sz)).next = t.next + sz)

/-- The oldest frame is large enough for an overrun, and a read that ends the filling asks for no more than
    there is. -/
def Fits (t : Tape) : Action → Prop
  | .write p => t.ab.Overrun p → t.ab.curSz + p.length - (t.ab.oldest p).length ≤ t.ab.maxSz
  | .read sz => t.ab.filling = true → t.ab.wishSz ≤ t.ab.curSz → sz ≤ t.ab.curSz

instance (t : Tape) : (a : Action) → Decidable (t.Serves a)
  | .write _ => inferInstanceAs (Decidable (_ ∨ (_ ∧ _) ∧ _))
  | .read _ => inferInstanceAs (Decidable (_ ∧ _))

instance (t : Tape) : (a : Action) → Decidable (t.Fits a)
  | .write _ => inferInstanceAs (Decidable (_ ∧ _ → _))
  | .read _ => inferInstanceAs (Decidable (_ → _))

/-- What every call keeps. -/
structure Kept (t : Tape) : Prop where
  counted : t.ab.Counted
  tail : t.ab.queued <:+ t.written

variable {t : Tape} {p : List Byte} {sz : Nat}

theorem Kept.ordered (kept : t.Kept) : t.ab.queued = t.written.drop t.next := queued_eq_drop kept.tail

theorem Kept.sound (kept : t.Kept) (bounded : t.ab.maxSz ≠ 0 → t.ab.curSz ≤ t.ab.maxSz) : t.Sound :=
  ⟨kept.counted, bounded, kept.ordered⟩

theorem write_kept (kept : t.Kept) : (t.step (.write p)).Kept := by
  have counted : t.ab.curSz = t.ab.queued.length := kept.counted
  by_cases beyond : t.ab.Overrun p
  · rcases write_overrun beyond with ⟨size, _, queue⟩
    have length := congrArg List.length queue
    simp only [List.length_append] at length
    refine ⟨?_, ?_⟩
    · show (t.ab.write p).curSz = (t.ab.write p).queued.length
      omega
    · have tail : t.ab.oldest p ++ (t.ab.write p).queued <:+ t.written ++ p := queue ▸ suffix_append kept.tail
      exact (List.suffix_append _ _).trans tail
  · rcases write_within beyond with ⟨size, _, queue⟩
    refine ⟨?_, ?_⟩
    · show (t.ab.write p).curSz = (t.ab.write p).queued.length
      rw [queue, List.length_append, size, counted]
    · show (t.ab.write p).queued <:+ t.written ++ p
      exact queue ▸ suffix_append kept.tail

theorem write_serves (kept : t.Kept) : t.Serves (.write p) := by
  by_cases beyond : t.ab.Overrun p
  · rcases write_overrun beyond with ⟨_, _, queue⟩
    have length := congrArg List.length queue
    have shorter := kept.tail.length_le
    refine .inr ⟨beyond, ?_⟩
    show passed (t.written ++ p) (t.ab.write p).queued = passed t.written t.ab.queued + (t.ab.oldest p).length
    simp only [passed, List.length_append] at length ⊢
    omega
  · refine .inl ?_
    show passed (t.written ++ p) (t.ab.write p).queued = passed t.written t.ab.queued
    rw [(write_within beyond).2.2, passed_append]

theorem write_bounded :
    ((t.ab.write p).maxSz ≠ 0 → (t.ab.write p).curSz ≤ (t.ab.write p).maxSz) ↔ t.Fits (.write p) := by
  by_cases beyond : t.ab.Overrun p
  · rcases write_overrun beyond with ⟨size, max, _⟩
    rw [size, max]
    exact ⟨fun bounded _ => bounded beyond.1, fun fits _ => fits beyond⟩
  · rcases write_within beyond with ⟨size, max, _⟩
    refine ⟨fun _ => fun beyond' => absurd beyond' beyond, fun _ limited => ?_⟩
    rw [max] at limited ⊢
    unfold Overrun at beyond
    omega

/-- A read is silent, or takes the bytes it asks for off the queue, or ends the filling before there are as
    many. -/
theorem read_cases (kept : t.Kept) (sz : Nat) :
    ((t.ab.read (unset sz)).1 = silence sz ∧ (t.ab.read (unset sz)).2.curSz = t.ab.curSz ∧
        (t.ab.read (unset sz)).2.queued = t.ab.queued ∧ t.Fits (.read sz)) ∨
      (sz ≤ t.ab.queued.length ∧ (t.ab.read (unset sz)).1 = (t.ab.queued.take sz).map some ∧
        (t.ab.read (unset sz)).2.curSz = t.ab.curSz - sz ∧
        (t.ab.read (unset sz)).2.queued = t.ab.queued.drop sz) ∨
      (¬ t.Fits (.read sz) ∧ none ∈ (t.ab.read (unset sz)).1 ∧
        (t.ab.read (unset sz)).2.curSz = t.ab.curSz - t.ab.queued.length ∧
        (t.ab.read (unset sz)).2.queued = []) := by
  have counted : t.ab.curSz = t.ab.queued.length := kept.counted
  have length : (unset sz).length = sz := List.length_replicate
  by_cases none_ : sz = 0
  · subst none_
    exact .inl ⟨rfl, rfl, rfl, fun _ _ => Nat.zero_le _⟩
  · have some_ : (unset sz).length ≠ 0 := by rwa [length]
    by_cases low : t.ab.curSz < if t.ab.filling then t.ab.wishSz else (unset sz).length
    · rw [read_silent some_ low, length]
      refine .inl ⟨rfl, rfl, rfl, fun filling reached => ?_⟩
      rw [if_pos filling] at low
      omega
    · rcases read_taken some_ low with ⟨data, size, queue⟩
      rw [length] at data size queue low
      by_cases enough : sz ≤ t.ab.queued.length
      · have none_left : (unset sz).drop t.ab.queued.length = [] :=
          List.drop_of_length_le (by rwa [length])
        rw [none_left, List.append_nil] at data
        rw [List.length_take, Nat.min_eq_left enough] at size
        exact .inr (.inl ⟨enough, data, size, queue⟩)
      · have short : t.ab.queued.length ≤ sz := Nat.le_of_lt (Nat.lt_of_not_le enough)
        rw [List.take_of_length_le short] at size
        rw [List.drop_of_length_le short] at queue
        refine .inr (.inr ⟨fun fits => ?_, ?_, size, queue⟩)
        · by_cases filling : t.ab.filling = true
          · rw [if_pos filling] at low
            have covered := fits filling (Nat.le_of_not_lt low)
            omega
          · rw [if_neg filling] at low
            omega
        · have left : none ∈ (unset sz).drop t.ab.queued.length := by
            rw [unset, List.drop_replicate, List.mem_replicate]
            exact ⟨by omega, rfl⟩
          rw [data]
          exact List.mem_append_right _ left

theorem read_kept (kept : t.Kept) : (t.step (.read sz)).Kept := by
  have counted : t.ab.curSz = t.ab.queued.length := kept.counted
  rcases read_cases kept sz with ⟨_, size, queue, _⟩ | ⟨_, _, size, queue⟩ | ⟨_, _, size, queue⟩
  · exact ⟨size.trans (counted.trans (congrArg List.length queue.symm)), queue ▸ kept.tail⟩
  · refine ⟨?_, ?_⟩
    · show (t.ab.read (unset sz)).2.curSz = (t.ab.read (unset sz)).2.queued.length
      rw [size, queue, List.length_drop, counted]
    · show (t.ab.read (unset sz)).2.queued <:+ t.written
      rw [queue]
      exact (List.drop_suffix _ _).trans kept.tail
  · refine ⟨?_, ?_⟩
    · show (t.ab.read (unset sz)).2.curSz = (t.ab.read (unset sz)).2.queued.length
      rw [size, queue, counted, Nat.sub_self, List.length_nil]
    · show (t.ab.read (unset sz)).2.queued <:+ t.written
      rw [queue]
      exact List.nil_suffix

theorem read_serves (kept : t.Kept) : t.Serves (.read sz) ↔ t.Fits (.read sz) := by
  rcases read_cases kept sz with ⟨data, _, queue, fits⟩ | ⟨enough, data, _, queue⟩ | ⟨beyond, left, _, _⟩
  · refine ⟨fun _ => fits, fun _ => ⟨?_, .inl ⟨data, ?_⟩⟩⟩
    · rw [data]
      simp [silence]
    · show passed t.written (t.ab.read (unset sz)).2.queued = passed t.written t.ab.queued
      rw [queue]
  · have counted : t.ab.curSz = t.ab.queued.length := kept.counted
    have shorter := kept.tail.length_le
    refine ⟨fun _ _ _ => by omega, fun _ => ⟨?_, .inr ⟨?_, ?_, ?_⟩⟩⟩
    · rw [data, List.mem_map]
      rintro ⟨byte, _, ⟨⟩⟩
    · show passed t.written t.ab.queued + sz ≤ t.written.length
      unfold passed
      omega
    · rw [data, ← kept.ordered]
    · show passed t.written (t.ab.read (unset sz)).2.queued = passed t.written t.ab.queued + sz
      rw [queue, passed_drop kept.tail enough]
  · exact ⟨fun serves => absurd left serves.1, fun fits => absurd fits beyond⟩

theorem read_curSz_le (t : Tape) (kept : t.Kept) (sz : Nat) :
    (t.ab.read (unset sz)).2.curSz ≤ t.ab.curSz := by
  rcases read_cases kept sz with ⟨_, size, _⟩ | ⟨_, _, size, _⟩ | ⟨_, _, size, _⟩ <;> omega

theorem step_kept (t : Tape) (a : Action) (kept : t.Kept) : (t.step a).Kept := by
  cases a with
  | write p => exact write_kept kept
  | read sz => exact read_kept kept

/-- In a sound state a call is served and leaves a sound state exactly when it fits. -/
theorem step_served (t : Tape) (a : Action) (kept : t.Kept) (sound : t.Sound) :
    (t.step a).Sound ∧ t.Serves a ↔ t.Fits a := by
  have kept' := step_kept t a kept
  cases a with
  | write p =>
    refine ⟨fun h => write_bounded.mp h.1.bounded, fun fits => ⟨kept'.sound ?_, write_serves kept⟩⟩
    exact write_bounded.mpr fits
  | read sz =>
    refine ⟨fun h => (read_serves kept).mp h.2, fun fits => ⟨kept'.sound ?_, (read_serves kept).mpr fits⟩⟩
    intro limited
    show (t.ab.read (unset sz)).2.curSz ≤ (t.ab.read (unset sz)).2.maxSz
    rw [show (t.step (.read sz)).ab = (t.ab.read (unset sz)).2 from rfl, read_maxSz] at limited
    rw [read_maxSz]
    exact (read_curSz_le t kept sz).trans (sound.bounded limited)

end Tape

/-- A buffer as it is allocated. -/
def fresh (wishSz maxSz : Nat) : Aubuf := ⟨[], wishSz, 0, maxSz, true, 0⟩

/-- The runs over a new buffer that are served like a queue of bytes are those whose calls all fit. -/
theorem alloc_serves_iff {wishSz maxSz : Nat} {ab : Aubuf} (made : alloc wishSz maxSz = .ok ab)
    (actions : List Action) :
    Throughout Tape.step Tape.Sound ⟨ab, []⟩ actions ∧ Along Tape.step Tape.Serves ⟨ab, []⟩ actions ↔
      Along Tape.step Tape.Fits ⟨ab, []⟩ actions := by
  have new : ab = fresh wishSz maxSz := by
    unfold alloc at made
    split at made
    · cases made
    · exact Except.ok.inj made |>.symm
  subst new
  have kept : Tape.Kept ⟨fresh wishSz maxSz, []⟩ := ⟨rfl, List.nil_suffix⟩
  have bounded : maxSz ≠ 0 → 0 ≤ maxSz := fun _ => Nat.zero_le _
  exact throughout_and_along_iff Tape.step_kept Tape.step_served kept (kept.sound bounded)

theorem alloc_serves_across_frames :
    Throughout Tape.step Tape.Sound ⟨fresh 2 4, []⟩ [.write [1, 2], .write [3, 4], .read 3, .write [5, 6, 7]] ∧
      Along Tape.step Tape.Serves ⟨fresh 2 4, []⟩ [.write [1, 2], .write [3, 4], .read 3, .write [5, 6, 7]] :=
  (@alloc_serves_iff 2 4 (fresh 2 4) rfl _).mpr (by decide)

/-- A chunk larger than the oldest frame leaves the buffer above its bound, and a read larger than the level
    at which the filling ends leaves a byte of the caller's buffer unset. -/
theorem overfull_and_unset :
    (alloc 1 3 = .ok (fresh 1 3) ∧
        ¬ Throughout Tape.step Tape.Sound ⟨fresh 1 3, []⟩ [.write [1], .write [2, 3, 4, 5]]) ∧
      (alloc 1 0 = .ok (fresh 1 0) ∧
        (((fresh 1 0).write [7]).read (unset 2)).1 = [some 7, none]) ∧
      ¬ Along Tape.step Tape.Serves ⟨fresh 1 0, []⟩ [.write [7], .read 2] := by
  refine ⟨⟨rfl, by decide⟩, ⟨rfl, by decide⟩, by decide⟩

end Baresip.Aubuf
