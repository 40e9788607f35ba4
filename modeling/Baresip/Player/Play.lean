import Baresip.Library.Runs
import Baresip.Re.Mbuf

set_option linter.dupNamespace false

namespace Baresip.Player

open Library Re

def silenceDur : Nat := 2000

/-- The handler of the timer. -/
inductive Tmr
  | tmrPolling | tmrRepeat | tmrStop
  deriving DecidableEq, Repr

/-- How far the destructor has come: it has cancelled the timer, it has set `eof` and waits for the driver to
    end, or it is done. -/
inductive Stage
  | playing | cancelled | silenced | gone
  deriving DecidableEq, Repr

/-- A player. `tmr` is the handler and the delay of the timer that runs, `out` what the driver was given to
    play. `stopped` is that the player's own timer has destroyed it. -/
structure Play where
  mb : Mbuf
  repeats : Int
  eof : Bool
  tmr : Option (Tmr × Nat)
  stage : Stage
  stopped : Bool
  out : List (List Byte)
  deriving DecidableEq, Repr

def silence (sz : Nat) : List Byte := List.replicate sz 0

def playTone (tone : Mbuf) (repeats : Int) : Play :=
  ⟨tone, repeats, false, some (.tmrPolling, 1000), .playing, false, []⟩

/-- The samples of a file are in a buffer that may be larger than they are. -/
def playFile (samples spare : List Byte) (repeats : Int) : Play :=
  playTone ⟨samples ++ spare, 0, samples.length⟩ repeats

/-- `mem_deref` of the player begins its destructor. -/
def destructor (s : Play) : Play := { s with tmr := none, stage := .cancelled }

def tmrStop (s : Play) : Play := { destructor s with stopped := true }

def tmrRepeat (s : Play) : Play :=
  { s with mb := { s.mb with pos := 0 }, eof := false, tmr := some (.tmrPolling, 1000) }

def tmrPolling (s : Play) : Play :=
  let s := { s with tmr := some (.tmrPolling, 1000) }
  if s.eof then
    let s := if 0 < s.repeats then { s with repeats := s.repeats - 1 } else s
    if s.repeats = 0 then { s with tmr := some (.tmrStop, 1) } else { s with tmr := some (.tmrRepeat, silenceDur) }
  else s

/-- What is left of the buffer is as much as is read. -/
def writeHandler (sz : Nat) (s : Play) : Play :=
  if s.eof then { s with out := s.out ++ [silence sz] }
  else if s.mb.getLeft < sz then { s with eof := true, out := s.out ++ [silence sz] }
  else
    match s.mb.readMem sz with
    | .error _ => s
    | .ok (buf, mb) => { s with mb := mb, out := s.out ++ [buf] }

/-- What can happen next, each under the lock: the driver asks for a frame, the timer runs out, the owner gives
    the player up, the destructor goes on. -/
inductive Action
  | write | expire | deref | destruct
  deriving DecidableEq, Repr

def expire (s : Play) : Play :=
  match s.tmr with
  | none => s
  | some (.tmrPolling, _) => tmrPolling { s with tmr := none }
  | some (.tmrRepeat, _) => tmrRepeat { s with tmr := none }
  | some (.tmrStop, _) => tmrStop { s with tmr := none }

def step (sz : Nat) (s : Play) : Action → Play
  | .write => if s.stage = .gone then s else writeHandler sz s
  | .expire => expire s
  | .deref => if s.stage = .playing then destructor s else s
  | .destruct =>
    match s.stage with
    | .playing => s
    | .cancelled => { s with eof := true, stage := .silenced }
    | .silenced => { s with stage := .gone }
    | .gone => s

/-- The whole frames of a tone. -/
def frames (sz : Nat) (tone : List Byte) : List (List Byte) :=
  (List.range (tone.length / sz)).map fun i => (tone.drop (i * sz)).take sz

/-- Passes over a tone, each with so many frames of silence behind it. -/
def passes (sz : Nat) (tone : List Byte) (gaps : List Nat) : List (List Byte) :=
  gaps.flatMap fun n => frames sz tone ++ List.replicate n (silence sz)

variable {sz : Nat} {tone spare : List Byte} {r : Int} {s : Play}

theorem passes_gap (gaps : List Nat) (n : Nat) :
    passes sz tone (gaps ++ [n]) ++ [silence sz] = passes sz tone (gaps ++ [n + 1]) := by
  simp [passes, List.replicate_succ']

theorem passes_begin (gaps : List Nat) :
    passes sz tone gaps ++ frames sz tone ++ [silence sz] = passes sz tone (gaps ++ [1]) := by
  simp [passes]

theorem frames_length : (frames sz tone).length = tone.length / sz := by simp [frames]

theorem frames_next {j : Nat} (inside : j < tone.length / sz) :
    (frames sz tone).take j ++ [(tone.drop (j * sz)).take sz] = (frames sz tone).take (j + 1) := by
  have here : (frames sz tone)[j]? = some ((tone.drop (j * sz)).take sz) := by simp [frames, inside]
  rw [List.take_add_one, here]
  rfl

/-- The passes that are still to come after `k` of them, the one that sounds included. -/
def Left (r : Int) (k : Nat) (repeats : Int) : Prop := (0 < repeats ∧ repeats + k = r) ∨ (r < 0 ∧ repeats = r)

/-- Where a player is whose owner has not given it up. -/
inductive Phase (sz : Nat) (tone : List Byte) (r : Int) : Play → Prop
  | sounding {mb repeats delay out} (gaps : List Nat) (j : Nat) (left : Left r gaps.length repeats)
      (at_ : mb.pos = j * sz) (inside : j ≤ tone.length / sz)
      (played : out = passes sz tone gaps ++ (frames sz tone).take j) :
      Phase sz tone r ⟨mb, repeats, false, some (.tmrPolling, delay), .playing, false, out⟩
  | waiting {mb repeats delay out} (gaps : List Nat) (n : Nat) (left : Left r gaps.length repeats)
      (played : out = passes sz tone (gaps ++ [n])) :
      Phase sz tone r ⟨mb, repeats, true, some (.tmrPolling, delay), .playing, false, out⟩
  | pausing {mb repeats delay out} (gaps : List Nat) (n : Nat) (left : Left r (gaps.length + 1) repeats)
      (played : out = passes sz tone (gaps ++ [n])) :
      Phase sz tone r ⟨mb, repeats, true, some (.tmrRepeat, delay), .playing, false, out⟩
  | stopping {mb repeats delay out} (gaps : List Nat) (n : Nat) (all : (gaps.length + 1 : Int) = r)
      (played : out = passes sz tone (gaps ++ [n])) :
      Phase sz tone r ⟨mb, repeats, true, some (.tmrStop, delay), .playing, false, out⟩
  | stopped {mb repeats stage out} (gaps : List Nat) (n : Nat) (all : (gaps.length + 1 : Int) = r)
      (played : out = passes sz tone (gaps ++ [n])) : stage ≠ .playing →
      Phase sz tone r ⟨mb, repeats, true, none, stage, true, out⟩

/-- A player of a tone; its buffer is left as it is. -/
structure Plays (sz : Nat) (tone spare : List Byte) (r : Int) (s : Play) : Prop where
  buf : s.mb.buf = tone ++ spare
  ends : s.mb.endPos = tone.length
  phase : Phase sz tone r s ∨ s.stage ≠ .playing ∧ s.tmr = none ∧ s.stopped = false

theorem writeHandler_mb (sz : Nat) (s : Play) :
    (writeHandler sz s).mb.buf = s.mb.buf ∧ (writeHandler sz s).mb.endPos = s.mb.endPos := by
  unfold writeHandler Mbuf.readMem
  split_ifs <;> exact ⟨rfl, rfl⟩

theorem writeHandler_keeps (sz : Nat) (s : Play) :
    (writeHandler sz s).stage = s.stage ∧ (writeHandler sz s).tmr = s.tmr ∧ (writeHandler sz s).stopped = s.stopped := by
  unfold writeHandler Mbuf.readMem
  split_ifs <;> exact ⟨rfl, rfl, rfl⟩

/-- The driver gets the next frame of the pass, or silence behind it. -/
theorem write_phase (some_ : 0 < sz) (buf : s.mb.buf = tone ++ spare) (ends : s.mb.endPos = tone.length)
    (phase : Phase sz tone r s) : Phase sz tone r (writeHandler sz s) := by
  cases phase with
  | sounding gaps j left at_ inside played =>
    rename_i mb repeats delay out
    dsimp only at buf ends
    have rest : mb.getLeft = tone.length - j * sz := by rw [Mbuf.getLeft, ends, at_]
    unfold writeHandler
    simp only [Bool.false_eq_true, if_false, rest]
    split_ifs with short
    · have all : ¬ j < tone.length / sz := by
        intro more
        have room := (Nat.le_div_iff_mul_le some_).mp more
        rw [Nat.succ_mul] at room
        omega
      have whole : (frames sz tone).take j = frames sz tone :=
        List.take_of_length_le (by rw [frames_length]; omega)
      rw [whole] at played
      exact .waiting gaps 1 left (by rw [played, passes_begin])
    · have room : (j + 1) * sz ≤ tone.length := by
        rw [Nat.succ_mul]
        omega
      have next : j + 1 ≤ tone.length / sz := (Nat.le_div_iff_mul_le some_).mpr room
      have data : (mb.buf.drop mb.pos).take sz = (tone.drop (j * sz)).take sz := by
        rw [buf, at_, List.drop_append_of_le_length (by omega), List.take_append_of_le_length]
        rw [List.length_drop]
        omega
      have read : mb.readMem sz = .ok ((tone.drop (j * sz)).take sz, mb.advance sz) := by
        rw [Mbuf.readMem, rest, if_neg short, data]
      rw [read]
      refine .sounding gaps (j + 1) left ?_ next ?_
      · rw [Mbuf.advance, at_, Nat.succ_mul]
      · rw [played, List.append_assoc, frames_next next]
  | waiting gaps n left played => exact .waiting gaps (n + 1) left (by rw [played, passes_gap])
  | pausing gaps n left played => exact .pausing gaps (n + 1) left (by rw [played, passes_gap])
  | stopping gaps n all played => exact .stopping gaps (n + 1) all (by rw [played, passes_gap])
  | stopped gaps n all played ended => exact .stopped gaps (n + 1) all (by rw [played, passes_gap]) ended

/-- The poll counts a pass that has ended, the other timer begins the next one. -/
theorem expire_phase (phase : Phase sz tone r s) : Phase sz tone r (expire s) := by
  cases phase with
  | sounding gaps j left at_ inside played => exact .sounding gaps j left at_ inside played
  | waiting gaps n left played =>
    rename_i mb repeats delay out
    simp only [expire, tmrPolling, if_true]
    rcases left with ⟨more, count⟩ | ⟨endless, same⟩
    · simp only [more, if_true]
      split_ifs with last
      · exact .stopping gaps n (by omega) played
      · exact .pausing gaps n (.inl ⟨by omega, by push_cast; omega⟩) played
    · have negative : ¬ 0 < repeats := by omega
      have some_ : ¬ repeats = 0 := by omega
      simp only [negative, some_, if_false]
      exact .pausing gaps n (.inr ⟨endless, same⟩) played
  | pausing gaps n left played =>
    refine .sounding (gaps ++ [n]) 0 ?_ (Nat.zero_mul sz).symm (Nat.zero_le _) ?_
    · rw [List.length_append]
      exact left
    · rw [played, List.take_zero, List.append_nil]
  | stopping gaps n all played => exact .stopped gaps n all played nofun
  | stopped gaps n all played ended => exact .stopped gaps n all played ended

theorem expire_mb (s : Play) : (expire s).mb.buf = s.mb.buf ∧ (expire s).mb.endPos = s.mb.endPos := by
  unfold expire tmrPolling
  split
  · exact ⟨rfl, rfl⟩
  · dsimp only
    split_ifs <;> exact ⟨rfl, rfl⟩
  · exact ⟨rfl, rfl⟩
  · exact ⟨rfl, rfl⟩

theorem deref_plays (plays : Plays sz tone spare r s) : Plays sz tone spare r (step sz s .deref) := by
  obtain ⟨buf, ends, phase⟩ := plays
  by_cases playing : s.stage = .playing
  · simp only [step, playing, if_true]
    refine ⟨buf, ends, .inr ⟨nofun, rfl, ?_⟩⟩
    rcases phase with phase | given
    · cases phase with
      | stopped gaps n all played ended => exact absurd playing ended
      | sounding => rfl
      | waiting => rfl
      | pausing => rfl
      | stopping => rfl
    · exact absurd playing given.1
  · simp only [step, playing, if_false]
    exact ⟨buf, ends, phase⟩

theorem destruct_phase (phase : Phase sz tone r s) : Phase sz tone r (step sz s .destruct) := by
  cases phase with
  | stopped gaps n all played ended =>
    rename_i mb repeats stage out
    cases stage with
    | playing => exact absurd rfl ended
    | cancelled => exact .stopped gaps n all played nofun
    | silenced => exact .stopped gaps n all played nofun
    | gone => exact .stopped gaps n all played nofun
  | sounding gaps j left at_ inside played => exact .sounding gaps j left at_ inside played
  | waiting gaps n left played => exact .waiting gaps n left played
  | pausing gaps n left played => exact .pausing gaps n left played
  | stopping gaps n all played => exact .stopping gaps n all played

theorem destruct_plays (plays : Plays sz tone spare r s) : Plays sz tone spare r (step sz s .destruct) := by
  obtain ⟨buf, ends, phase⟩ := plays
  have mb : (step sz s .destruct).mb = s.mb := by cases stage : s.stage <;> simp only [step, stage]
  refine ⟨by rw [mb]; exact buf, by rw [mb]; exact ends, ?_⟩
  rcases phase with phase | given
  · exact .inl (destruct_phase phase)
  · right
    cases stage : s.stage with
    | playing => exact absurd stage given.1
    | cancelled =>
      simp only [step, stage]
      exact ⟨nofun, given.2⟩
    | silenced =>
      simp only [step, stage]
      exact ⟨nofun, given.2⟩
    | gone =>
      simp only [step, stage]
      exact ⟨nofun, given.2⟩

theorem step_plays (some_ : 0 < sz) (plays : Plays sz tone spare r s) (a : Action) :
    Plays sz tone spare r (step sz s a) := by
  cases a with
  | write =>
    obtain ⟨buf, ends, phase⟩ := plays
    by_cases gone : s.stage = .gone
    · simp only [step, gone, if_true]
      exact ⟨buf, ends, phase⟩
    · simp only [step, gone, if_false]
      refine ⟨(writeHandler_mb sz s).1.trans buf, (writeHandler_mb sz s).2.trans ends, ?_⟩
      rcases phase with phase | given
      · exact .inl (write_phase some_ buf ends phase)
      · obtain ⟨stage, tmr, stopped⟩ := writeHandler_keeps sz s
        rw [stage, tmr, stopped]
        exact .inr given
  | expire =>
    obtain ⟨buf, ends, phase⟩ := plays
    refine ⟨(expire_mb s).1.trans buf, (expire_mb s).2.trans ends, ?_⟩
    rcases phase with phase | given
    · exact .inl (expire_phase phase)
    · right
      show (expire s).stage ≠ _ ∧ (expire s).tmr = _ ∧ (expire s).stopped = _
      rw [expire, given.2.1]
      exact given
  | deref => exact deref_plays plays
  | destruct => exact destruct_plays plays

def run (sz : Nat) (tone spare : List Byte) (r : Int) (as : List Action) : Play :=
  as.foldl (step sz) (playFile tone spare r)

theorem run_plays (some_ : 0 < sz) (tone spare : List Byte) (counted : r ≠ 0) (as : List Action) :
    Plays sz tone spare r (run sz tone spare r as) := by
  have left : Left r 0 r := by
    rcases Int.lt_or_gt_of_ne counted with endless | more
    · exact .inr ⟨endless, rfl⟩
    · exact .inl ⟨more, Int.add_zero r⟩
  have start : Plays sz tone spare r (playFile tone spare r) :=
    ⟨rfl, rfl, .inl (.sounding [] 0 left (Nat.zero_mul sz).symm (Nat.zero_le _) rfl)⟩
  have always : Throughout (step sz) (Plays sz tone spare r) (playFile tone spare r) as :=
    throughout_of_invariant (fun _ a plays => step_plays some_ plays a) start
  exact always.last

theorem Plays.all (plays : Plays sz tone spare r s) (ended : s.stopped = true) :
    ∃ gaps : List Nat, (gaps.length : Int) = r ∧ s.out = passes sz tone gaps := by
  rcases plays.phase with phase | given
  · cases phase with
    | stopped gaps n all played =>
      refine ⟨gaps ++ [n], ?_, played⟩
      rw [List.length_append]
      exact all
    | sounding => cases ended
    | waiting => cases ended
    | pausing => cases ended
    | stopping => cases ended
  · rw [given.2.2] at ended
    cases ended

theorem Plays.front (plays : Plays sz tone spare r s) (playing : s.stage = .playing) :
    ∃ (gaps : List Nat) (j : Nat), s.out = passes sz tone gaps ++ (frames sz tone).take j ∧
      (1 ≤ r → (gaps.length : Int) < r ∨ (gaps.length : Int) = r ∧ j = 0) := by
  rcases plays.phase with phase | given
  · have silent (gaps : List Nat) (n : Nat) : passes sz tone (gaps ++ [n]) =
        passes sz tone (gaps ++ [n]) ++ (frames sz tone).take 0 := by rw [List.take_zero, List.append_nil]
    have count (gaps : List Nat) (n : Nat) : ((gaps ++ [n]).length : Int) = gaps.length + 1 := by simp
    cases phase with
    | sounding gaps j left at_ inside played =>
      refine ⟨gaps, j, played, fun more => .inl ?_⟩
      rcases left with left | left <;> omega
    | waiting gaps n left played =>
      refine ⟨gaps ++ [n], 0, played.trans (silent gaps n), fun more => ?_⟩
      rw [count]
      rcases left with left | left <;> omega
    | pausing gaps n left played =>
      refine ⟨gaps ++ [n], 0, played.trans (silent gaps n), fun more => ?_⟩
      rw [count]
      rcases left with left | left <;> omega
    | stopping gaps n all played =>
      refine ⟨gaps ++ [n], 0, played.trans (silent gaps n), fun more => ?_⟩
      rw [count]
      exact .inr ⟨all, rfl⟩
    | stopped gaps n all played ended => exact absurd playing ended
  · exact absurd playing given.1

theorem Plays.endless (plays : Plays sz tone spare r s) (less : r < 1) : s.stopped = false := by
  rcases plays.phase with phase | given
  · cases phase with
    | stopped gaps n all played => omega
    | sounding => rfl
    | waiting => rfl
    | pausing => rfl
    | stopping => rfl
  · exact given.2.2

/-- The tone sounds as often as it was asked for when the player's own timer ends it, and until then whole
    passes and the front of the next one have sounded; a player that repeats without end is not ended. -/
theorem tone_repeated (some_ : 0 < sz) (tone spare : List Byte) (r : Int) (as : List Action) :
    (1 ≤ r → (run sz tone spare r as).stopped = true →
      ∃ gaps : List Nat, (gaps.length : Int) = r ∧ (run sz tone spare r as).out = passes sz tone gaps) ∧
      (1 ≤ r ∨ r = -1 → (run sz tone spare r as).stage = .playing →
        ∃ (gaps : List Nat) (j : Nat), (run sz tone spare r as).out = passes sz tone gaps ++ (frames sz tone).take j ∧
          (1 ≤ r → (gaps.length : Int) < r ∨ (gaps.length : Int) = r ∧ j = 0)) ∧
      (r = -1 → (run sz tone spare r as).stopped = false) := by
  have plays (counted : r ≠ 0) := run_plays some_ tone spare counted as
  refine ⟨?_, ?_, ?_⟩
  · intro more ended
    exact (plays (by omega)).all ended
  · intro asked playing
    exact (plays (by omega)).front playing
  · intro less
    exact (plays (by omega)).endless (by omega)

theorem two_frames_twice :
    (run 2 [1, 2, 3, 4, 5] [0] 2
      [.write, .write, .write, .expire, .expire, .write, .write, .write, .write, .expire, .expire]).stopped = true ∧
      ∃ gaps : List Nat, (gaps.length : Int) = 2 ∧
        (run 2 [1, 2, 3, 4, 5] [0] 2
          [.write, .write, .write, .expire, .expire, .write, .write, .write, .write, .expire, .expire]).out =
          passes 2 [1, 2, 3, 4, 5] gaps :=
  ⟨by decide, (tone_repeated (by decide) [1, 2, 3, 4, 5] [0] 2 _).1 (by decide) (by decide)⟩

end Baresip.Player
