import Baresip.Library.Runs

set_option linter.dupNamespace false

namespace Library

/-- A machine that collects what its inputs contribute until a marked input completes a frame. An input
    without a contribution is one that the machine refuses. -/
structure Collector (σ α β : Type*) where
  marker : α → Bool
  contribution : α → Option (List β)
  decode : σ → α → σ × Option (List β)
  Holds : σ → List β → Prop
  unique : ∀ {s data data'}, Holds s data → Holds s data' → data = data'
  refused : ∀ {s a}, contribution a = none → decode s a = (s, none)
  waits : ∀ {s a}, marker a = false → (decode s a).2 = none
  collected : ∀ {s a held data}, Holds s held → contribution a = some data →
    Holds (decode s a).1 (if marker a then [] else held ++ data)
  handed : ∀ {s a held data frame}, Holds s held → contribution a = some data →
    (decode s a).2 = some frame → frame = held ++ data

namespace Collector

variable {σ α β : Type*} (c : Collector σ α β)

/-- A machine in a run, with the inputs since the last marked one and, for each frame handed over, the
    inputs it may come from. -/
structure Receiving (σ α β : Type*) where
  st : σ
  since : List α
  frames : List (List β × List α)

def bytes (inputs : List α) : List β := (inputs.filterMap c.contribution).flatten

def receive (s : Receiving σ α β) (a : α) : Receiving σ α β :=
  let result := c.decode s.st a
  { st := result.1
    since := if c.marker a then [] else s.since ++ [a]
    frames := match result.2 with
      | none => s.frames
      | some frame => s.frames ++ [(frame, s.since ++ [a])] }

structure Separate (s : Receiving σ α β) : Prop where
  held : c.Holds s.st (c.bytes s.since)
  frames : ∀ entry ∈ s.frames, entry.1 = c.bytes entry.2

def RefusesEmpty (s : Receiving σ α β) (a : α) : Prop :=
  c.marker a = true → c.contribution a = none → c.Holds s.st []

variable {c} {s : Receiving σ α β} {a : α}

theorem bytes_concat (inputs : List α) (a : α) :
    c.bytes (inputs ++ [a]) = c.bytes inputs ++ (c.contribution a).getD [] := by
  simp only [bytes, List.filterMap_append, List.flatten_append]
  cases accepted : c.contribution a <;> simp [accepted]

theorem Separate.receive_accepted (separate : c.Separate s) {data : List β}
    (accepted : c.contribution a = some data) : c.Separate (c.receive s a) := by
  have concat : c.bytes (s.since ++ [a]) = c.bytes s.since ++ data := by
    rw [bytes_concat, accepted, Option.getD_some]
  refine ⟨?_, ?_⟩
  · have held := c.collected separate.held accepted
    by_cases marked : c.marker a = true
    · simpa [receive, marked, bytes] using held
    · simp only [marked, Bool.false_eq_true, ite_false] at held
      simpa [receive, marked, concat] using held
  · intro entry member
    cases given : (c.decode s.st a).2 with
    | none =>
      simp only [receive, given] at member
      exact separate.frames entry member
    | some frame =>
      simp only [receive, given, List.mem_append, List.mem_singleton] at member
      rcases member with before | rfl
      · exact separate.frames entry before
      · rw [concat]
        exact c.handed separate.held accepted given

theorem Separate.receive_refused (separate : c.Separate s) (refused : c.contribution a = none) :
    c.Separate (c.receive s a) ↔ c.RefusesEmpty s a := by
  have unchanged : c.decode s.st a = (s.st, none) := c.refused refused
  have frames : ∀ entry ∈ (c.receive s a).frames, entry.1 = c.bytes entry.2 := by
    simp only [receive, unchanged]
    exact separate.frames
  have holds : (c.receive s a).st = s.st := by simp only [receive, unchanged]
  by_cases marked : c.marker a = true
  · have since : c.bytes (c.receive s a).since = [] := by simp [receive, marked, bytes]
    constructor
    · intro next _ _
      rw [← since, ← holds]
      exact next.held
    · intro empty
      refine ⟨?_, frames⟩
      rw [since, holds]
      exact empty marked refused
  · have since : c.bytes (c.receive s a).since = c.bytes s.since := by
      simp [receive, marked, bytes_concat, refused]
    constructor
    · intro _ isMarked
      exact absurd isMarked marked
    · intro _
      refine ⟨?_, frames⟩
      rw [since, holds]
      exact separate.held

theorem separate_receive_iff (separate : c.Separate s) :
    c.Separate (c.receive s a) ↔ c.RefusesEmpty s a := by
  cases given : c.contribution a with
  | none => exact separate.receive_refused given
  | some data =>
    refine ⟨fun _ _ refused => ?_, fun _ => separate.receive_accepted given⟩
    rw [given] at refused
    contradiction

/-- Frames stay apart throughout a run exactly when no marked input is refused while data is held. -/
theorem separate_throughout_iff {inputs : List α} (separate : c.Separate s) :
    Throughout c.receive c.Separate s inputs ↔ Along c.receive c.RefusesEmpty s inputs :=
  throughout_iff_along (fun _ _ held => separate_receive_iff held) separate

theorem collects_run {inputs : List α} {bodies : List (List β)} (separate : c.Separate s)
    (unmarked : ∀ a ∈ inputs, c.marker a = false) (accepted : inputs.map c.contribution = bodies.map some) :
    c.Separate (inputs.foldl c.receive s) ∧
    c.bytes (inputs.foldl c.receive s).since = c.bytes s.since ++ bodies.flatten ∧
    (inputs.foldl c.receive s).frames = s.frames := by
  induction inputs generalizing s bodies with
  | nil =>
    have empty : bodies = [] := by simpa using accepted.symm
    simp [empty, separate]
  | cons a inputs ih =>
    obtain ⟨body, rest, rfl⟩ : ∃ body rest, bodies = body :: rest := by
      cases bodies with
      | nil => simp at accepted
      | cons body rest => exact ⟨body, rest, rfl⟩
    simp only [List.map_cons, List.cons.injEq] at accepted
    have plain := unmarked a (List.mem_cons_self ..)
    have next := separate.receive_accepted accepted.1
    have since : c.bytes (c.receive s a).since = c.bytes s.since ++ body := by
      simp [receive, plain, bytes_concat, accepted.1]
    have frames : (c.receive s a).frames = s.frames := by
      simp [receive, c.waits plain]
    obtain ⟨separate', bytes', frames'⟩ :=
      ih next (fun b member => unmarked b (List.mem_cons_of_mem _ member)) accepted.2
    refine ⟨separate', ?_, frames'.trans frames⟩
    rw [List.foldl_cons, bytes', since, List.flatten_cons, List.append_assoc]

theorem not_separate_of_refused {b : α} (separate : c.Separate s) (data : List β) (some_ : data ≠ [])
    (collects : c.marker a = false) (accepted : c.contribution a = some data)
    (marked : c.marker b = true) (refused : c.contribution b = none) :
    ¬ Throughout c.receive c.Separate s [a, b] := by
  intro throughout
  obtain ⟨-, empty, -⟩ := (separate_throughout_iff separate).mp throughout
  have collected := c.collected separate.held accepted
  rw [collects] at collected
  have none_ := c.unique collected (empty marked refused)
  exact some_ (List.append_eq_nil_iff.mp none_).2

end Collector

end Library
