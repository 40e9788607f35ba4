import Mathlib.Data.List.Infix
import Mathlib.Data.List.TakeWhile
import Mathlib.Tactic.Common

set_option linter.dupNamespace false

namespace Library

/-- A routine as the calls it makes to the sink it is handed, one for each piece of its output, with what it goes on to
    for each answer. -/
inductive Calls (π ε α : Type)
  | done (a : α)
  | call (piece : π) (next : ε → Calls π ε α)

namespace Calls

variable {π ε α β σ τ : Type}

def run (sink : π → σ → ε × σ) : Calls π ε α → σ → α × σ
  | done a, s => (a, s)
  | call piece next, s => (next (sink piece s).1).run sink (sink piece s).2

def bind : Calls π ε α → (α → Calls π ε β) → Calls π ε β
  | done a, f => f a
  | call piece next, f => call piece fun e => (next e).bind f

@[simp] theorem run_done (sink : π → σ → ε × σ) (a : α) (s : σ) : (done a).run sink s = (a, s) := rfl

@[simp] theorem run_call (sink : π → σ → ε × σ) (piece : π) (next : ε → Calls π ε α) (s : σ) :
    (call piece next).run sink s = (next (sink piece s).1).run sink (sink piece s).2 := rfl

@[simp] theorem done_bind (a : α) (f : α → Calls π ε β) : (done a).bind f = f a := rfl

@[simp] theorem call_bind (piece : π) (next : ε → Calls π ε α) (f : α → Calls π ε β) :
    (call piece next).bind f = call piece fun e => (next e).bind f := rfl

@[simp] theorem bind_done (c : Calls π ε α) : c.bind done = c := by
  induction c with
  | done a => rfl
  | call piece next ih =>
    rw [call_bind]
    congr
    funext e
    exact ih e

theorem bind_assoc {γ : Type} (c : Calls π ε α) (f : α → Calls π ε β) (g : β → Calls π ε γ) :
    (c.bind f).bind g = c.bind fun a => (f a).bind g := by
  induction c with
  | done a => rfl
  | call piece next ih =>
    simp only [call_bind]
    congr
    funext e
    exact ih e

theorem run_bind (sink : π → σ → ε × σ) (c : Calls π ε α) (f : α → Calls π ε β) (s : σ) :
    (c.bind f).run sink s = (f (c.run sink s).1).run sink (c.run sink s).2 := by
  induction c generalizing s with
  | done a => rfl
  | call piece next ih => exact ih _ _

/-- Sinks that answer alike keep their states alike. -/
theorem run_alike {σ' : Type} {sink : π → σ → ε × σ} {sink' : π → σ' → ε × σ'} {Alike : σ → σ' → Prop}
    (step : ∀ piece s s', Alike s s' → (sink piece s).1 = (sink' piece s').1 ∧ Alike (sink piece s).2 (sink' piece s').2)
    (c : Calls π ε α) {s : σ} {s' : σ'} (alike : Alike s s') :
    (c.run sink s).1 = (c.run sink' s').1 ∧ Alike (c.run sink s).2 (c.run sink' s').2 := by
  induction c generalizing s s' with
  | done a => exact ⟨rfl, alike⟩
  | call piece next ih =>
    obtain ⟨answer, kept⟩ := step piece s s' alike
    rw [run_call, run_call, answer]
    exact ih _ kept

section
variable [OfNat ε 0]

/-- What the routine comes to when every call is answered with `0`. -/
def outcome : Calls π ε α → α
  | done a => a
  | call _ next => (next 0).outcome

def pieces : Calls π ε α → List π
  | done _ => []
  | call piece next => piece :: (next 0).pieces

def text (c : Calls (List τ) ε α) : List τ := c.pieces.flatten

@[simp] theorem text_done (a : α) : (done a : Calls (List τ) ε α).text = [] := rfl

@[simp] theorem text_call (piece : List τ) (next : ε → Calls (List τ) ε α) :
    (call piece next).text = piece ++ (next 0).text := rfl

theorem outcome_bind (c : Calls π ε α) (f : α → Calls π ε β) : (c.bind f).outcome = (f c.outcome).outcome := by
  induction c with
  | done a => rfl
  | call piece next ih => exact ih 0

theorem pieces_bind (c : Calls π ε α) (f : α → Calls π ε β) : (c.bind f).pieces = c.pieces ++ (f c.outcome).pieces := by
  induction c with
  | done a => rfl
  | call piece next ih => exact congrArg (piece :: ·) (ih 0)

theorem text_bind (c : Calls (List τ) ε α) (f : α → Calls (List τ) ε β) :
    (c.bind f).text = c.text ++ (f c.outcome).text := by
  rw [text, pieces_bind, List.flatten_append]
  rfl

/-- Whatever the answers are, the routine comes to something bad. -/
def Fails (bad : α → Prop) : Calls π ε α → Prop
  | done a => bad a
  | call _ next => ∀ e, (next e).Fails bad

/-- From an answer other than `0` on, the routine can only come to something bad. -/
def Reports (bad : α → Prop) : Calls π ε α → Prop
  | done _ => True
  | call _ next => (next 0).Reports bad ∧ ∀ e, e ≠ 0 → (next e).Fails bad

variable {bad : α → Prop} {bad' : β → Prop} {sink : π → σ → ε × σ}

omit [OfNat ε 0] in
theorem Fails.bind {c : Calls π ε α} {f : α → Calls π ε β} (fails : c.Fails bad) (keeps : ∀ a, bad a → (f a).Fails bad') :
    (c.bind f).Fails bad' := by
  induction c with
  | done a => exact keeps a fails
  | call piece next ih =>
    intro e
    exact ih e (fails e)

omit [OfNat ε 0] in
theorem bind_fails (c : Calls π ε α) {f : α → Calls π ε β} (fails : ∀ a, (f a).Fails bad') : (c.bind f).Fails bad' := by
  induction c with
  | done a => exact fails a
  | call piece next ih => exact ih

theorem Reports.bind {c : Calls π ε α} {f : α → Calls π ε β} (reports : c.Reports bad)
    (keeps : ∀ a, bad a → (f a).Fails bad') (goes : ∀ a, (f a).Reports bad') : (c.bind f).Reports bad' := by
  induction c with
  | done a => exact goes a
  | call piece next ih => exact ⟨ih 0 reports.1, fun e wrong => (reports.2 e wrong).bind keeps⟩

omit [OfNat ε 0] in
theorem Fails.run {c : Calls π ε α} (fails : c.Fails bad) (s : σ) : bad (c.run sink s).1 := by
  induction c generalizing s with
  | done a => exact fails
  | call piece next ih => exact ih _ (fails _) _

/-- A sink whose state holds what it has taken. -/
def Collects (sink : List τ → σ → ε × σ) (Holds : σ → List τ → Prop) : Prop :=
  ∀ piece s text, Holds s text → (sink piece s).1 = 0 → Holds (sink piece s).2 (text ++ piece)

variable {sink : List τ → σ → ε × σ} {Holds : σ → List τ → Prop} {c : Calls (List τ) ε α} {s : σ} {text : List τ}

/-- When the outcome is not bad the sink has taken everything. -/
theorem Reports.run (reports : c.Reports bad) (collects : Collects sink Holds) (holds : Holds s text)
    (good : ¬ bad (c.run sink s).1) : (c.run sink s).1 = c.outcome ∧ Holds (c.run sink s).2 (text ++ c.text) := by
  induction c generalizing s text with
  | done a =>
    rw [text_done, List.append_nil]
    exact ⟨rfl, holds⟩
  | call piece next ih =>
    by_cases taken : (sink piece s).1 = 0
    · simp only [run_call, text_call, taken, ← List.append_assoc] at good ⊢
      exact ih 0 reports.1 (collects piece s text holds taken) good
    · exact absurd ((reports.2 _ taken).run _) good

/-- A sink that takes whatever it is given. -/
theorem run_taken (collects : Collects sink Holds) (takes : ∀ piece s, (sink piece s).1 = 0) (holds : Holds s text) :
    (c.run sink s).1 = c.outcome ∧ Holds (c.run sink s).2 (text ++ c.text) := by
  induction c generalizing s text with
  | done a =>
    rw [text_done, List.append_nil]
    exact ⟨rfl, holds⟩
  | call piece next ih =>
    simp only [run_call, text_call, takes, ← List.append_assoc]
    exact ih 0 (collects piece s text holds (takes piece s))

end

end Calls

/-- The sink that has room for so much, and takes a piece whole or not at all. -/
structure Room (τ : Type) where
  left : Nat
  text : List τ

namespace Room

variable {τ ε α : Type} [OfNat ε 0]

def put (full : ε) (piece : List τ) (r : Room τ) : ε × Room τ :=
  if piece.length ≤ r.left then (0, ⟨r.left - piece.length, r.text ++ piece⟩) else (full, r)

theorem put_fits {piece : List τ} {r : Room τ} (fits : piece.length ≤ r.left) (full : ε) :
    put full piece r = (0, ⟨r.left - piece.length, r.text ++ piece⟩) := if_pos fits

theorem put_large {piece : List τ} {r : Room τ} (large : ¬ piece.length ≤ r.left) (full : ε) :
    put full piece r = (full, r) := if_neg large

variable {bad : α → Prop} {full : ε} {c : Calls (List τ) ε α}

theorem run_fits {r : Room τ} (fits : c.text.length ≤ r.left) :
    c.run (put full) r = (c.outcome, ⟨r.left - c.text.length, r.text ++ c.text⟩) := by
  induction c generalizing r with
  | done a => simp [Calls.outcome]
  | call piece next ih =>
    rw [Calls.text_call, List.length_append] at fits
    rw [Calls.run_call, put_fits (by omega), ih 0 (by dsimp only; omega)]
    simp [Calls.outcome, Nat.sub_sub]

theorem run_short (wrong : full ≠ 0) (reports : c.Reports bad) {r : Room τ} (short : r.left < c.text.length) :
    bad (c.run (put full) r).1 := by
  induction c generalizing r with
  | done a => exact absurd short (Nat.not_lt_zero _)
  | call piece next ih =>
    rw [Calls.text_call, List.length_append] at short
    rw [Calls.run_call]
    by_cases fits : piece.length ≤ r.left
    · rw [put_fits fits]
      exact ih 0 reports.1 (by dsimp only; omega)
    · rw [put_large fits]
      exact (reports.2 full wrong).run r

/-- What has been written stays, and what is written more comes off what is left. -/
theorem run_extends (full : ε) (c : Calls (List τ) ε α) (r : Room τ) : ∃ more, (c.run (put full) r).2.text = r.text ++ more ∧
    (c.run (put full) r).2.left + more.length = r.left := by
  induction c generalizing r with
  | done a => exact ⟨[], by simp, rfl⟩
  | call piece next ih =>
    rw [Calls.run_call]
    by_cases fits : piece.length ≤ r.left
    · rw [put_fits fits]
      obtain ⟨more, text, left⟩ := ih 0 ⟨r.left - piece.length, r.text ++ piece⟩
      exact ⟨piece ++ more, by rw [text, List.append_assoc], by rw [List.length_append]; dsimp only at left ⊢; omega⟩
    · rw [put_large fits]
      exact ih full r

/-- What is written depends on what is left only. -/
theorem run_text (c : Calls (List τ) ε α) (left : Nat) (text : List τ) :
    (c.run (put full) ⟨left, text⟩).2.text = text ++ (c.run (put full) ⟨left, []⟩).2.text := by
  induction c generalizing left text with
  | done a => simp
  | call piece next ih =>
    simp only [Calls.run_call]
    by_cases fits : piece.length ≤ left
    · rw [put_fits (by exact fits), put_fits (by exact fits)]
      dsimp only
      rw [ih 0 _ (text ++ piece), ih 0 _ ([] ++ piece), List.nil_append, List.append_assoc]
    · rw [put_large (by exact fits), put_large (by exact fits)]
      exact ih full left text

/-! A text that is read up to a terminator. -/

variable [DecidableEq τ] {nul : τ}

/-- Behind the first piece that is too large nothing but a beginning of it is written, as far as the text is read. -/
def Tidy (full : ε) (nul : τ) : Calls (List τ) ε α → Nat → Prop
  | .done _, _ => True
  | .call piece next, left =>
    if piece.length ≤ left then nul ∈ piece ∨ Tidy full nul (next 0) (left - piece.length)
    else ((next full).run (put full) ⟨left, []⟩).2.text.takeWhile (· ≠ nul) <+: piece

omit [OfNat ε 0] in
theorem read_within {xs : List τ} (inside : nul ∈ xs) (ys : List τ) : (xs ++ ys).takeWhile (· ≠ nul) <+: xs := by
  rw [List.takeWhile_append]
  split
  · rename_i whole
    have all := List.takeWhile_prefix (p := fun x => decide (x ≠ nul)) (l := xs)
    rw [← all.eq_of_length whole] at inside
    exact absurd (List.mem_takeWhile_imp inside) (by simp)
  · exact List.takeWhile_prefix _

omit [OfNat ε 0] in
theorem read_past {xs : List τ} (outside : nul ∉ xs) (ys : List τ) :
    (xs ++ ys).takeWhile (· ≠ nul) = xs ++ ys.takeWhile (· ≠ nul) := by
  apply List.takeWhile_append_of_pos
  intro x member
  simp only [decide_eq_true_eq]
  rintro rfl
  exact outside member

theorem tidy_iff {text : List τ} (plain : nul ∉ text) (full : ε) (c : Calls (List τ) ε α) (left : Nat) :
    (c.run (put full) ⟨left, text⟩).2.text.takeWhile (· ≠ nul) <+: text ++ c.text ↔ Tidy full nul c left := by
  induction c generalizing left text with
  | done a =>
    have kept : text.takeWhile (· ≠ nul) <+: text ++ [] := (List.takeWhile_prefix _).trans (List.prefix_append _ _)
    exact iff_of_true kept trivial
  | call piece next ih =>
    rw [Calls.run_call, Calls.text_call, Tidy]
    by_cases fits : piece.length ≤ left
    · rw [put_fits (by exact fits), if_pos fits, ← List.append_assoc]
      by_cases ends : nul ∈ piece
      · obtain ⟨more, extended, -⟩ := run_extends full (next 0) ⟨left - piece.length, text ++ piece⟩
        have front := read_within (List.mem_append_right text ends) more
        simp only [extended]
        exact iff_of_true (front.trans (List.prefix_append _ _)) (.inl ends)
      · rw [or_iff_right ends]
        exact ih 0 (by simp [plain, ends]) _
    · rw [put_large (by exact fits), if_neg fits]
      dsimp only
      rw [run_text, read_past plain, List.prefix_append_right_inj]
      obtain ⟨more, extended, room⟩ := run_extends full (next full) ⟨left, []⟩
      rw [List.nil_append] at extended
      rw [extended]
      have short := (List.takeWhile_prefix (p := fun x => decide (x ≠ nul)) (l := more)).length_le
      dsimp only at room
      constructor
      · intro begins
        exact List.prefix_of_prefix_length_le begins (List.prefix_append _ _) (by omega)
      · intro begins
        exact begins.trans (List.prefix_append _ _)

/-- The room ends in the first routine, which keeps the second one from starting, or in the second one. -/
theorem tidy_bind {β : Type} {f : α → Calls (List τ) ε β} (wrong : full ≠ 0) (reports : c.Reports bad)
    (stops : ∀ a, bad a → ∃ b, f a = .done b) (left : Nat) :
    Tidy full nul (c.bind f) left ↔ if c.text.length ≤ left then
      nul ∈ c.text ∨ Tidy full nul (f c.outcome) (left - c.text.length) else Tidy full nul c left := by
  induction c generalizing left with
  | done a => simp [Calls.outcome]
  | call piece next ih =>
    rw [Calls.call_bind, Calls.text_call, Tidy, List.length_append, List.mem_append]
    by_cases fits : piece.length ≤ left
    · rw [if_pos fits, ih 0 reports.1, Tidy, if_pos fits, Nat.sub_sub]
      by_cases all : piece.length + (next 0).text.length ≤ left
      · rw [if_pos all, if_pos (by omega), or_assoc]
        rfl
      · rw [if_neg all, if_neg (by omega)]
    · rw [if_neg fits, if_neg (by omega), Tidy, if_neg fits, Calls.run_bind]
      have failed : bad ((next full).run (put full) ⟨left, []⟩).1 := (reports.2 full wrong).run _
      obtain ⟨b, stopped⟩ := stops _ failed
      rw [stopped, Calls.run_done]

omit [OfNat ε 0] in
/-- What is written of pieces that are all handed over, whatever is answered. -/
def fitting : Nat → List (List τ) → List τ
  | _, [] => []
  | left, piece :: rest =>
    if piece.length ≤ left then piece ++ fitting (left - piece.length) rest else fitting left rest

def Ends (nul : τ) : Nat → List (List τ) → Prop
  | _, [] => True
  | left, piece :: rest =>
    if piece.length ≤ left then nul ∈ piece ∨ Ends nul (left - piece.length) rest
    else (fitting left rest).takeWhile (· ≠ nul) <+: piece

omit [OfNat ε 0] [DecidableEq τ] in
@[simp] theorem fitting_zero (ps : List (List τ)) : fitting 0 ps = [] := by
  induction ps with
  | nil => rfl
  | cons piece ps ih =>
    rw [fitting]
    split
    · rename_i none_
      rw [List.length_eq_zero_iff.mp (Nat.le_zero.mp none_), List.nil_append, Nat.zero_sub, ih]
    · exact ih

omit [OfNat ε 0] [DecidableEq τ] in
/-- Single symbols are written as long as there is room. -/
theorem fitting_replicate (left n : Nat) (c : τ) :
    fitting left (List.replicate n [c]) = List.replicate (min n left) c := by
  induction n generalizing left with
  | zero => simp [fitting]
  | succ n ih =>
    rw [List.replicate_succ, fitting]
    cases left with
    | zero => simp
    | succ left =>
      rw [if_pos (by simp), ih, List.length_singleton, Nat.add_sub_cancel, Nat.succ_min_succ, List.replicate_succ]
      rfl

omit [OfNat ε 0] in
theorem ends_replicate {c : τ} (visible : c ≠ nul) (left n : Nat) (ps : List (List τ)) :
    Ends nul left (List.replicate n [c] ++ ps) ↔ (n ≤ left → Ends nul (left - n) ps) := by
  induction n generalizing left with
  | zero => simp
  | succ n ih =>
    rw [List.replicate_succ, List.cons_append, Ends]
    cases left with
    | zero => simp
    | succ left =>
      rw [if_pos (by simp), List.length_singleton, Nat.add_sub_cancel, ih, Nat.add_le_add_iff_right, Nat.add_sub_add_right,
        or_iff_right (by simpa using visible.symm)]

end Room

end Library
