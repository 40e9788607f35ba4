import Mathlib.Tactic.Common

set_option linter.dupNamespace false

namespace Library

/-- A stream of messages, each with a header of a fixed size that gives its length. -/
structure Framing (α : Type*) where
  headerSize : Nat
  some_ : 0 < headerSize
  length : List α → Nat

/-- What has been collected of a message, and whom the whole ones are handed to. After an error the rest of the stream
    is dropped. -/
structure Deframer (α σ ε : Type*) where
  held : List α
  wanted : Option Nat
  receiver : σ
  handed : List (List α)
  stopped : Option ε

namespace Deframer

variable {α σ ε : Type*} (framing : Framing α) (receive : σ → List α → Option ε × σ)

def deliver (d : Deframer α σ ε) : Deframer α σ ε :=
  let (err, receiver) := receive d.receiver d.held
  ⟨[], none, receiver, d.handed ++ [d.held], err⟩

/-- A message that has all of its bytes is handed over. -/
def settle (d : Deframer α σ ε) (wanted : Nat) : Deframer α σ ε :=
  if d.held.length < wanted then { d with wanted := some wanted } else d.deliver receive

def put (d : Deframer α σ ε) (c : α) : Deframer α σ ε :=
  if d.stopped.isSome then d
  else
    match d.wanted with
    | some wanted => { d with held := d.held ++ [c] }.settle receive wanted
    | none =>
      if (d.held ++ [c]).length < framing.headerSize then { d with held := d.held ++ [c] }
      else { d with held := [] }.settle receive (framing.length (d.held ++ [c]))

def puts (d : Deframer α σ ε) (cs : List α) : Deframer α σ ε := cs.foldl (put framing receive) d

variable {framing receive} {d : Deframer α σ ε} {cs cs' : List α} {wanted : Nat}

theorem puts_append : d.puts framing receive (cs ++ cs') = (d.puts framing receive cs).puts framing receive cs' :=
  List.foldl_append

theorem puts_stopped (stopped : d.stopped.isSome) : d.puts framing receive cs = d := by
  induction cs with
  | nil => rfl
  | cons c cs ih =>
    show (d.put framing receive c).puts framing receive cs = d
    have here : d.put framing receive c = d := if_pos stopped
    rw [here, ih]

theorem put_header (running : d.stopped = none) (header : d.wanted = none) (c : α)
    (short : (d.held ++ [c]).length < framing.headerSize) :
    d.put framing receive c = { d with held := d.held ++ [c] } := by
  unfold put
  rw [running, header]
  exact if_pos short

theorem put_length (running : d.stopped = none) (header : d.wanted = none) (c : α)
    (full : ¬ (d.held ++ [c]).length < framing.headerSize) :
    d.put framing receive c = { d with held := [] }.settle receive (framing.length (d.held ++ [c])) := by
  unfold put
  rw [running, header]
  exact if_neg full

theorem put_content (running : d.stopped = none) (content : d.wanted = some wanted) (c : α) :
    d.put framing receive c = { d with held := d.held ++ [c] }.settle receive wanted := by
  unfold put
  rw [running, content]
  rfl

theorem settle_short (content : d.wanted = some wanted) (short : d.held.length < wanted) :
    d.settle receive wanted = d := by
  cases d
  cases content
  exact if_pos short

theorem settle_zero : d.settle receive 0 = d.deliver receive := if_neg (Nat.not_lt_zero _)

theorem puts_header (running : d.stopped = none) (header : d.wanted = none)
    (short : (d.held ++ cs).length < framing.headerSize) :
    d.puts framing receive cs = { d with held := d.held ++ cs } := by
  induction cs generalizing d with
  | nil => rw [List.append_nil]; rfl
  | cons c cs ih =>
    rw [List.append_cons] at short ⊢
    have first : (d.held ++ [c]).length < framing.headerSize := by
      rw [List.length_append] at short
      omega
    show (d.put framing receive c).puts framing receive cs = _
    rw [put_header running header c first]
    exact ih running header short

/-- The bytes that complete the header. -/
theorem puts_length (running : d.stopped = none) (header : d.wanted = none)
    (full : (d.held ++ cs).length = framing.headerSize) (some_ : cs ≠ []) :
    d.puts framing receive cs = { d with held := [] }.settle receive (framing.length (d.held ++ cs)) := by
  rcases List.eq_nil_or_concat cs with rfl | ⟨front, c, rfl⟩
  · exact absurd rfl some_
  · rw [List.concat_eq_append, ← List.append_assoc] at full ⊢
    have short : (d.held ++ front).length < framing.headerSize := by
      rw [← full]
      simp
    rw [puts_append, puts_header running header short]
    exact put_length (d := { d with held := d.held ++ front }) running header c (full ▸ Nat.lt_irrefl _)

theorem puts_content (running : d.stopped = none) (content : d.wanted = some wanted)
    (short : (d.held ++ cs).length < wanted) : d.puts framing receive cs = { d with held := d.held ++ cs } := by
  induction cs generalizing d with
  | nil => rw [List.append_nil]; rfl
  | cons c cs ih =>
    rw [List.append_cons] at short ⊢
    have first : (d.held ++ [c]).length < wanted := by
      rw [List.length_append] at short
      omega
    show (d.put framing receive c).puts framing receive cs = _
    rw [put_content running content, settle_short (d := { d with held := d.held ++ [c] }) content first]
    exact ih running content short

/-- The bytes that complete the message. -/
theorem puts_message (running : d.stopped = none) (content : d.wanted = some wanted)
    (full : (d.held ++ cs).length = wanted) (some_ : cs ≠ []) :
    d.puts framing receive cs = { d with held := d.held ++ cs }.deliver receive := by
  rcases List.eq_nil_or_concat cs with rfl | ⟨front, c, rfl⟩
  · exact absurd rfl some_
  · rw [List.concat_eq_append, ← List.append_assoc] at full ⊢
    have short : (d.held ++ front).length < wanted := by
      rw [← full]
      simp
    rw [puts_append, puts_content running content short]
    refine (put_content (d := { d with held := d.held ++ front }) running content c).trans ?_
    exact if_neg (full ▸ Nat.lt_irrefl _)

end Deframer

end Library
