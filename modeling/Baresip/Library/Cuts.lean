import Mathlib.Data.List.Infix
import Mathlib.Tactic.Common

set_option linter.dupNamespace false

namespace Library

section
variable {β : Type*}

/-- Cut data into pieces of `limit`, each flagged with whether less than `limit` was left to cut. -/
def cuts (limit : Nat) (data : List β) : List (Bool × List β) :=
  if _h : data = [] ∨ limit = 0 then []
  else (decide (data.length < limit), data.take limit) :: cuts limit (data.drop limit)
termination_by data.length
decreasing_by
  have := List.length_pos_iff.mpr (fun e => _h (.inl e))
  rw [List.length_drop]
  omega

theorem take_min (limit : Nat) (data : List β) :
    data.take (min data.length limit) = data.take limit := by
  rw [Nat.min_comm]
  exact List.take_eq_take_min.symm

theorem drop_min (limit : Nat) (data : List β) :
    data.drop (min data.length limit) = data.drop limit := by
  rw [Nat.min_comm]
  exact List.drop_eq_drop_min.symm

theorem cuts_eq (limit : Nat) (data : List β) :
    cuts limit data = if data = [] ∨ limit = 0 then []
      else (decide (data.length < limit), data.take limit) :: cuts limit (data.drop limit) := by
  rw [cuts]
  rfl

theorem cuts_stop {limit : Nat} {data : List β} (stop : data = [] ∨ limit = 0) : cuts limit data = [] := by
  rw [cuts_eq, if_pos stop]

theorem cuts_cons {limit : Nat} {data : List β} (some_ : data ≠ []) (positive : 0 < limit) :
    cuts limit data = (decide (data.length < limit), data.take limit) :: cuts limit (data.drop limit) := by
  rw [cuts_eq, if_neg]
  rintro (h | h)
  · exact some_ h
  · omega

@[simp] theorem cuts_nil (limit : Nat) : cuts limit ([] : List β) = [] := cuts_stop (.inl rfl)

@[elab_as_elim]
theorem cuts_induction (limit : Nat) {P : List β → Prop} (stop : ∀ data, data = [] ∨ limit = 0 → P data)
    (more : ∀ data, data ≠ [] → 0 < limit → P (data.drop limit) → P data) (data : List β) : P data := by
  by_cases ends : data = [] ∨ limit = 0
  · exact stop data ends
  · rw [not_or] at ends
    have positive := Nat.pos_of_ne_zero ends.2
    have shorter : (data.drop limit).length < data.length := by
      have := List.length_pos_iff.mpr ends.1
      rw [List.length_drop]
      omega
    exact more data ends.1 positive (cuts_induction limit stop more (data.drop limit))
termination_by data.length

theorem cuts_full {data : List β} (some_ : data ≠ []) : cuts data.length data = [(false, data)] := by
  rw [cuts_cons some_ (List.length_pos_iff.mpr some_)]
  simp

theorem cuts_flatten {limit : Nat} (positive : 0 < limit) (data : List β) :
    ((cuts limit data).map Prod.snd).flatten = data := by
  induction data using cuts_induction limit with
  | stop data stop =>
    have empty : data = [] := by
      rcases stop with h | h
      · exact h
      · omega
    simp [empty]
  | more data some_ _ ih =>
    rw [cuts_cons some_ positive, List.map_cons, List.flatten_cons, ih]
    exact List.take_append_drop limit data

theorem cuts_piece_le {limit : Nat} {data : List β} {cut : Bool × List β} (member : cut ∈ cuts limit data) :
    cut.2.length ≤ limit := by
  induction data using cuts_induction limit with
  | stop data stop =>
    rw [cuts_stop stop] at member
    contradiction
  | more data some_ positive ih =>
    rw [cuts_cons some_ positive] at member
    rcases List.mem_cons.mp member with rfl | later
    · exact List.length_take_le _ _
    · exact ih later

theorem cuts_flags {limit : Nat} (positive : 0 < limit) (data : List β) :
    (cuts limit data).map Prod.fst =
      List.replicate (data.length / limit) false ++ if data.length % limit = 0 then [] else [true] := by
  induction data using cuts_induction limit with
  | stop data stop =>
    have empty : data = [] := by
      rcases stop with h | h
      · exact h
      · omega
    simp [empty]
  | more data some_ _ ih =>
    have length := List.length_pos_iff.mpr some_
    rw [cuts_cons some_ positive, List.map_cons, ih, List.length_drop]
    by_cases short : data.length < limit
    · have none_left : data.length - limit = 0 := by omega
      simp [short, none_left, Nat.mod_eq_of_lt short, Nat.div_eq_of_lt short]
      omega
    · have full : data.length = data.length - limit + limit := by omega
      have quotient : data.length / limit = (data.length - limit) / limit + 1 := by
        conv_lhs => rw [full]
        exact Nat.add_div_right _ positive
      have remainder : data.length % limit = (data.length - limit) % limit := by
        conv_lhs => rw [full]
        exact Nat.add_mod_right _ _
      simp [short, quotient, remainder, List.replicate_succ]

end

section
variable {σ α : Type*} {recv : σ → List α → σ}

/-- A receiver that does not notice where its input is cut reads pieces like the whole. -/
theorem foldl_chunks (merges : ∀ s a b, recv (recv s a) b = recv s (a ++ b)) {s : σ} (empty : recv s [] = s)
    (chunks : List (List α)) : chunks.foldl recv s = recv s chunks.flatten := by
  induction chunks generalizing s with
  | nil => exact empty.symm
  | cons c chunks ih =>
    have next : recv (recv s c) [] = recv s c := by rw [merges, List.append_nil]
    rw [List.foldl_cons, ih next, merges, List.flatten_cons]

end

section
variable {α : Type*}

/-- Takes up to `n` items off a queue of pieces, and the pieces that are used up with them. -/
def drain : Nat → List (List α) → List α × List (List α)
  | _, [] => ([], [])
  | n, piece :: rest =>
    if n < piece.length then (piece.take n, piece.drop n :: rest)
    else if piece.length = n then (piece, rest)
    else
      let (more, pieces) := drain (n - piece.length) rest
      (piece ++ more, pieces)

section
variable {n : Nat} {piece : List α} {rest pieces : List (List α)}

@[simp] theorem drain_nil (n : Nat) : drain n ([] : List (List α)) = ([], []) := rfl

theorem drain_cons (n : Nat) (piece : List α) (rest : List (List α)) :
    drain n (piece :: rest) =
      if n < piece.length then (piece.take n, piece.drop n :: rest)
      else if piece.length = n then (piece, rest)
      else (piece ++ (drain (n - piece.length) rest).1, (drain (n - piece.length) rest).2) := rfl

theorem drain_part (inside : n < piece.length) :
    drain n (piece :: rest) = (piece.take n, piece.drop n :: rest) := by
  rw [drain_cons, if_pos inside]

theorem drain_piece : drain piece.length (piece :: rest) = (piece, rest) := by
  rw [drain_cons, if_neg (Nat.lt_irrefl _), if_pos rfl]

theorem drain_beyond (beyond : piece.length < n) :
    drain n (piece :: rest) =
      (piece ++ (drain (n - piece.length) rest).1, (drain (n - piece.length) rest).2) := by
  rw [drain_cons, if_neg (by omega), if_neg (by omega)]

/-- What is taken and what stays do not depend on where the queue is cut. -/
theorem drain_flatten (n : Nat) (pieces : List (List α)) :
    (drain n pieces).1 = pieces.flatten.take n ∧ (drain n pieces).2.flatten = pieces.flatten.drop n := by
  induction pieces generalizing n with
  | nil => simp
  | cons piece rest ih =>
    rw [List.flatten_cons, List.take_append, List.drop_append]
    rcases Nat.lt_trichotomy n piece.length with inside | rfl | beyond
    · have past : n - piece.length = 0 := by omega
      rw [drain_part inside, past]
      simp
    · rw [drain_piece]
      simp
    · have whole : piece.take n = piece := List.take_of_length_le (Nat.le_of_lt beyond)
      have used : piece.drop n = [] := List.drop_of_length_le (Nat.le_of_lt beyond)
      rw [drain_beyond beyond, whole, used]
      exact ⟨by rw [(ih _).1], by rw [(ih _).2, List.nil_append]⟩

end

section
variable {queued written xs : List α} {n : Nat}

/-- How far a stream has gone into and past a queue of its newest items. -/
def passed (written queued : List α) : Nat := written.length - queued.length

theorem passed_append : passed (written ++ xs) (queued ++ xs) = passed written queued := by
  simp only [passed, List.length_append]
  omega

theorem passed_drop (tail : queued <:+ written) (enough : n ≤ queued.length) :
    passed written (queued.drop n) = passed written queued + n := by
  have shorter := tail.length_le
  simp only [passed, List.length_drop]
  omega

theorem queued_eq_drop (tail : queued <:+ written) : queued = written.drop (passed written queued) :=
  List.suffix_iff_eq_drop.mp tail

theorem suffix_append (tail : queued <:+ written) : queued ++ xs <:+ written ++ xs := by
  rcases tail with ⟨front, rfl⟩
  exact ⟨front, List.append_assoc _ _ _ |>.symm⟩

end

end

end Library
