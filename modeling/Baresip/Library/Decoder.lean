import Baresip.Library.BigEndian
import Mathlib.Data.List.Flatten

set_option linter.dupNamespace false

namespace Library

/-- What reads from the front of the symbols that are left, or fails. -/
abbrev Decoder (β ε α : Type) := StateT (List β) (Except ε) α

namespace Decoder

variable {β ε α γ : Type}

/-- How many symbols are left. -/
def remaining : Decoder β ε Nat := fun left => .ok (left.length, left)

def need (n : Nat) (e : ε) : Decoder β ε Unit := fun left => if left.length < n then .error e else .ok ((), left)

def fail (e : ε) : Decoder β ε α := fun _ => .error e

/-- The next `n` symbols. -/
def next (n : Nat) : Decoder β ε (List β) := fun left => .ok (left.take n, left.drop n)

/-- A number of `n` bytes. It is 0 when fewer are left, and then none is taken. -/
def number (n : Nat) : Decoder (BitVec 8) ε Nat := fun left =>
  if n ≤ left.length then .ok (getBe (left.take n), left.drop n) else .ok (0, left)

def many : Nat → Decoder β ε α → Decoder β ε (List α)
  | 0, _ => pure []
  | n + 1, d => do
    let a ← d
    let as ← many n d
    return a :: as

/-- The decoder takes these symbols, whatever is behind them. -/
def Reads (d : Decoder β ε α) (taken : List β) (a : α) : Prop := ∀ rest, d (taken ++ rest) = .ok (a, rest)

/-- Any `n` symbols are taken. -/
def Full (d : Decoder β ε α) (n : Nat) : Prop := ∀ taken, taken.length = n → ∃ a, d.Reads taken a

/-- The decoder takes `n` symbols, and fails when fewer are left. -/
structure Sized (d : Decoder β ε α) (n : Nat) : Prop where
  full : d.Full n
  short : ∀ left, left.length < n → ∃ e, d left = .error e

variable {d : Decoder β ε α} {f : α → Decoder β ε γ} {left taken front behind rest : List β} {a : α} {b : γ} {e : ε} {n m : Nat}

theorem bind_ok (result : d left = .ok (a, rest)) : (d >>= f) left = f a rest := by
  show d left >>= _ = _
  rw [result]
  rfl

theorem bind_error (result : d left = .error e) : (d >>= f) left = .error e := by
  show d left >>= _ = _
  rw [result]
  rfl

theorem need_error (short : left.length < n) : need n e left = .error e := if_pos short

theorem need_ok (enough : ¬ left.length < n) : need n e left = .ok ((), left) := if_neg enough

theorem Reads.pure : Reads (Pure.pure a : Decoder β ε α) [] a := fun _ => rfl

theorem Reads.bind (first : d.Reads front a) (second : (f a).Reads behind b) : (d >>= f).Reads (front ++ behind) b := by
  intro rest
  rw [List.append_assoc, bind_ok (first (behind ++ rest))]
  exact second rest

theorem Reads.need {d : Decoder β ε α} (enough : n ≤ taken.length) (reads : d.Reads taken a) :
    (need n e >>= fun _ => d).Reads taken a := by
  intro rest
  have fits : ¬ (taken ++ rest).length < n := by
    rw [List.length_append]
    omega
  rw [bind_ok (need_ok fits)]
  exact reads rest

theorem Reads.map (reads : d.Reads taken a) (g : α → γ) : (g <$> d).Reads taken (g a) := by
  intro rest
  show (d >>= fun a => Pure.pure (g a)) (taken ++ rest) = _
  rw [bind_ok (reads rest)]
  rfl

theorem Reads.next (taken : List β) : (Decoder.next taken.length : Decoder β ε _).Reads taken taken := by
  intro rest
  unfold Decoder.next
  rw [List.take_left, List.drop_left]

theorem Reads.number {taken : List (BitVec 8)} (length : taken.length = n) :
    (Decoder.number n : Decoder (BitVec 8) ε Nat).Reads taken (getBe taken) := by
  intro rest
  subst length
  have fits : taken.length ≤ (taken ++ rest).length := by
    rw [List.length_append]
    omega
  unfold Decoder.number
  rw [if_pos fits, List.take_left, List.drop_left]

theorem Reads.many {ι : Type} {items : List ι} {bytes : ι → List β} {value : ι → α}
    (each : ∀ i ∈ items, d.Reads (bytes i) (value i)) :
    (many items.length d).Reads (items.flatMap bytes) (items.map value) := by
  induction items with
  | nil => exact Reads.pure
  | cons i items ih =>
    have others := ih fun j mem => each j (List.mem_cons_of_mem i mem)
    have here := others.map (List.cons (value i))
    rw [List.flatMap_cons, List.map_cons]
    exact (each i List.mem_cons_self).bind here

theorem Full.pure : Full (Pure.pure a : Decoder β ε α) 0 := by
  intro taken length
  obtain rfl := List.length_eq_zero_iff.mp length
  exact ⟨a, Reads.pure⟩

theorem Full.bind (first : d.Full n) (second : ∀ a, (f a).Full m) : (d >>= f).Full (n + m) := by
  intro taken length
  have front : (taken.take n).length = n := by
    rw [List.length_take]
    omega
  have behind : (taken.drop n).length = m := by
    rw [List.length_drop]
    omega
  rcases first _ front with ⟨a, reads⟩
  rcases second a _ behind with ⟨b, reads'⟩
  have both := reads.bind reads'
  rw [List.take_append_drop] at both
  exact ⟨b, both⟩

theorem Full.map (full : d.Full n) (g : α → γ) : (g <$> d).Full n := by
  intro taken length
  rcases full taken length with ⟨a, reads⟩
  exact ⟨g a, reads.map g⟩

theorem Full.number : (Decoder.number n : Decoder (BitVec 8) ε Nat).Full n := fun taken length => ⟨getBe taken, .number length⟩

theorem Full.next : (Decoder.next n : Decoder β ε _).Full n := by
  intro taken length
  subst length
  exact ⟨taken, .next taken⟩

theorem Full.many (full : d.Full n) (count : Nat) : (Decoder.many count d).Full (count * n) := by
  induction count with
  | zero =>
    rw [Nat.zero_mul]
    exact Full.pure
  | succ count ih =>
    rw [Nat.succ_mul, Nat.add_comm (count * n)]
    exact full.bind fun a => ih.map (List.cons a)

/-- A check of the length in front makes the size certain. -/
theorem Full.need {d : Decoder β ε α} (full : d.Full n) : Sized (Decoder.need n e >>= fun _ => d) n := by
  constructor
  · intro taken length
    rcases full taken length with ⟨a, reads⟩
    exact ⟨a, reads.need (Nat.le_of_eq length.symm)⟩
  · intro left short
    exact ⟨e, bind_error (need_error short)⟩

/-- What is read when there is enough. -/
theorem Full.run (full : d.Full n) (enough : n ≤ left.length) :
    ∃ a, d.Reads (left.take n) a ∧ d left = .ok (a, left.drop n) := by
  have length : (left.take n).length = n := by
    rw [List.length_take]
    omega
  rcases full _ length with ⟨a, reads⟩
  have here := reads (left.drop n)
  rw [List.take_append_drop] at here
  exact ⟨a, reads, here⟩

theorem Full.error (full : d.Full n) (enough : n ≤ left.length) (second : ∀ a, f a (left.drop n) = .error e) :
    (d >>= f) left = .error e := by
  rcases full.run enough with ⟨a, _, result⟩
  rw [bind_ok result, second a]

theorem Sized.bind (first : d.Sized n) (second : ∀ a, (f a).Sized m) : (d >>= f).Sized (n + m) := by
  constructor
  · exact first.full.bind fun a => (second a).full
  · intro left short
    by_cases enough : n ≤ left.length
    · rcases first.full.run enough with ⟨a, _, result⟩
      have rest : (left.drop n).length < m := by
        rw [List.length_drop]
        omega
      rcases (second a).short _ rest with ⟨e, failed⟩
      rw [bind_ok result]
      exact ⟨e, failed⟩
    · rcases first.short left (by omega) with ⟨e, failed⟩
      exact ⟨e, bind_error failed⟩

theorem Sized.pure : Sized (Pure.pure a : Decoder β ε α) 0 := ⟨Full.pure, fun _ short => absurd short (Nat.not_lt_zero _)⟩

theorem Sized.map (sized : d.Sized n) (g : α → γ) : (g <$> d).Sized n := by
  constructor
  · exact sized.full.map g
  · intro left short
    rcases sized.short left short with ⟨e, failed⟩
    refine ⟨e, ?_⟩
    show (d >>= fun a => Pure.pure (g a)) left = _
    exact bind_error failed

theorem Sized.many (sized : d.Sized n) (count : Nat) : (Decoder.many count d).Sized (count * n) := by
  induction count with
  | zero =>
    rw [Nat.zero_mul]
    exact Sized.pure
  | succ count ih =>
    rw [Nat.succ_mul, Nat.add_comm (count * n)]
    exact sized.bind fun a => ih.map (List.cons a)

/-- The decoder takes `n` symbols, for which it relies on a check in front of it, and then `m`, which it checks. -/
structure Leads (d : Decoder β ε α) (n m : Nat) : Prop where
  full : d.Full (n + m)
  short : ∀ left, n ≤ left.length → left.length < n + m → ∃ e, d left = .error e

theorem Sized.leads (sized : d.Sized m) : d.Leads 0 m := by
  constructor
  · rw [Nat.zero_add]
    exact sized.full
  · intro left _ short
    exact sized.short left (by omega)

theorem Full.leads {k : Nat} (first : d.Full k) (second : ∀ a, (f a).Leads n m) : (d >>= f).Leads (k + n) m := by
  constructor
  · rw [Nat.add_assoc]
    exact first.bind fun a => (second a).full
  · intro left enough short
    have start : k ≤ left.length := by omega
    rcases first.run start with ⟨a, _, result⟩
    have rest : (left.drop k).length = left.length - k := List.length_drop
    rcases (second a).short (left.drop k) (by omega) (by omega) with ⟨e, failed⟩
    rw [bind_ok result]
    exact ⟨e, failed⟩

theorem Leads.need {d : Decoder β ε α} (leads : d.Leads n m) : Sized (Decoder.need n e >>= fun _ => d) (n + m) := by
  constructor
  · intro taken length
    rcases leads.full taken length with ⟨a, reads⟩
    exact ⟨a, reads.need (by omega)⟩
  · intro left short
    by_cases enough : left.length < n
    · exact ⟨e, bind_error (need_error enough)⟩
    · rcases leads.short left (by omega) short with ⟨e', failed⟩
      rw [bind_ok (need_ok enough)]
      exact ⟨e', failed⟩

/-- With these symbols left the decoder takes as many as the width says, and fails when there is no width or too few
    symbols. Symbols behind those that it takes make no difference, unless it has taken all. -/
inductive Measured (d : Decoder β ε α) (left : List β) (width : Option Nat) : Prop
  | takes (w : Nat) (a : α) (is : width = some w) (enough : w ≤ left.length) (result : d left = .ok (a, left.drop w))
      (own : d.Reads (left.take w) a ∨ w = left.length)
  | fails (e : ε) (short : ∀ w, width = some w → left.length < w) (result : d left = .error e)

theorem Full.measured (full : d.Full n) (enough : n ≤ left.length) : Measured d left (some n) := by
  rcases full.run enough with ⟨a, reads, result⟩
  exact .takes n a rfl enough result (.inl reads)

theorem Sized.measured (sized : d.Sized n) (left : List β) : Measured d left (some n) := by
  by_cases enough : n ≤ left.length
  · exact sized.full.measured enough
  · rcases sized.short left (by omega) with ⟨e, failed⟩
    apply Measured.fails e _ failed
    intro w is
    obtain rfl := Option.some.inj is
    omega

theorem Measured.bind {width : Option Nat} {behind : Nat → Option Nat} (first : Measured d left width)
    (second : ∀ a w, width = some w → w ≤ left.length → d left = .ok (a, left.drop w) →
      Measured (f a) (left.drop w) (behind w)) :
    Measured (d >>= f) left (width.bind fun w => (behind w).map (w + ·)) := by
  cases first with
  | fails e short result =>
    apply Measured.fails e _ (bind_error result)
    intro v is
    rcases Option.bind_eq_some_iff.mp is with ⟨w, first, last⟩
    rcases Option.map_eq_some_iff.mp last with ⟨w', _, rfl⟩
    have less := short w first
    omega
  | takes w a is enough result own =>
    have after := second a w is enough result
    subst is
    cases after with
    | fails e short failed =>
      refine .fails e ?_ ((bind_ok result).trans failed)
      intro v sum
      rcases Option.map_eq_some_iff.mp sum with ⟨w', more, rfl⟩
      have less := short w' more
      rw [List.length_drop] at less
      omega
    | takes w' b is' enough' result' own' =>
      have length : (left.drop w).length = left.length - w := List.length_drop
      refine .takes (w + w') b (by rw [Option.bind_some, is']; rfl) (by omega) ?_ ?_
      · rw [bind_ok result, result', List.drop_drop]
      · rcases own with reads | all
        · rcases own' with reads' | all'
          · left
            rw [List.take_add]
            exact reads.bind reads'
          · right
            omega
        · right
          omega

theorem Full.then_ {width : Option Nat} (full : d.Full n) (enough : n ≤ left.length)
    (second : ∀ a, Measured (f a) (left.drop n) width) : Measured (d >>= f) left (width.map (n + ·)) := by
  apply @Measured.bind _ _ _ _ _ f left (some n) (fun _ => width) (full.measured enough)
  intro a w is _ _
  obtain rfl := Option.some.inj is
  exact second a

theorem Reads.then_ {width : Option Nat} (reads : d.Reads front a) (second : Measured (f a) rest width) :
    Measured (d >>= f) (front ++ rest) (width.map (front.length + ·)) := by
  have result : d (front ++ rest) = .ok (a, (front ++ rest).drop front.length) := by
    rw [List.drop_left]
    exact reads rest
  have enough : front.length ≤ (front ++ rest).length := by
    rw [List.length_append]
    omega
  have own : d.Reads ((front ++ rest).take front.length) a := by
    rw [List.take_left]
    exact reads
  apply @Measured.bind _ _ _ _ _ f _ (some front.length) (fun _ => width) (.takes _ a rfl enough result (.inl own))
  intro a' w is _ result'
  obtain rfl := Option.some.inj is
  obtain rfl : a = a' := congrArg Prod.fst (Except.ok.inj (result.symm.trans result'))
  rw [List.drop_left]
  exact second

theorem Measured.map {width : Option Nat} (measured : Measured d left width) (g : α → γ) :
    Measured (g <$> d) left width := by
  cases measured with
  | fails e short result =>
    apply Measured.fails e short
    show (d >>= fun a => Pure.pure (g a)) left = _
    exact bind_error result
  | takes w a is enough result own =>
    refine .takes w (g a) is enough ?_ (own.imp (fun reads => reads.map g) id)
    show (d >>= fun a => Pure.pure (g a)) left = _
    exact bind_ok result

theorem Measured.need {d : Decoder β ε α} {width : Option Nat} (least : ∀ w, width = some w → n ≤ w)
    (measured : n ≤ left.length → Measured d left width) : Measured (Decoder.need n e >>= fun _ => d) left width := by
  by_cases enough : left.length < n
  · apply Measured.fails e _ (bind_error (need_error enough))
    intro w is
    have most := least w is
    omega
  · have passes := bind_ok (f := fun _ => d) (need_ok (e := e) enough)
    cases measured (Nat.not_lt.mp enough) with
    | fails e' short result => exact .fails e' short (passes.trans result)
    | takes w a is fits result own =>
      refine .takes w a is fits (passes.trans result) ?_
      apply own.imp_left
      intro reads
      apply Reads.need _ reads
      have most := least w is
      rw [List.length_take]
      omega

end Decoder

end Library
