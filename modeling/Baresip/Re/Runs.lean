import Baresip.Re.SdpEncode
import Baresip.Re.Pattern

set_option linter.dupNamespace false

namespace Baresip.Re

theorem matchItems_end (neg : Bool) (chrv : List Chr) (items : List Item) (off : Nat) :
    matchItems (.cls neg false chrv 0 Regex.uint32Max :: items) off [] =
      (matchItems items off []).map (⟨off, []⟩ :: ·) :=
  @matchItems_run neg chrv 0 [] [] (Nat.zero_le _) (Nat.le_refl _) nofun nofun items off

theorem matchItems_lit (c : Byte) (items : List Item) (off : Nat) (p : List Byte) :
    matchItems (.lit c :: items) off (c :: p) = matchItems items (off + 1) p := by
  rw [matchItems, if_neg (not_not.mpr rfl)]

theorem classRun_all {neg : Bool} {chrv : List Chr} {p : List Byte} :
    ∀ c ∈ classRun neg chrv p, exprMatch chrv (tolower c) neg = true := by
  intro c member
  exact List.mem_takeWhile_imp (p := fun c => exprMatch chrv (tolower c) neg) member

theorem reRegex_front {expr text : List Byte} {items : List Item} {captures : List Pl} (parses : Regex.Parses expr items)
    (some_ : expr ≠ []) (more : text ≠ []) (hit : matchItems items 0 text = .ok captures) :
    reRegex text expr = .ok captures :=
  (reRegexFrom_ok parses some_ 0 text captures).mpr ⟨[], text, rfl, more, hit, nofun⟩

/-- The classes of single bytes. -/
def singles (bs : List Byte) : List Chr := bs.map fun b => ⟨b, b⟩

/-- None of the bytes is a letter, whose case a class would pass over. -/
def Caseless (bs : List Byte) : Prop := ∀ b ∈ bs, ∀ c, tolower c = b ↔ c = b

instance (bs : List Byte) : Decidable (Caseless bs) := inferInstanceAs (Decidable (∀ b ∈ bs, ∀ _, _ ↔ _))

theorem tolower_fixed {b : Byte} (upper : ¬ (0x41 ≤ b ∧ b ≤ 0x5a)) (lower : ¬ (0x61 ≤ b ∧ b ≤ 0x7a)) (c : Byte) :
    tolower c = b ↔ c = b := by
  unfold tolower
  split_ifs with letter
  · constructor
    · intro same
      bv_omega
    · intro same
      exact absurd (same ▸ letter) upper
  · rfl

theorem caseless_of {bs : List Byte} (plain : ∀ b ∈ bs, ¬ (0x41 ≤ b ∧ b ≤ 0x5a) ∧ ¬ (0x61 ≤ b ∧ b ≤ 0x7a)) :
    Caseless bs := fun b inside => tolower_fixed (plain b inside).1 (plain b inside).2

theorem exprMatch_singles {bs : List Byte} (caseless : Caseless bs) (c : Byte) (neg : Bool) :
    exprMatch (singles bs) (tolower c) neg = (neg ^^ bs.contains c) := by
  have same : ((singles bs).any fun r => r.min ≤ tolower c && tolower c ≤ r.max) = bs.contains c := by
    rw [Bool.eq_iff_iff, List.any_eq_true, List.contains_iff_mem]
    constructor
    · rintro ⟨r, member, between⟩
      obtain ⟨b, inside, rfl⟩ := List.mem_map.mp member
      simp only [Bool.and_eq_true, decide_eq_true_eq] at between
      rw [(caseless b inside c).mp (BitVec.le_antisymm between.2 between.1)]
      exact inside
    · intro inside
      refine ⟨⟨c, c⟩, List.mem_map.mpr ⟨c, inside, rfl⟩, ?_⟩
      rw [(caseless c inside c).mpr rfl]
      simp
  unfold exprMatch
  dsimp only
  rw [same]
  cases neg <;> simp

/-- A class that takes everything but some bytes takes a text without them, up to one of them or the end. -/
theorem matchItems_without {bs x y : List Byte} {nmin : Nat} (caseless : Caseless bs)
    (fits : x.length ≤ Regex.uint32Max) (enough : nmin ≤ x.length) (plain : ∀ c ∈ x, c ∉ bs)
    (stops : ∀ c ∈ y.head?, c ∈ bs) (items : List Item) (off : Nat) :
    matchItems (.cls true false (singles bs) nmin Regex.uint32Max :: items) off (x ++ y) =
      (matchItems items (off + x.length) y).map (⟨off, x⟩ :: ·) := by
  apply matchItems_run fits enough
  · intro c member
    simpa [exprMatch_singles caseless] using plain c member
  · intro c first
    simpa [exprMatch_singles caseless] using stops c first

/-- A class of some bytes takes a text of them, up to another byte or the end. -/
theorem matchItems_within {bs x y : List Byte} {nmin : Nat} (caseless : Caseless bs)
    (fits : x.length ≤ Regex.uint32Max) (enough : nmin ≤ x.length) (all : ∀ c ∈ x, c ∈ bs)
    (stops : ∀ c ∈ y.head?, c ∉ bs) (items : List Item) (off : Nat) :
    matchItems (.cls false false (singles bs) nmin Regex.uint32Max :: items) off (x ++ y) =
      (matchItems items (off + x.length) y).map (⟨off, x⟩ :: ·) := by
  apply matchItems_run fits enough
  · intro c member
    simpa [exprMatch_singles caseless] using all c member
  · intro c first
    simpa [exprMatch_singles caseless] using stops c first

/-- A class that takes everything but one byte takes a text without it, up to that byte or the end. -/
theorem matchItems_until {b : Byte} (fixed : ∀ c, tolower c = b ↔ c = b) {x y : List Byte} {nmin : Nat}
    (fits : x.length ≤ Regex.uint32Max) (enough : nmin ≤ x.length) (plain : b ∉ x) (stops : ∀ c ∈ y.head?, c = b)
    (items : List Item) (off : Nat) :
    matchItems (.cls true false [⟨b, b⟩] nmin Regex.uint32Max :: items) off (x ++ y) =
      (matchItems items (off + x.length) y).map (⟨off, x⟩ :: ·) := by
  have caseless : Caseless [b] := List.forall_mem_singleton.mpr fixed
  refine matchItems_without caseless fits enough (fun c member => ?_) (fun c first => ?_) items off
  · rw [List.mem_singleton]
    rintro rfl
    exact plain member
  · exact List.mem_singleton.mpr (stops c first)

theorem matchItems_rest {b : Byte} (fixed : ∀ c, tolower c = b ↔ c = b) {x : List Byte} {nmin : Nat}
    (fits : x.length ≤ Regex.uint32Max) (enough : nmin ≤ x.length) (plain : b ∉ x) (items : List Item) (off : Nat) :
    matchItems (.cls true false [⟨b, b⟩] nmin Regex.uint32Max :: items) off x =
      (matchItems items (off + x.length) []).map (⟨off, x⟩ :: ·) := by
  have run := matchItems_until fixed fits enough plain (y := []) (by simp) items off
  rwa [List.append_nil] at run

theorem blank_fixed (c : Byte) : tolower c = chr ' ' ↔ c = chr ' ' := tolower_fixed (by decide) (by decide) c

theorem colon_fixed (c : Byte) : tolower c = chr ':' ↔ c = chr ':' := tolower_fixed (by decide) (by decide) c

theorem bar_fixed (c : Byte) : tolower c = chr '|' ↔ c = chr '|' := tolower_fixed (by decide) (by decide) c

def Digit (c : Byte) : Prop := 0x30 ≤ c ∧ c ≤ 0x39

instance (c : Byte) : Decidable (Digit c) := inferInstanceAs (Decidable (_ ∧ _))

def digitClass : List Chr := [⟨chr '0', chr '9'⟩]

theorem exprMatch_digit (c : Byte) : exprMatch digitClass (tolower c) false = decide (Digit c) := by
  revert c
  decide +kernel

theorem matchItems_digits {x y : List Byte} {nmin : Nat} (fits : x.length ≤ Regex.uint32Max) (enough : nmin ≤ x.length)
    (all : ∀ c ∈ x, Digit c) (stops : ∀ c ∈ y.head?, ¬ Digit c) (items : List Item) (off : Nat) :
    matchItems (.cls false false digitClass nmin Regex.uint32Max :: items) off (x ++ y) =
      (matchItems items (off + x.length) y).map (⟨off, x⟩ :: ·) := by
  apply matchItems_run fits enough
  · intro c member
    rw [exprMatch_digit, decide_eq_true_iff]
    exact all c member
  · intro c first
    rw [exprMatch_digit, decide_eq_false_iff_not]
    exact stops c first

/-- What the items capture from the text, wherever it stands. -/
def Takes (items : List Item) (text : List Byte) (vals : List (List Byte)) : Prop :=
  ∀ off, ∃ captures, matchItems items off text = .ok captures ∧ captures.map Pl.val = vals

theorem Takes.nil (text : List Byte) : Takes [] text [] := fun _ => ⟨[], rfl, rfl⟩

theorem Takes.lit {items : List Item} {text : List Byte} {vals : List (List Byte)} (takes : Takes items text vals)
    (c : Byte) : Takes (.lit c :: items) (c :: text) vals := by
  intro off
  rw [matchItems_lit]
  exact takes (off + 1)

theorem Takes.lits {items : List Item} {text : List Byte} {vals : List (List Byte)} (takes : Takes items text vals)
    (cs : List Byte) : Takes (cs.map .lit ++ items) (cs ++ text) vals := by
  induction cs with
  | nil => exact takes
  | cons c cs ih => exact ih.lit c

/-- A class takes what is inside up to where it stops. -/
theorem Takes.cls {neg : Bool} {chrv : List Chr} {nmin : Nat} {items : List Item} {x y : List Byte}
    {vals : List (List Byte)} (takes : Takes items y vals) (fits : x.length ≤ Regex.uint32Max)
    (enough : nmin ≤ x.length) (inside : ∀ c ∈ x, exprMatch chrv (tolower c) neg = true)
    (stops : ∀ c ∈ y.head?, exprMatch chrv (tolower c) neg = false) :
    Takes (.cls neg false chrv nmin Regex.uint32Max :: items) (x ++ y) (x :: vals) := by
  intro off
  obtain ⟨captures, taken, same⟩ := takes (off + x.length)
  rw [matchItems_run fits enough inside stops, taken]
  exact ⟨⟨off, x⟩ :: captures, rfl, congrArg (x :: ·) same⟩

theorem Takes.reRegex {expr text : List Byte} {items : List Item} {vals : List (List Byte)}
    (takes : Takes items text vals) (parses : Regex.Parses expr items) (some_ : expr ≠ []) (more : text ≠ []) :
    ∃ captures, reRegex text expr = .ok captures ∧ captures.map Pl.val = vals := by
  obtain ⟨captures, taken, same⟩ := takes 0
  exact ⟨captures, reRegex_front parses some_ more taken, same⟩

/-- A search whose attempts are given up for good only where no later one succeeds finds the first that does. -/
theorem reRegex_first {expr text : List Byte} {items : List Item} (parses : Regex.Parses expr items) (some_ : expr ≠ [])
    (settled : ∀ a < text.length, ∀ e, matchItems items a (text.drop a) = .error (.stop e) →
      ∀ a' ≥ a, a' < text.length → ∀ captures, matchItems items a' (text.drop a') ≠ .ok captures) (captures : List Pl) :
    reRegex text expr = .ok captures ↔ ∃ a < text.length, matchItems items a (text.drop a) = .ok captures ∧
      ∀ a' < a, ∀ captures, matchItems items a' (text.drop a') ≠ .ok captures := by
  rw [reRegex, reRegexFrom_ok parses some_]
  constructor
  · rintro ⟨before, after, rfl, more, matched, missed⟩
    rw [Nat.zero_add] at matched
    have some_ := List.length_pos_iff.mpr more
    refine ⟨before.length, by rw [List.length_append]; omega, ?_, ?_⟩
    · rwa [List.drop_left]
    · intro a' less captures ok
      have again := missed a' less
      rw [Nat.zero_add, ok] at again
      contradiction
  · rintro ⟨a, inside, matched, missed⟩
    have front : (text.take a).length = a := by
      rw [List.length_take]
      omega
    refine ⟨text.take a, text.drop a, (List.take_append_drop a text).symm, ?_, ?_, ?_⟩
    · rw [ne_eq, List.drop_eq_nil_iff]
      omega
    · rwa [front, Nat.zero_add]
    · rw [front]
      intro i less
      rw [Nat.zero_add]
      cases attempt : matchItems items i (text.drop i) with
      | ok captures => exact absurd attempt (missed i less captures)
      | error mismatch =>
        cases mismatch with
        | again => rfl
        | stop e => exact absurd matched (settled i (by omega) e attempt a (by omega) inside captures)

theorem search_found {expr front rest : List Byte} {items : List Item} {vals : List (List Byte)}
    (parses : Regex.Parses expr items) (some_ : expr ≠ []) (more : rest ≠ []) (takes : Takes items rest vals)
    (missed : ∀ w, w ≠ [] → w <:+ front → ∀ off, matchItems items off (w ++ rest) = .error .again) :
    ∃ captures, reRegex (front ++ rest) expr = .ok captures ∧ captures.map Pl.val = vals := by
  obtain ⟨captures, taken, same⟩ := takes (0 + front.length)
  refine ⟨captures, (reRegexFrom_ok parses some_ 0 _ captures).mpr ⟨front, rest, rfl, more, taken, ?_⟩, same⟩
  intro i less
  rw [List.drop_append_of_le_length (Nat.le_of_lt less)]
  refine missed (front.drop i) ?_ (List.drop_suffix i front) _
  rw [ne_eq, List.drop_eq_nil_iff]
  exact Nat.not_le_of_lt less

theorem search_missing {expr text : List Byte} {items : List Item} (parses : Regex.Parses expr items)
    (some_ : expr ≠ [])
    (missed : ∀ w, w ≠ [] → w <:+ text → ∀ off captures, matchItems items off w ≠ .ok captures) :
    ∃ e, reRegex text expr = .error e := by
  cases found : reRegex text expr with
  | error e => exact ⟨e, rfl⟩
  | ok captures =>
    obtain ⟨before, after, rfl, more, hit, -⟩ := (reRegexFrom_ok parses some_ 0 _ captures).mp found
    exact absurd hit (missed after more (List.suffix_append before after) _ captures)

/-! Decimal numbers. -/

theorem decimal_eq (n : Nat) : decimal n = (Nat.toDigits 10 n).map fun c => BitVec.ofNat 8 c.toNat := by
  rw [decimal, ascii, show toString n = n.repr from rfl, Nat.toList_repr]

theorem decimal_small {n : Nat} (small : n < 10) : decimal n = [BitVec.ofNat 8 (48 + n)] := by
  rw [decimal_eq, Nat.toDigits_of_lt_base small, List.map_singleton, Nat.toNat_digitChar_of_lt_ten small]

theorem decimal_large {n : Nat} (large : 10 ≤ n) : decimal n = decimal (n / 10) ++ decimal (n % 10) := by
  have ones : n % 10 < 10 := Nat.mod_lt n (by decide)
  rw [decimal_eq, decimal_eq, decimal_eq, Nat.toDigits_of_base_le (by decide) large, Nat.toDigits_of_lt_base ones, List.map_append]

theorem decimal_some (n : Nat) : decimal n ≠ [] := by
  rw [decimal_eq]
  exact fun none_ => Nat.toDigits_ne_nil (List.map_eq_nil_iff.mp none_)

theorem digit_byte {n : Nat} (small : n < 10) : Digit (BitVec.ofNat 8 (48 + n)) ∧
    (BitVec.ofNat 8 (48 + n) - 0x30).setWidth 32 = BitVec.ofNat 32 n := by
  revert n
  decide

theorem decimal_digits (n : Nat) : ∀ c ∈ decimal n, Digit c := by
  induction n using Nat.strongRecOn with
  | ind n ih =>
    by_cases small : n < 10
    · rw [decimal_small small]
      intro c member
      rw [List.mem_singleton.mp member]
      exact (digit_byte small).1
    · rw [decimal_large (Nat.le_of_not_lt small)]
      intro c member
      rcases List.mem_append.mp member with member | member
      · exact ih (n / 10) (by omega) c member
      · exact ih (n % 10) (by omega) c member

theorem decimal_value (n : Nat) :
    (decimal n).foldl (fun v c => v * 10 + (c - 0x30).setWidth 32) 0 = BitVec.ofNat 32 n := by
  induction n using Nat.strongRecOn with
  | ind n ih =>
    by_cases small : n < 10
    · rw [decimal_small small, List.foldl_cons, List.foldl_nil, (digit_byte small).2]
      simp
    · have ones : n % 10 < 10 := Nat.mod_lt n (by decide)
      rw [decimal_large (Nat.le_of_not_lt small), decimal_small ones, List.foldl_append, ih (n / 10) (by omega),
        List.foldl_cons, List.foldl_nil, (digit_byte ones).2]
      have split : n = n / 10 * 10 + n % 10 := by omega
      conv_rhs => rw [split, BitVec.ofNat_add, BitVec.ofNat_mul]
      rfl

theorem decimal_u32 (n off : Nat) : Pl.u32 ⟨off, decimal n⟩ = BitVec.ofNat 32 n := by
  have all : ((decimal n).all fun c => 0x30 ≤ c && c ≤ 0x39) = true := by
    rw [List.all_eq_true]
    intro c member
    simpa [Digit] using decimal_digits n c member
  rw [Pl.u32, if_pos all, decimal_value]

end Baresip.Re
