import Baresip.Re.Regex

set_option linter.dupNamespace false

namespace Baresip.Re

/-- A pattern once its text has been read. -/
inductive Item
  | lit (c : Byte)
  | cls (neg qesc : Bool) (chrv : List Chr) (nmin nmax : Nat)
  deriving DecidableEq, Repr

def matchItems : List Item → Nat → List Byte → Except Mismatch (List Pl)
  | [], _, _ => .ok []
  | .lit _ :: _, _, [] => .error (.stop .ENOENT)
  | .lit c :: items, off, x :: p =>
    if tolower c ≠ tolower x then .error .again else matchItems items (off + 1) p
  | .cls neg qesc chrv nmin nmax :: items, off, p =>
    let n := Regex.scan chrv neg qesc nmax false false p
    let pl : Pl := if qesc then Regex.stripQuotes ⟨off, p.take n⟩ else ⟨off, p.take n⟩
    if pl.val.length < nmin ∨ nmax < pl.val.length then .error .again
    else (matchItems items (off + n) (p.drop n)).map (pl :: ·)

@[simp] theorem matchItems_nil (off : Nat) (p : List Byte) : matchItems [] off p = .ok [] := rfl

theorem matchItems_lit_nil (c : Byte) (items : List Item) (off : Nat) :
    matchItems (.lit c :: items) off [] = .error (.stop .ENOENT) := rfl

theorem matchItems_lit_cons (c : Byte) (items : List Item) (off : Nat) (x : Byte) (p : List Byte) :
    matchItems (.lit c :: items) off (x :: p) =
      if tolower c ≠ tolower x then .error .again else matchItems items (off + 1) p := rfl

theorem matchItems_cls (neg qesc : Bool) (chrv : List Chr) (nmin nmax : Nat) (items : List Item) (off : Nat) (p : List Byte) :
    matchItems (.cls neg qesc chrv nmin nmax :: items) off p =
      (let n := Regex.scan chrv neg qesc nmax false false p
      let pl : Pl := if qesc then Regex.stripQuotes ⟨off, p.take n⟩ else ⟨off, p.take n⟩
      if pl.val.length < nmin ∨ nmax < pl.val.length then .error .again
      else (matchItems items (off + n) (p.drop n)).map (pl :: ·)) := rfl

namespace Regex

/-- A loop over the pattern that is between two of its items. -/
def Between (r : Regex) : Prop := r.fm = false ∧ r.eesc = false

def Parses (expr : List Byte) (items : List Item) : Prop :=
  ∀ r : Regex, r.Between → r.run expr = (matchItems items r.off r.p).map (r.captures ++ ·)

theorem Parses.nil : Parses [] [] := by
  intro r between
  simp [run_nil, between.1, Except.map]

theorem Parses.lit {c : Byte} {expr : List Byte} {items : List Item} (parses : Parses expr items)
    (plain : c ≠ chr '\\' ∧ c ≠ chr '[') : Parses (c :: expr) (.lit c :: items) := by
  rintro r ⟨text, open_⟩
  have at_ : r.step c = r.literal c := by
    simp [step, plain.1, plain.2, text]
  rw [run_cons, at_]
  cases p : r.p with
  | nil => simp [literal, p, matchItems_lit_nil, Except.map]
  | cons x p' =>
    by_cases same : tolower c = tolower x
    · have next := parses { r with eesc := false, off := r.off + 1, p := p' } ⟨text, rfl⟩
      simp only [literal, p, matchItems_lit_cons, same, ne_eq, not_true_eq_false, if_false]
      exact next
    · simp [literal, p, matchItems_lit_cons, same, Except.map]

/-- A backslash makes any character a literal. -/
theorem Parses.escaped {c : Byte} {expr : List Byte} {items : List Item} (parses : Parses expr items) :
    Parses (chr '\\' :: c :: expr) (.lit c :: items) := by
  rintro r ⟨text, open_⟩
  have escape : r.step (chr '\\') = .ok { r with eesc := true } := by
    simp [step, open_]
  have at_ : ({ r with eesc := true } : Regex).step c = ({ r with eesc := true } : Regex).literal c := by
    simp [step, text]
  rw [run_cons, escape]
  dsimp only
  rw [run_cons, at_]
  cases p : r.p with
  | nil => simp [literal, matchItems_lit_nil, Except.map]
  | cons x p' =>
    by_cases same : tolower c = tolower x
    · have next := parses { r with eesc := false, off := r.off + 1, p := p' } ⟨text, rfl⟩
      simp only [literal, matchItems_lit_cons, same, ne_eq, not_true_eq_false, if_false]
      exact next
    · simp [literal, matchItems_lit_cons, same, Except.map]

theorem Parses.lits {cs expr : List Byte} {items : List Item} (parses : Parses expr items)
    (plain : ∀ c ∈ cs, c ≠ chr '\\' ∧ c ≠ chr '[') : Parses (cs ++ expr) (cs.map .lit ++ items) := by
  induction cs with
  | nil => exact parses
  | cons c cs ih =>
    rw [List.forall_mem_cons] at plain
    exact (ih plain.2).lit plain.1

theorem Parses.of_lits {cs : List Byte} (plain : ∀ c ∈ cs, c ≠ chr '\\' ∧ c ≠ chr '[') :
    Parses cs (cs.map .lit) := by
  have parses := Parses.nil.lits plain
  rwa [List.append_nil, List.append_nil] at parses

/-- The text of a class and its quantifier, for a loop that comes from any class before it. -/
def Opens (head : List Byte) (neg qesc : Bool) (chrv : List Chr) (nmin nmax : Nat) : Prop :=
  ∀ ec neg' qesc' range chrv' off p captures expr,
    run ⟨false, false, ec, neg', qesc', range, chrv', off, p, captures⟩ (head ++ expr) =
      match capture ⟨false, true, true, neg, qesc, none, chrv, off, p, captures⟩ nmin nmax with
      | .error e => .error e
      | .ok r => r.run expr

theorem Parses.ofList {cs : List Char} {items : List Item} (parses : Parses (cs.map chr) items) :
    Parses (ascii (String.ofList cs)) items := by
  rw [ascii_ofList]
  exact parses

theorem Opens.ofList {cs : List Char} {neg qesc : Bool} {chrv : List Chr} {nmin nmax : Nat}
    (opens : Opens (cs.map chr) neg qesc chrv nmin nmax) : Opens (ascii (String.ofList cs)) neg qesc chrv nmin nmax := by
  rw [ascii_ofList]
  exact opens

theorem Parses.cls {head expr : List Byte} {neg qesc : Bool} {chrv : List Chr} {nmin nmax : Nat}
    {items : List Item} (parses : Parses expr items) (opens : Opens head neg qesc chrv nmin nmax) :
    Parses (head ++ expr) (.cls neg qesc chrv nmin nmax :: items) := by
  rintro ⟨eesc, fm, ec, neg', qesc', range, chrv', off, p, captures⟩ ⟨text, open_⟩
  obtain rfl : fm = false := text
  obtain rfl : eesc = false := open_
  rw [opens, capture, matchItems_cls]
  dsimp only
  generalize (if qesc then stripQuotes _ else _ : Pl) = pl
  by_cases fits : pl.val.length < nmin ∨ nmax < pl.val.length
  · rw [if_pos fits, if_pos fits]
    rfl
  · rw [if_neg fits, if_neg fits]
    dsimp only
    rw [parses _ ⟨rfl, rfl⟩]
    cases matchItems items _ _ <;> simp [Except.map]

/-- No argument is read outside a class and its quantifier. -/
theorem arguments_skip {r : Regex} {c : Byte} {expr : List Byte} {n : Nat} (outside : r.fm = false ∨ r.ec = false)
    (next : ∀ r', r.step c = .ok r' → r'.arguments expr ≤ n) : r.arguments (c :: expr) ≤ n := by
  have none_ : ¬ (r.fm ∧ r.ec ∧ ¬ (c = chr '\\' ∧ r.eesc = false)) := by
    rintro ⟨text, ends, -⟩
    rcases outside with outside | outside
    · exact absurd (outside.symm.trans text) Bool.false_ne_true
    · exact absurd (outside.symm.trans ends) Bool.false_ne_true
  rw [arguments_cons, if_neg none_]
  cases stepped : r.step c with
  | error e => exact Nat.zero_le _
  | ok r' =>
    dsimp only
    rw [Nat.zero_add]
    exact next r' stepped

/-- Literals read no arguments. -/
theorem arguments_lits {cs expr : List Byte} {n : Nat} (plain : ∀ c ∈ cs, c ≠ chr '\\' ∧ c ≠ chr '[')
    (rest : ∀ r : Regex, r.Between → r.arguments expr ≤ n) :
    ∀ r : Regex, r.Between → r.arguments (cs ++ expr) ≤ n := by
  induction cs with
  | nil => exact rest
  | cons c cs ih =>
    rw [List.forall_mem_cons] at plain
    rintro r ⟨text, open_⟩
    apply arguments_skip (.inl text)
    intro r' stepped
    have at_ : r.step c = r.literal c := by
      simp [step, plain.1, text]
    rw [at_, literal] at stepped
    split at stepped
    · contradiction
    · split_ifs at stepped
      obtain rfl := Except.ok.inj stepped
      exact ih plain.2 _ ⟨text, rfl⟩

/-- The arguments of a class in a pattern, of which there is one. -/
theorem arguments_read {r : Regex} {c : Byte} {expr : List Byte} {k : Nat}
    (next : ∀ r', r.step c = .ok r' → r'.arguments expr ≤ k) : r.arguments (c :: expr) ≤ k + 1 := by
  rw [arguments_cons]
  have one : (if r.fm ∧ r.ec ∧ ¬ (c = chr '\\' ∧ r.eesc = false) then 1 else 0) ≤ 1 := by
    split_ifs
    · exact Nat.le_refl _
    · exact Nat.zero_le _
  cases stepped : r.step c with
  | error e => exact Nat.le_trans one (Nat.le_add_left 1 k)
  | ok r' =>
    rw [Nat.add_comm k]
    exact Nat.add_le_add one (next r' stepped)

theorem capture_between {r r' : Regex} {nmin nmax : Nat} (captured : r.capture nmin nmax = .ok r') : r'.Between := by
  unfold capture at captured
  dsimp only at captured
  split_ifs at captured
  all_goals
    obtain rfl := Except.ok.inj captured
    exact ⟨rfl, rfl⟩

/-- Between the brackets of a class. -/
def InClass (r : Regex) : Prop := r.fm = true ∧ r.ec = false ∧ r.eesc = false

theorem addChr_inside {r r' : Regex} {c : Byte} (within : InClass r) (added : r.addChr c = .ok r') : InClass r' := by
  unfold addChr at added
  dsimp only at added
  split_ifs at added
  obtain rfl := Except.ok.inj added
  exact within

theorem step_inside {r r' : Regex} {c : Byte} (within : InClass r) (plain : c ≠ chr '\\' ∧ c ≠ chr ']')
    (stepped : r.step c = .ok r') : InClass r' := by
  obtain ⟨text, open_, escape⟩ := within
  unfold step classStep at stepped
  rw [if_neg fun both => plain.1 both.1, if_neg (by rw [text]; decide), if_neg (by rw [open_]; decide),
    if_neg (by rw [escape]; decide), if_neg plain.2] at stepped
  split_ifs at stepped
  · obtain rfl := Except.ok.inj stepped
    exact ⟨text, open_, escape⟩
  · obtain rfl := Except.ok.inj stepped
    exact ⟨text, open_, escape⟩
  · split at stepped
    · exact addChr_inside ⟨text, open_, escape⟩ stepped
    · obtain rfl := Except.ok.inj stepped
      exact ⟨text, open_, escape⟩
  · exact addChr_inside ⟨text, open_, escape⟩ stepped

/-- A class with its quantifier reads one argument. -/
theorem arguments_class {b expr : List Byte} {q : Byte} {k : Nat} (plain : ∀ c ∈ b, c ≠ chr '\\' ∧ c ≠ chr ']')
    (quantifies : q ≠ chr '\\') (next : ∀ r : Regex, r.Between → r.arguments expr ≤ k) :
    ∀ r : Regex, r.Between → r.arguments (chr '[' :: (b ++ chr ']' :: q :: expr)) ≤ k + 1 := by
  have behind : ∀ r : Regex, InClass r → r.arguments (b ++ chr ']' :: q :: expr) ≤ k + 1 := by
    induction b with
    | nil =>
      rintro r ⟨text, open_, escape⟩
      apply arguments_skip (.inr open_)
      intro r' ended
      have at_ : r.step (chr ']') = .ok { r with ec := true } := by
        simp [step, classStep, text, open_, escape]
        decide
      rw [at_] at ended
      obtain rfl := Except.ok.inj ended
      apply arguments_read
      intro r' captured
      rw [step, if_neg fun both => quantifies both.1, if_neg (by rw [text]; decide), if_pos rfl] at captured
      split at captured
      · contradiction
      · exact next r' (capture_between captured)
    | cons c b ih =>
      rw [List.forall_mem_cons] at plain
      intro r within
      apply arguments_skip (.inr within.2.1)
      intro r' stepped
      exact ih plain.2 r' (step_inside within plain.1 stepped)
  rintro r ⟨text, escape⟩
  apply arguments_skip (.inl text)
  intro r' opened
  have at_ : r.step (chr '[') =
      .ok { r with chrv := [], fm := true, ec := false, neg := false, range := none, qesc := false } := by
    simp [step, text, escape]
    decide
  rw [at_] at opened
  obtain rfl := Except.ok.inj opened
  exact behind _ ⟨rfl, rfl, escape⟩

theorem arguments_nil : ∀ r : Regex, r.Between → r.arguments [] ≤ 0 := fun _ _ => Nat.le_refl 0

theorem addChr_keeps {r r' : Regex} {c : Byte} (added : addChr r c = .ok r') :
    r'.p = r.p ∧ r'.captures = r.captures := by
  unfold addChr at added
  dsimp only at added
  split_ifs at added
  obtain rfl := Except.ok.inj added
  exact ⟨rfl, rfl⟩

theorem classStep_keeps {r r' : Regex} {c : Byte} (stepped : r.classStep c = .ok r') :
    r'.p = r.p ∧ r'.captures = r.captures := by
  unfold classStep at stepped
  split_ifs at stepped with escaped ends quotes negates ranges
  · exact @addChr_keeps { r with eesc := false } r' c stepped
  · obtain rfl := Except.ok.inj stepped
    exact ⟨rfl, rfl⟩
  · obtain rfl := Except.ok.inj stepped
    exact ⟨rfl, rfl⟩
  · obtain rfl := Except.ok.inj stepped
    exact ⟨rfl, rfl⟩
  · split at stepped
    · exact addChr_keeps stepped
    · obtain rfl := Except.ok.inj stepped
      exact ⟨rfl, rfl⟩
  · exact addChr_keeps stepped

theorem stripQuotes_le (pl : Pl) : (stripQuotes pl).val.length ≤ pl.val.length := by
  unfold stripQuotes
  split_ifs
  · rw [List.length_dropLast, List.length_tail]
    omega
  · exact Nat.le_refl _

theorem capture_shrinks {r r' : Regex} {nmin nmax : Nat} (captured : r.capture nmin nmax = .ok r') :
    r'.p.length ≤ r.p.length ∧ ∀ pl ∈ r'.captures, pl ∈ r.captures ∨ pl.val.length ≤ r.p.length := by
  unfold capture at captured
  dsimp only at captured
  have inside : (if r.qesc then stripQuotes ⟨r.off, r.p.take (scan r.chrv r.neg r.qesc nmax false false r.p)⟩
      else ⟨r.off, r.p.take (scan r.chrv r.neg r.qesc nmax false false r.p)⟩ : Pl).val.length ≤ r.p.length := by
    split
    · exact Nat.le_trans (stripQuotes_le _) (List.length_take_le' _ _)
    · exact List.length_take_le' _ _
  generalize (if r.qesc then stripQuotes _ else _ : Pl) = taken at captured inside
  split_ifs at captured
  obtain rfl := Except.ok.inj captured
  refine ⟨by rw [List.length_drop]; omega, ?_⟩
  intro pl member
  rcases List.mem_append.mp member with old | new
  · exact .inl old
  · rw [List.mem_singleton.mp new]
    exact .inr inside

theorem literal_shrinks {r r' : Regex} {c : Byte} (stepped : r.literal c = .ok r') :
    r'.p.length < r.p.length ∧ r'.captures = r.captures := by
  unfold literal at stepped
  split at stepped
  · contradiction
  · rename_i x p text
    split_ifs at stepped with other
    obtain rfl := Except.ok.inj stepped
    rw [text]
    exact ⟨Nat.lt_succ_self _, rfl⟩

theorem step_shrinks {r r' : Regex} {c : Byte} (stepped : r.step c = .ok r') :
    r'.p.length ≤ r.p.length ∧ ∀ pl ∈ r'.captures, pl ∈ r.captures ∨ pl.val.length ≤ r.p.length := by
  have kept (same : r'.p = r.p ∧ r'.captures = r.captures) :
      r'.p.length ≤ r.p.length ∧ ∀ pl ∈ r'.captures, pl ∈ r.captures ∨ pl.val.length ≤ r.p.length := by
    rw [same.1, same.2]
    exact ⟨Nat.le_refl _, fun _ => .inl⟩
  unfold step at stepped
  split_ifs at stepped with escape text opens ends
  · obtain rfl := Except.ok.inj stepped
    exact kept ⟨rfl, rfl⟩
  · obtain rfl := Except.ok.inj stepped
    exact kept ⟨rfl, rfl⟩
  · obtain ⟨less, same⟩ := literal_shrinks stepped
    rw [same]
    exact ⟨Nat.le_of_lt less, fun _ => .inl⟩
  · split at stepped
    · contradiction
    · exact capture_shrinks stepped
  · exact kept (classStep_keeps stepped)

theorem run_shrinks {r : Regex} {expr : List Byte} {captures : List Pl} (found : r.run expr = .ok captures) :
    ∀ pl ∈ captures, pl ∈ r.captures ∨ pl.val.length ≤ r.p.length := by
  induction expr generalizing r with
  | nil =>
    rw [run_nil] at found
    split_ifs at found
    obtain rfl := Except.ok.inj found
    exact fun _ => .inl
  | cons c expr ih =>
    rw [run_cons] at found
    cases stepped : r.step c with
    | error e =>
      rw [stepped] at found
      contradiction
    | ok r' =>
      rw [stepped] at found
      obtain ⟨less, captured⟩ := step_shrinks stepped
      intro pl member
      rcases ih found pl member with old | short
      · exact captured pl old
      · exact .inr (Nat.le_trans short less)

/-- A capture lies in the text that ends at this position. -/
def Inside (bound : Nat) (pl : Pl) : Prop := pl.off + pl.val.length ≤ bound

theorem scan_le (chrv : List Chr) (neg qesc : Bool) (room : Nat) (quote esc : Bool) (p : List Byte) :
    scan chrv neg qesc room quote esc p ≤ p.length := by
  induction p generalizing room quote esc with
  | nil => exact Nat.le_refl 0
  | cons c p ih =>
    rw [scan, List.length_cons]
    split_ifs
    · exact Nat.zero_le _
    · exact Nat.succ_le_succ (ih _ _ _)
    · exact Nat.succ_le_succ (ih _ _ _)
    · exact Nat.succ_le_succ (ih _ _ _)
    · exact Nat.succ_le_succ (ih _ _ _)
    · exact Nat.succ_le_succ (ih _ _ _)
    · exact Nat.zero_le _

/-- What passes from a stretch of text to its parts. -/
structure Cut (holds : Pl → Prop) : Prop where
  take : ∀ {off n p}, holds ⟨off, p⟩ → holds ⟨off, p.take n⟩
  drop : ∀ {off n p}, n ≤ p.length → holds ⟨off, p⟩ → holds ⟨off + n, p.drop n⟩

theorem Cut.inside (bound : Nat) : Cut (Inside bound) where
  take {off n p} inside := by
    unfold Inside at *
    show off + (p.take n).length ≤ bound
    rw [List.length_take]
    dsimp only at inside
    omega
  drop {off n p} room inside := by
    unfold Inside at *
    show off + n + (p.drop n).length ≤ bound
    rw [List.length_drop]
    dsimp only at inside
    omega

theorem Cut.shift {holds : Pl → Prop} (cut : Cut holds) (base : Nat) : Cut fun pl => holds ⟨base + pl.off, pl.val⟩ where
  take whole := cut.take whole
  drop {off n p} room whole := by
    show holds ⟨base + (off + n), p.drop n⟩
    rw [← Nat.add_assoc]
    exact cut.drop room whole

theorem stripQuotes_cut {holds : Pl → Prop} (cut : Cut holds) {pl : Pl} (whole : holds pl) : holds (stripQuotes pl) := by
  unfold stripQuotes
  split_ifs with quoted
  · have tail := cut.drop (n := 1) (Nat.le_of_lt quoted.1) whole
    rw [List.drop_one] at tail
    rw [List.dropLast_eq_take]
    exact cut.take tail
  · exact whole

/-- It holds of the rest of the text and of the captures. -/
structure Holds (holds : Pl → Prop) (r : Regex) : Prop where
  rest : holds ⟨r.off, r.p⟩
  captures : ∀ pl ∈ r.captures, holds pl

theorem capture_holds {holds : Pl → Prop} (cut : Cut holds) {r r' : Regex} {nmin nmax : Nat} (all : Holds holds r)
    (captured : r.capture nmin nmax = .ok r') : Holds holds r' := by
  have room := scan_le r.chrv r.neg r.qesc nmax false false r.p
  unfold capture at captured
  dsimp only at captured
  generalize scan r.chrv r.neg r.qesc nmax false false r.p = n at captured room
  have taken : holds ⟨r.off, r.p.take n⟩ := cut.take all.rest
  have stripped : holds (if r.qesc then stripQuotes ⟨r.off, r.p.take n⟩ else ⟨r.off, r.p.take n⟩) := by
    split
    · exact stripQuotes_cut cut taken
    · exact taken
  generalize (if r.qesc then stripQuotes _ else _ : Pl) = pl at captured stripped
  split_ifs at captured
  obtain rfl := Except.ok.inj captured
  refine ⟨cut.drop room all.rest, fun pl' member => ?_⟩
  rcases List.mem_append.mp member with old | new
  · exact all.captures pl' old
  · rw [List.mem_singleton.mp new]
    exact stripped

theorem literal_holds {holds : Pl → Prop} (cut : Cut holds) {r r' : Regex} {c : Byte} (all : Holds holds r)
    (stepped : r.literal c = .ok r') : Holds holds r' := by
  have rest := all.rest
  unfold literal at stepped
  split at stepped
  · contradiction
  · rename_i x p text
    split_ifs at stepped with other
    obtain rfl := Except.ok.inj stepped
    rw [text] at rest
    exact ⟨cut.drop (n := 1) (by simp) rest, all.captures⟩

theorem addChr_off {r r' : Regex} {c : Byte} (added : addChr r c = .ok r') : r'.off = r.off := by
  unfold addChr at added
  dsimp only at added
  split_ifs at added
  obtain rfl := Except.ok.inj added
  rfl

theorem classStep_off {r r' : Regex} {c : Byte} (stepped : r.classStep c = .ok r') : r'.off = r.off := by
  unfold classStep at stepped
  split_ifs at stepped
  · exact @addChr_off { r with eesc := false } r' c stepped
  · obtain rfl := Except.ok.inj stepped
    rfl
  · obtain rfl := Except.ok.inj stepped
    rfl
  · obtain rfl := Except.ok.inj stepped
    rfl
  · split at stepped
    · exact addChr_off stepped
    · obtain rfl := Except.ok.inj stepped
      rfl
  · exact addChr_off stepped

theorem step_holds {holds : Pl → Prop} (cut : Cut holds) {r r' : Regex} {c : Byte} (all : Holds holds r)
    (stepped : r.step c = .ok r') : Holds holds r' := by
  unfold step at stepped
  split_ifs at stepped with escape text opens ends
  · obtain rfl := Except.ok.inj stepped
    exact ⟨all.rest, all.captures⟩
  · obtain rfl := Except.ok.inj stepped
    exact ⟨all.rest, all.captures⟩
  · exact literal_holds cut all stepped
  · split at stepped
    · contradiction
    · exact capture_holds cut all stepped
  · obtain ⟨p, captures⟩ := classStep_keeps stepped
    have off := classStep_off stepped
    refine ⟨?_, ?_⟩
    · rw [off, p]
      exact all.rest
    · rw [captures]
      exact all.captures

theorem run_holds {holds : Pl → Prop} (cut : Cut holds) {r : Regex} {expr : List Byte} {captures : List Pl}
    (all : Holds holds r) (found : r.run expr = .ok captures) : ∀ pl ∈ captures, holds pl := by
  induction expr generalizing r with
  | nil =>
    rw [run_nil] at found
    split_ifs at found
    obtain rfl := Except.ok.inj found
    exact all.captures
  | cons c expr ih =>
    rw [run_cons] at found
    cases stepped : r.step c with
    | error e =>
      rw [stepped] at found
      contradiction
    | ok r' =>
      rw [stepped] at found
      exact ih (step_holds cut all stepped) found

end Regex

/-- What a class takes from a text: the longest run of its bytes, up to a number of them. -/
def classRun (neg : Bool) (chrv : List Chr) (p : List Byte) : List Byte :=
  p.takeWhile fun c => exprMatch chrv (tolower c) neg

theorem scan_plain (chrv : List Chr) (neg : Bool) (room : Nat) (quote esc : Bool) (p : List Byte) :
    Regex.scan chrv neg false room quote esc p = (classRun neg chrv (p.take room)).length := by
  induction p generalizing room esc with
  | nil => simp [Regex.scan, classRun]
  | cons c p ih =>
    cases room with
    | zero => simp [Regex.scan, classRun]
    | succ room =>
      by_cases found : exprMatch chrv (tolower c) neg = true
      · have rest := ih room false
        rw [classRun] at rest
        simp [Regex.scan, classRun, found, rest]
      · simp [Regex.scan, classRun, found]

/-- A class without an upper bound, which the counter of the scan bounds. -/
theorem matchItems_many (neg : Bool) (chrv : List Chr) (nmin : Nat) (items : List Item) (off : Nat) (p : List Byte) :
    matchItems (.cls neg false chrv nmin Regex.uint32Max :: items) off p =
      let run := classRun neg chrv (p.take Regex.uint32Max)
      if run.length < nmin then .error .again
      else (matchItems items (off + run.length) (p.drop run.length)).map (⟨off, run⟩ :: ·) := by
  have front : p.take (classRun neg chrv (p.take Regex.uint32Max)).length =
      classRun neg chrv (p.take Regex.uint32Max) := by
    have first := List.prefix_iff_eq_take.mp
      ((List.takeWhile_prefix _).trans (List.take_prefix Regex.uint32Max p) :
        classRun neg chrv (p.take Regex.uint32Max) <+: p)
    exact first.symm
  have bound : (classRun neg chrv (p.take Regex.uint32Max)).length ≤ Regex.uint32Max :=
    Nat.le_trans (List.takeWhile_prefix _).length_le (List.length_take_le _ _)
  rw [matchItems_cls, scan_plain]
  simp only [Bool.false_eq_true, if_false, front, Nat.not_lt_of_le bound, or_false]

/-- What is inside in the front of a text ends where the text stops being so. -/
theorem takeWhile_take {inside : Byte → Bool} {x y : List Byte} {n : Nat} (all : ∀ c ∈ x, inside c = true)
    (stops : ∀ c ∈ y.head?, inside c = false) : ((x ++ y).take n).takeWhile inside = x.take n := by
  have taken : ∀ c ∈ x.take n, inside c = true := fun c member => all c (List.mem_of_mem_take member)
  have none_ : (y.take (n - x.length)).takeWhile inside = [] := by
    cases y with
    | nil => simp
    | cons c y =>
      cases n - x.length with
      | zero => simp
      | succ n => simp [stops c rfl]
  rw [List.take_append, List.takeWhile_append_of_pos taken, none_, List.append_nil]

theorem classRun_append {neg : Bool} {chrv : List Chr} {x y : List Byte} (fits : x.length ≤ Regex.uint32Max)
    (inside : ∀ c ∈ x, exprMatch chrv (tolower c) neg = true)
    (stops : ∀ c ∈ y.head?, exprMatch chrv (tolower c) neg = false) :
    classRun neg chrv ((x ++ y).take Regex.uint32Max) = x := by
  rw [classRun, takeWhile_take inside stops, List.take_of_length_le fits]

/-- A class without an upper bound takes what is inside up to where it stops. -/
theorem matchItems_run {neg : Bool} {chrv : List Chr} {nmin : Nat} {x y : List Byte}
    (fits : x.length ≤ Regex.uint32Max) (enough : nmin ≤ x.length)
    (inside : ∀ c ∈ x, exprMatch chrv (tolower c) neg = true)
    (stops : ∀ c ∈ y.head?, exprMatch chrv (tolower c) neg = false) (items : List Item) (off : Nat) :
    matchItems (.cls neg false chrv nmin Regex.uint32Max :: items) off (x ++ y) =
      (matchItems items (off + x.length) y).map (⟨off, x⟩ :: ·) := by
  rw [matchItems_many, classRun_append fits inside stops]
  dsimp only
  rw [if_neg (Nat.not_lt_of_le enough), List.drop_left]

theorem matchItems_many_ok {neg : Bool} {chrv : List Chr} {nmin : Nat} {items : List Item} {off : Nat} {p : List Byte}
    {captures : List Pl}
    (found : matchItems (.cls neg false chrv nmin Regex.uint32Max :: items) off p = .ok captures) :
    ∃ rest, captures = ⟨off, classRun neg chrv (p.take Regex.uint32Max)⟩ :: rest ∧
      nmin ≤ (classRun neg chrv (p.take Regex.uint32Max)).length ∧
      matchItems items (off + (classRun neg chrv (p.take Regex.uint32Max)).length)
        (p.drop (classRun neg chrv (p.take Regex.uint32Max)).length) = .ok rest := by
  rw [matchItems_many] at found
  dsimp only at found
  split_ifs at found with short
  cases rest : matchItems items _ _ with
  | error e =>
    rw [rest] at found
    contradiction
  | ok captures' =>
    rw [rest] at found
    exact ⟨captures', (Except.ok.inj found).symm, Nat.le_of_not_lt short, rfl⟩

theorem matchItems_lit_ok {c : Byte} {items : List Item} {off : Nat} {p : List Byte} {captures : List Pl}
    (found : matchItems (.lit c :: items) off p = .ok captures) :
    ∃ x p', p = x :: p' ∧ tolower c = tolower x ∧ matchItems items (off + 1) p' = .ok captures := by
  cases p with
  | nil => contradiction
  | cons x p' =>
    rw [matchItems_lit_cons] at found
    split_ifs at found with other
    exact ⟨x, p', rfl, not_not.mp other, found⟩

theorem matchItems_one (neg : Bool) (chrv : List Chr) (items : List Item) (off : Nat) (c : Byte) (p : List Byte) :
    matchItems (.cls neg false chrv 1 1 :: items) off (c :: p) =
      if exprMatch chrv (tolower c) neg then (matchItems items (off + 1) p).map (⟨off, [c]⟩ :: ·)
      else .error .again := by
  rw [matchItems_cls, scan_plain]
  by_cases inside : exprMatch chrv (tolower c) neg = true
  · simp [classRun, inside]
  · simp [classRun, inside]

/-- Literals that have found their place, or none, find it in a longer text. -/
theorem lits_append {cs : List Byte} {off : Nat} {p : List Byte}
    (settled : ∀ e, matchItems (cs.map .lit) off p ≠ .error (.stop e)) (more : List Byte) :
    matchItems (cs.map .lit) off (p ++ more) = matchItems (cs.map .lit) off p := by
  induction cs generalizing off p with
  | nil => rfl
  | cons c cs ih =>
    cases p with
    | nil => exact absurd rfl (settled .ENOENT)
    | cons x p =>
      simp only [List.map_cons, List.cons_append, matchItems_lit_cons] at settled ⊢
      by_cases same : tolower c = tolower x
      · simp only [same, ne_eq, not_true_eq_false, if_false] at settled ⊢
        exact ih settled
      · rw [if_pos same, if_pos same]

theorem lits_length {cs : List Byte} {off : Nat} {p : List Byte} {captures : List Pl}
    (found : matchItems (cs.map .lit) off p = .ok captures) : cs.length ≤ p.length ∧ captures = [] := by
  induction cs generalizing off p with
  | nil => exact ⟨Nat.zero_le _, (Except.ok.inj found).symm⟩
  | cons c cs ih =>
    cases p with
    | nil => contradiction
    | cons x p =>
      simp only [List.map_cons, matchItems_lit_cons] at found
      split at found
      · contradiction
      · obtain ⟨inside, none_⟩ := ih found
        exact ⟨Nat.succ_le_succ inside, none_⟩

theorem run_start {expr : List Byte} {items : List Item} (parses : Regex.Parses expr items) (off : Nat)
    (p : List Byte) : (Regex.start off p).run expr = matchItems items off p := by
  rw [parses _ ⟨rfl, rfl⟩]
  show (matchItems items off p).map ([] ++ ·) = matchItems items off p
  cases matchItems items off p <;> simp [Except.map]

/-- The search finds the leftmost match. -/
theorem reRegexFrom_ok {expr : List Byte} {items : List Item} (parses : Regex.Parses expr items) (some_ : expr ≠ [])
    (off : Nat) (text : List Byte) (captures : List Pl) :
    reRegexFrom expr off text = .ok captures ↔
      ∃ before after, text = before ++ after ∧ after ≠ [] ∧
        matchItems items (off + before.length) after = .ok captures ∧
        ∀ i < before.length, matchItems items (off + i) (text.drop i) = .error .again := by
  induction text generalizing off with
  | nil =>
    rw [reRegexFrom_nil, if_neg some_]
    constructor
    · exact nofun
    · rintro ⟨before, after, whole, more, -⟩
      exact absurd (List.append_eq_nil_iff.mp whole.symm).2 more
  | cons c p ih =>
    rw [reRegexFrom_cons, run_start parses]
    constructor
    · intro found
      cases here : matchItems items off (c :: p) with
      | ok captures' =>
        rw [here] at found
        obtain rfl := Except.ok.inj found
        exact ⟨[], c :: p, rfl, List.cons_ne_nil _ _, here, nofun⟩
      | error e =>
        rw [here] at found
        cases e with
        | stop e => contradiction
        | again =>
          obtain ⟨before, after, whole, more, hit, missed⟩ := (ih (off + 1)).mp found
          refine ⟨c :: before, after, by rw [whole, List.cons_append], more, ?_, ?_⟩
          · rw [List.length_cons, ← hit]
            congr 1
            omega
          · intro i less
            cases i with
            | zero => exact here
            | succ i =>
              rw [List.length_cons] at less
              rw [List.drop_succ_cons, ← missed i (by omega)]
              congr 1
              omega
    · rintro ⟨before, after, whole, more, hit, missed⟩
      cases before with
      | nil =>
        rw [List.nil_append] at whole
        rw [List.length_nil, Nat.add_zero] at hit
        rw [whole, hit]
      | cons b before =>
        obtain ⟨rfl, rest⟩ := List.cons.inj whole
        have first := missed 0 (Nat.succ_pos _)
        rw [List.drop_zero, Nat.add_zero] at first
        rw [first]
        apply (ih (off + 1)).mpr
        refine ⟨before, after, rest, more, ?_, ?_⟩
        · rw [← hit, List.length_cons]
          congr 1
          omega
        · intro i less
          rw [← missed (i + 1) (by rw [List.length_cons]; omega), List.drop_succ_cons]
          congr 1
          omega

/-- Behind a literal, what is captured is shorter than the text. -/
theorem reRegexFrom_shorter {c : Byte} {expr text : List Byte} {off : Nat} {captures : List Pl}
    (plain : c ≠ chr '\\' ∧ c ≠ chr '[') (found : reRegexFrom (c :: expr) off text = .ok captures) :
    ∀ pl ∈ captures, pl.val.length < text.length := by
  induction text generalizing off with
  | nil => contradiction
  | cons x p ih =>
    rw [reRegexFrom_cons] at found
    cases attempt : (Regex.start off (x :: p)).run (c :: expr) with
    | error e =>
      rw [attempt] at found
      cases e with
      | stop e => contradiction
      | again => exact fun pl member => Nat.lt_succ_of_lt (ih found pl member)
    | ok captures' =>
      rw [attempt] at found
      obtain rfl := Except.ok.inj found
      have at_ : (Regex.start off (x :: p)).step c = (Regex.start off (x :: p)).literal c := by
        simp [Regex.step, Regex.start, plain]
      rw [Regex.run_cons, at_] at attempt
      cases stepped : (Regex.start off (x :: p)).literal c with
      | error e =>
        rw [stepped] at attempt
        contradiction
      | ok r =>
        rw [stepped] at attempt
        obtain ⟨less, none_⟩ := Regex.literal_shrinks stepped
        intro pl member
        rcases Regex.run_shrinks attempt pl member with old | short
        · rw [none_] at old
          contradiction
        · exact Nat.lt_of_le_of_lt short less

theorem argumentsFrom_le {expr : List Byte} {n : Nat} (each : ∀ r : Regex, r.Between → r.arguments expr ≤ n)
    (off : Nat) (text : List Byte) : argumentsFrom expr off text ≤ n := by
  induction text generalizing off with
  | nil => exact Nat.zero_le _
  | cons c p ih =>
    have first := each (Regex.start off (c :: p)) ⟨rfl, rfl⟩
    rw [argumentsFrom]
    split
    · exact Nat.max_le.mpr ⟨first, ih _⟩
    · exact first

theorem reRegexFrom_holds {holds : Pl → Prop} (cut : Regex.Cut holds) {expr text : List Byte} {off : Nat}
    {captures : List Pl} (whole : holds ⟨off, text⟩) (found : reRegexFrom expr off text = .ok captures) :
    ∀ pl ∈ captures, holds pl := by
  induction text generalizing off with
  | nil =>
    rw [reRegexFrom_nil] at found
    split_ifs at found
    obtain rfl := Except.ok.inj found
    exact fun _ none_ => absurd none_ List.not_mem_nil
  | cons c text ih =>
    rw [reRegexFrom_cons] at found
    cases tried : (Regex.start off (c :: text)).run expr with
    | ok captures' =>
      rw [tried] at found
      obtain rfl := Except.ok.inj found
      exact Regex.run_holds cut ⟨whole, fun _ none_ => absurd none_ List.not_mem_nil⟩ tried
    | error mismatch =>
      rw [tried] at found
      cases mismatch with
      | stop err => contradiction
      | again => exact ih (cut.drop (n := 1) (by simp) whole) found

/-- What a pattern captures lies in the text. -/
theorem reRegex_inside {text expr : List Byte} {captures : List Pl} (found : reRegex text expr = .ok captures) :
    ∀ pl ∈ captures, Regex.Inside text.length pl :=
  reRegexFrom_holds (Regex.Cut.inside text.length) (by simp [Regex.Inside]) found

end Baresip.Re
