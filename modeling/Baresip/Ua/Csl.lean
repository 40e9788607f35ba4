import Baresip.Library.Fields
import Baresip.Re.Pattern
import Baresip.Re.Runs

set_option linter.dupNamespace false

namespace Baresip.Csl

open Re Library

def cslPattern : List Byte := ascii "[ \t]*[^, \t]+[ \t]*[,]*"

/-- The next name of a list, as far as `sz` bytes hold it, and what is left of the list. -/
def cslParse (pl : List Byte) (sz : Nat) : Except Errno (List Byte × List Byte) :=
  match reRegex pl cslPattern with
  | .error err => .error err
  | .ok [ws, val, ws2, cma] =>
    .ok (val.val.take (sz - 1), pl.drop (ws.val.length + val.val.length + ws2.val.length + cma.val.length))
  | .ok _ => .error .EINVAL

/-- The names in the order in which `csl_parse` gives them until it fails, unless that takes more calls. -/
def cslAll (sz : Nat) : Nat → List Byte → Option (List (List Byte))
  | 0, _ => none
  | calls + 1, pl =>
    match cslParse pl sz with
    | .error _ => some []
    | .ok (str, pl) => (cslAll sz calls pl).map (str :: ·)

structure Aucodec where
  name : List Byte
  srate : BitVec 32
  ch : BitVec 8
  deriving DecidableEq, Repr

def aucodecFind (aucodecl : List Aucodec) (name : List Byte) (srate : BitVec 32) (ch : BitVec 8) : Option Aucodec :=
  aucodecl.find? fun ac =>
    ac.name.map tolower == name.map tolower && (srate == 0 || srate == ac.srate) && (ch == 0 || ch == ac.ch)

/-- A codec with its sampling rate and channels, which stand behind slashes. -/
def aucodecFindCsl (aucodecl : List Aucodec) (cname : List Byte) : Option Aucodec :=
  match reRegex (cname.takeWhile (· != 0)) (ascii "[^/]+/[0-9]+[/]*[0-9]*") with
  | .ok [name, srate, _, ch] =>
    aucodecFind aucodecl name.val srate.u32 (if ch.val = [] then 1 else ch.u32.setWidth 8)
  | _ => aucodecFind aucodecl (cname.takeWhile (· != 0)) 8000 1

structure Vidcodec where
  name : List Byte
  deriving DecidableEq, Repr

def vidcodecFind (vidcodecl : List Vidcodec) (cname : List Byte) : Option Vidcodec :=
  vidcodecl.find? fun vc => vc.name.map tolower == (cname.takeWhile (· != 0)).map tolower

/-- The loop over a list of codecs, which appends a clone of each one that is found. -/
def codecsDecode {α : Type} (find : List Byte → Option α) : Nat → List Byte → List α → List α
  | 0, _, codecl => codecl
  | calls + 1, pl, codecl =>
    match cslParse pl 64 with
    | .error _ => codecl
    | .ok (cname, pl) =>
      match find cname with
      | none => codecsDecode find calls pl codecl
      | some ac => codecsDecode find calls pl (codecl ++ [ac])

def audioCodecsDecode (aucodecl : List Aucodec) (acs : List Byte) : List Aucodec :=
  codecsDecode (aucodecFindCsl aucodecl) (acs.length + 1) acs []

def videoCodecsDecode (vidcodecl : List Vidcodec) (vcs : List Byte) : List Vidcodec :=
  codecsDecode (vidcodecFind vidcodecl) (vcs.length + 1) vcs []

def isBlank (c : Byte) : Bool := c == chr ' ' || c == chr '\t'

def isComma (c : Byte) : Bool := c == chr ','

def isSep (c : Byte) : Bool := isBlank c || isComma c

/-- What a class of the pattern takes, which is bounded by the counter of its scan. -/
def upTo (inside : Byte → Bool) (p : List Byte) : List Byte := (p.take Regex.uint32Max).takeWhile inside

/-- The blanks and then the commas directly behind a name. -/
def behind (after : List Byte) : Nat :=
  (upTo isBlank after).length + (upTo isComma (after.drop (upTo isBlank after).length)).length

/-- The bytes of a gap in front of its last blanks, where the search for a name begins to match. -/
def skipped : List Byte → Nat
  | [] => 0
  | c :: gap => if (c :: gap).all isBlank && decide ((c :: gap).length ≤ Regex.uint32Max) then 0 else skipped gap + 1

/-- A list none of whose names is longer than the buffer, and where the bytes that are skipped in front of a
    name are no more than the blanks and commas directly behind it: the last of these are read again. -/
inductive Covered : List Byte → Prop
  | done {text : List Byte} (empty : ∀ c ∈ text, isSep c = true) : Covered text
  | name {gap run after : List Byte} (separates : ∀ c ∈ gap, isSep c = true) (field : IsField isSep run after)
      (fits : run.length ≤ 63) (covers : skipped gap ≤ behind after)
      (rest : Covered (after.drop (behind after - skipped gap))) : Covered (gap ++ (run ++ after))

def cslItems : List Item :=
  [.cls false false [⟨chr ' ', chr ' '⟩, ⟨chr '\t', chr '\t'⟩] 0 Regex.uint32Max,
    .cls true false [⟨chr ',', chr ','⟩, ⟨chr ' ', chr ' '⟩, ⟨chr '\t', chr '\t'⟩] 1 Regex.uint32Max,
    .cls false false [⟨chr ' ', chr ' '⟩, ⟨chr '\t', chr '\t'⟩] 0 Regex.uint32Max,
    .cls false false [⟨chr ',', chr ','⟩] 0 Regex.uint32Max]

theorem csl_parses : Regex.Parses cslPattern cslItems := by
  have blanks : Regex.Opens (ascii "[ \t]*") false false [⟨chr ' ', chr ' '⟩, ⟨chr '\t', chr '\t'⟩] 0 Regex.uint32Max :=
    .ofList fun _ _ _ _ _ _ _ _ _ => rfl
  have name : Regex.Opens (ascii "[^, \t]+") true false
      [⟨chr ',', chr ','⟩, ⟨chr ' ', chr ' '⟩, ⟨chr '\t', chr '\t'⟩] 1 Regex.uint32Max :=
    .ofList fun _ _ _ _ _ _ _ _ _ => rfl
  have commas : Regex.Opens (ascii "[,]*") false false [⟨chr ',', chr ','⟩] 0 Regex.uint32Max :=
    .ofList fun _ _ _ _ _ _ _ _ _ => rfl
  exact .ofList ((((Regex.Parses.nil.cls commas).cls blanks).cls name).cls blanks)

theorem blank_class (c : Byte) :
    exprMatch [⟨chr ' ', chr ' '⟩, ⟨chr '\t', chr '\t'⟩] (tolower c) false = isBlank c := by
  show exprMatch (singles [chr ' ', chr '\t']) (tolower c) false = _
  rw [exprMatch_singles (caseless_of (by decide))]
  simp [isBlank, beq_eq_decide]

theorem name_class (c : Byte) :
    exprMatch [⟨chr ',', chr ','⟩, ⟨chr ' ', chr ' '⟩, ⟨chr '\t', chr '\t'⟩] (tolower c) true = !isSep c := by
  show exprMatch (singles [chr ',', chr ' ', chr '\t']) (tolower c) true = _
  rw [exprMatch_singles (caseless_of (by decide))]
  simp [isSep, isBlank, isComma, beq_eq_decide, Bool.and_comm]

theorem comma_class (c : Byte) : exprMatch [⟨chr ',', chr ','⟩] (tolower c) false = isComma c := by
  show exprMatch (singles [chr ',']) (tolower c) false = _
  rw [exprMatch_singles (caseless_of (by decide))]
  simp [isComma, beq_eq_decide]

theorem blanks_run (p : List Byte) :
    classRun false [⟨chr ' ', chr ' '⟩, ⟨chr '\t', chr '\t'⟩] (p.take Regex.uint32Max) = upTo isBlank p := by
  rw [classRun, upTo, funext blank_class]

theorem name_run (p : List Byte) :
    classRun true [⟨chr ',', chr ','⟩, ⟨chr ' ', chr ' '⟩, ⟨chr '\t', chr '\t'⟩] (p.take Regex.uint32Max) =
      upTo (fun c => !isSep c) p := by
  rw [classRun, upTo, funext name_class]

theorem commas_run (p : List Byte) :
    classRun false [⟨chr ',', chr ','⟩] (p.take Regex.uint32Max) = upTo isComma p := by
  rw [classRun, upTo, funext comma_class]

/-- A match at the start of a text, whose second part is a name. -/
theorem csl_match (off : Nat) (p : List Byte) :
    matchItems cslItems off p =
      let ws := upTo isBlank p
      let val := upTo (fun c => !isSep c) (p.drop ws.length)
      let rest := (p.drop ws.length).drop val.length
      let ws2 := upTo isBlank rest
      let cma := upTo isComma (rest.drop ws2.length)
      if val = [] then .error .again
      else .ok [⟨off, ws⟩, ⟨off + ws.length, val⟩, ⟨off + ws.length + val.length, ws2⟩,
        ⟨off + ws.length + val.length + ws2.length, cma⟩] := by
  simp only [cslItems, matchItems_many, matchItems_nil, blanks_run, name_run, commas_run, Nat.not_lt_zero, if_false,
    Nat.lt_one_iff, List.length_eq_zero_iff]
  split <;> rfl

theorem upTo_append {inside : Byte → Bool} {x y : List Byte} (all : ∀ c ∈ x, inside c = true)
    (stops : ∀ c ∈ y.head?, inside c = false) : upTo inside (x ++ y) = x.take Regex.uint32Max :=
  takeWhile_take all stops

theorem upTo_nil {inside : Byte → Bool} {p : List Byte} (stops : ∀ c ∈ p.head?, inside c = false) :
    upTo inside p = [] := by
  have empty := @upTo_append inside [] p nofun stops
  exact empty

theorem csl_found {off : Nat} {gap run after : List Byte} (blank : ∀ c ∈ gap, isBlank c = true)
    (short : gap.length ≤ Regex.uint32Max) (field : IsField isSep run after) :
    ∃ ws2 cma : Pl, ws2.val.length + cma.val.length = behind ((run ++ after).drop (run.take Regex.uint32Max).length) ∧
      matchItems cslItems off (gap ++ (run ++ after)) =
        .ok [⟨off, gap⟩, ⟨off + gap.length, run.take Regex.uint32Max⟩, ws2, cma] := by
  obtain ⟨c, rest, cons⟩ := List.exists_cons_of_ne_nil field.some_
  have first : isSep c = false := field.inside c (by simp [cons])
  have ws : upTo isBlank (gap ++ (run ++ after)) = gap := by
    rw [upTo_append blank, List.take_of_length_le short]
    intro d head
    rw [cons, List.cons_append, List.head?_cons] at head
    rw [← Option.some.inj head]
    exact (Bool.or_eq_false_iff.mp first).1
  have val : upTo (fun c => !isSep c) (run ++ after) = run.take Regex.uint32Max := by
    apply upTo_append
    · intro d member
      simp [field.inside d member]
    · intro d head
      simp [field.ends d head]
  have some_ : run.take Regex.uint32Max ≠ [] := by
    rw [cons]
    exact List.cons_ne_nil _ _
  rw [csl_match]
  simp only [ws, List.drop_left, val, if_neg some_]
  exact ⟨_, _, rfl, rfl⟩

/-- No match starts where a separator stands behind the blanks that it can take. -/
theorem csl_again {off : Nat} {p : List Byte}
    (stops : ∀ c ∈ (p.drop (upTo isBlank p).length).head?, isSep c = true) :
    matchItems cslItems off p = .error .again := by
  have none_ : upTo (fun c => !isSep c) (p.drop (upTo isBlank p).length) = [] := by
    apply upTo_nil
    intro c head
    simp [stops c head]
  rw [csl_match]
  simp only [none_, if_true]

theorem csl_skips {off : Nat} {gap tail : List Byte} (separates : ∀ c ∈ gap, isSep c = true)
    (not_last : ¬ (gap.all isBlank && decide (gap.length ≤ Regex.uint32Max)) = true) :
    matchItems cslItems off (gap ++ tail) = .error .again := by
  have less : (upTo isBlank (gap ++ tail)).length < gap.length := by
    by_contra more
    have whole : upTo isBlank (gap ++ tail) <+: gap ++ tail :=
      (List.takeWhile_prefix _).trans (List.take_prefix _ _)
    have inside : gap <+: upTo isBlank (gap ++ tail) :=
      List.prefix_of_prefix_length_le (List.prefix_append gap tail) whole (Nat.le_of_not_lt more)
    apply not_last
    rw [Bool.and_eq_true, List.all_eq_true, decide_eq_true_eq]
    constructor
    · intro c member
      exact List.mem_takeWhile_imp (inside.subset member)
    · exact Nat.le_trans inside.length_le
        (Nat.le_trans (List.takeWhile_prefix _).length_le (List.length_take_le _ _))
  apply csl_again
  intro c head
  rw [List.drop_append_of_le_length (Nat.le_of_lt less)] at head
  obtain ⟨d, rest, cons⟩ := List.exists_cons_of_ne_nil (List.drop_eq_nil_iff.not.mpr (Nat.not_le_of_lt less))
  rw [cons, List.cons_append, List.head?_cons] at head
  obtain rfl := Option.some.inj head
  exact separates d (List.mem_of_mem_drop (by rw [cons]; exact List.mem_cons_self ..))

theorem csl_none {off : Nat} {text : List Byte} (separates : ∀ c ∈ text, isSep c = true) :
    reRegexFrom cslPattern off text = .error .ENOENT := by
  induction text generalizing off with
  | nil => rfl
  | cons c text ih =>
    have again : matchItems cslItems off (c :: text) = .error .again := by
      apply csl_again
      intro d head
      exact separates d (List.mem_of_mem_drop (List.mem_of_mem_head? head))
    rw [reRegexFrom, run_start csl_parses, again]
    exact ih fun d member => separates d (List.mem_cons_of_mem c member)

theorem csl_search {off : Nat} {gap run after : List Byte} (separates : ∀ c ∈ gap, isSep c = true)
    (field : IsField isSep run after) :
    ∃ ws2 cma : Pl, ws2.val.length + cma.val.length = behind ((run ++ after).drop (run.take Regex.uint32Max).length) ∧
      reRegexFrom cslPattern off (gap ++ (run ++ after)) =
        .ok [⟨off + skipped gap, gap.drop (skipped gap)⟩, ⟨off + gap.length, run.take Regex.uint32Max⟩, ws2, cma] := by
  induction gap generalizing off with
  | nil =>
    obtain ⟨ws2, cma, lengths, found⟩ := @csl_found off [] run after nofun (Nat.zero_le _) field
    refine ⟨ws2, cma, lengths, ?_⟩
    obtain ⟨c, rest, cons⟩ := List.exists_cons_of_ne_nil field.some_
    rw [cons, List.nil_append, List.cons_append] at found ⊢
    rw [reRegexFrom, run_start csl_parses, found]
    rfl
  | cons c gap ih =>
    by_cases last : ((c :: gap).all isBlank && decide ((c :: gap).length ≤ Regex.uint32Max)) = true
    · have all := Bool.and_eq_true_iff.mp last
      obtain ⟨ws2, cma, lengths, found⟩ := @csl_found off (c :: gap) run after (List.all_eq_true.mp all.1)
        (of_decide_eq_true all.2) field
      refine ⟨ws2, cma, lengths, ?_⟩
      rw [skipped, if_pos last]
      rw [List.cons_append] at found ⊢
      rw [reRegexFrom, run_start csl_parses, found]
      rfl
    · obtain ⟨ws2, cma, lengths, found⟩ := @ih (off + 1) fun d member => separates d (List.mem_cons_of_mem c member)
      refine ⟨ws2, cma, lengths, ?_⟩
      have again := @csl_skips off (c :: gap) (run ++ after) separates last
      rw [List.cons_append] at again
      rw [skipped, if_neg last, List.cons_append, reRegexFrom, run_start csl_parses, again]
      dsimp only
      rw [found, List.drop_succ_cons, List.length_cons, Nat.add_assoc, Nat.add_assoc, Nat.add_comm 1, Nat.add_comm 1]

/-- What is left of a list behind the name that `csl_parse` gives. -/
def left (gap run after : List Byte) : List Byte :=
  (gap ++ (run ++ after)).drop (gap.length - skipped gap + (run.take Regex.uint32Max).length +
    behind ((run ++ after).drop (run.take Regex.uint32Max).length))

theorem cslParse_name {gap run after : List Byte} (separates : ∀ c ∈ gap, isSep c = true)
    (field : IsField isSep run after) (sz : Nat) :
    cslParse (gap ++ (run ++ after)) sz = .ok ((run.take Regex.uint32Max).take (sz - 1), left gap run after) := by
  obtain ⟨ws2, cma, lengths, found⟩ := @csl_search 0 gap run after separates field
  rw [cslParse, reRegex, found, left, ← lengths]
  simp only [List.length_drop, Nat.add_assoc]

theorem cslParse_none {text : List Byte} (separates : ∀ c ∈ text, isSep c = true) (sz : Nat) :
    cslParse text sz = .error .ENOENT := by
  rw [cslParse, reRegex, csl_none separates]

theorem skipped_le (gap : List Byte) : skipped gap ≤ gap.length := by
  induction gap with
  | nil => exact Nat.le_refl _
  | cons c gap ih =>
    rw [skipped]
    split
    · exact Nat.zero_le _
    · exact Nat.succ_le_succ ih

theorem upTo_take {inside : Byte → Bool} (p : List Byte) : p.take (upTo inside p).length = upTo inside p :=
  (List.prefix_iff_eq_take.mp ((List.takeWhile_prefix _).trans (List.take_prefix _ _))).symm

theorem behind_separates (after : List Byte) : ∀ c ∈ after.take (behind after), isSep c = true := by
  intro c member
  rw [behind, List.take_add, upTo_take, upTo_take, List.mem_append] at member
  rcases member with blank | comma
  · simp [isSep, (List.mem_takeWhile_imp blank : isBlank c = true)]
  · simp [isSep, (List.mem_takeWhile_imp comma : isComma c = true)]

theorem fields_behind {after : List Byte} {n : Nat} (inside : n ≤ behind after) :
    fields isSep (after.drop n) = fields isSep after := by
  have separates : ∀ c ∈ after.take n, isSep c = true := by
    intro c member
    exact behind_separates after c ((List.take_prefix_take_left inside).subset member)
  calc
    fields isSep (after.drop n) = fields isSep (after.take n ++ after.drop n) := (fields_gap separates _).symm
    _ = fields isSep after := by rw [List.take_append_drop]

theorem fields_text {gap run after : List Byte} (separates : ∀ c ∈ gap, isSep c = true)
    (field : IsField isSep run after) :
    fields isSep (gap ++ (run ++ after)) = run :: fields isSep after := by
  rw [fields_gap separates, fields_run field]

theorem left_shorter {gap run after : List Byte} (field : IsField isSep run after) :
    (left gap run after).length < (gap ++ (run ++ after)).length := by
  have positive := List.length_pos_iff.mpr field.some_
  have large : 0 < Regex.uint32Max := by decide
  have taken : 0 < (run.take Regex.uint32Max).length := by
    rw [List.length_take]
    omega
  rw [left, List.length_drop, List.length_append, List.length_append]
  omega

/-- A name that fits and covers what was skipped is left behind whole. -/
theorem left_covered {gap run after : List Byte} (fits : run.length ≤ 63) (covers : skipped gap ≤ behind after) :
    left gap run after = after.drop (behind after - skipped gap) := by
  have whole : run.take Regex.uint32Max = run := List.take_of_length_le (Nat.le_trans fits (by decide))
  have inside := skipped_le gap
  have offset : gap.length - skipped gap + run.length + behind after =
      (gap ++ run).length + (behind after - skipped gap) := by
    rw [List.length_append]
    omega
  rw [left, whole, List.drop_left, offset, ← List.append_assoc, List.drop_length_add_append]

theorem behind_name {p : List Byte} (stops : ∀ c ∈ p.head?, isSep c = false) : behind p = 0 := by
  have blanks : upTo isBlank p = [] := upTo_nil fun c head => (Bool.or_eq_false_iff.mp (stops c head)).1
  have commas : upTo isComma p = [] := upTo_nil fun c head => (Bool.or_eq_false_iff.mp (stops c head)).2
  rw [behind, blanks, List.length_nil, List.drop_zero, commas]
  rfl

/-- No name is passed over. -/
theorem left_fields {gap run after : List Byte} (field : IsField isSep run after) :
    (fields isSep after).length ≤ (fields isSep (left gap run after)).length := by
  by_cases whole : run.length ≤ Regex.uint32Max
  · have taken : run.take Regex.uint32Max = run := List.take_of_length_le whole
    have inside := skipped_le gap
    rw [left, taken, List.drop_left, ← List.append_assoc]
    by_cases covers : skipped gap ≤ behind after
    · have offset : gap.length - skipped gap + run.length + behind after =
          (gap ++ run).length + (behind after - skipped gap) := by
        rw [List.length_append]
        omega
      rw [offset, List.drop_length_add_append, fields_behind (Nat.sub_le _ _)]
    · rw [List.drop_append_of_le_length (by rw [List.length_append]; omega)]
      exact fields_le_append _ _
  · have more : ∀ c ∈ (run.drop Regex.uint32Max ++ after).head?, isSep c = false := by
      obtain ⟨d, rest, cons⟩ := List.exists_cons_of_ne_nil (List.drop_eq_nil_iff.not.mpr whole)
      intro c head
      rw [cons, List.cons_append, List.head?_cons] at head
      obtain rfl := Option.some.inj head
      exact field.inside d (List.mem_of_mem_drop (by rw [cons]; exact List.mem_cons_self ..))
    have taken : (run.take Regex.uint32Max).length = Regex.uint32Max := by
      rw [List.length_take]
      omega
    have split : (run ++ after).drop Regex.uint32Max = run.drop Regex.uint32Max ++ after :=
      List.drop_append_of_le_length (by omega)
    rw [left, taken, split, behind_name more, ← List.append_assoc,
      List.drop_append_of_le_length (by rw [List.length_append]; omega)]
    exact fields_le_append _ _

/-- The end of a name that does not cover what was skipped is read again. -/
theorem left_again {gap run after : List Byte} (field : IsField isSep run after) (fits : run.length ≤ 63)
    (short : behind after < skipped gap) :
    (fields isSep after).length < (fields isSep (left gap run after)).length := by
  have taken : run.take Regex.uint32Max = run := List.take_of_length_le (Nat.le_trans fits (by decide))
  have inside := skipped_le gap
  have positive := List.length_pos_iff.mpr field.some_
  have early : gap.length - skipped gap + run.length + behind after ≤ (gap ++ run.dropLast).length := by
    rw [List.length_append, List.length_dropLast]
    omega
  obtain ⟨last, ends⟩ : ∃ last, run = run.dropLast ++ [last] :=
    ⟨run.getLast field.some_, (List.dropLast_concat_getLast field.some_).symm⟩
  have last_field : IsField isSep [last] after := by
    refine ⟨List.cons_ne_nil _ _, fun c member => ?_, field.ends⟩
    apply field.inside c
    rw [ends]
    exact List.mem_append_right _ member
  have split : gap ++ (run ++ after) = gap ++ run.dropLast ++ ([last] ++ after) := by
    rw [List.append_assoc, ← List.append_assoc run.dropLast, ← ends]
  rw [left, taken, List.drop_left, split, List.drop_append_of_le_length early]
  have more := @fields_le_append _ isSep ((gap ++ run.dropLast).drop (gap.length - skipped gap + run.length +
    behind after)) ([last] ++ after)
  rw [fields_run last_field, List.length_cons] at more
  exact more

theorem cslAll_name {gap run after : List Byte} (separates : ∀ c ∈ gap, isSep c = true)
    (field : IsField isSep run after) (calls : Nat) :
    cslAll 64 (calls + 1) (gap ++ (run ++ after)) =
      (cslAll 64 calls (left gap run after)).map ((run.take Regex.uint32Max).take 63 :: ·) := by
  rw [cslAll, cslParse_name separates field]

theorem cslAll_none {text : List Byte} (separates : ∀ c ∈ text, isSep c = true) (calls : Nat) :
    cslAll 64 (calls + 1) text = some [] := by
  rw [cslAll, cslParse_none separates]

theorem cslAll_total {text : List Byte} {calls : Nat} (enough : text.length < calls) :
    ∃ names, cslAll 64 calls text = some names := by
  induction calls generalizing text with
  | zero => exact absurd enough (Nat.not_lt_zero _)
  | succ calls ih =>
    rcases fields_cases isSep text with empty | ⟨gap, run, after, rfl, separates, field⟩
    · exact ⟨[], cslAll_none empty calls⟩
    · have shorter := @left_shorter gap _ _ field
      obtain ⟨names, rest⟩ := @ih (left gap run after) (by omega)
      exact ⟨_, by rw [cslAll_name separates field, rest]; rfl⟩

theorem fields_le_names {text : List Byte} {calls : Nat} {names : List (List Byte)}
    (all : cslAll 64 calls text = some names) : (fields isSep text).length ≤ names.length := by
  induction calls generalizing text names with
  | zero => contradiction
  | succ calls ih =>
    rcases fields_cases isSep text with empty | ⟨gap, run, after, rfl, separates, field⟩
    · rw [fields_empty empty]
      exact Nat.zero_le _
    · rw [cslAll_name separates field] at all
      obtain ⟨names, rest, rfl⟩ := Option.map_eq_some_iff.mp all
      rw [fields_text separates field, List.length_cons, List.length_cons]
      exact Nat.succ_le_succ (Nat.le_trans (left_fields field) (ih rest))

theorem names_of_covered {text : List Byte} (covered : Covered text) {calls : Nat} (enough : text.length < calls) :
    cslAll 64 calls text = some (fields isSep text) := by
  induction covered generalizing calls with
  | done empty =>
    obtain ⟨calls, rfl⟩ := Nat.exists_eq_succ_of_ne_zero (Nat.ne_zero_of_lt enough)
    rw [cslAll_none empty, fields_empty empty]
  | @name gap run after separates field fits covers rest ih =>
    obtain ⟨calls, rfl⟩ := Nat.exists_eq_succ_of_ne_zero (Nat.ne_zero_of_lt enough)
    have shorter := @left_shorter gap _ _ field
    rw [left_covered fits covers] at shorter
    have whole : (run.take Regex.uint32Max).take 63 = run := by
      rw [List.take_of_length_le (Nat.le_trans fits (by decide)), List.take_of_length_le fits]
    rw [cslAll_name separates field, left_covered fits covers, ih (by omega), fields_behind (Nat.sub_le _ _),
      fields_text separates field, whole]
    rfl

theorem covered_of_names {text : List Byte} {calls : Nat} (all : cslAll 64 calls text = some (fields isSep text)) :
    Covered text := by
  induction calls generalizing text with
  | zero => contradiction
  | succ calls ih =>
    rcases fields_cases isSep text with empty | ⟨gap, run, after, rfl, separates, field⟩
    · exact .done empty
    · rw [cslAll_name separates field, fields_text separates field] at all
      obtain ⟨names, rest, same⟩ := Option.map_eq_some_iff.mp all
      obtain ⟨whole, rfl⟩ := List.cons.inj same
      have fits : run.length ≤ 63 := by
        rw [← whole]
        exact List.length_take_le _ _
      have covers : skipped gap ≤ behind after := by
        by_contra short
        have again := left_again field fits (Nat.lt_of_not_le short)
        exact Nat.not_lt_of_le (fields_le_names rest) again
      apply Covered.name separates field fits covers
      apply ih
      rw [← left_covered fits covers, rest, left_covered fits covers, fields_behind (Nat.sub_le _ _)]

theorem codecsDecode_names {α : Type} (find : List Byte → Option α) {calls : Nat} {pl : List Byte}
    {names : List (List Byte)} (all : cslAll 64 calls pl = some names) (codecl : List α) :
    codecsDecode find calls pl codecl = codecl ++ names.filterMap find := by
  induction calls generalizing pl names codecl with
  | zero => contradiction
  | succ calls ih =>
    rw [cslAll] at all
    rw [codecsDecode]
    cases parsed : cslParse pl 64 with
    | error err =>
      rw [parsed] at all
      obtain rfl := Option.some.inj all
      exact (List.append_nil _).symm
    | ok name =>
      obtain ⟨str, rest⟩ := name
      rw [parsed] at all
      obtain ⟨names, later, rfl⟩ := Option.map_eq_some_iff.mp all
      cases found : find str with
      | none => simp [found, ih later]
      | some ac => simp [found, ih later]

/-- A list of codecs is read as it is written if and only if it is covered. -/
theorem names_iff_covered (aucodecl : List Aucodec) (vidcodecl : List Vidcodec) (csl : List Byte) :
    (cslAll 64 (csl.length + 1) csl = some (fields isSep csl) ∧
      audioCodecsDecode aucodecl csl = (fields isSep csl).filterMap (aucodecFindCsl aucodecl) ∧
      videoCodecsDecode vidcodecl csl = (fields isSep csl).filterMap (vidcodecFind vidcodecl)) ↔ Covered csl := by
  constructor
  · exact fun names => covered_of_names names.1
  · intro covered
    have names := names_of_covered covered (Nat.lt_succ_self _)
    exact ⟨names, codecsDecode_names _ names [], codecsDecode_names _ names []⟩

theorem names_repeated :
    fields isSep (ascii ",a,b") = [ascii "a", ascii "b"] ∧
    cslAll 64 ((ascii ",a,b").length + 1) (ascii ",a,b") = some [ascii "a", ascii "b", ascii "b"] ∧
    audioCodecsDecode [⟨ascii "b", 8000, 1⟩] (ascii ",a,b") = [⟨ascii "b", 8000, 1⟩, ⟨ascii "b", 8000, 1⟩] := by
  rw [ascii_ofList, ascii_ofList, ascii_ofList]
  decide

end Baresip.Csl
