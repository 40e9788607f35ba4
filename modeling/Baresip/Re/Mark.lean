import Baresip.Library.Marks
import Baresip.Re.Pattern

set_option linter.dupNamespace false

namespace Baresip.Re

open Library

/-- A mark stands at the front of a text, in either case, with something behind it. -/
def stands (mark text : List Byte) : Bool :=
  decide (mark.length < text.length) && (text.take mark.length).map tolower == mark.map tolower

def restItem : Item := .cls true false [] 1 Regex.uint32Max

theorem rest_parses : Regex.Parses (ascii "[^]+") [restItem] := by
  have opens : Regex.Opens (ascii "[^]+") true false [] 1 Regex.uint32Max := .ofList fun _ _ _ _ _ _ _ _ _ => rfl
  exact Regex.Parses.nil.cls opens

def behind (mark : List Byte) : List Item := mark.map .lit ++ [restItem]

theorem behind_parses {mark : List Byte} (plain : ∀ c ∈ mark, c ≠ chr '\\' ∧ c ≠ chr '[') :
    Regex.Parses (mark ++ ascii "[^]+") (behind mark) :=
  rest_parses.lits plain

theorem behind_arguments {mark : List Byte} (plain : ∀ c ∈ mark, c ≠ chr '\\' ∧ c ≠ chr '[') (off : Nat)
    (text : List Byte) : argumentsFrom (mark ++ ascii "[^]+") off text ≤ 1 := by
  have rest := Regex.arguments_class (b := ascii "^") (q := chr '+') (by decide) (by decide) Regex.arguments_nil
  exact argumentsFrom_le (Regex.arguments_lits plain rest) off text

theorem stands_cons (c x : Byte) (mark p : List Byte) :
    stands (c :: mark) (x :: p) = (tolower c == tolower x && stands mark p) := by
  have turned : (tolower x == tolower c) = (tolower c == tolower x) := Bool.beq_comm
  cases same : tolower c == tolower x with
  | true => simp [stands, turned, same]
  | false => simp [stands, turned, same]

theorem rest_ok {p : List Byte} (some_ : p ≠ []) (fits : p.length ≤ Regex.uint32Max) (off : Nat) :
    matchItems [restItem] off p = .ok [⟨off, p⟩] := by
  have taken := @matchItems_run true [] 1 p [] fits (List.length_pos_iff.mpr some_) (fun _ _ => rfl) nofun [] off
  rwa [List.append_nil] at taken

theorem behind_ok {mark p : List Byte} {off : Nat} (found : stands mark p = true) (fits : p.length ≤ Regex.uint32Max) :
    matchItems (behind mark) off p = .ok [⟨off + mark.length, p.drop mark.length⟩] := by
  induction mark generalizing off p with
  | nil =>
    have some_ : p ≠ [] := by
      rintro rfl
      contradiction
    exact rest_ok some_ fits off
  | cons c mark ih =>
    cases p with
    | nil => contradiction
    | cons x p =>
      rw [stands_cons, Bool.and_eq_true, beq_iff_eq] at found
      have rest := @ih p (off + 1) found.2 (Nat.le_of_succ_le fits)
      rw [behind, List.map_cons, List.cons_append, matchItems, if_neg (not_not.mpr found.1)]
      rw [behind] at rest
      rw [rest, List.length_cons, List.drop_succ_cons, Nat.add_assoc, Nat.add_comm 1]

theorem behind_again {mark p : List Byte} {off : Nat} (longer : mark.length < p.length) (none_ : stands mark p = false) :
    matchItems (behind mark) off p = .error .again := by
  induction mark generalizing off p with
  | nil =>
    have positive : decide (0 < p.length) = true := decide_eq_true longer
    simp [stands, positive] at none_
  | cons c mark ih =>
    cases p with
    | nil => contradiction
    | cons x p =>
      rw [behind, List.map_cons, List.cons_append, matchItems]
      split_ifs with other
      · rfl
      · rw [stands_cons, beq_iff_eq.mpr (not_not.mp other), Bool.true_and] at none_
        exact ih (Nat.lt_of_succ_lt_succ longer) none_

theorem behind_stands {mark p : List Byte} {off : Nat} {captures : List Pl}
    (found : matchItems (behind mark) off p = .ok captures) : stands mark p = true := by
  induction mark generalizing off p with
  | nil =>
    obtain ⟨-, -, enough, -⟩ := matchItems_many_ok found
    have short : (classRun true [] (p.take Regex.uint32Max)).length ≤ p.length :=
      Nat.le_trans (List.takeWhile_prefix _).length_le (List.length_take_le' _ _)
    have positive : 0 < p.length := Nat.lt_of_lt_of_le enough short
    simp [stands, positive]
  | cons c mark ih =>
    obtain ⟨x, p', rfl, same, rest⟩ := matchItems_lit_ok found
    rw [stands_cons, beq_iff_eq.mpr same, Bool.true_and]
    exact ih rest

theorem stands_longer {mark p : List Byte} (found : stands mark p = true) : mark.length < p.length := by
  rw [stands, Bool.and_eq_true, decide_eq_true_iff] at found
  exact found.1

/-- The search finds where the mark stands first, and yields what is behind it. -/
theorem reRegexFrom_behind {expr mark : List Byte} (parses : Regex.Parses expr (behind mark)) (some_ : expr ≠ [])
    {text : List Byte} (fits : text.length ≤ Regex.uint32Max) (off : Nat) (captures : List Pl) :
    reRegexFrom expr off text = .ok captures ↔
      ∃ before after, text = before ++ after ∧ stands mark after = true ∧
        (∀ i < before.length, stands mark (text.drop i) = false) ∧
        captures = [⟨off + before.length + mark.length, after.drop mark.length⟩] := by
  rw [reRegexFrom_ok parses some_]
  constructor
  · rintro ⟨before, after, rfl, -, hit, missed⟩
    rw [List.length_append] at fits
    have found := behind_stands hit
    refine ⟨before, after, rfl, found, ?_, ?_⟩
    · intro i less
      apply Bool.eq_false_iff.mpr
      intro earlier
      have again := missed i less
      rw [behind_ok earlier (by rw [List.length_drop, List.length_append]; omega)] at again
      contradiction
    · rw [behind_ok found (by omega)] at hit
      exact (Except.ok.inj hit).symm
  · rintro ⟨before, after, rfl, found, missed, rfl⟩
    rw [List.length_append] at fits
    have longer := stands_longer found
    refine ⟨before, after, rfl, ?_, behind_ok found (by omega), ?_⟩
    · rintro rfl
      contradiction
    · intro i less
      exact behind_again (by rw [List.length_drop, List.length_append]; omega) (missed i less)

theorem stands_of_prefix {mark text : List Byte} (front : mark <+: text) (longer : mark.length < text.length) :
    stands mark text = true := by
  rw [stands, decide_eq_true longer, Bool.true_and, beq_iff_eq, ← List.prefix_iff_eq_take.mp front]

theorem stands_split {mark text : List Byte} (found : stands mark text = true) :
    (text.take mark.length).map tolower = mark.map tolower := by
  rw [stands, Bool.and_eq_true, beq_iff_eq] at found
  exact found.2

theorem lits_split {cs p : List Byte} {off : Nat} {captures : List Pl}
    (found : matchItems (cs.map .lit) off p = .ok captures) :
    ∃ word after, p = word ++ after ∧ word.map tolower = cs.map tolower := by
  induction cs generalizing off p with
  | nil => exact ⟨[], p, rfl, rfl⟩
  | cons c cs ih =>
    obtain ⟨x, p', rfl, same, rest⟩ := matchItems_lit_ok found
    obtain ⟨word, after, rfl, same'⟩ := ih rest
    exact ⟨x :: word, after, rfl, by rw [List.map_cons, List.map_cons, same, same']⟩

theorem reRegex_names {expr text : List Byte} {captures : List Pl} (plain : ∀ c ∈ expr, c ≠ chr '\\' ∧ c ≠ chr '[')
    (some_ : expr ≠ []) (found : reRegex text expr = .ok captures) :
    ∃ front word after, text = front ++ word ++ after ∧ word.map tolower = expr.map tolower := by
  obtain ⟨front, rest, rfl, -, hit, -⟩ := (reRegexFrom_ok (.of_lits plain) some_ 0 text captures).mp found
  obtain ⟨word, after, rfl, same⟩ := lits_split hit
  exact ⟨front, word, after, by rw [List.append_assoc], same⟩

end Baresip.Re
