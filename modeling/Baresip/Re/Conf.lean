import Baresip.Re.Pattern

set_option linter.dupNamespace false

namespace Baresip.Re

/-- The expression that finds the value of a key. -/
def confExpr (name : List Byte) : List Byte := ascii "[\r\n]+[ \t]*" ++ name ++ ascii "[ \t]+[~ \t\r\n]+"

/-- The buffer of a configuration begins with a line end before the text of the file. -/
def confAlloc (file : List Byte) : List Byte := chr '\n' :: file

def confGet (conf name : List Byte) : Except Errno Pl := do
  let fields ← reRegex conf (confExpr name)
  match fields with
  | [_, _, _, val] => .ok val
  | _ => .error .EINVAL

/-- The values that the handler of `conf_apply` is called with, in order. -/
def confValues (name : List Byte) : Nat → List Byte → List (List Byte)
  | 0, _ => []
  | fuel + 1, pl =>
    match confGet pl name with
    | .error _ => []
    | .ok val => val.val :: confValues name fuel (pl.drop (val.off + val.val.length))

def confApply (conf name : List Byte) : List (List Byte) := confValues name (conf.length + 1) conf

example : confApply (confAlloc (ascii "module a.so\n#module b.so\n module\t\"c d\"\n")) (ascii "module") =
    [ascii "a.so", ascii "c d"] := by
  rw [ascii_ofList, ascii_ofList, ascii_ofList, ascii_ofList]
  decide +kernel

def lineEnds : List Chr := [⟨chr '\r', chr '\r'⟩, ⟨chr '\n', chr '\n'⟩]

def blanks : List Chr := [⟨chr ' ', chr ' '⟩, ⟨chr '\t', chr '\t'⟩]

def confItems (name : List Byte) : List Item :=
  .cls false false lineEnds 1 Regex.uint32Max :: .cls false false blanks 0 Regex.uint32Max ::
    (name.map .lit ++ [.cls false false blanks 1 Regex.uint32Max, .cls true true (blanks ++ lineEnds) 1 Regex.uint32Max])

theorem conf_parses {name : List Byte} (plain : ∀ c ∈ name, c ≠ chr '\\' ∧ c ≠ chr '[') :
    Regex.Parses (confExpr name) (confItems name) := by
  have ends : Regex.Opens (ascii "[\r\n]+") false false lineEnds 1 Regex.uint32Max := .ofList fun _ _ _ _ _ _ _ _ _ => rfl
  have gap : Regex.Opens (ascii "[ \t]*") false false blanks 0 Regex.uint32Max := .ofList fun _ _ _ _ _ _ _ _ _ => rfl
  have gap' : Regex.Opens (ascii "[ \t]+") false false blanks 1 Regex.uint32Max := .ofList fun _ _ _ _ _ _ _ _ _ => rfl
  have val : Regex.Opens (ascii "[~ \t\r\n]+") true true (blanks ++ lineEnds) 1 Regex.uint32Max :=
    .ofList fun _ _ _ _ _ _ _ _ _ => rfl
  have parses := ((((Regex.Parses.nil.cls val).cls gap').lits plain).cls gap).cls ends
  have whole : confExpr name = ascii "[\r\n]+" ++ (ascii "[ \t]*" ++ (name ++ (ascii "[ \t]+" ++
      (ascii "[~ \t\r\n]+" ++ [])))) := by
    simp [confExpr, ascii]
  rw [whole]
  exact parses

theorem matchItems_lits_ok {cs : List Byte} {items : List Item} {off : Nat} {p : List Byte} {captures : List Pl}
    (found : matchItems (cs.map .lit ++ items) off p = .ok captures) :
    ∃ off' p', matchItems items off' p' = .ok captures := by
  induction cs generalizing off p with
  | nil => exact ⟨off, p, found⟩
  | cons c cs ih =>
    obtain ⟨x, p', -, -, rest⟩ := matchItems_lit_ok found
    exact ih rest

/-- A class with its quantifier captures as much as it has to. -/
theorem matchItems_cls_ok {neg qesc : Bool} {chrv : List Chr} {nmin nmax : Nat} {items : List Item} {off : Nat}
    {p : List Byte} {captures : List Pl} (found : matchItems (.cls neg qesc chrv nmin nmax :: items) off p = .ok captures) :
    ∃ pl rest off' p', captures = pl :: rest ∧ nmin ≤ pl.val.length ∧ matchItems items off' p' = .ok rest := by
  rw [matchItems] at found
  generalize (if qesc then Regex.stripQuotes _ else _ : Pl) = pl at found
  split_ifs at found with short
  rw [not_or, Nat.not_lt] at short
  cases behind : matchItems items _ _ with
  | error e =>
    rw [behind] at found
    contradiction
  | ok rest =>
    rw [behind] at found
    exact ⟨pl, rest, _, _, (Except.ok.inj found).symm, short.1, behind⟩

/-- Every key that is found has a value that is not empty. -/
theorem confGet_ok {conf name : List Byte} {val : Pl} (plain : ∀ c ∈ name, c ≠ chr '\\' ∧ c ≠ chr '[')
    (found : confGet conf name = .ok val) : 0 < val.val.length ∧ val.off + val.val.length ≤ conf.length := by
  unfold confGet at found
  cases fields : reRegex conf (confExpr name) with
  | error e =>
    rw [fields] at found
    cases found
  | ok captures =>
    have inside := reRegex_inside fields
    have some_ : confExpr name ≠ [] := List.cons_ne_nil _ _
    obtain ⟨before, after, -, -, hit, -⟩ := (reRegexFrom_ok (conf_parses plain) some_ 0 conf captures).mp fields
    obtain ⟨ends, rest, _, _, rfl, -, hit⟩ := matchItems_cls_ok hit
    obtain ⟨gap, rest, _, _, rfl, -, hit⟩ := matchItems_cls_ok hit
    obtain ⟨_, _, hit⟩ := matchItems_lits_ok hit
    obtain ⟨gap', rest, _, _, rfl, -, hit⟩ := matchItems_cls_ok hit
    obtain ⟨pl, rest, _, _, rfl, enough, hit⟩ := matchItems_cls_ok hit
    obtain rfl := Except.ok.inj hit
    rw [fields] at found
    obtain rfl := Except.ok.inj found
    exact ⟨enough, inside _ (by simp)⟩

theorem confValues_enough {name : List Byte} (plain : ∀ c ∈ name, c ≠ chr '\\' ∧ c ≠ chr '[') {fuel fuel' : Nat}
    {pl : List Byte} (enough : pl.length < fuel) (enough' : pl.length < fuel') :
    confValues name fuel pl = confValues name fuel' pl := by
  induction fuel generalizing fuel' pl with
  | zero => exact absurd enough (Nat.not_lt_zero _)
  | succ fuel ih =>
    cases fuel' with
    | zero => exact absurd enough' (Nat.not_lt_zero _)
    | succ fuel' =>
      unfold confValues
      cases found : confGet pl name with
      | error e => rfl
      | ok val =>
        obtain ⟨some_, inside⟩ := confGet_ok plain found
        have shorter : (pl.drop (val.off + val.val.length)).length < pl.length := by
          rw [List.length_drop]
          omega
        dsimp only
        rw [ih (by omega) (by omega : (pl.drop (val.off + val.val.length)).length < fuel')]

/-- The loop over the values of a key ends where none is found. -/
theorem confApply_step {name conf : List Byte} (plain : ∀ c ∈ name, c ≠ chr '\\' ∧ c ≠ chr '[') :
    confApply conf name =
      match confGet conf name with
      | .error _ => []
      | .ok val => val.val :: confApply (conf.drop (val.off + val.val.length)) name := by
  rw [confApply, confValues]
  cases found : confGet conf name with
  | error e => rfl
  | ok val =>
    obtain ⟨some_, inside⟩ := confGet_ok plain found
    have shorter : (conf.drop (val.off + val.val.length)).length < conf.length := by
      rw [List.length_drop]
      omega
    dsimp only
    rw [confApply, confValues_enough plain shorter (Nat.lt_succ_self _)]

end Baresip.Re
