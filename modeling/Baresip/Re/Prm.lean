import Baresip.Re.Conf

set_option linter.dupNamespace false

namespace Baresip.Re

def paramExpr : List Byte := ascii "[ \t\r\n]*[~;]+[;]*"

def nameExpr : List Byte := ascii "[^ \t\r\n=]+[ \t\r\n]*[=]*[ \t\r\n]*[~ \t\r\n]*"

/-- The names and values that the handler of `fmt_param_apply` is called with, in order. -/
def fmtParams : Nat → List Byte → List (Pl × Pl)
  | 0, _ => []
  | fuel + 1, prmv =>
    match reRegex prmv paramExpr with
    | .ok [_, prm, semi] =>
      match reRegex prm.val nameExpr with
      | .ok [name, _, _, _, val] => (name, val) :: fmtParams fuel (prmv.drop (semi.off + semi.val.length))
      | _ => []
    | _ => []

def fmtParamApply (pl : List Byte) : List (Pl × Pl) := fmtParams (pl.length + 1) pl

example : (fmtParamApply (ascii "bitrate=64; frame-size = 640;")).map (fun p => (p.1.val, p.2.val)) =
    [(ascii "bitrate", ascii "64"), (ascii "frame-size", ascii "640")] := by
  rw [ascii_ofList, ascii_ofList, ascii_ofList, ascii_ofList, ascii_ofList]
  decide +kernel

def whites : List Chr := [⟨chr ' ', chr ' '⟩, ⟨chr '\t', chr '\t'⟩, ⟨chr '\r', chr '\r'⟩, ⟨chr '\n', chr '\n'⟩]

def paramItems : List Item :=
  [.cls false false whites 0 Regex.uint32Max, .cls true true [⟨chr ';', chr ';'⟩] 1 Regex.uint32Max,
    .cls false false [⟨chr ';', chr ';'⟩] 0 Regex.uint32Max]

theorem paramExpr_parses : Regex.Parses paramExpr paramItems := by
  have gap : Regex.Opens (ascii "[ \t\r\n]*") false false whites 0 Regex.uint32Max := .ofList fun _ _ _ _ _ _ _ _ _ => rfl
  have prm : Regex.Opens (ascii "[~;]+") true true [⟨chr ';', chr ';'⟩] 1 Regex.uint32Max :=
    .ofList fun _ _ _ _ _ _ _ _ _ => rfl
  have semi : Regex.Opens (ascii "[;]*") false false [⟨chr ';', chr ';'⟩] 0 Regex.uint32Max :=
    .ofList fun _ _ _ _ _ _ _ _ _ => rfl
  exact .ofList (((Regex.Parses.nil.cls semi).cls prm).cls gap)

/-- A class is captured where it starts or behind its quote, and the rest of the pattern comes behind the bytes it
    needs. -/
theorem matchItems_cls_moves {neg qesc : Bool} {chrv : List Chr} {nmin nmax : Nat} {items : List Item} {off : Nat}
    {p : List Byte} {captures : List Pl} (found : matchItems (.cls neg qesc chrv nmin nmax :: items) off p = .ok captures) :
    ∃ pl rest off' p', captures = pl :: rest ∧ off ≤ pl.off ∧ off + nmin ≤ off' ∧
      matchItems items off' p' = .ok rest := by
  rw [matchItems] at found
  generalize counted : Regex.scan chrv neg qesc nmax false false p = n at found
  have taken : off ≤ (if qesc then Regex.stripQuotes ⟨off, p.take n⟩ else ⟨off, p.take n⟩ : Pl).off ∧
      (if qesc then Regex.stripQuotes ⟨off, p.take n⟩ else ⟨off, p.take n⟩ : Pl).val.length ≤ n := by
    have less : (p.take n).length ≤ n := List.length_take_le _ _
    split
    · refine ⟨?_, Nat.le_trans (Regex.stripQuotes_le _) less⟩
      unfold Regex.stripQuotes
      split_ifs
      · exact Nat.le_succ off
      · exact Nat.le_refl off
    · exact ⟨Nat.le_refl off, less⟩
  generalize (if qesc then Regex.stripQuotes _ else _ : Pl) = pl at found taken
  split_ifs at found with short
  rw [not_or, Nat.not_lt] at short
  cases behind : matchItems items (off + n) (p.drop n) with
  | error e =>
    rw [behind] at found
    cases found
  | ok rest =>
    rw [behind] at found
    have enough := Nat.le_trans short.1 taken.2
    exact ⟨pl, rest, off + n, _, (Except.ok.inj found).symm, taken.1, Nat.add_le_add_left enough off, behind⟩

/-- A parameter is not empty, and the semicolons behind it are further on. -/
theorem param_moves {prmv : List Byte} {gap prm semi : Pl} (found : reRegex prmv paramExpr = .ok [gap, prm, semi]) :
    0 < semi.off ∧ semi.off + semi.val.length ≤ prmv.length := by
  have inside := reRegex_inside found semi (by simp)
  refine ⟨?_, inside⟩
  obtain ⟨before, after, -, -, hit, -⟩ :=
    (reRegexFrom_ok paramExpr_parses (List.cons_ne_nil _ _) 0 prmv _).mp found
  obtain ⟨_, _, _, _, whole, -, -, hit⟩ := matchItems_cls_moves hit
  obtain ⟨rfl, rfl⟩ := List.cons.inj whole
  obtain ⟨_, _, _, _, whole, -, some_, hit⟩ := matchItems_cls_moves hit
  obtain ⟨rfl, rfl⟩ := List.cons.inj whole
  obtain ⟨_, _, _, _, whole, behind, -, -⟩ := matchItems_cls_moves hit
  obtain ⟨rfl, rfl⟩ := List.cons.inj whole
  omega

theorem fmtParams_enough {fuel fuel' : Nat} {prmv : List Byte} (enough : prmv.length < fuel)
    (enough' : prmv.length < fuel') : fmtParams fuel prmv = fmtParams fuel' prmv := by
  induction fuel generalizing fuel' prmv with
  | zero => exact absurd enough (Nat.not_lt_zero _)
  | succ fuel ih =>
    cases fuel' with
    | zero => exact absurd enough' (Nat.not_lt_zero _)
    | succ fuel' =>
      unfold fmtParams
      split
      · rename_i gap prm semi found
        obtain ⟨moved, inside⟩ := param_moves found
        have shorter : (prmv.drop (semi.off + semi.val.length)).length < prmv.length := by
          rw [List.length_drop]
          omega
        rw [ih (by omega) (by omega : (prmv.drop (semi.off + semi.val.length)).length < fuel')]
      · rfl

/-- The loop over the parameters ends where none is found. -/
theorem fmtParamApply_step {pl : List Byte} {gap prm semi : Pl} (found : reRegex pl paramExpr = .ok [gap, prm, semi]) :
    fmtParamApply pl =
      match reRegex prm.val nameExpr with
      | .ok [name, _, _, _, val] => (name, val) :: fmtParamApply (pl.drop (semi.off + semi.val.length))
      | _ => [] := by
  have shorter : (pl.drop (semi.off + semi.val.length)).length < pl.length := by
    obtain ⟨moved, inside⟩ := param_moves found
    rw [List.length_drop]
    omega
  rw [fmtParamApply, fmtParams, found]
  simp only [fmtParamApply, fmtParams_enough shorter (Nat.lt_succ_self _)]

end Baresip.Re
