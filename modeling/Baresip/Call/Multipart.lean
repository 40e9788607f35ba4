import Baresip.Re.Mark
import Baresip.Re.SdpSession

set_option linter.dupNamespace false

namespace Baresip.Multipart

open Re

/-- What C leaves open: a pattern that reads another number of arguments than it is given, and a part that is not
    inside the message. `unfinished` is the model's own. -/
inductive Fault
  | unfinished
  | arguments
  | outside
  deriving DecidableEq, Repr

/-- A call of `re_regex` with one argument behind the pattern. -/
def search (expr : List Byte) (text : Pl) : Except Fault (Except Errno Pl) :=
  if 1 < argumentsFrom expr text.off text.val then .error .arguments
  else
    match reRegexFrom expr text.off text.val with
    | .ok [pl] => .ok (.ok pl)
    | .ok _ => .error .arguments
    | .error err => .ok (.error err)

/-- The fixed pattern has two classes. -/
def boundaryTag (ctype : List Byte) : Except Errno Pl :=
  match reRegex ctype (ascii "multipart/mixed;[ \t]*boundary=[~]+") with
  | .ok [_, bnd] => .ok bnd
  | .ok _ => .error .EINVAL
  | .error err => .error err

def exprSize : Nat := 64

/-- The printed pattern, with room for its last zero, as `re_regex` reads it. -/
def boundaryExpr (bnd : Pl) : Option (List Byte) :=
  let expr := ascii "--" ++ bnd.val ++ ascii "[^]+"
  if exprSize - 1 < expr.length then none else some (cstr expr)

/-- `mb.pos` goes on to the body by the distance from where it is. -/
def decodePart (part : Pl) (mb : Mbuf) : Mbuf :=
  match reRegexFrom (ascii "\r\n\r\n[^]+") part.off part.val with
  | .ok [body] =>
    let hdrs := part.val.take (body.off - part.off - 2)
    match reRegex hdrs (ascii "application/sdp") with
    | .ok _ => { mb with pos := body.off, endPos := body.off + body.val.length }
    | .error _ => mb
  | _ => mb

/-- The message buffer, and the parts that have been handed to `decodePart`. -/
structure Decoded where
  mb : Mbuf
  handed : List Pl
  deriving DecidableEq, Repr

def Decoded.part (d : Decoded) (part : Pl) : Decoded := ⟨decodePart part d.mb, d.handed ++ [part]⟩

/-- `e.p - p.p - bnd.l - 2`, in the 32 bits of a size. -/
def partLen (s e bnd : Pl) : Nat :=
  (BitVec.ofNat 32 e.off - BitVec.ofNat 32 (s.off + 2) - BitVec.ofNat 32 bnd.val.length - 2).toNat

/-- The loop over the parts. -/
def parts (mb : Mbuf) (expr : List Byte) (bnd : Pl) : Nat → Pl → Decoded → Except Fault Decoded
  | 0, s, d => if 2 < s.val.length then .error .unfinished else .ok d
  | left + 1, s, d =>
    if 2 < s.val.length then
      match search expr s with
      | .error fault => .error fault
      | .ok (.error _) => .ok d
      | .ok (.ok e) =>
        let len := partLen s e bnd
        if mb.endPos < s.off + 2 + len then .error .outside
        else parts mb expr bnd left e (d.part ⟨s.off + 2, (mb.buf.drop (s.off + 2)).take len⟩)
    else .ok d

def decodeMultipartSdp (ctype : List Byte) (mb : Mbuf) : Except Fault (Option Errno × Decoded) :=
  match boundaryTag ctype with
  | .error err => .ok (some err, ⟨mb, []⟩)
  | .ok bnd =>
    match boundaryExpr bnd with
    | none => .ok (some .ENOMEM, ⟨mb, []⟩)
    | some expr =>
      match search expr ⟨mb.pos, mb.left⟩ with
      | .error fault => .error fault
      | .ok (.error err) => .ok (some err, ⟨mb, []⟩)
      | .ok (.ok s) => (parts mb expr bnd s.val.length s ⟨mb, []⟩).map (none, ·)

theorem boundaryExpr_opens {bnd : Pl} {expr : List Byte} (printed : boundaryExpr bnd = some expr) :
    ∃ rest, expr = chr '-' :: rest := by
  unfold boundaryExpr at printed
  dsimp only at printed
  split_ifs at printed
  obtain rfl := Option.some.inj printed
  have dash : (chr '-' != (0 : Byte)) = true := by decide
  exact ⟨_, List.takeWhile_cons_of_pos dash⟩

theorem search_ok {expr : List Byte} {s e : Pl} (found : search expr s = .ok (.ok e)) :
    reRegexFrom expr s.off s.val = .ok [e] := by
  unfold search at found
  split_ifs at found
  split at found
  · rename_i pl captured
    rw [captured, Except.ok.inj (Except.ok.inj found)]
  · contradiction
  · exact nomatch Except.ok.inj found

theorem search_finishes {expr : List Byte} {s : Pl} {fault : Fault} (found : search expr s = .error fault) :
    fault ≠ .unfinished := by
  unfold search at found
  split_ifs at found
  · obtain rfl := Except.error.inj found
    exact nofun
  · split at found
    · contradiction
    · obtain rfl := Except.error.inj found
      exact nofun
    · contradiction

/-- Each round goes on behind a delimiter, so what is left gets shorter. -/
theorem parts_finish {mb : Mbuf} {rest : List Byte} {bnd s : Pl} {d : Decoded} {left : Nat}
    (enough : s.val.length ≤ left) : parts mb (chr '-' :: rest) bnd left s d ≠ .error .unfinished := by
  induction left generalizing s d with
  | zero =>
    rw [parts, if_neg (by omega)]
    exact nofun
  | succ left ih =>
    rw [parts]
    split_ifs
    · cases found : search (chr '-' :: rest) s with
      | error fault => exact fun same => search_finishes found (Except.error.inj same)
      | ok result =>
        cases result with
        | error err => exact nofun
        | ok e =>
          have shorter := reRegexFrom_shorter (by decide) (search_ok found) e (List.mem_singleton_self e)
          dsimp only
          split_ifs
          · exact nofun
          · exact ih (by omega)
    · exact nofun

/-- The search for the parts comes to an end whatever the content type and the message are. -/
theorem decode_finishes (ctype : List Byte) (mb : Mbuf) : decodeMultipartSdp ctype mb ≠ .error .unfinished := by
  unfold decodeMultipartSdp
  cases boundaryTag ctype with
  | error err => exact nofun
  | ok bnd =>
    dsimp only
    cases printed : boundaryExpr bnd with
    | none => exact nofun
    | some expr =>
      obtain ⟨rest, rfl⟩ := boundaryExpr_opens printed
      dsimp only
      cases found : search (chr '-' :: rest) ⟨mb.pos, mb.left⟩ with
      | error fault => exact fun same => search_finishes found (Except.error.inj same)
      | ok result =>
        cases result with
        | error err => exact nofun
        | ok s =>
          dsimp only
          cases run : parts mb (chr '-' :: rest) bnd s.val.length s ⟨mb, []⟩ with
          | error fault =>
            intro same
            obtain rfl := Except.error.inj same
            exact parts_finish (Nat.le_refl _) run
          | ok d => exact nofun

end Baresip.Multipart
