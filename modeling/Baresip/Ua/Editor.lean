import Baresip.Re.Mbuf
import Mathlib.Data.List.Basic

set_option linter.dupNamespace false

namespace Baresip.Ua

open Re

def REL : Byte := 0x00
def ESC : Byte := 0x1b
def DEL : Byte := 0x7f
def newline : Byte := 0x0a
def backspace : Byte := 0x08

def isdigit (key : Byte) : Bool := 0x30 ≤ key && key ≤ 0x39

/-- A command, with the bits `CMD_PRM` and `CMD_PROG` of its flags. -/
structure Cmd (H : Type) where
  key : Byte
  prm : Bool
  prog : Bool
  h : Option H

structure CmdArg where
  key : Byte
  prm : Option (List Byte)
  complete : Bool
  deriving DecidableEq, Repr

/-- A command that was found has a handler. -/
structure Found (H : Type) where
  cmd : Cmd H
  h : H
  handler : cmd.h = some h

structure CmdCtx (H : Type) where
  mb : Mbuf
  cmd : Found H

/-- One key as a user interface hands it over: the blocks registered by then, oldest first, and what the
    print function makes of the text that the key prints. -/
structure Input (H : Type) where
  cmdl : List (List (Cmd H))
  key : Byte
  printed : Option Errno

/-- What one key leaves: the editor's context, the handler call that it made and the result. -/
structure Processed (H : Type) where
  ctx : Option (CmdCtx H)
  called : Option (H × CmdArg)
  err : Option Errno

section
variable {H : Type}

def ctxAlloc (cmd : Found H) : CmdCtx H := ⟨Mbuf.alloc 32, cmd⟩

def Cmd.found? (cmd : Cmd H) (key : Byte) : Option (Found H) :=
  if cmd.key = key then cmd.h.attach.map fun h => ⟨cmd, h.1, h.2⟩ else none

def cmdFindByKey (cmdl : List (List (Cmd H))) (key : Byte) : Option (Found H) :=
  cmdl.reverse.findSome? fun cmdv => cmdv.findSome? fun cmd => cmd.found? key

/-- The buffer, whether the edit ends, and the result of printing. -/
def editorInput (mb : Mbuf) (key : Byte) (printed : Option Errno) : Mbuf × Bool × Option Errno :=
  if key = ESC then (mb, true, printed)
  else if key = REL then (mb, false, printed)
  else if key = newline then (mb, true, printed)
  else if key = backspace ∨ key = DEL then
    (if mb.pos > 0 then mb.restart (mb.pos - 1) else mb, false, printed)
  else (mb.writeU8 key, false, printed)

variable (ret : H → CmdArg → Option Errno)

def cmdReport (cmd : Found H) (mb : Mbuf) (compl : Bool) : Mbuf × Option (H × CmdArg) × Option Errno :=
  match (mb.setPos 0).strdup mb.endPos with
  | .error err => (mb.setPos 0, none, some err)
  | .ok (prm, mb) =>
    let arg : CmdArg := ⟨cmd.cmd.key, some prm, compl⟩
    (mb, some (cmd.h, arg), ret cmd.h arg)

def cmdProcessEdit (ctx : CmdCtx H) (key : Byte) (printed : Option Errno) : Processed H :=
  match editorInput ctx.mb key printed with
  | (mb, _, some err) => ⟨some { ctx with mb := mb }, none, some err⟩
  | (mb, del, none) =>
    if mb.endPos ≠ 0 ∧ (key = newline ∨ ctx.cmd.cmd.prog = true) then
      let (mb, called, err) := cmdReport ret ctx.cmd mb (key == newline)
      ⟨if del then none else some { ctx with mb := mb }, called, err⟩
    else ⟨if del then none else some { ctx with mb := mb }, none, none⟩

def cmdProcess (ctx : Option (CmdCtx H)) (input : Input H) : Processed H :=
  match ctx with
  | some ctx => cmdProcessEdit ret ctx input.key input.printed
  | none =>
    match cmdFindByKey input.cmdl input.key with
    | some cmd =>
      if cmd.cmd.prm then
        cmdProcessEdit ret (ctxAlloc cmd) (if isdigit input.key then input.key else 0) input.printed
      else
        let arg : CmdArg := ⟨input.key, none, true⟩
        ⟨none, some (cmd.h, arg), ret cmd.h arg⟩
    | none => ⟨none, none, if input.key = REL then none else input.printed⟩

def cmdRun (ctx : Option (CmdCtx H)) : List (Input H) → List (Processed H)
  | [] => []
  | input :: inputs =>
    let processed := cmdProcess ret ctx input
    processed :: cmdRun processed.ctx inputs

end

/-- What is left of the typed characters after one more key. -/
def typed (text : List Byte) (key : Byte) : List Byte :=
  if key = backspace ∨ key = DEL then text.dropLast
  else if key = REL then text
  else text ++ [key]

/-- An edit in progress: the command it is for and the characters that remain. -/
structure Draft (H : Type) where
  cmd : Found H
  text : List Byte

section
variable {H : Type}

/-- Where an edit goes with a key, and the complete command that the key hands over. -/
def Draft.next (draft : Draft H) (key : Byte) : Option (Draft H) × Option (H × CmdArg) :=
  if key = ESC then (none, none)
  else if key = newline then
    (none, if draft.text = [] then none else some (draft.cmd.h, ⟨draft.cmd.cmd.key, some draft.text, true⟩))
  else (some { draft with text := typed draft.text key }, none)

def Draft.open_ (cmd : Found H) (key : Byte) : Draft H := ⟨cmd, if isdigit key then [key] else []⟩

def editKey (draft : Option (Draft H)) (input : Input H) : Option (Draft H) × Option (H × CmdArg) :=
  match draft with
  | some draft => draft.next input.key
  | none =>
    match cmdFindByKey input.cmdl input.key with
    | some cmd =>
      if cmd.cmd.prm then (some (.open_ cmd input.key), none) else (none, some (cmd.h, ⟨input.key, none, true⟩))
    | none => (none, none)

def editRun (draft : Option (Draft H)) : List (Input H) → List (Option (Draft H) × Option (H × CmdArg))
  | [] => []
  | input :: inputs => editKey draft input :: editRun (editKey draft input).1 inputs

def CmdCtx.draft (ctx : CmdCtx H) : Draft H := ⟨ctx.cmd, (ctx.mb.setPos 0).left⟩

def Processed.edit (processed : Processed H) : Option (Draft H) × Option (H × CmdArg) :=
  (processed.ctx.map CmdCtx.draft, processed.called.filter fun call => call.2.complete)

/-- The context holds the draft's characters, all of them before its position. -/
structure CmdCtx.Edits (ctx : CmdCtx H) (draft : Draft H) : Prop where
  cmd : ctx.cmd = draft.cmd
  holds : ctx.mb.Holds 0 draft.text
  plain : 0 ∉ draft.text

theorem CmdCtx.Edits.draft {ctx : CmdCtx H} {draft : Draft H} (edits : ctx.Edits draft) :
    ctx.draft = draft := by
  rw [CmdCtx.draft, edits.holds.left, edits.cmd]

theorem CmdCtx.Edits.empty {ctx : CmdCtx H} {draft : Draft H} (edits : ctx.Edits draft) :
    ctx.mb.endPos = 0 ↔ draft.text = [] := by
  rw [edits.holds.ends, Nat.zero_add, List.length_eq_zero_iff]

theorem ctxAlloc_edits (cmd : Found H) : (ctxAlloc cmd).Edits ⟨cmd, []⟩ :=
  ⟨rfl, ⟨rfl, rfl, rfl⟩, List.not_mem_nil⟩

theorem editorInput_escape (mb : Mbuf) (printed : Option Errno) :
    editorInput mb ESC printed = (mb, true, printed) := rfl

theorem editorInput_newline (mb : Mbuf) (printed : Option Errno) :
    editorInput mb newline printed = (mb, true, printed) := rfl

theorem editorInput_open {mb : Mbuf} {key : Byte} (printed : Option Errno) (notEsc : key ≠ ESC)
    (notEnter : key ≠ newline) : (editorInput mb key printed).2 = (false, printed) := by
  unfold editorInput
  rw [if_neg notEsc, if_neg notEnter]
  split_ifs <;> rfl

theorem typed_plain {text : List Byte} (plain : 0 ∉ text) (key : Byte) : 0 ∉ typed text key := by
  unfold typed
  split_ifs with erase release
  · exact fun inside => plain ((List.dropLast_sublist text).subset inside)
  · exact plain
  · rw [List.mem_append, List.mem_singleton]
    rintro (inside | zero)
    · exact plain inside
    · exact release zero.symm

theorem holds_erase {mb : Mbuf} {text : List Byte} (holds : mb.Holds 0 text) :
    (if mb.pos > 0 then mb.restart (mb.pos - 1) else mb).Holds 0 text.dropLast := by
  have ends := holds.ends
  have atEnd := holds.atEnd
  by_cases some_ : mb.pos > 0
  · have width : mb.pos - 1 = text.dropLast.length := by rw [List.length_dropLast]; omega
    have shorter : text.dropLast = text.take (mb.pos - 1) := by
      rw [List.dropLast_eq_take, width, List.length_dropLast]
    rw [if_pos some_]
    refine ⟨rfl, by rw [Nat.zero_add]; exact width, ?_⟩
    have content := holds.content
    rw [← width, shorter, ← content, List.take_take]
    congr 1
    omega
  · have none_ : text = [] := List.length_eq_zero_iff.mp (by omega)
    rw [if_neg some_]
    subst none_
    exact holds

theorem editorInput_holds {mb : Mbuf} {text : List Byte} {key : Byte} (printed : Option Errno)
    (holds : mb.Holds 0 text) (notEsc : key ≠ ESC) (notEnter : key ≠ newline) :
    (editorInput mb key printed).1.Holds 0 (typed text key) := by
  unfold editorInput typed
  rw [if_neg notEsc, if_neg notEnter]
  by_cases release : key = REL
  · subst release
    exact holds
  · rw [if_neg release, if_neg release]
    by_cases erase : key = backspace ∨ key = DEL
    · rw [if_pos erase, if_pos erase]
      exact holds_erase holds
    · rw [if_neg erase, if_neg erase]
      exact holds.write [key]

variable (ret : H → CmdArg → Option Errno)

theorem cmdReport_holds {mb : Mbuf} {text : List Byte} (cmd : Found H) (holds : mb.Holds 0 text)
    (plain : 0 ∉ text) (compl : Bool) :
    cmdReport ret cmd mb compl =
      (mb, some (cmd.h, ⟨cmd.cmd.key, some text, compl⟩), ret cmd.h ⟨cmd.cmd.key, some text, compl⟩) := by
  simp only [cmdReport, holds.strdup plain]

theorem cmdProcessEdit_escape (ctx : CmdCtx H) : (cmdProcessEdit ret ctx ESC none).ctx = none ∧
    (cmdProcessEdit ret ctx ESC none).edit.2 = none := by
  simp only [cmdProcessEdit, editorInput_escape]
  split_ifs with report
  · refine ⟨rfl, ?_⟩
    have incomplete : (ESC == newline) = false := rfl
    simp only [incomplete, cmdReport, Processed.edit]
    split <;> rfl
  · exact ⟨rfl, rfl⟩

theorem cmdProcessEdit_newline {ctx : CmdCtx H} {draft : Draft H} (edits : ctx.Edits draft) :
    (cmdProcessEdit ret ctx newline none).edit = draft.next newline := by
  have notEsc : newline ≠ ESC := by decide
  simp only [cmdProcessEdit, editorInput_newline, Draft.next, notEsc, ite_false, ite_true, ne_eq,
    edits.empty, true_or, and_true]
  by_cases empty : draft.text = []
  · simp only [empty, not_true, ite_false, ite_true]
    rfl
  · simp only [empty, not_false_iff, ite_true, ite_false, cmdReport_holds ret _ edits.holds edits.plain,
      edits.cmd]
    rfl

theorem cmdProcessEdit_open {ctx : CmdCtx H} {draft : Draft H} (edits : ctx.Edits draft) {key : Byte}
    (printed : Option Errno) (notEsc : key ≠ ESC) (notEnter : key ≠ newline) :
    ∃ ctx' : CmdCtx H, (cmdProcessEdit ret ctx key printed).ctx = some ctx' ∧
      ctx'.Edits { draft with text := typed draft.text key } ∧
      (cmdProcessEdit ret ctx key printed).edit.2 = none := by
  have input : editorInput ctx.mb key printed = ((editorInput ctx.mb key printed).1, false, printed) :=
    Prod.ext rfl (editorInput_open printed notEsc notEnter)
  have holds := editorInput_holds printed edits.holds notEsc notEnter
  have plain := typed_plain edits.plain key
  have compl : (key == newline) = false := beq_false_of_ne notEnter
  refine ⟨⟨(editorInput ctx.mb key printed).1, ctx.cmd⟩, ?_, ⟨edits.cmd, holds, plain⟩, ?_⟩
  · unfold cmdProcessEdit
    rw [input]
    cases printed with
    | some err => rfl
    | none =>
      simp only [cmdReport_holds ret _ holds plain]
      split <;> rfl
  · unfold cmdProcessEdit Processed.edit
    rw [input]
    cases printed with
    | some err => rfl
    | none =>
      simp only [cmdReport_holds ret _ holds plain, compl]
      split <;> rfl

/-- The keys that end an edit. -/
def Input.Ends (input : Input H) : Prop := input.key = newline ∨ input.key = ESC

/-- What the editor's context and a draft have in common between two keys. -/
def Same : Option (CmdCtx H) → Option (Draft H) → Prop
  | none, none => True
  | some ctx, some draft => ctx.Edits draft
  | _, _ => False

theorem cmdProcessEdit_next {ctx : CmdCtx H} {draft : Draft H} (edits : ctx.Edits draft) (key : Byte)
    (printed : Option Errno) (echoed : key = newline ∨ key = ESC → printed = none) :
    (cmdProcessEdit ret ctx key printed).edit = draft.next key ∧
      Same (cmdProcessEdit ret ctx key printed).ctx (draft.next key).1 := by
  by_cases escape : key = ESC
  · subst escape
    rw [echoed (Or.inr rfl)]
    obtain ⟨released, silent⟩ := cmdProcessEdit_escape ret ctx
    refine ⟨Prod.ext ?_ silent, ?_⟩
    · rw [Processed.edit, released]
      rfl
    · rw [released]
      exact trivial
  · by_cases enter : key = newline
    · subst enter
      rw [echoed (Or.inl rfl)]
      have ended := cmdProcessEdit_newline ret edits
      have released : (cmdProcessEdit ret ctx newline none).ctx = none := by
        have := congrArg Prod.fst ended
        exact Option.map_eq_none_iff.mp this
      refine ⟨ended, ?_⟩
      rw [released]
      exact trivial
    · obtain ⟨ctx', kept, edits', silent⟩ := cmdProcessEdit_open ret edits printed escape enter
      have goes : draft.next key = (some { draft with text := typed draft.text key }, none) := by
        rw [Draft.next, if_neg escape, if_neg enter]
      rw [goes]
      refine ⟨Prod.ext ?_ silent, ?_⟩
      · rw [Processed.edit, kept, Option.map_some, edits'.draft]
      · rw [kept]
        exact edits'

theorem cmdProcessEdit_opens (cmd : Found H) (key : Byte) (printed : Option Errno) :
    (cmdProcessEdit ret (ctxAlloc cmd) (if isdigit key then key else 0) printed).edit =
        (some (.open_ cmd key), none) ∧
      Same (cmdProcessEdit ret (ctxAlloc cmd) (if isdigit key then key else 0) printed).ctx
        (some (.open_ cmd key)) := by
  obtain ⟨stays, starts⟩ : ((if isdigit key then key else 0) ≠ ESC ∧ (if isdigit key then key else 0) ≠ newline) ∧
      typed [] (if isdigit key then key else 0) = (Draft.open_ cmd key).text := by
    simp only [Draft.open_]
    revert key
    decide +kernel
  obtain ⟨ctx, kept, edits, silent⟩ := cmdProcessEdit_open ret (ctxAlloc_edits cmd) printed stays.1 stays.2
  rw [starts] at edits
  refine ⟨Prod.ext ?_ silent, ?_⟩
  · rw [Processed.edit, kept, Option.map_some, edits.draft]
    rfl
  · rw [kept]
    exact edits

theorem cmdProcess_editKey {ctx : Option (CmdCtx H)} {draft : Option (Draft H)} (same : Same ctx draft)
    {input : Input H} (echoed : input.Ends → input.printed = none) :
    (cmdProcess ret ctx input).edit = editKey draft input ∧
      Same (cmdProcess ret ctx input).ctx (editKey draft input).1 := by
  cases ctx with
  | some ctx =>
    cases draft with
    | none => exact same.elim
    | some draft => exact cmdProcessEdit_next ret same input.key input.printed echoed
  | none =>
    cases draft with
    | some draft => exact same.elim
    | none =>
      simp only [cmdProcess, editKey]
      cases cmdFindByKey input.cmdl input.key with
      | none => exact ⟨rfl, trivial⟩
      | some cmd =>
        by_cases prm : cmd.cmd.prm = true
        · simp only [prm, ite_true]
          exact cmdProcessEdit_opens ret cmd input.key input.printed
        · simp only [prm]
          exact ⟨rfl, trivial⟩

/-- Whatever is typed, and whichever commands are registered by then, the editor's context follows the draft,
    and the handlers are given the complete commands of the drafts and nothing else that is complete. -/
theorem cmdRun_edits (inputs : List (Input H)) (echoed : ∀ input ∈ inputs, input.Ends → input.printed = none) :
    (cmdRun ret none inputs).map Processed.edit = editRun none inputs := by
  suffices follows : ∀ {ctx : Option (CmdCtx H)} {draft : Option (Draft H)}, Same ctx draft →
      (cmdRun ret ctx inputs).map Processed.edit = editRun draft inputs from follows trivial
  induction inputs with
  | nil => intros; rfl
  | cons input inputs ih =>
    intro ctx draft same
    obtain ⟨edit, next⟩ := cmdProcess_editKey ret same (echoed input List.mem_cons_self)
    have rest := ih (fun later inside => echoed later (List.mem_cons_of_mem _ inside)) next
    rw [cmdRun, List.map_cons, edit, editRun, rest]

/-- A draft goes through keys that do not end it as a fold over what is typed. -/
theorem editRun_body (draft : Draft H) {body : List (Input H)} (inside : ∀ input ∈ body, ¬ input.Ends)
    (rest : List (Input H)) :
    (editRun (some draft) (body ++ rest)).drop body.length =
        editRun (some { draft with text := (body.map Input.key).foldl typed draft.text }) rest ∧
      ∀ edit ∈ (editRun (some draft) (body ++ rest)).take body.length, edit.1.isSome = true ∧ edit.2 = none := by
  induction body generalizing draft with
  | nil => exact ⟨rfl, fun _ none_ => absurd none_ List.not_mem_nil⟩
  | cons input body ih =>
    obtain ⟨notEnter, notEsc⟩ := not_or.mp (inside input List.mem_cons_self)
    have goes : editKey (some draft) input = (some { draft with text := typed draft.text input.key }, none) := by
      simp only [editKey, Draft.next, if_neg notEnter, if_neg notEsc]
    obtain ⟨after, before⟩ := ih { draft with text := typed draft.text input.key }
      fun later among => inside later (List.mem_cons_of_mem _ among)
    simp only [List.cons_append, editRun, goes, List.length_cons, List.drop_succ_cons, List.take_succ_cons,
      List.map_cons, List.foldl_cons]
    refine ⟨after, ?_⟩
    intro edit among
    rcases List.mem_cons.mp among with rfl | among
    · exact ⟨rfl, rfl⟩
    · exact before edit among

theorem editorInput_printed (mb : Mbuf) (key : Byte) (printed : Option Errno) :
    (editorInput mb key printed).2.2 = printed := by
  unfold editorInput
  split_ifs <;> rfl

/-- A key that cannot be printed calls no handler and keeps the edit open, whichever key it is. -/
theorem cmdProcessEdit_unprinted (ctx : CmdCtx H) (key : Byte) (err : Errno) :
    (cmdProcessEdit ret ctx key (some err)).ctx.isSome = true ∧
      (cmdProcessEdit ret ctx key (some err)).called = none := by
  have input : editorInput ctx.mb key (some err) =
      ((editorInput ctx.mb key (some err)).1, (editorInput ctx.mb key (some err)).2.1, some err) :=
    Prod.ext rfl (Prod.ext rfl (editorInput_printed ctx.mb key (some err)))
  unfold cmdProcessEdit
  rw [input]
  exact ⟨rfl, rfl⟩

end

def dialCmd : Cmd Unit := ⟨0x64, true, true, some ()⟩

def dialKeys : List (Input Unit) := [0x64, 0x31, 0x32, 0x00, DEL, 0x33, newline].map (⟨[[dialCmd]], ·, none⟩)

theorem cmdRun_edits_dial :
    (cmdRun (fun _ _ => none) none dialKeys).map Processed.edit = editRun none dialKeys ∧
      (editRun none dialKeys).getLast?.map Prod.snd = some (some ((), ⟨0x64, some [0x31, 0x33], true⟩)) :=
  ⟨cmdRun_edits (fun _ _ => none) dialKeys (by
    intro input inside _
    obtain ⟨_, _, rfl⟩ := List.mem_map.mp inside
    rfl), by decide⟩

end Baresip.Ua
