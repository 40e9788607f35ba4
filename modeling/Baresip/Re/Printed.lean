import Baresip.Re.Print
import Baresip.Re.Written

set_option linter.dupNamespace false

namespace Baresip.Re.Print

open Library

/-! The back ends. -/

/-- The memory by its addresses. -/
abbrev Memory := Nat → Byte

def memcpy (mem : Memory) (p : Nat) (data : Text) : Memory :=
  fun a => if p ≤ a then (data[a - p]?).getD (mem a) else mem a

/-- What is left of the buffer of `print_handler`. -/
structure PrintBuf where
  mem : Memory
  p : Nat
  l : Nat

def printHandler (piece : Text) (pl : PrintBuf) : Err × PrintBuf :=
  if piece.length > pl.l then (ENOMEM, pl)
  else (0, ⟨memcpy pl.mem pl.p piece, pl.p + piece.length, pl.l - piece.length⟩)

def reVsnprintf (host : Host) (mem : Memory) (str : Option Nat) (size : Nat) (fmt : Option Text) (ap : List Arg) :
    Option (BitVec 32 × Memory) :=
  match str with
  | none => some (-1, mem)
  | some str =>
    if size = 0 then some (-1, mem)
    else
      let (result, pl) := (reVhprintf host fmt ap).run printHandler ⟨mem, str, size - 1⟩
      result.map fun err =>
        (if err ≠ 0 then -1 else BitVec.ofNat 32 (size - pl.l - 1), memcpy pl.mem (str + (size - pl.l - 1)) [0])

/-- `str` is the whole block, and `p` the place in it. -/
structure DynPrint where
  str : Text
  p : Nat
  l : Nat
  size : Nat

def DynPrint.write (piece : Text) (dp : DynPrint) : DynPrint :=
  { dp with
    str := dp.str.take dp.p ++ piece ++ dp.str.drop (dp.p + piece.length)
    p := dp.p + piece.length
    l := dp.l - piece.length }

/-- `alloc` says which sizes the allocator has a block for. -/
def printHandlerDyn (alloc : Nat → Bool) (piece : Text) (dp : DynPrint) : Err × DynPrint :=
  if piece.length > (if dp.l = 0 then sizeValues - 1 else dp.l - 1) then
    let newSize := max (dp.size + piece.length) (dp.size * 2)
    if alloc newSize then
      let l := dp.l + (newSize - dp.size)
      (0, DynPrint.write piece ⟨dp.str ++ List.replicate (newSize - dp.size) 0, newSize - l, l, newSize⟩)
    else (ENOMEM, dp)
  else (0, dp.write piece)

/-- What is left at `strp` comes with the error. -/
def reVsdprintf (host : Host) (alloc : Nat → Bool) (strp : Bool) (fmt : Option Text) (ap : List Arg) :
    Option (Err × Option Text) :=
  if strp = false then some (EINVAL, none)
  else if alloc 16 = false then some (ENOMEM, none)
  else
    let (result, dp) := (reVhprintf host fmt ap).run (printHandlerDyn alloc) ⟨List.replicate 16 0, 0, 16, 16⟩
    result.map fun err => if err ≠ 0 then (err, none) else (err, some (dp.str.set dp.p 0))

def vprintfHandler (alloc : Nat → Bool) (piece : Text) (mb : Mbuf) : Err × Mbuf :=
  let rsize := mb.pos + piece.length
  if rsize > mb.buf.length ∧ alloc (max rsize (if mb.buf.length = 0 then defaultSize else mb.buf.length * 2)) = false then
    (ENOMEM, mb)
  else (0, mb.writeMem piece)

def mbufVprintf (host : Host) (alloc : Nat → Bool) (mb : Mbuf) (fmt : Option Text) (ap : List Arg) : Option Err × Mbuf :=
  (reVhprintf host fmt ap).run (vprintfHandler alloc) mb

section
variable {host : Host} {fmt : Text} {ap : List Arg} {fields : List Field}

theorem reVhprintf_run {σ : Type} (sink : Text → σ → Err × σ) (s : σ) (matched : fieldsOf host fmt ap = some fields) :
    (reVhprintf host (some fmt) ap).run sink s =
      (some ((inTurn fields).run sink s).1, ((inTurn fields).run sink s).2) := by
  show (vhprintf host fmt (.run []) ap).run sink s = _
  rw [vhprintf_eq matched, Calls.run_bind]
  rfl

/-! The block that grows. -/

/-- The text is at the start of the block, and a terminator fits in behind it. -/
structure Grown (dp : DynPrint) (text : Text) : Prop where
  whole : dp.str.length = dp.size
  place : dp.p + dp.l = dp.size
  room : 0 < dp.l
  content : dp.str.take dp.p = text

theorem Grown.write {dp : DynPrint} {text : Text} (grown : Grown dp text) {piece : Text} (fits : piece.length < dp.l) :
    Grown (dp.write piece) (text ++ piece) := by
  have whole := grown.whole
  have place := grown.place
  have front : (dp.str.take dp.p).length = dp.p := by
    rw [List.length_take]
    omega
  constructor
  · simp only [DynPrint.write, List.length_append, front, List.length_drop]
    omega
  · simp only [DynPrint.write]
    omega
  · simp only [DynPrint.write]
    omega
  · have width : dp.p + piece.length = (dp.str.take dp.p ++ piece).length := by
      rw [List.length_append, front]
    simp only [DynPrint.write, width, List.take_left]
    rw [grown.content]

theorem Grown.grow {dp : DynPrint} {text : Text} (grown : Grown dp text) {newSize : Nat} (more : dp.size ≤ newSize) :
    Grown ⟨dp.str ++ List.replicate (newSize - dp.size) 0, newSize - (dp.l + (newSize - dp.size)),
      dp.l + (newSize - dp.size), newSize⟩ text := by
  have whole := grown.whole
  have place := grown.place
  have room := grown.room
  constructor
  · simp only [List.length_append, List.length_replicate]
    omega
  · dsimp only
    omega
  · dsimp only
    omega
  · have same : newSize - (dp.l + (newSize - dp.size)) = dp.p := by omega
    dsimp only
    rw [same, List.take_append_of_le_length (by omega), grown.content]

theorem noMemory : ENOMEM ≠ 0 := by decide

theorem printHandlerDyn_collects (alloc : Nat → Bool) : Calls.Collects (printHandlerDyn alloc) Grown := by
  intro piece dp text grown taken
  have room := grown.room
  unfold printHandlerDyn at taken ⊢
  rw [if_neg (by omega : ¬ dp.l = 0)] at taken ⊢
  by_cases large : piece.length > dp.l - 1
  · rw [if_pos large] at taken ⊢
    dsimp only at taken ⊢
    split at taken
    · rename_i given
      rw [if_pos given]
      apply (grown.grow (by omega)).write
      dsimp only
      omega
    · exact absurd taken noMemory
  · rw [if_neg large]
    exact grown.write (by omega)

theorem printHandlerDyn_takes {alloc : Nat → Bool} (given : ∀ n, alloc n = true) (piece : Text) (dp : DynPrint) :
    (printHandlerDyn alloc piece dp).1 = 0 := by
  unfold printHandlerDyn
  simp only [given, if_true]
  rw [apply_ite Prod.fst, ite_self]

theorem Grown.finish {dp : DynPrint} {text : Text} (grown : Grown dp text) : ∃ spare, dp.str.set dp.p 0 = text ++ 0 :: spare := by
  have whole := grown.whole
  have place := grown.place
  have room := grown.room
  have inside : dp.p < dp.str.length := by omega
  exact ⟨dp.str.drop (dp.p + 1), by rw [List.set_eq_take_append_cons_drop, if_pos inside, grown.content]⟩

theorem vprintfHandler_collects (alloc : Nat → Bool) : Calls.Collects (vprintfHandler alloc) Mbuf.Written := by
  intro piece mb text written taken
  unfold vprintfHandler at taken ⊢
  by_cases refused : mb.pos + piece.length > mb.buf.length ∧
      alloc (max (mb.pos + piece.length) (if mb.buf.length = 0 then defaultSize else mb.buf.length * 2)) = false
  · simp only [if_pos refused] at taken
    exact absurd taken noMemory
  · simp only [if_neg refused]
    exact written.write piece

theorem vprintfHandler_takes {alloc : Nat → Bool} (given : ∀ n, alloc n = true) (piece : Text) (mb : Mbuf) :
    (vprintfHandler alloc piece mb).1 = 0 := by
  unfold vprintfHandler
  simp [given]

/-! The buffer of a given size. -/

theorem memcpy_append (mem : Memory) (p : Nat) (front data : Text) :
    memcpy (memcpy mem p front) (p + front.length) data = memcpy mem p (front ++ data) := by
  funext a
  unfold memcpy
  by_cases past : p + front.length ≤ a
  · have behind : a - (p + front.length) = a - p - front.length := by omega
    have short : front[a - p]? = none := List.getElem?_eq_none (by omega)
    rw [if_pos past, if_pos (by omega), if_pos (by omega), List.getElem?_append_right (by omega), behind, short]
    rfl
  · rw [if_neg past]
    by_cases from_ : p ≤ a
    · rw [if_pos from_, if_pos from_, List.getElem?_append_left (by omega)]
    · rw [if_neg from_, if_neg from_]

theorem memcpy_nil (mem : Memory) (p : Nat) : memcpy mem p [] = mem := by
  funext a
  simp [memcpy]

theorem memcpy_outside {mem : Memory} {p a : Nat} {data : Text} (outside : a < p ∨ p + data.length ≤ a) :
    memcpy mem p data a = mem a := by
  unfold memcpy
  split
  · rw [List.getElem?_eq_none (by omega)]
    rfl
  · rfl

def readMem (mem : Memory) (p size : Nat) : Text := (List.range size).map fun i => mem (p + i)

theorem readMem_memcpy {mem : Memory} {p size : Nat} {data : Text} (fits : data.length ≤ size) :
    readMem (memcpy mem p data) p size = data ++ readMem mem (p + data.length) (size - data.length) := by
  apply List.ext_getElem
  · simp only [readMem, List.length_map, List.length_range, List.length_append]
    omega
  · intro i inside _
    simp only [readMem, List.getElem_map, List.getElem_range, memcpy, if_pos (Nat.le_add_right p i), Nat.add_sub_cancel_left]
    by_cases front : i < data.length
    · rw [List.getElem_append_left front, List.getElem?_eq_getElem front]
      rfl
    · rw [List.getElem_append_right (by omega), List.getElem?_eq_none (by omega)]
      simp only [List.getElem_map, List.getElem_range, Option.getD_none]
      congr 1
      omega

/-- `print_handler` writes the texts that a room of that size takes one behind the other. -/
def Shows (mem : Memory) (str : Nat) (pl : PrintBuf) (room : Room Byte) : Prop :=
  pl = ⟨memcpy mem str room.text, str + room.text.length, room.left⟩

theorem printHandler_shows (mem : Memory) (str : Nat) (piece : Text) (pl : PrintBuf) (room : Room Byte)
    (shows_ : Shows mem str pl room) : (printHandler piece pl).1 = (Room.put ENOMEM piece room).1 ∧
      Shows mem str (printHandler piece pl).2 (Room.put ENOMEM piece room).2 := by
  obtain rfl := shows_
  by_cases fits : piece.length ≤ room.left
  · rw [Room.put_fits fits, printHandler, if_neg (Nat.not_lt.mpr fits)]
    refine ⟨rfl, ?_⟩
    simp only [Shows, memcpy_append, List.length_append, Nat.add_assoc]
  · rw [Room.put_large fits, printHandler, if_pos (Nat.lt_of_not_le fits)]
    exact ⟨rfl, rfl⟩

theorem reVsnprintf_eq (matched : fieldsOf host fmt ap = some fields) (mem : Memory) (str : Nat) {size : Nat}
    (some_ : 0 < size) : ∃ err text left, (inTurn fields).run (Room.put ENOMEM) ⟨size - 1, []⟩ = (err, ⟨left, text⟩) ∧
      left + text.length = size - 1 ∧ reVsnprintf host mem (some str) size (some fmt) ap =
        some (if err ≠ 0 then -1 else BitVec.ofNat 32 text.length, memcpy mem str (text ++ [0])) := by
  have start : Shows mem str ⟨mem, str, size - 1⟩ ⟨size - 1, []⟩ := by
    rw [Shows, memcpy_nil]
    rfl
  obtain ⟨answer, shown⟩ := Calls.run_alike (printHandler_shows mem str) (inTurn fields) start
  obtain ⟨text, written, left⟩ := Room.run_extends ENOMEM (inTurn fields) ⟨size - 1, []⟩
  rw [List.nil_append] at written
  refine ⟨_, text, _, Prod.ext rfl (by rw [← written]), left, ?_⟩
  rw [Shows] at shown
  rw [reVsnprintf]
  dsimp only
  rw [if_neg (by omega), reVhprintf_run printHandler _ matched, answer, shown, Option.map_some]
  dsimp only
  have count : size - ((inTurn fields).run (Room.put ENOMEM) ⟨size - 1, []⟩).2.left - 1 = text.length := by
    dsimp only at left
    omega
  rw [count, written, memcpy_append]

/-! Where the room ends. -/

theorem sendAll_written (ps : List Text) (left : Nat) (text : Text) :
    ((sendAll ps).run (Room.put ENOMEM) ⟨left, text⟩).2.text = text ++ Room.fitting left ps := by
  induction ps generalizing left text with
  | nil => exact (List.append_nil text).symm
  | cons piece ps ih =>
    simp only [sendAll, also, send, Calls.call_bind, Calls.done_bind, Calls.run_call, Calls.run_bind, Calls.run_done]
    rw [Room.fitting]
    by_cases fits : piece.length ≤ left
    · rw [Room.put_fits fits, if_pos fits, ih, List.append_assoc]
    · rw [Room.put_large fits, if_neg fits, ih]

theorem sendAll_tidy (ps : List Text) (left : Nat) : Room.Tidy ENOMEM 0 (sendAll ps) left ↔ Room.Ends 0 left ps := by
  induction ps generalizing left with
  | nil => exact Iff.rfl
  | cons piece ps ih =>
    have goes : ((sendAll ps).bind fun e => .done (0 ||| e)) = sendAll ps := nothing_also (sendAll ps)
    simp only [sendAll, also, send, Calls.call_bind, Calls.done_bind]
    rw [Room.Tidy, Room.Ends]
    by_cases fits : piece.length ≤ left
    · rw [if_pos fits, if_pos fits, goes, ih]
    · rw [if_neg fits, if_neg fits, Calls.run_bind, Calls.run_done, sendAll_written, List.nil_append]

/-- The room ends within the field, and behind the first piece that does not fit in only a beginning of it is written. -/
def Field.Ends (left : Nat) : Field → Prop
  | literal _ => True
  | conversion _ (.routine ph) => Room.Tidy ENOMEM 0 ph.calls left
  | conversion sp conv => Room.Ends 0 left (conv.pieces sp)

/-- The same of the first field that does not fit in; a terminator in front of it ends the text that is read. -/
def EndsWithin (left : Nat) : List Field → Prop
  | [] => True
  | field :: fields =>
    if field.text.length ≤ left then 0 ∈ field.text ∨ EndsWithin (left - field.text.length) fields
    else field.Ends left

theorem Field.tidy_iff (field : Field) (left : Nat) : Room.Tidy ENOMEM 0 field.calls left ↔ field.Ends left := by
  cases field with
  | literal run =>
    rw [calls, ← sendAll_single, sendAll_tidy, Room.Ends]
    split
    · exact iff_of_true (.inr trivial) trivial
    · exact iff_of_true List.nil_prefix trivial
  | conversion sp conv =>
    rw [calls, Conversion.calls_eq]
    cases conv with
    | routine ph => exact Iff.rfl
    | _ => exact sendAll_tidy _ left

theorem inTurn_tidy {left : Nat} (short : left < (inTurn fields).text.length) :
    Room.Tidy ENOMEM 0 (inTurn fields) left ↔ EndsWithin left fields := by
  induction fields generalizing left with
  | nil => exact absurd short (Nat.not_lt_zero _)
  | cons field fields ih =>
    have stops (err : Err) (wrong : err ≠ 0) :
        ∃ err', (if err = 0 then inTurn fields else .done err) = .done err' := ⟨err, if_neg wrong⟩
    rw [inTurn, Calls.text_bind, Field.calls_text, List.length_append] at short
    rw [inTurn, Room.tidy_bind noMemory field.calls_reports stops, Field.calls_text, EndsWithin]
    by_cases fits : field.text.length ≤ left
    · rw [if_pos fits, if_pos fits]
      split at short
      · rename_i success
        rw [if_pos success, ih (by omega)]
      · rw [Calls.text_done, List.length_nil] at short
        omega
    · rw [if_neg fits, if_neg fits, Field.tidy_iff]

/-- The buffer holds a beginning of the text with its terminator, and nothing else has changed. -/
def Truncated (mem : Memory) (str size : Nat) (text : Text) (out : BitVec 32 × Memory) : Prop :=
  out.1 = -1 ∧ (∃ front spare, front <+: text ∧ readMem out.2 str size = front ++ 0 :: spare) ∧
    ∀ a, a < str ∨ str + size ≤ a → out.2 a = mem a

/-- A string ends with its first terminator. -/
theorem string_end (written more : Text) :
    ∃ spare, written ++ 0 :: more = written.takeWhile (· ≠ 0) ++ 0 :: spare := by
  induction written with
  | nil => exact ⟨more, rfl⟩
  | cons c written ih =>
    by_cases ends : c = 0
    · exact ⟨written ++ 0 :: more, by simp [ends]⟩
    · obtain ⟨spare, same⟩ := ih
      exact ⟨spare, by rw [List.takeWhile_cons_of_pos (by simpa using ends), List.cons_append, List.cons_append, same]⟩

theorem string_read (front spare : Text) : (front ++ 0 :: spare).takeWhile (· ≠ 0) = front.takeWhile (· ≠ 0) := by
  induction front with
  | nil => rfl
  | cons c front ih => simp only [List.cons_append, List.takeWhile_cons, ih]

theorem truncated_iff {mem : Memory} {str size : Nat} {text written : Text} (fits : written.length < size) :
    Truncated mem str size text (-1, memcpy mem str (written ++ [0])) ↔ written.takeWhile (· ≠ 0) <+: text := by
  have shown : readMem (memcpy mem str (written ++ [0])) str size = written ++ 0 :: readMem mem
      (str + (written.length + 1)) (size - (written.length + 1)) := by
    rw [readMem_memcpy (by simp; omega), List.length_append, List.append_assoc]
    rfl
  constructor
  · intro truncated
    obtain ⟨-, ⟨front, spare, begins, same⟩, -⟩ := truncated
    have heads := congrArg (List.takeWhile (· ≠ 0)) (shown.symm.trans same)
    rw [string_read, string_read] at heads
    rw [heads]
    exact (List.takeWhile_prefix _).trans begins
  · intro begins
    obtain ⟨spare, same⟩ := string_end written (readMem mem (str + (written.length + 1)) (size - (written.length + 1)))
    refine ⟨rfl, ⟨_, spare, begins, shown.trans same⟩, ?_⟩
    intro a outside
    apply memcpy_outside
    rw [List.length_append, List.length_singleton]
    omega

/-- The three printers come to the same text and the same error, as far as there is memory. -/
structure Prints (host : Host) (fmt : Text) (ap : List Arg) (err : Err) (text : Text) : Prop where
  dynamic (alloc : Nat → Bool) : ∃ e out, reVsdprintf host alloc true (some fmt) ap = some (e, out) ∧
    ((∀ n, alloc n = true) → e = err) ∧ (e = 0 → err = 0 ∧ ∃ spare, out = some (text ++ 0 :: spare)) ∧ (e ≠ 0 → out = none)
  buffer (alloc : Nat → Bool) {mb : Mbuf} {bytes : Text} (written : mb.Written bytes) :
    ∃ e mb', mbufVprintf host alloc mb (some fmt) ap = (some e, mb') ∧ ((∀ n, alloc n = true) → e = err) ∧
      (e = 0 → err = 0 ∧ mb'.Written (bytes ++ text))
  bounded (mem : Memory) (str : Nat) {size : Nat} (large : text.length < size) :
    reVsnprintf host mem (some str) size (some fmt) ap =
      some (if err ≠ 0 then -1 else BitVec.ofNat 32 text.length, memcpy mem str (text ++ [0]))

theorem dynamic_prints (matched : fieldsOf host fmt ap = some fields) {alloc : Nat → Bool} (first : alloc 16 = true) :
    ∃ e out, reVsdprintf host alloc true (some fmt) ap = some (e, out) ∧
      ((∀ n, alloc n = true) → e = (inTurn fields).outcome) ∧
      (e = 0 → (inTurn fields).outcome = 0 ∧ ∃ spare, out = some ((inTurn fields).text ++ 0 :: spare)) ∧
      (e ≠ 0 → out = none) := by
  have start : Grown ⟨List.replicate 16 0, 0, 16, 16⟩ [] := ⟨rfl, rfl, by decide, rfl⟩
  have collects := printHandlerDyn_collects alloc
  have all (given : ∀ n, alloc n = true) :=
    (Calls.run_taken (c := inTurn fields) collects (printHandlerDyn_takes given) start).1
  rw [reVsdprintf, if_neg (by decide), if_neg (by rw [first]; decide), reVhprintf_run _ _ matched]
  dsimp only [Option.map_some]
  by_cases failed : ((inTurn fields).run (printHandlerDyn alloc) ⟨List.replicate 16 0, 0, 16, 16⟩).1 ≠ 0
  · rw [if_pos failed]
    exact ⟨_, _, rfl, all, fun success => absurd success failed, fun _ => rfl⟩
  · rw [if_neg failed]
    refine ⟨_, _, rfl, all, fun success => ?_, fun wrong => absurd wrong failed⟩
    obtain ⟨same, grown⟩ := (inTurn_reports fields).run collects start failed
    obtain ⟨spare, finished⟩ := grown.finish
    exact ⟨same.symm.trans success, spare, congrArg some finished⟩

theorem prints (matched : fieldsOf host fmt ap = some fields) :
    Prints host fmt ap (inTurn fields).outcome (inTurn fields).text := by
  constructor
  · intro alloc
    by_cases first : alloc 16 = true
    · exact dynamic_prints matched first
    · have refused : alloc 16 = false := Bool.eq_false_iff.mpr first
      refine ⟨ENOMEM, none, ?_, fun given => absurd (given 16) first, fun success => absurd success noMemory, fun _ => rfl⟩
      simp [reVsdprintf, refused]
  · intro alloc mb bytes written
    have collects := vprintfHandler_collects alloc
    refine ⟨_, _, reVhprintf_run _ _ matched, fun given => ?_, fun success => ?_⟩
    · exact (Calls.run_taken collects (vprintfHandler_takes given) written).1
    · obtain ⟨same, held⟩ := (inTurn_reports fields).run collects written (not_not.mpr success)
      exact ⟨same.symm.trans success, held⟩
  · intro mem str size large
    obtain ⟨err, text, left, ran, -, result⟩ := reVsnprintf_eq matched mem str (Nat.lt_of_le_of_lt (Nat.zero_le _) large)
    rw [Room.run_fits (by dsimp only; omega)] at ran
    obtain ⟨rfl, room⟩ := Prod.mk.inj ran
    obtain ⟨-, rfl⟩ := Room.mk.inj room
    exact result

/-- The room ends within the text. -/
theorem reVsnprintf_short (matched : fieldsOf host fmt ap = some fields) (mem : Memory) (str : Nat) {size : Nat}
    (some_ : 0 < size) (small : size ≤ (inTurn fields).text.length) {out : BitVec 32 × Memory}
    (printed : reVsnprintf host mem (some str) size (some fmt) ap = some out) :
    Truncated mem str size (inTurn fields).text out ↔ EndsWithin (size - 1) fields := by
  obtain ⟨err, text, left, ran, room, result⟩ := reVsnprintf_eq matched mem str some_
  have short : size - 1 < (inTurn fields).text.length := by omega
  have failed : err ≠ 0 := by
    have wrong := Room.run_short noMemory (inTurn_reports fields) (r := ⟨size - 1, []⟩) short
    rw [ran] at wrong
    exact wrong
  rw [result, if_pos failed] at printed
  obtain rfl := Option.some.inj printed
  have written := Room.tidy_iff (List.not_mem_nil : (0 : Byte) ∉ []) ENOMEM (inTurn fields) (size - 1)
  rw [ran, List.nil_append] at written
  rw [truncated_iff (by omega), ← inTurn_tidy short]
  exact written

theorem ends_sign {prfx : Option Text} (sign : strLen prfx ≤ 1) (signed : 0 ∉ prfx.getD []) (left : Nat) (ps : List Text) :
    Room.Ends 0 left (prfx.toList ++ ps) ↔ (strLen prfx ≤ left → Room.Ends 0 (left - strLen prfx) ps) := by
  cases prfx with
  | none => simp [strLen]
  | some sign_ =>
    have plain : 0 ∉ sign_ := signed
    rw [strLen_some] at sign ⊢
    rw [Option.toList_some, List.singleton_append, Room.Ends, or_iff_right plain]
    by_cases fits : sign_.length ≤ left
    · rw [if_pos fits]
      simp [fits]
    · have none_ : left = 0 := by omega
      rw [if_neg fits, none_, Room.fitting_zero]
      exact iff_of_true List.nil_prefix fun large => absurd (none_ ▸ large) fits

theorem ends_body (p : Option Text) (left : Nat) : Room.Ends 0 left (bodyOf p) := by
  unfold bodyOf
  split
  · cases p with
    | none => trivial
    | some body =>
      rw [Option.toList_some, Room.Ends]
      split
      · exact .inr trivial
      · exact List.nil_prefix
  · trivial

theorem ends_padding {c : Byte} (visible : c ≠ 0) (body : Text) (left n : Nat) :
    Room.Ends 0 left (bodyOf (some body) ++ List.replicate n [c]) ↔
      (left < body.length → List.replicate (min n left) c <+: body) := by
  have padding (left : Nat) : Room.Ends 0 left (List.replicate n [c]) := by
    have blanks := Room.ends_replicate visible left n []
    rw [List.append_nil] at blanks
    exact blanks.mpr fun _ => trivial
  by_cases empty : body.length = 0
  · rw [bodyOf, strLen_some, if_neg (not_not.mpr empty), List.nil_append]
    exact iff_of_true (padding left) fun short => absurd short (by omega)
  · rw [bodyOf, strLen_some, if_pos empty, Option.toList_some, List.singleton_append, Room.Ends]
    by_cases fits : body.length ≤ left
    · rw [if_pos fits]
      exact iff_of_true (.inr (padding _)) fun short => absurd short (by omega)
    · have shown : (List.replicate (min n left) c).takeWhile (· ≠ 0) = List.replicate (min n left) c := by
        apply List.takeWhile_eq_self_iff.mpr
        intro x member
        rw [List.eq_of_mem_replicate member]
        simpa using visible
      rw [if_neg fits, Room.fitting_replicate, shown]
      exact ⟨fun begins _ => begins, fun begins => begins (by omega)⟩

/-- In a field with at most a sign in front of its body, padding can fit in behind a body that does not. -/
theorem padded_ends {pad : Nat} {pch : Byte} {plr : Bool} {prfx : Option Text} {body : Text} (sign : strLen prfx ≤ 1)
    (visible : pch ≠ 0) (signed : 0 ∉ prfx.getD []) (left : Nat) :
    Room.Ends 0 left (Padded.pieces ⟨pad, pch, plr, prfx, bodyOf (some body)⟩) ↔
      (plr = true → strLen prfx ≤ left → left < strLen prfx + body.length →
        List.replicate (min (pad - (strLen prfx + body.length)) (left - strLen prfx)) pch <+: body) := by
  have rendering : (Padded.rendering ⟨pad, pch, plr, prfx, bodyOf (some body)⟩).length = strLen prfx + body.length := by
    rw [Padded.rendering, List.length_append, bodyOf_length]
    rfl
  have behind {ps : List Text} (all : ∀ left, Room.Ends 0 left ps) (left : Nat) :
      Room.Ends 0 left (prfx.toList ++ ps) := (ends_sign sign signed left ps).mpr fun _ => all _
  have blanks {ps : List Text} (n : Nat) (all : ∀ left, Room.Ends 0 left ps) (left : Nat) :
      Room.Ends 0 left (List.replicate n [pch] ++ ps) := (Room.ends_replicate visible left n ps).mpr fun _ => all _
  rw [Padded.pieces, Padded.padding, rendering]
  cases plr with
  | false =>
    have right (n : Nat) : Room.Ends 0 left ((if pch = chr '0' then prfx.toList else []) ++
        (List.replicate n [pch] ++ ((if pch ≠ chr '0' then prfx.toList else []) ++ bodyOf (some body)))) := by
      by_cases zero : pch = chr '0'
      · rw [if_pos zero, if_neg (not_not.mpr zero), List.nil_append]
        exact behind (blanks n (ends_body _)) left
      · rw [if_neg zero, if_pos zero, List.nil_append]
        exact blanks n (behind (ends_body _)) left
    simp only [Bool.false_eq_true, if_false, List.append_nil, false_imp_iff]
    exact iff_of_true (right _) trivial
  | true =>
    have front : (if pch = chr '0' then prfx.toList else []) ++ (if pch ≠ chr '0' then prfx.toList else []) =
        prfx.toList := by
      by_cases zero : pch = chr '0' <;> simp [zero]
    simp only [if_true, List.nil_append, true_imp_iff]
    rw [← List.append_assoc, front, ends_sign sign signed, ends_padding visible]
    constructor
    · intro cut fits short
      exact cut fits (by omega)
    · intro cut fits short
      exact cut fits (by omega)

theorem text_ends (sp : Spec) (p : Text) (left : Nat) : (Field.conversion sp (.text (some p))).Ends left ↔
    (sp.plr = true → left < p.length → List.replicate (min (sp.pad - p.length) left) (chr ' ') <+: p) := by
  show Room.Ends 0 left (Padded.pieces _ ++ []) ↔ _
  rw [List.append_nil, padded_ends (by decide) (by decide) (by simp)]
  simp [strLen]

theorem number_ends (sp : Spec) (num : Text) {prfx : Option Text} (sign : strLen prfx ≤ 1) (signed : 0 ∉ prfx.getD [])
    (visible : sp.pch ≠ 0) (left : Nat) : (Field.conversion sp (.number num prfx)).Ends left ↔
      (sp.plr = true → strLen prfx ≤ left → left < strLen prfx + num.length →
        List.replicate (min (sp.pad - (strLen prfx + num.length)) (left - strLen prfx)) (chr ' ') <+: num) := by
  show Room.Ends 0 left (Padded.pieces _ ++ []) ↔ _
  cases side : sp.plr with
  | false =>
    rw [List.append_nil, padded_ends sign (by simpa using visible) signed]
    simp
  | true =>
    rw [List.append_nil, if_pos rfl, padded_ends sign (by decide) signed]

def Field.segments : Field → List Padded
  | literal _ => []
  | conversion sp conv => conv.segments sp

end

def plainHost : Host := ⟨fun _ => ascii "unknown error", fun _ => none, true⟩

def countFields : List Field :=
  [.literal (ascii "x="), .conversion ⟨false, 5, chr ' ', 0⟩ (.number (ascii "42") none)]

example : (inTurn countFields).text = ascii "x=   42" := by decide +kernel

def nameFields : List Field := [.conversion ⟨true, 10, chr ' ', 0⟩ (.text (some (ascii "abcde")))]

end Baresip.Re.Print
