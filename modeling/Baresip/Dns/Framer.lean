import Baresip.Dns.Rr
import Baresip.Library.Deframer
import Baresip.Re.Written

set_option linter.dupNamespace false

namespace Baresip.Dns

open Re Library

/-- What a connection has received: the bytes of a length or of a message, and the length of the message, which is 0
    until it is known. The messages that have been handed over are kept in their order. -/
structure TcpRecv (σ : Type) where
  flen : BitVec 16
  mb : Mbuf
  dnsc : σ
  handed : List (List Byte)

def TcpRecv.init {σ : Type} (dnsc : σ) : TcpRecv σ := ⟨0, Mbuf.alloc 1500, dnsc, []⟩

section
variable {σ ε : Type} (reply : σ → List Byte → Option ε × σ)

/-- The loop goes on when bytes are left, and is left with what `reply_recv` returned. -/
def recvContent (tc : TcpRecv σ) (mbrx : Mbuf) : TcpRecv σ × Mbuf ⊕ TcpRecv σ × Option ε :=
  let n := min (tc.flen.toNat - tc.mb.endPos) mbrx.getLeft
  let mb := tc.mb.writeMem (mbrx.left.take n)
  let mbrx := mbrx.advance n
  if mb.endPos < tc.flen.toNat then .inr ({ tc with mb := mb }, none)
  else
    let msg := mb.buf.take mb.endPos
    match reply tc.dnsc msg with
    | (some err, dnsc) => .inr (⟨tc.flen, mb.setPos 0, dnsc, tc.handed ++ [msg]⟩, some err)
    | (none, dnsc) =>
      let tc := ⟨0, mb.rewind, dnsc, tc.handed ++ [msg]⟩
      if mbrx.getLeft > 0 then .inl (tc, mbrx) else .inr (tc, none)

def recvBody : TcpRecv σ × Mbuf → TcpRecv σ × Mbuf ⊕ TcpRecv σ × Option ε
  | (tc, mbrx) =>
    if tc.flen = 0 then
      let n := min (2 - tc.mb.endPos) mbrx.getLeft
      let mb := tc.mb.writeMem (mbrx.left.take n)
      let mbrx := mbrx.advance n
      if mb.endPos < 2 then .inr ({ tc with mb := mb }, none)
      else
        let (flen, mb) := numDecode 2 (mb.setPos 0)
        recvContent reply { tc with flen := .ofNat 16 flen, mb := mb.rewind } mbrx
    else recvContent reply tc mbrx

def tcpRecvHandler (tc : TcpRecv σ) (mbrx : Mbuf) : Option (TcpRecv σ × Option ε) :=
  loop (recvBody reply) (mbrx.getLeft + 1) (tc, mbrx)

/-- A segment as it is received. -/
def received (segment : List Byte) : Mbuf := ⟨segment, 0, segment.length⟩

/-- An error closes the connection, and nothing is received from a closed one. A call that does not return has no
    result. -/
def recvSegment : Option (TcpRecv σ × Option ε) → List Byte → Option (TcpRecv σ × Option ε)
  | some (tc, none), segment => tcpRecvHandler reply tc (received segment)
  | closed, _ => closed

def recvSegments (tc : TcpRecv σ) (segments : List (List Byte)) : Option (TcpRecv σ × Option ε) :=
  segments.foldl (recvSegment reply) (some (tc, none))

end

/-- Replies with a length of two bytes. -/
def replies : Framing Byte := ⟨2, Nat.zero_lt_succ 1, getBe⟩

/-- A message with its length in front of it. -/
def framed (msg : List Byte) : List Byte := putBe 2 msg.length ++ msg

/-- The bytes end before the message that they start. -/
def Incomplete (bytes : List Byte) : Prop := bytes.length < 2 + getBe (bytes.take 2)

section
variable {σ ε : Type} {reply : σ → List Byte → Option ε × σ} {tc : TcpRecv σ} {mbrx : Mbuf}
  {d : Deframer Byte σ ε}

/-- The buffer holds what the deframer does, and either no length is known or the message is not complete. -/
structure Receives (tc : TcpRecv σ) (d : Deframer Byte σ ε) : Prop where
  held : tc.mb.Written d.held
  atEnd : tc.mb.endPos = d.held.length
  dnsc : tc.dnsc = d.receiver
  handed : tc.handed = d.handed
  running : d.stopped = none

/-- Between two calls either the length or the message is not complete. -/
def Waits (tc : TcpRecv σ) (d : Deframer Byte σ ε) : Prop :=
  (tc.flen = 0 ∧ d.wanted = none ∧ d.held.length < 2) ∨
    (tc.flen ≠ 0 ∧ d.wanted = some tc.flen.toNat ∧ d.held.length < tc.flen.toNat)

/-- What a turn of the loop has made of the bytes in front of those that are left. -/
inductive Turned (reply : σ → List Byte → Option ε × σ) (d : Deframer Byte σ ε) (bytes : List Byte) :
    TcpRecv σ × Mbuf ⊕ TcpRecv σ × Option ε → Prop
  | next {tc : TcpRecv σ} {mbrx : Mbuf} {front : List Byte} (cut : bytes = front ++ mbrx.left) (some_ : front ≠ [])
      (inside : mbrx.endPos ≤ mbrx.buf.length) (receives : Receives tc (d.puts replies reply front))
      (waits : Waits tc (d.puts replies reply front)) : Turned reply d bytes (.inl (tc, mbrx))
  | waiting {tc : TcpRecv σ} (receives : Receives tc (d.puts replies reply bytes))
      (waits : Waits tc (d.puts replies reply bytes)) : Turned reply d bytes (.inr (tc, none))
  | closed {tc : TcpRecv σ} {err : ε} (stopped : (d.puts replies reply bytes).stopped = some err)
      (dnsc : tc.dnsc = (d.puts replies reply bytes).receiver)
      (handed : tc.handed = (d.puts replies reply bytes).handed) : Turned reply d bytes (.inr (tc, some err))

theorem Receives.write (receives : Receives tc d) (piece : List Byte) :
    Receives { tc with mb := tc.mb.writeMem piece } { d with held := d.held ++ piece } where
  held := receives.held.write piece
  atEnd := by
    have length := receives.held.length
    have ends := receives.atEnd
    show max tc.mb.endPos (tc.mb.pos + piece.length) = _
    rw [List.length_append]
    omega
  dnsc := receives.dnsc
  handed := receives.handed
  running := receives.running

theorem Receives.whole (receives : Receives tc d) : tc.mb.buf.take tc.mb.endPos = d.held := by
  have ends : tc.mb.endPos = tc.mb.pos := receives.atEnd.trans receives.held.length.symm
  rw [ends]
  exact receives.held.content

theorem rewind_written (mb : Mbuf) : mb.rewind.Written [] := ⟨rfl, rfl, Nat.le_refl _, Nat.zero_le _⟩

/-- What every reply keeps is kept by a segment. -/
theorem recvContent_kept (P : σ → Prop) (keeps : ∀ dnsc msg, P dnsc → P (reply dnsc msg).2) (holds : P tc.dnsc) :
    (∀ next, recvContent reply tc mbrx = .inl next → P next.1.dnsc) ∧
      ∀ r, recvContent reply tc mbrx = .inr r → P r.1.dnsc := by
  unfold recvContent
  dsimp only
  split
  · exact ⟨nofun, fun r eq => Sum.inr.inj eq ▸ holds⟩
  · have kept := keeps tc.dnsc ((tc.mb.writeMem (mbrx.left.take (min (tc.flen.toNat - tc.mb.endPos) mbrx.getLeft))).buf.take
      (tc.mb.writeMem (mbrx.left.take (min (tc.flen.toNat - tc.mb.endPos) mbrx.getLeft))).endPos) holds
    split
    · rename_i err dnsc result
      rw [result] at kept
      exact ⟨nofun, fun r eq => Sum.inr.inj eq ▸ kept⟩
    · rename_i dnsc result
      rw [result] at kept
      split
      · exact ⟨fun next eq => Sum.inl.inj eq ▸ kept, nofun⟩
      · exact ⟨nofun, fun r eq => Sum.inr.inj eq ▸ kept⟩

theorem tcpRecvHandler_kept (P : σ → Prop) (keeps : ∀ dnsc msg, P dnsc → P (reply dnsc msg).2) (holds : P tc.dnsc)
    {tc' : TcpRecv σ} {err : Option ε} (result : tcpRecvHandler reply tc mbrx = some (tc', err)) : P tc'.dnsc := by
  have body (s : TcpRecv σ × Mbuf) (holds : P s.1.dnsc) :
      (∀ next, recvBody reply s = .inl next → P next.1.dnsc) ∧ ∀ r, recvBody reply s = .inr r → P r.1.dnsc := by
    unfold recvBody
    dsimp only
    split
    · split
      · exact ⟨nofun, fun r eq => Sum.inr.inj eq ▸ holds⟩
      · exact recvContent_kept P keeps holds
    · exact recvContent_kept P keeps holds
  exact Returns.of_invariant (I := fun s => P s.1.dnsc) (Q := fun r => P r.1.dnsc)
    (fun s next kept goes => (body s kept).1 next goes) (fun s r kept ends => (body s kept).2 r ends) holds ⟨_, result⟩

/-- The message is complete, and is handed over. -/
theorem settle_complete {wanted : Nat} {piece : List Byte} (running : d.stopped = none)
    (fits : d.held.length < wanted ∨ wanted = 0 ∧ d.held = []) (full : (d.held ++ piece).length = wanted) :
    (d.settle reply wanted).puts replies reply piece = { d with held := d.held ++ piece }.deliver reply := by
  rcases fits with short | ⟨rfl, empty⟩
  · have some_ : piece ≠ [] := by
      rintro rfl
      rw [List.append_nil] at full
      omega
    have waits : d.settle reply wanted = { d with wanted := some wanted } := if_pos short
    rw [waits]
    exact Deframer.puts_message (d := { d with wanted := some wanted }) running rfl full some_
  · obtain rfl := (List.append_eq_nil_iff.mp (List.eq_nil_of_length_eq_zero full)).2
    rw [List.append_nil]
    exact Deframer.settle_zero

theorem recvContent_turned {d' : Deframer Byte σ ε} {front : List Byte} (inside : mbrx.endPos ≤ mbrx.buf.length)
    (receives : Receives tc d) (fits : d.held.length < tc.flen.toNat ∨ tc.flen.toNat = 0 ∧ d.held = [])
    (some_ : front ≠ [] ∨ d.held.length < tc.flen.toNat)
    (entered : d'.puts replies reply front = d.settle reply tc.flen.toNat) :
    Turned reply d' (front ++ mbrx.left) (recvContent reply tc mbrx) := by
  have left := Mbuf.left_length inside
  have ends := receives.atEnd
  have small : d.held.length ≤ tc.flen.toNat := by
    rcases fits with short | ⟨-, empty⟩
    · exact Nat.le_of_lt short
    · rw [empty]
      exact Nat.zero_le _
  generalize n_eq : min (tc.flen.toNat - tc.mb.endPos) mbrx.getLeft = n
  have written := receives.write (mbrx.left.take n)
  have taken : (mbrx.left.take n).length = n := by
    rw [List.length_take]
    omega
  have length : (d.held ++ mbrx.left.take n).length = d.held.length + n := by
    rw [List.length_append, taken]
  unfold recvContent
  dsimp only
  rw [n_eq]
  have reached := written.atEnd
  dsimp only at reached
  rw [length] at reached
  rw [reached]
  by_cases short : d.held.length + n < tc.flen.toNat
  · rw [if_pos short]
    have all : mbrx.left.take n = mbrx.left := List.take_of_length_le (by omega)
    rw [all] at written length ⊢
    have known : tc.flen ≠ 0 := by
      intro zero
      rw [zero] at short
      exact absurd short (Nat.not_lt_zero _)
    have waits : d.settle reply tc.flen.toNat = { d with wanted := some tc.flen.toNat } := if_pos (by omega)
    have put : d'.puts replies reply (front ++ mbrx.left) =
        { d with wanted := some tc.flen.toNat, held := d.held ++ mbrx.left } := by
      rw [Deframer.puts_append, entered, waits]
      exact Deframer.puts_content (d := { d with wanted := some tc.flen.toNat }) receives.running rfl (length ▸ short)
    refine .waiting ?_ ?_
    · rw [put]
      exact ⟨written.held, written.atEnd, written.dnsc, written.handed, written.running⟩
    · rw [put]
      exact .inr ⟨known, rfl, length ▸ short⟩
  · rw [if_neg short]
    have full : (d.held ++ mbrx.left.take n).length = tc.flen.toNat := by omega
    have put : d'.puts replies reply (front ++ mbrx.left.take n) =
        { d with held := d.held ++ mbrx.left.take n }.deliver reply := by
      rw [Deframer.puts_append, entered]
      exact settle_complete receives.running fits full
    have msg : (tc.mb.writeMem (mbrx.left.take n)).buf.take (d.held.length + n) = d.held ++ mbrx.left.take n := by
      have whole := written.whole
      dsimp only at whole
      rw [reached] at whole
      exact whole
    have whole : front ++ mbrx.left = (front ++ mbrx.left.take n) ++ mbrx.left.drop n := by
      rw [List.append_assoc, List.take_append_drop]
    have dnsc := receives.dnsc
    have handed := receives.handed
    rw [msg, dnsc, handed]
    unfold Deframer.deliver at put
    dsimp only at put
    cases result : reply d.receiver (d.held ++ mbrx.left.take n) with
    | mk err dnsc' =>
      rw [result] at put
      cases err with
      | some err =>
        have stopped : d'.puts replies reply (front ++ mbrx.left) =
            ⟨[], none, dnsc', d.handed ++ [d.held ++ mbrx.left.take n], some err⟩ := by
          rw [whole, Deframer.puts_append, put]
          exact Deframer.puts_stopped rfl
        refine .closed ?_ ?_ ?_ <;> rw [stopped]
      | none =>
        have next : Receives (⟨0, (tc.mb.writeMem (mbrx.left.take n)).rewind, dnsc',
            d.handed ++ [d.held ++ mbrx.left.take n]⟩ : TcpRecv σ)
            (⟨[], none, dnsc', d.handed ++ [d.held ++ mbrx.left.take n], none⟩ : Deframer Byte σ ε) :=
          ⟨rewind_written _, rfl, rfl, rfl, rfl⟩
        have waits : Waits (⟨0, (tc.mb.writeMem (mbrx.left.take n)).rewind, dnsc',
            d.handed ++ [d.held ++ mbrx.left.take n]⟩ : TcpRecv σ)
            (⟨[], none, dnsc', d.handed ++ [d.held ++ mbrx.left.take n], none⟩ : Deframer Byte σ ε) :=
          .inl ⟨rfl, rfl, Nat.zero_lt_succ _⟩
        dsimp only
        split
        · refine .next ?_ ?_ inside (put ▸ next) (put ▸ waits)
          · rw [Mbuf.advance_left]
            exact whole
          · intro empty
            obtain ⟨rfl, none_⟩ := List.append_eq_nil_iff.mp empty
            rw [none_, List.append_nil] at full
            rcases some_ with some_ | short
            · exact some_ rfl
            · omega
        · rename_i rest
          have all : mbrx.left.take n = mbrx.left := List.take_of_length_le (by
            have beyond : ¬ mbrx.endPos - (mbrx.pos + n) > 0 := rest
            unfold Mbuf.getLeft at left
            omega)
          rw [all] at put next waits ⊢
          exact .waiting (put ▸ next) (put ▸ waits)

theorem recvBody_turned (inside : mbrx.endPos ≤ mbrx.buf.length) (receives : Receives tc d) (waits : Waits tc d) :
    Turned reply d mbrx.left (recvBody reply (tc, mbrx)) := by
  unfold recvBody
  rcases waits with ⟨unknown, header, few⟩ | ⟨known, content, few⟩
  · dsimp only
    rw [if_pos unknown]
    have left := Mbuf.left_length inside
    have ends := receives.atEnd
    generalize n_eq : min (2 - tc.mb.endPos) mbrx.getLeft = n
    have written := receives.write (mbrx.left.take n)
    have taken : (mbrx.left.take n).length = n := by
      rw [List.length_take]
      omega
    have length : (d.held ++ mbrx.left.take n).length = d.held.length + n := by
      rw [List.length_append, taken]
    have reached := written.atEnd
    have whole := written.whole
    dsimp only at reached whole
    rw [length] at reached
    rw [reached] at whole ⊢
    split
    · rename_i short
      have all : mbrx.left.take n = mbrx.left := List.take_of_length_le (by omega)
      rw [all] at written length ⊢
      have put : d.puts replies reply mbrx.left = { d with held := d.held ++ mbrx.left } :=
        Deframer.puts_header receives.running header (length ▸ short)
      refine .waiting ?_ ?_
      · rw [put]
        exact written
      · rw [put]
        exact .inl ⟨unknown, header, length ▸ short⟩
    · rename_i long
      have full : d.held.length + n = 2 := by omega
      have some_ : mbrx.left.take n ≠ [] := by
        intro empty
        rw [empty] at taken
        have none_ : n = 0 := taken.symm
        omega
      have put := @Deframer.puts_length _ _ _ replies reply d (mbrx.left.take n) receives.running header
        (length.trans full) some_
      have lt := getBe_lt (d.held ++ mbrx.left.take n)
      rw [length, full] at lt
      have read : numDecode 2 ((tc.mb.writeMem (mbrx.left.take n)).setPos 0) =
          (getBe (d.held ++ mbrx.left.take n), ((tc.mb.writeMem (mbrx.left.take n)).setPos 0).advance 2) := by
        have left2 : ((tc.mb.writeMem (mbrx.left.take n)).setPos 0).left = d.held ++ mbrx.left.take n := by
          show ((tc.mb.writeMem (mbrx.left.take n)).buf.drop 0).take
            ((tc.mb.writeMem (mbrx.left.take n)).endPos - 0) = _
          rw [reached, List.drop_zero, Nat.sub_zero, whole]
        have two : ((tc.mb.writeMem (mbrx.left.take n)).setPos 0).getLeft = 2 := by
          show (tc.mb.writeMem (mbrx.left.take n)).endPos - 0 = 2
          omega
        unfold numDecode
        rw [two, if_pos (Nat.le_refl 2), left2, List.take_of_length_le (Nat.le_of_eq (length.trans full))]
      rw [read]
      dsimp only
      have flen : (BitVec.ofNat 16 (getBe (d.held ++ mbrx.left.take n))).toNat = getBe (d.held ++ mbrx.left.take n) :=
        Nat.mod_eq_of_lt lt
      have turned := @recvContent_turned σ ε reply
        ⟨.ofNat 16 (getBe (d.held ++ mbrx.left.take n)),
          (((tc.mb.writeMem (mbrx.left.take n)).setPos 0).advance 2).rewind, tc.dnsc, tc.handed⟩
        (mbrx.advance n) { d with held := [] } d (mbrx.left.take n) inside
        ⟨rewind_written _, rfl, receives.dnsc, receives.handed, receives.running⟩
        ((Nat.eq_zero_or_pos _).elim (fun zero => .inr ⟨zero, rfl⟩) .inl) (.inl some_)
        (by rw [flen]; exact put)
      rw [Mbuf.advance_left, List.take_append_drop] at turned
      exact turned
  · dsimp only
    rw [if_neg known]
    exact @recvContent_turned σ ε reply tc mbrx d d [] inside receives (.inl few) (.inr few) (Deframer.settle_short content few).symm

theorem Turned.after {front bytes : List Byte} {r : TcpRecv σ × Option ε}
    (turned : Turned reply (d.puts replies reply front) bytes (.inr r)) : Turned reply d (front ++ bytes) (.inr r) := by
  cases turned with
  | waiting receives waits =>
    rw [← Deframer.puts_append] at receives waits
    exact .waiting receives waits
  | closed stopped dnsc handed =>
    rw [← Deframer.puts_append] at stopped dnsc handed
    exact .closed stopped dnsc handed

/-- The loop takes all that has been received, in at most one turn for each byte and one more. -/
theorem tcpRecv_turned {fuel : Nat} (inside : mbrx.endPos ≤ mbrx.buf.length) (receives : Receives tc d)
    (waits : Waits tc d) (enough : mbrx.getLeft < fuel) :
    ∃ r, loop (recvBody reply) fuel (tc, mbrx) = some r ∧ Turned reply d mbrx.left (.inr r) := by
  induction fuel generalizing tc mbrx d with
  | zero => omega
  | succ fuel ih =>
    have turned := @recvBody_turned σ ε reply tc mbrx d inside receives waits
    generalize body : recvBody reply (tc, mbrx) = r at turned
    cases turned with
    | next cut some_ inside' receives' waits' =>
      rename_i tc' mbrx' front
      have shorter : mbrx'.getLeft < fuel := by
        have lengths := congrArg List.length cut
        rw [List.length_append, Mbuf.left_length inside, Mbuf.left_length inside'] at lengths
        have pos := List.length_pos_iff.mpr some_
        omega
      obtain ⟨r, result, turned⟩ := ih inside' receives' waits' shorter
      refine ⟨r, ?_, ?_⟩
      · rw [loop_inl fuel body, result]
      · rw [cut]
        exact turned.after
    | waiting receives' waits' => exact ⟨_, loop_inr fuel body, .waiting receives' waits'⟩
    | closed stopped dnsc handed => exact ⟨_, loop_inr fuel body, .closed stopped dnsc handed⟩

theorem recvSegments_turned (segments : List (List Byte)) (receives : Receives tc d) (waits : Waits tc d) :
    ∃ r, recvSegments reply tc segments = some r ∧ Turned reply d segments.flatten (.inr r) := by
  induction segments generalizing tc d with
  | nil => exact ⟨_, rfl, .waiting receives waits⟩
  | cons segment segments ih =>
    have left : (received segment).left = segment := List.take_length
    obtain ⟨r, result, turned⟩ := @tcpRecv_turned σ ε reply tc (received segment) d _ (Nat.le_refl _) receives waits
      (Nat.lt_succ_self _)
    rw [left] at turned
    have first : recvSegments reply tc (segment :: segments) = segments.foldl (recvSegment reply) (some r) :=
      congrArg (segments.foldl (recvSegment reply)) result
    rw [first]
    rw [List.flatten_cons]
    cases turned with
    | waiting receives' waits' =>
      obtain ⟨r', result', turned'⟩ := ih receives' waits'
      exact ⟨r', result', turned'.after⟩
    | closed stopped dnsc handed =>
      rename_i tc' err
      have still (segments : List (List Byte)) :
          segments.foldl (recvSegment reply) (some (tc', some err)) = some (tc', some err) := by
        induction segments with
        | nil => rfl
        | cons segment segments ih => exact ih
      have same : d.puts replies reply (segment ++ segments.flatten) = d.puts replies reply segment := by
        rw [Deframer.puts_append, Deframer.puts_stopped (by rw [stopped]; rfl)]
      refine ⟨_, still segments, .closed ?_ ?_ ?_⟩ <;> rw [same]
      · exact stopped
      · exact dnsc
      · exact handed

/-- The bytes are the whole messages in their order, and while it runs a part of the next one. -/
def Consumed (d : Deframer Byte σ ε) (bytes : List Byte) : Prop :=
  ∃ rest, bytes = (d.handed.map framed).flatten ++ rest ∧
    (d.stopped = none → (d.wanted = none ∧ rest = d.held ∧ d.held.length < 2) ∨
      ∃ wanted, d.wanted = some wanted ∧ wanted < 2 ^ 16 ∧ d.held.length < wanted ∧ rest = putBe 2 wanted ++ d.held)

theorem settle_consumed {bytes rest : List Byte} {wanted : Nat} (lt : wanted < 2 ^ 16) (fits : d.held.length ≤ wanted)
    (cut : bytes = (d.handed.map framed).flatten ++ rest) (rest_eq : rest = putBe 2 wanted ++ d.held) :
    Consumed (d.settle reply wanted) bytes := by
  unfold Deframer.settle
  split
  · rename_i short
    exact ⟨rest, cut, fun _ => .inr ⟨wanted, rfl, lt, short, rest_eq⟩⟩
  · rename_i long
    have full : d.held.length = wanted := by omega
    refine ⟨[], ?_, fun _ => .inl ⟨rfl, rfl, Nat.zero_lt_succ 1⟩⟩
    rw [cut, rest_eq, ← full]
    simp [Deframer.deliver, framed]

theorem put_consumed {bytes : List Byte} (c : Byte) (consumed : Consumed d bytes) :
    Consumed (d.put replies reply c) (bytes ++ [c]) := by
  obtain ⟨rest, cut, pending⟩ := consumed
  have cut' : bytes ++ [c] = (d.handed.map framed).flatten ++ (rest ++ [c]) := by
    rw [cut, List.append_assoc]
  cases running : d.stopped with
  | some err =>
    have same : d.put replies reply c = d := if_pos (by rw [running]; rfl)
    rw [same]
    exact ⟨rest ++ [c], cut', fun none_ => absurd (running.symm.trans none_) nofun⟩
  | none =>
    rcases pending running with ⟨header, rfl, few⟩ | ⟨wanted, content, lt, few, rest_eq⟩
    · by_cases short : (d.held ++ [c]).length < 2
      · rw [Deframer.put_header running header c short]
        exact ⟨d.held ++ [c], cut', fun _ => .inl ⟨header, rfl, short⟩⟩
      · rw [Deframer.put_length running header c short]
        have length : (d.held ++ [c]).length = 2 := by
          rw [List.length_append, List.length_singleton] at short ⊢
          omega
        have lt := getBe_lt (d.held ++ [c])
        rw [length] at lt
        have back := putBe_getBe (d.held ++ [c])
        rw [length] at back
        refine settle_consumed (d := { d with held := [] }) lt (Nat.zero_le _) cut' ?_
        exact (back.symm.trans (List.append_nil _).symm)
    · rw [Deframer.put_content running content]
      refine settle_consumed (d := { d with held := d.held ++ [c] }) lt ?_ cut' ?_
      · rw [List.length_append]
        exact few
      · rw [rest_eq, List.append_assoc]

theorem puts_consumed {bytes : List Byte} (more : List Byte) (consumed : Consumed d bytes) :
    Consumed (d.puts replies reply more) (bytes ++ more) := by
  induction more generalizing d bytes with
  | nil =>
    rw [List.append_nil]
    exact consumed
  | cons c more ih =>
    have next := ih (@put_consumed _ _ reply _ _ c consumed)
    rw [← List.append_cons] at next
    exact next

theorem Consumed.rest {bytes : List Byte} (consumed : Consumed d bytes) :
    ∃ rest, bytes = (d.handed.map framed).flatten ++ rest ∧ (d.stopped = none → Incomplete rest) := by
  obtain ⟨rest, cut, pending⟩ := consumed
  refine ⟨rest, cut, ?_⟩
  intro running
  unfold Incomplete
  rcases pending running with ⟨-, rfl, few⟩ | ⟨wanted, -, lt, few, rfl⟩
  · omega
  · have head : (putBe 2 wanted ++ d.held).take 2 = putBe 2 wanted := List.take_left' (putBe_length _ _)
    rw [head, getBe_putBe, Nat.mod_eq_of_lt (show wanted < 256 ^ 2 from lt), List.length_append, putBe_length]
    omega

theorem Turned.outcome {bytes : List Byte} {closed : Option ε} (turned : Turned reply d bytes (.inr (tc, closed))) :
    closed = (d.puts replies reply bytes).stopped ∧ tc.handed = (d.puts replies reply bytes).handed ∧
      tc.dnsc = (d.puts replies reply bytes).receiver := by
  cases turned with
  | waiting receives _ => exact ⟨receives.running.symm, receives.handed, receives.dnsc⟩
  | closed stopped dnsc handed => exact ⟨stopped.symm, handed, dnsc⟩

/-- However a stream of replies is cut into segments, the same messages are handed over. They are the messages of the
    stream up to its end, or up to the one that closes the connection. -/
theorem segments_same (reply : σ → List Byte → Option ε × σ) (dnsc : σ) (segments segments' : List (List Byte))
    (same : segments.flatten = segments'.flatten) :
    ∃ tc tc' closed rest, recvSegments reply (.init dnsc) segments = some (tc, closed) ∧
      recvSegments reply (.init dnsc) segments' = some (tc', closed) ∧ tc.handed = tc'.handed ∧ tc.dnsc = tc'.dnsc ∧
      segments.flatten = (tc.handed.map framed).flatten ++ rest ∧ (closed = none → Incomplete rest) := by
  have start : Receives (TcpRecv.init dnsc) (⟨[], none, dnsc, [], none⟩ : Deframer Byte σ ε) :=
    ⟨⟨rfl, rfl, Nat.le_refl 0, Nat.zero_le _⟩, rfl, rfl, rfl, rfl⟩
  have waits : Waits (TcpRecv.init dnsc) (⟨[], none, dnsc, [], none⟩ : Deframer Byte σ ε) :=
    .inl ⟨rfl, rfl, Nat.zero_lt_succ 1⟩
  obtain ⟨⟨tc, closed⟩, result, turned⟩ := @recvSegments_turned _ _ reply _ _ segments start waits
  obtain ⟨⟨tc', closed'⟩, result', turned'⟩ := @recvSegments_turned _ _ reply _ _ segments' start waits
  rw [← same] at turned'
  have consumed := @puts_consumed _ _ reply ⟨[], none, dnsc, [], none⟩ [] segments.flatten
    ⟨[], rfl, fun _ => .inl ⟨rfl, rfl, Nat.zero_lt_succ 1⟩⟩
  rw [List.nil_append] at consumed
  obtain ⟨closed_eq, handed, dnsc_eq⟩ := turned.outcome
  obtain ⟨closed_eq', handed', dnsc_eq'⟩ := turned'.outcome
  obtain ⟨rest, cut, part⟩ := consumed.rest
  rw [closed_eq] at result
  rw [closed_eq'] at result'
  refine ⟨tc, tc', _, rest, result, result', handed.trans handed'.symm, dnsc_eq.trans dnsc_eq'.symm, ?_, part⟩
  rw [handed]
  exact cut

end

/-- A decoder that refuses what is shorter than a header. -/
def replyLong (seen : Nat) (msg : List Byte) : Option Errno × Nat :=
  if msg.length < 12 then (some .EBADMSG, seen) else (none, seen + 1)

def twoReplies : List Byte := framed (List.replicate 12 0x61) ++ framed (List.replicate 13 0x62)

theorem segments_same_two :
    ∃ tc tc' closed rest,
      recvSegments replyLong (.init 0) [twoReplies.take 1, (twoReplies.drop 1).take 15, twoReplies.drop 16] =
        some (tc, closed) ∧
      recvSegments replyLong (.init 0) [twoReplies] = some (tc', closed) ∧ tc.handed = tc'.handed ∧ tc.dnsc = tc'.dnsc ∧
      [twoReplies.take 1, (twoReplies.drop 1).take 15, twoReplies.drop 16].flatten =
        (tc.handed.map framed).flatten ++ rest ∧ (closed = none → Incomplete rest) :=
  segments_same replyLong 0 [twoReplies.take 1, (twoReplies.drop 1).take 15, twoReplies.drop 16] [twoReplies]
    (by decide +kernel)

end Baresip.Dns
