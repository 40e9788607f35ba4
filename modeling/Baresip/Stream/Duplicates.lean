import Baresip.Stream.Ordered

set_option linter.dupNamespace false

namespace Baresip.Stream

open Re Library

variable {μ : Type}

/-- The headers and the payloads that are buffered, in their order. -/
def buffered (jb : Jbuf μ) : List (RtpHeader × Option μ) := jb.framel.map fun f => (f.hdr, f.mem)

structure Untouched (jb jb' : Jbuf μ) : Prop where
  buffered : buffered jb' = buffered jb
  n : jb'.n = jb.n
  seqPut : jb'.seqPut = jb.seqPut

/-- A put that returns an error leaves the buffer as it was. -/
def ErrorKeeps (s : Option (Playout μ)) : JbufOp μ → Prop
  | .put hdr mem => ∀ p ∈ s, ∀ err jb', jbufPut p.jb hdr mem = some (some err, jb') → Untouched p.jb jb'
  | .get => True
  | .flush => True

/-- Some frame has the number, and none behind it has a smaller one. -/
def Repeats (framel : List (Frame μ)) (seq : BitVec 16) : Prop :=
  ∃ before g after, framel = before ++ g :: after ∧ g.hdr.seq = seq ∧ ∀ h ∈ after, seqLess h.hdr.seq seq = false

/-- With no free frame left, a packet that is not late repeats none but the oldest one. -/
def Spares (s : Option (Playout μ)) : JbufOp μ → Prop
  | .put hdr _ => ∀ p ∈ s, p.jb.pooll = [] → p.jb.late hdr.seq = false → ¬ Repeats p.jb.framel.tail hdr.seq
  | .get => True
  | .flush => True

theorem seqLess_self (seq : BitVec 16) : seqLess seq seq = false := by simp [seqLess]

theorem insertRev_none_iff (f : Frame μ) (rev : List (Frame μ)) :
    insertRev f rev = none ↔ Repeats rev.reverse f.hdr.seq := by
  induction rev with
  | nil =>
    refine iff_of_false (Option.some_ne_none _) ?_
    rintro ⟨before, g, after, split, -⟩
    exact absurd split.symm (by simp)
  | cons le rest ih =>
    unfold insertRev
    by_cases less : seqLess le.hdr.seq f.hdr.seq = true
    · rw [if_pos less]
      refine iff_of_false (Option.some_ne_none _) ?_
      rintro ⟨before, g, after, split, same, none_⟩
      rw [List.reverse_cons] at split
      rcases List.eq_nil_or_concat' after with rfl | ⟨after', last, rfl⟩
      · obtain ⟨-, here⟩ := List.append_inj' split rfl
        obtain rfl := List.singleton_inj.mp here
        rw [same, seqLess_self] at less
        contradiction
      · rw [← List.cons_append, ← List.append_assoc] at split
        obtain ⟨-, here⟩ := List.append_inj' split rfl
        obtain rfl := List.singleton_inj.mp here
        rw [none_ le (by simp)] at less
        contradiction
    · rw [if_neg less]
      rw [Bool.not_eq_true] at less
      by_cases same : f.hdr.seq = le.hdr.seq
      · rw [if_pos same]
        refine iff_of_true rfl ⟨rest.reverse, le, [], ?_, same.symm, List.forall_mem_nil _⟩
        rw [List.reverse_cons]
      · rw [if_neg same, Option.map_eq_none_iff, ih, List.reverse_cons]
        constructor
        · rintro ⟨before, g, after, split, found, none_⟩
          refine ⟨before, g, after ++ [le], by rw [split]; simp, found, ?_⟩
          intro h member
          rcases List.mem_append.mp member with inside | last
          · exact none_ h inside
          · rw [List.mem_singleton.mp last]
            exact less
        · rintro ⟨before, g, after, split, found, none_⟩
          rcases List.eq_nil_or_concat' after with rfl | ⟨after', last, rfl⟩
          · obtain ⟨-, here⟩ := List.append_inj' split rfl
            obtain rfl := List.singleton_inj.mp here
            exact absurd found.symm same
          · rw [← List.cons_append, ← List.append_assoc] at split
            obtain ⟨front, -⟩ := List.append_inj' split rfl
            exact ⟨before, g, after', front, found, fun h member => none_ h (List.mem_append_left _ member)⟩

theorem insertFrame_none_iff (f : Frame μ) (framel : List (Frame μ)) :
    insertFrame framel f = none ↔ Repeats framel f.hdr.seq := by
  have searched := insertRev_none_iff f framel.reverse
  rw [List.reverse_reverse] at searched
  rw [← searched]
  unfold insertFrame
  cases last : framel.getLast? with
  | none =>
    rw [List.getLast?_eq_none_iff] at last
    rw [last]
    exact iff_of_false nofun nofun
  | some tail =>
    obtain ⟨front, rfl⟩ := List.getLast?_eq_some_iff.mp last
    dsimp only
    by_cases later : seqLess tail.hdr.seq f.hdr.seq = true
    · rw [if_pos later, List.reverse_append]
      simp [insertRev, later]
    · rw [if_neg later, Option.map_eq_none_iff]

/-- A put that fails takes nothing out of the buffer, unless the packet comes again when the buffer is full. -/
theorem jbufPut_error_keeps_iff (jb : Jbuf μ) (hdr : RtpHeader) (mem : μ) :
    (∀ err jb', jbufPut jb hdr mem = some (some err, jb') → Untouched jb jb') ↔
      (jb.pooll = [] → jb.late hdr.seq = false → ¬ Repeats jb.framel.tail hdr.seq) := by
  unfold jbufPut
  by_cases late : jb.late hdr.seq = true
  · rw [if_pos late]
    refine iff_of_true ?_ (fun _ onTime => absurd (late.symm.trans onTime) (by decide))
    intro err jb' result
    obtain ⟨-, rfl⟩ := Prod.mk.inj (Option.some.inj result)
    exact ⟨rfl, rfl, rfl⟩
  · rw [if_neg late]
    unfold frameAlloc
    cases pool : jb.pooll with
    | cons free pooll =>
      refine iff_of_true ?_ fun empty => absurd empty (List.cons_ne_nil _ _)
      intro err jb' result
      dsimp only at result
      cases inserted : insertFrame jb.framel ⟨free.id, hdr, some mem⟩ with
      | none =>
        rw [inserted] at result
        obtain ⟨-, rfl⟩ := Prod.mk.inj (Option.some.inj result)
        exact ⟨rfl, Nat.add_sub_cancel _ _, rfl⟩
      | some framel' =>
        rw [inserted] at result
        cases result
    | nil =>
      cases frames : jb.framel with
      | nil =>
        refine iff_of_true (fun err jb' result => by cases result) ?_
        rintro - - ⟨before, g, after, split, -⟩
        exact absurd split (by simp)
      | cons old framel =>
        have repeats := insertFrame_none_iff ⟨old.id, hdr, some mem⟩ framel
        dsimp only [List.tail_cons]
        rw [Bool.not_eq_true] at late
        cases inserted : insertFrame framel ⟨old.id, hdr, some mem⟩ with
        | none =>
          refine iff_of_false ?_ fun spared => spared rfl late (repeats.mp inserted)
          intro keeps
          have lost := congrArg List.length (keeps .EALREADY _ rfl).buffered
          simp [buffered, Jbuf.release, frames] at lost
        | some framel' =>
          refine iff_of_true (fun err jb' result => by cases result) fun _ _ again => ?_
          have refused := repeats.mpr again
          rw [inserted] at refused
          contradiction

/-- In every use of a buffer, the puts that fail change nothing as long as no packet comes again when the buffer is
    full, except for the oldest one of the buffer. -/
theorem errors_keep_iff (min max : Nat) (ops : List (JbufOp μ)) :
    Along jbufStep ErrorKeeps (some ⟨.new min max, []⟩) ops ↔ Along jbufStep Spares (some ⟨.new min max, []⟩) ops := by
  apply along_congr
  intro s op
  cases op with
  | put hdr mem => exact forall₂_congr fun p _ => jbufPut_error_keeps_iff p.jb hdr mem
  | get => exact .rfl
  | flush => exact .rfl

def packet (seq : BitVec 16) : JbufOp Unit := .put { RtpHeader.zero with seq := seq } ()

theorem duplicate_drops_oldest :
    ¬ Along jbufStep ErrorKeeps (some ⟨.new 1 2, []⟩) [packet 1, packet 2, packet 2] := by
  rintro ⟨-, -, keeps, -⟩
  have lost := (keeps _ rfl .EALREADY _ rfl).n
  exact absurd lost (by decide)

end Baresip.Stream
