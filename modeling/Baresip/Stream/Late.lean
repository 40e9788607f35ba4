import Baresip.Stream.Ordered

set_option linter.dupNamespace false

namespace Baresip.Stream

open Re Library

variable {μ : Type}

/-- The operations between two flushes, on packets of one window. -/
def JbufOp.InStream (base : BitVec 16) : JbufOp μ → Prop
  | .put hdr _ => InWindow base hdr.seq
  | .get => True
  | .flush => False

/-- What has been played is in strictly increasing order. -/
def InTurn (base : BitVec 16) (s : Option (Playout μ)) : Prop :=
  ∀ p ∈ s, (p.played.map fun out => offset base out.1.seq).Pairwise (· < ·)

/-- A packet that does not come after the last one played is refused as a late one. -/
def Playout.Punctual (p : Playout μ) (seq : BitVec 16) : Prop :=
  p.jb.late seq = true ∨ ∀ last ∈ p.played.getLast?, seqLess last.1.seq seq = true

def Punctual (s : Option (Playout μ)) : JbufOp μ → Prop
  | .put hdr _ => ∀ p ∈ s, p.Punctual hdr.seq
  | .get => True
  | .flush => True

/-- What has been played and what is to be played. -/
def Playout.sequence (base : BitVec 16) (p : Playout μ) : List Nat :=
  (p.played.map fun out => offset base out.1.seq) ++ p.jb.framel.map fun f => offset base f.hdr.seq

structure Advancing (base : BitVec 16) (p : Playout μ) : Prop where
  n_eq : p.jb.n = p.jb.framel.length
  adjacent : p.jb.framel.IsChain Precedes
  played : ∀ out ∈ p.played, InWindow base out.1.seq
  buffered : ∀ f ∈ p.jb.framel, InWindow base f.hdr.seq
  rising : (p.sequence base).Pairwise (· < ·)

/-- The buffer may change as long as what is new in it comes after what has been played. -/
theorem Advancing.of_kept {base : BitVec 16} {p : Playout μ} (advancing : Advancing base p) {jb' : Jbuf μ}
    (kept : Kept p.jb jb')
    (members : ∀ g ∈ jb'.framel, g ∈ p.jb.framel ∨
      InWindow base g.hdr.seq ∧ ∀ out ∈ p.played, offset base out.1.seq < offset base g.hdr.seq) :
    Advancing base { p with jb := jb' } := by
  have rising := advancing.rising
  unfold Playout.sequence at rising
  rw [List.pairwise_append] at rising
  obtain ⟨first, -, across⟩ := rising
  have chain := kept.adjacent advancing.adjacent
  have buffered : ∀ g ∈ jb'.framel, InWindow base g.hdr.seq := by
    intro g member
    rcases members g member with old | ⟨window, -⟩
    · exact advancing.buffered g old
    · exact window
  constructor
  · exact kept.n_eq
  · exact chain
  · exact advancing.played
  · exact buffered
  · apply List.pairwise_append.mpr
    refine ⟨first, ?_, ?_⟩
    · rw [List.pairwise_map]
      exact sorted_of_adjacent chain buffered
    · intro x inPlayed y inBuffer
      obtain ⟨out, wasPlayed, rfl⟩ := List.mem_map.mp inPlayed
      obtain ⟨g, member, rfl⟩ := List.mem_map.mp inBuffer
      rcases members g member with old | ⟨-, later⟩
      · exact across _ inPlayed _ (List.mem_map_of_mem old)
      · exact later out wasPlayed

theorem Advancing.later {base : BitVec 16} {p : Playout μ} (advancing : Advancing base p) {seq : BitVec 16}
    (window : InWindow base seq) (after : ∀ last ∈ p.played.getLast?, seqLess last.1.seq seq = true) :
    ∀ out ∈ p.played, offset base out.1.seq < offset base seq := by
  have rising := (List.pairwise_append.mp advancing.rising).1
  intro out wasPlayed
  obtain ⟨first, last, split⟩ := (List.eq_nil_or_concat' p.played).resolve_left (List.ne_nil_of_mem wasPlayed)
  have windowed : InWindow base last.1.seq := advancing.played last (by simp [split])
  have less := (seqLess_iff_offset windowed window).mp (after last (by simp [split]))
  rw [split, List.map_append, List.pairwise_append] at rising
  rw [split] at wasPlayed
  rcases List.mem_append.mp wasPlayed with earlier | here
  · have before := rising.2.2 _ (List.mem_map_of_mem earlier) (offset base last.1.seq) (by simp)
    exact Nat.lt_trans before less
  · obtain rfl := List.mem_singleton.mp here
    exact less

theorem Advancing.put {base : BitVec 16} {p : Playout μ} (advancing : Advancing base p) {hdr : RtpHeader}
    {mem : μ} {err : Option Errno} {jb' : Jbuf μ} (window : InWindow base hdr.seq)
    (punctual : p.Punctual hdr.seq) (done : PutDone p.jb hdr mem err jb') : Advancing base { p with jb := jb' } := by
  apply advancing.of_kept (done.kept advancing.n_eq)
  intro g member
  cases done with
  | late => exact .inl member
  | duplicate free taken onTime took copy => exact .inl (took.mem member)
  | stored free taken framel onTime took placed =>
    rcases placed.mem_iff.mp member with rfl | old
    · have after := punctual.resolve_left (by simp [onTime])
      exact .inr ⟨window, advancing.later window after⟩
    · exact .inl (took.mem old)

theorem Advancing.get {base : BitVec 16} {p : Playout μ} (advancing : Advancing base p)
    {out : RtpHeader × Option μ} {jb' : Jbuf μ} (got : jbufGet p.jb = some (out, jb')) :
    Advancing base ⟨jb', p.played ++ [out]⟩ := by
  have kept := jbufGet_kept advancing.n_eq got
  unfold jbufGet at got
  split at got
  · contradiction
  · rename_i f framel buffered
    split at got
    · contradiction
    · obtain ⟨rfl, rfl⟩ := Prod.mk.inj (Option.some.inj got)
      have windows := advancing.buffered
      have rising := advancing.rising
      rw [buffered, List.forall_mem_cons] at windows
      unfold Playout.sequence at rising
      rw [buffered, List.map_cons] at rising
      constructor
      · exact kept.n_eq
      · exact kept.adjacent advancing.adjacent
      · intro out member
        rcases List.mem_append.mp member with old | new
        · exact advancing.played out old
        · obtain rfl := List.mem_singleton.mp new
          exact windows.1
      · exact windows.2
      · unfold Playout.sequence
        rw [List.map_append, List.append_assoc]
        exact rising

def AllAdvancing (base : BitVec 16) (s : Option (Playout μ)) : Prop := ∀ p ∈ s, Advancing base p

theorem jbufStep_advancing {base : BitVec 16} {s : Option (Playout μ)} {op : JbufOp μ}
    (advancing : AllAdvancing base s) (guard : op.InStream base ∧ Punctual s op) :
    AllAdvancing base (jbufStep s op) := by
  obtain ⟨stream, punctual⟩ := guard
  intro p' after
  obtain ⟨p, rfl, applied⟩ := Option.bind_eq_some_iff.mp after
  have start := advancing p rfl
  cases op with
  | put hdr mem =>
    simp only [Playout.apply] at applied
    split at applied
    · contradiction
    · rename_i err jb' result
      obtain rfl := Option.some.inj applied
      exact start.put stream (punctual p rfl) (jbufPut_done start.n_eq result)
  | get =>
    simp only [Playout.apply] at applied
    split at applied
    · obtain rfl := Option.some.inj applied
      exact start
    · rename_i out jb' got
      obtain rfl := Option.some.inj applied
      exact start.get got
  | flush => exact stream.elim

theorem flushed_advancing (base : BitVec 16) (jb : Jbuf μ) : AllAdvancing base (some ⟨jbufFlush jb, []⟩) := by
  rintro p ⟨⟩
  constructor
  · rfl
  · exact .nil
  · exact nofun
  · exact nofun
  · exact .nil

theorem AllAdvancing.inTurn {base : BitVec 16} {s : Option (Playout μ)} (advancing : AllAdvancing base s) :
    InTurn base s :=
  fun p here => (List.pairwise_append.mp (advancing p here).rising).1

/-- While every packet that does not come after the last one played is refused as late, the packets of a window
    are played in strictly increasing order, from one flush to the next. -/
theorem played_in_turn (jb : Jbuf μ) (base : BitVec 16) (ops : List (JbufOp μ))
    (stream : ∀ op ∈ ops, op.InStream base)
    (punctual : Along jbufStep Punctual (some ⟨jbufFlush jb, []⟩) ops) :
    Throughout jbufStep (InTurn base) (some ⟨jbufFlush jb, []⟩) ops := by
  have advancing : Throughout jbufStep (AllAdvancing base) (some ⟨jbufFlush jb, []⟩) ops :=
    throughout_of_guarded (fun s op => jbufStep_advancing) (flushed_advancing base jb) (punctual.and_forall stream)
  exact advancing.mono fun s => AllAdvancing.inTurn

def numberedOp (seq : BitVec 16) : JbufOp Unit := .put { RtpHeader.zero with seq := seq } ()

instance (base : BitVec 16) (op : JbufOp Unit) : Decidable (op.InStream base) :=
  match op with
  | .put hdr _ => inferInstanceAs (Decidable (offset base hdr.seq < 2 ^ 15))
  | .get => inferInstanceAs (Decidable True)
  | .flush => inferInstanceAs (Decidable False)

instance (base : BitVec 16) (s : Option (Playout Unit)) : Decidable (InTurn base s) :=
  inferInstanceAs (Decidable (∀ p ∈ s, (p.played.map fun out => offset base out.1.seq).Pairwise (· < ·)))

instance (s : Option (Playout Unit)) (op : JbufOp Unit) : Decidable (Punctual s op) :=
  match op with
  | .put hdr _ =>
    inferInstanceAs (Decidable (∀ p ∈ s, p.jb.late hdr.seq = true ∨
      ∀ last ∈ p.played.getLast?, seqLess last.1.seq hdr.seq = true))
  | .get => inferInstanceAs (Decidable True)
  | .flush => inferInstanceAs (Decidable True)

theorem played_in_turn_reordered :
    Throughout jbufStep (InTurn 65534) (some ⟨jbufFlush (.new 1 3), []⟩)
      [numberedOp 65534, numberedOp 0, .get, numberedOp 65535, .get, numberedOp 2, numberedOp 65534, .get] :=
  played_in_turn (.new 1 3) 65534 _ (by decide) (by decide)

/-- The packet just played is not late yet when it comes again, and is played again. -/
theorem played_twice :
    (∀ op ∈ [numberedOp 1, numberedOp 2, .get, numberedOp 1, .get], op.InStream 0) ∧
    ¬ Throughout jbufStep (InTurn 0) (some ⟨jbufFlush (.new 1 4), []⟩)
      [numberedOp 1, numberedOp 2, .get, numberedOp 1, .get] := by
  decide

end Baresip.Stream
