import Baresip.Library.SwapSort
import Baresip.Library.Runs
import Baresip.Re.Jbuf
import Mathlib.Algebra.Ring.Nat
import Mathlib.Data.List.Nodup

set_option linter.dupNamespace false

namespace Baresip.Stream

open Re Library

variable {μ : Type}

inductive JbufOp (μ : Type)
  | put (hdr : RtpHeader) (mem : μ)
  | get
  | flush
  deriving DecidableEq, Repr

/-- A jitter buffer in use. `played` logs what `jbuf_get` has returned. -/
structure Playout (μ : Type) where
  jb : Jbuf μ
  played : List (RtpHeader × Option μ)
  deriving DecidableEq, Repr

def Playout.apply (s : Playout μ) : JbufOp μ → Option (Playout μ)
  | .put hdr mem =>
    match jbufPut s.jb hdr mem with
    | none => none
    | some (_, jb) => some { s with jb := jb }
  | .get =>
    match jbufGet s.jb with
    | none => some s
    | some (out, jb) => some ⟨jb, s.played ++ [out]⟩
  | .flush => some { s with jb := jbufFlush s.jb }

/-- Nothing once a null pointer has been read. -/
def jbufStep (s : Option (Playout μ)) (op : JbufOp μ) : Option (Playout μ) := s.bind fun s => s.apply op

def Precedes (f g : Frame μ) : Prop := seqLess f.hdr.seq g.hdr.seq = true

def offset (base seq : BitVec 16) : Nat := (seq - base).toNat

def InWindow (base seq : BitVec 16) : Prop := offset base seq < 2 ^ 15

def Rises (base : BitVec 16) (f g : Frame μ) : Prop := offset base f.hdr.seq < offset base g.hdr.seq

def frameIds (jb : Jbuf μ) : List Nat := (jb.pooll ++ jb.framel).map Frame.id

/-- What every operation keeps. A frame in both lists would be in the list of all frames twice. -/
structure Ordered (jb : Jbuf μ) : Prop where
  n_eq : jb.n = jb.framel.length
  total : jb.pooll.length + jb.framel.length = jb.max
  apart : (frameIds jb).Nodup
  adjacent : jb.framel.IsChain Precedes
  sorted : ∀ base, (∀ f ∈ jb.framel, InWindow base f.hdr.seq) → jb.framel.Pairwise (Rises base)

theorem seqLess_iff (x y : BitVec 16) : seqLess x y = true ↔ 2 ^ 15 ≤ (x - y).toNat := by
  unfold seqLess
  rw [BitVec.ofNat_eq_ofNat, BitVec.slt_zero_eq_msb, BitVec.msb_eq_decide, decide_eq_true_iff]

/-- Of two different numbers one is less, also when they are half the circle apart. -/
theorem seqLess_of_passed {x y : BitVec 16} (passed : seqLess x y = false) (ne : y ≠ x) : seqLess y x = true := by
  have far : ¬ 2 ^ 15 ≤ (x - y).toNat := by
    rw [← seqLess_iff, passed]
    exact Bool.false_ne_true
  have apart : y.toNat ≠ x.toNat := fun same => ne (BitVec.eq_of_toNat_eq same)
  rw [seqLess_iff]
  rw [BitVec.toNat_sub] at far ⊢
  omega

theorem seqLess_iff_offset {base x y : BitVec 16} (hx : InWindow base x) (hy : InWindow base y) :
    seqLess x y = true ↔ offset base x < offset base y := by
  unfold InWindow offset at hx hy
  unfold offset
  rw [seqLess_iff]
  simp only [BitVec.toNat_sub] at hx hy ⊢
  omega

theorem sorted_of_adjacent {base : BitVec 16} {framel : List (Frame μ)} (adjacent : framel.IsChain Precedes)
    (window : ∀ f ∈ framel, InWindow base f.hdr.seq) : framel.Pairwise (Rises base) := by
  have rising : framel.IsChain (Rises base) :=
    adjacent.imp_of_mem_imp fun f g inF inG before =>
      (seqLess_iff_offset (window f inF) (window g inG)).mp before
  have : Trans (@Rises μ base) (Rises base) (Rises base) := ⟨Nat.lt_trans⟩
  exact rising.pairwise

theorem insertRev_placed {f : Frame μ} {rev rev' : List (Frame μ)} (inserted : insertRev f rev = some rev') :
    Placed Precedes f rev.reverse rev'.reverse := by
  induction rev generalizing rev' with
  | nil =>
    obtain rfl := Option.some.inj inserted
    exact .last nofun
  | cons le rest ih =>
    unfold insertRev at inserted
    split at inserted
    · rename_i before
      obtain rfl := Option.some.inj inserted
      rw [List.reverse_cons (a := f)]
      apply Placed.last
      intro g last
      obtain rfl : le = g := by simpa using last
      exact before
    · rename_i passed
      split at inserted
      · contradiction
      · rename_i other
        obtain ⟨rest', inner, rfl⟩ := Option.map_eq_some_iff.mp inserted
        rw [List.reverse_cons, List.reverse_cons]
        exact (ih inner).pass (seqLess_of_passed (by simpa using passed) other)

theorem insertRev_duplicate {f : Frame μ} {rev : List (Frame μ)} (refused : insertRev f rev = none) :
    ∃ g ∈ rev, g.hdr.seq = f.hdr.seq := by
  induction rev with
  | nil => contradiction
  | cons le rest ih =>
    unfold insertRev at refused
    split at refused
    · contradiction
    · split at refused
      · rename_i same
        exact ⟨le, List.mem_cons_self, same.symm⟩
      · obtain ⟨g, member, same⟩ := ih (Option.map_eq_none_iff.mp refused)
        exact ⟨g, List.mem_cons_of_mem le member, same⟩

theorem insertFrame_placed {f : Frame μ} {framel framel' : List (Frame μ)}
    (inserted : insertFrame framel f = some framel') : Placed Precedes f framel framel' := by
  unfold insertFrame at inserted
  split at inserted
  · rename_i empty
    rw [List.getLast?_eq_none_iff] at empty
    obtain rfl := Option.some.inj inserted
    rw [empty]
    exact .last nofun
  · rename_i tail last
    split at inserted
    · rename_i before
      obtain rfl := Option.some.inj inserted
      apply Placed.last
      intro g here
      obtain rfl : tail = g := Option.some.inj (last.symm.trans here)
      exact before
    · obtain ⟨rev, inner, rfl⟩ := Option.map_eq_some_iff.mp inserted
      have placed := insertRev_placed inner
      rwa [List.reverse_reverse] at placed

theorem insertFrame_duplicate {f : Frame μ} {framel : List (Frame μ)} (refused : insertFrame framel f = none) :
    ∃ g ∈ framel, g.hdr.seq = f.hdr.seq := by
  unfold insertFrame at refused
  split at refused
  · contradiction
  · split at refused
    · contradiction
    · obtain ⟨g, member, same⟩ := insertRev_duplicate (Option.map_eq_none_iff.mp refused)
      exact ⟨g, List.mem_reverse.mp member, same⟩

/-- A frame has been taken: `taken` still counts it. -/
structure Taken (jb : Jbuf μ) (free : Frame μ) (taken : Jbuf μ) : Prop where
  ids : (free.id :: frameIds taken).Perm (frameIds jb)
  n_eq : taken.n = taken.framel.length + 1
  max_eq : taken.max = jb.max
  min_eq : taken.min = jb.min
  seqPut_eq : taken.seqPut = jb.seqPut
  running_eq : taken.running = jb.running
  left : taken.framel = jb.framel ∧ taken.n = jb.n + 1 ∨ (∃ old, jb.framel = old :: taken.framel) ∧ taken.n = jb.n

theorem frameAlloc_taken {jb taken : Jbuf μ} {free : Frame μ} (n_eq : jb.n = jb.framel.length)
    (alloc : frameAlloc jb = some (free, taken)) : Taken jb free taken := by
  unfold frameAlloc at alloc
  split at alloc
  · rename_i pooll pool
    obtain ⟨rfl, rfl⟩ := Prod.mk.inj (Option.some.inj alloc)
    constructor
    · simp [frameIds, pool]
    · simp only [n_eq]
    · rfl
    · rfl
    · rfl
    · rfl
    · exact .inl ⟨rfl, rfl⟩
  · rename_i old framel pool buffered
    obtain ⟨rfl, rfl⟩ := Prod.mk.inj (Option.some.inj alloc)
    constructor
    · simp [frameIds, pool, buffered]
    · simp only [n_eq, buffered, List.length_cons]
    · rfl
    · rfl
    · rfl
    · rfl
    · exact .inr ⟨⟨old, buffered⟩, rfl⟩
  · contradiction

/-- What a put can do. -/
inductive PutDone (jb : Jbuf μ) (hdr : RtpHeader) (mem : μ) : Option Errno → Jbuf μ → Prop
  | late : jb.late hdr.seq = true → PutDone jb hdr mem (some .ETIMEDOUT) jb
  | duplicate (free : Frame μ) (taken : Jbuf μ) : jb.late hdr.seq = false → Taken jb free taken →
      (∃ g ∈ taken.framel, g.hdr.seq = hdr.seq) → PutDone jb hdr mem (some .EALREADY) (taken.release free)
  | stored (free : Frame μ) (taken : Jbuf μ) (framel : List (Frame μ)) : jb.late hdr.seq = false →
      Taken jb free taken → Placed Precedes ⟨free.id, hdr, some mem⟩ taken.framel framel →
      PutDone jb hdr mem none { taken with framel := framel, running := true, seqPut := hdr.seq }

theorem jbufPut_done {jb jb' : Jbuf μ} {hdr : RtpHeader} {mem : μ} {err : Option Errno}
    (n_eq : jb.n = jb.framel.length) (result : jbufPut jb hdr mem = some (err, jb')) :
    PutDone jb hdr mem err jb' := by
  unfold jbufPut at result
  split at result
  · rename_i late
    obtain ⟨rfl, rfl⟩ := Prod.mk.inj (Option.some.inj result)
    exact .late late
  · rename_i onTime
    rw [Bool.not_eq_true] at onTime
    split at result
    · contradiction
    · rename_i free taken alloc
      have took := frameAlloc_taken n_eq alloc
      split at result
      · rename_i refused
        obtain ⟨rfl, rfl⟩ := Prod.mk.inj (Option.some.inj result)
        exact .duplicate free taken onTime took (insertFrame_duplicate refused)
      · rename_i framel inserted
        obtain ⟨rfl, rfl⟩ := Prod.mk.inj (Option.some.inj result)
        exact .stored free taken framel onTime took (insertFrame_placed inserted)

/-- What every operation keeps of the frames: which they are, the counter, and the order. -/
structure Kept (jb jb' : Jbuf μ) : Prop where
  n_eq : jb'.n = jb'.framel.length
  ids : (frameIds jb').Perm (frameIds jb)
  adjacent : jb.framel.IsChain Precedes → jb'.framel.IsChain Precedes
  max_eq : jb'.max = jb.max
  min_eq : jb'.min = jb.min

theorem Taken.mem {jb taken : Jbuf μ} {free f : Frame μ} (took : Taken jb free taken)
    (member : f ∈ taken.framel) : f ∈ jb.framel := by
  rcases took.left with ⟨same, -⟩ | ⟨⟨old, stolen⟩, -⟩
  · exact same ▸ member
  · rw [stolen]
    exact List.mem_cons_of_mem old member

theorem Taken.adjacent {jb taken : Jbuf μ} {free : Frame μ} (took : Taken jb free taken)
    (adjacent : jb.framel.IsChain Precedes) : taken.framel.IsChain Precedes := by
  rcases took.left with ⟨same, -⟩ | ⟨⟨old, stolen⟩, -⟩
  · rw [same]
    exact adjacent
  · rw [stolen] at adjacent
    exact adjacent.tail

theorem frameIds_release (jb : Jbuf μ) (f : Frame μ) : (frameIds (jb.release f)).Perm (f.id :: frameIds jb) := by
  unfold frameIds Jbuf.release
  simp only [List.map_append, List.map_cons, List.append_assoc, List.singleton_append]
  exact List.perm_middle

theorem PutDone.kept {jb jb' : Jbuf μ} {hdr : RtpHeader} {mem : μ} {err : Option Errno}
    (n_eq : jb.n = jb.framel.length) (done : PutDone jb hdr mem err jb') : Kept jb jb' := by
  cases done with
  | late => exact ⟨n_eq, .rfl, id, rfl, rfl⟩
  | duplicate free taken onTime took copy =>
    constructor
    · simp only [Jbuf.release, took.n_eq, Nat.add_sub_cancel]
    · exact (frameIds_release taken free).trans took.ids
    · exact took.adjacent
    · exact took.max_eq
    · exact took.min_eq
  | stored free taken framel onTime took placed =>
    have perm := placed.perm
    constructor
    · simp only [took.n_eq, perm.length_eq, List.length_cons]
    · have stored : (frameIds { taken with framel := framel, running := true, seqPut := hdr.seq }).Perm
          (free.id :: frameIds taken) := by
        unfold frameIds
        simp only [List.map_append]
        exact ((perm.map Frame.id).append_left _).trans List.perm_middle
      exact stored.trans took.ids
    · exact fun adjacent => placed.isChain (took.adjacent adjacent)
    · exact took.max_eq
    · exact took.min_eq

theorem jbufGet_kept {jb jb' : Jbuf μ} {out : RtpHeader × Option μ} (n_eq : jb.n = jb.framel.length)
    (got : jbufGet jb = some (out, jb')) : Kept jb jb' := by
  unfold jbufGet at got
  split at got
  · contradiction
  · rename_i f framel buffered
    split at got
    · contradiction
    · obtain ⟨-, rfl⟩ := Prod.mk.inj (Option.some.inj got)
      rw [buffered, List.length_cons] at n_eq
      constructor
      · simp only [Jbuf.release, n_eq, Nat.add_sub_cancel]
      · apply (frameIds_release _ f).trans
        simp only [frameIds, buffered, List.map_append, List.map_cons]
        exact List.perm_middle.symm
      · intro adjacent
        rw [buffered] at adjacent
        exact adjacent.tail
      · rfl
      · rfl

theorem jbufFlush_kept (jb : Jbuf μ) : Kept jb (jbufFlush jb) := by
  constructor
  · rfl
  · simp [frameIds, jbufFlush, Function.comp_def]
  · exact fun _ => .nil
  · rfl
  · rfl

theorem Ordered.kept {jb jb' : Jbuf μ} (ordered : Ordered jb) (kept : Kept jb jb') : Ordered jb' := by
  have adjacent := kept.adjacent ordered.adjacent
  have frames := kept.ids.length_eq
  simp only [frameIds, List.length_map, List.length_append] at frames
  constructor
  · exact kept.n_eq
  · rw [frames, ordered.total, kept.max_eq]
  · exact kept.ids.nodup_iff.mpr ordered.apart
  · exact adjacent
  · exact fun base window => sorted_of_adjacent adjacent window

theorem new_ordered (min max : Nat) : Ordered (Jbuf.new min max : Jbuf μ) := by
  constructor
  · rfl
  · simp [Jbuf.new]
  · simp [frameIds, Jbuf.new, Function.comp_def, List.nodup_range]
  · exact .nil
  · exact fun _ _ => .nil

/-- An operation on a buffer in order reads no null pointer and leaves it in order. -/
theorem Ordered.apply {s : Playout μ} (ordered : Ordered s.jb) (room : 0 < s.jb.max) (op : JbufOp μ) :
    ∃ s', s.apply op = some s' ∧ Kept s.jb s'.jb := by
  cases op with
  | put hdr mem =>
    obtain ⟨⟨err, jb'⟩, result, -⟩ := jbufPut_counted ⟨ordered.n_eq, ordered.total⟩ room hdr mem
    have kept : Kept s.jb jb' := (jbufPut_done ordered.n_eq result).kept ordered.n_eq
    exact ⟨⟨jb', s.played⟩, by rw [Playout.apply, result], kept⟩
  | get =>
    cases got : jbufGet s.jb with
    | none => exact ⟨s, by rw [Playout.apply, got], ordered.n_eq, .rfl, id, rfl, rfl⟩
    | some result =>
      obtain ⟨out, jb'⟩ := result
      exact ⟨_, by rw [Playout.apply, got], jbufGet_kept ordered.n_eq got⟩
  | flush => exact ⟨_, rfl, jbufFlush_kept s.jb⟩

/-- No null pointer has been read, and the buffer with its `max` frames is in order. -/
def InUse (min max : Nat) (s : Option (Playout μ)) : Prop :=
  ∃ p, s = some p ∧ Ordered p.jb ∧ p.jb.min = min ∧ p.jb.max = max

theorem jbufStep_inUse {min max : Nat} (room : 0 < max) (s : Option (Playout μ)) (op : JbufOp μ)
    (inUse : InUse min max s) : InUse min max (jbufStep s op) := by
  obtain ⟨p, rfl, ordered, rfl, rfl⟩ := inUse
  obtain ⟨p', result, kept⟩ := ordered.apply room op
  exact ⟨p', result, ordered.kept kept, kept.min_eq, kept.max_eq⟩

theorem jbufAlloc_new {min max : Nat} {jb : Jbuf μ} (alloc : jbufAlloc min max = .ok jb) :
    min ≤ max ∧ jb = .new min max := by
  unfold jbufAlloc at alloc
  split at alloc
  · contradiction
  · exact ⟨by omega, (Except.ok.inj alloc).symm⟩

/-- Whatever is put, got and flushed, the buffered frames stay in order, and every frame in one of the lists. -/
theorem jbuf_ordered {min max : Nat} (room : 0 < max) {jb : Jbuf μ} (alloc : jbufAlloc min max = .ok jb)
    (ops : List (JbufOp μ)) : Throughout jbufStep (InUse min max) (some ⟨jb, []⟩) ops := by
  obtain ⟨-, rfl⟩ := jbufAlloc_new alloc
  apply throughout_of_invariant (jbufStep_inUse room)
  exact ⟨_, rfl, new_ordered min max, rfl, rfl⟩

theorem jbuf_ordered_wrapping :
    Throughout jbufStep (InUse 1 2) (some ⟨.new 1 2, []⟩)
      [.put { RtpHeader.zero with seq := 65535 } (), .put { RtpHeader.zero with seq := 0 } (), .get,
        .put { RtpHeader.zero with seq := 0 } (), .flush] :=
  jbuf_ordered (by decide) rfl _

end Baresip.Stream
