import Baresip.Re.Mbuf

set_option linter.dupNamespace false

namespace Baresip.Re

structure RtpExt where
  type : BitVec 16
  len : BitVec 16
  deriving DecidableEq, Repr

structure RtpHeader where
  ver : BitVec 8
  pad : Bool
  ext : Bool
  cc : BitVec 8
  m : Bool
  pt : BitVec 8
  seq : BitVec 16
  ts : BitVec 32
  ssrc : BitVec 32
  csrc : List (BitVec 32)
  x : RtpExt
  deriving DecidableEq, Repr

def RtpHeader.zero : RtpHeader := ⟨0, false, false, 0, false, 0, 0, 0, 0, List.replicate 16 0, ⟨0, 0⟩⟩

def seqLess (x y : BitVec 16) : Bool := (x - y).slt 0

variable {μ : Type}

/-- A frame of the pool, known by its number; the header of a free frame is the one it had last. -/
structure Frame (μ : Type) where
  id : Nat
  hdr : RtpHeader
  mem : Option μ
  deriving DecidableEq, Repr

structure Jbuf (μ : Type) where
  pooll : List (Frame μ)
  framel : List (Frame μ)
  n : Nat
  min : Nat
  max : Nat
  seqPut : BitVec 16
  running : Bool
  deriving DecidableEq, Repr

def Jbuf.new (min max : Nat) : Jbuf μ where
  pooll := (List.range max).map fun id => ⟨id, .zero, none⟩
  framel := []
  n := 0
  min := min
  max := max
  seqPut := 0
  running := false

def jbufAlloc (min max : Nat) : Except Errno (Jbuf μ) :=
  if min > max then .error .EINVAL else .ok (.new min max)

/-- A frame from the pool, or else the oldest one of the buffer. Without either the source reads a null
    pointer. -/
def frameAlloc (jb : Jbuf μ) : Option (Frame μ × Jbuf μ) :=
  match jb.pooll, jb.framel with
  | f :: pooll, _ => some (f, { jb with pooll := pooll, n := jb.n + 1 })
  | [], f :: framel => some ({ f with mem := none }, { jb with framel := framel })
  | [], [] => none

def Jbuf.release (jb : Jbuf μ) (f : Frame μ) : Jbuf μ :=
  { jb with pooll := jb.pooll ++ [{ f with mem := none }], n := jb.n - 1 }

/-- The search from the tail, on the reversed list: nothing when the frame is there already. -/
def insertRev (f : Frame μ) : List (Frame μ) → Option (List (Frame μ))
  | [] => some [f]
  | le :: rest =>
    if seqLess le.hdr.seq f.hdr.seq then some (f :: le :: rest)
    else if f.hdr.seq = le.hdr.seq then none
    else (insertRev f rest).map (le :: ·)

def insertFrame (framel : List (Frame μ)) (f : Frame μ) : Option (List (Frame μ)) :=
  match framel.getLast? with
  | none => some [f]
  | some tail =>
    if seqLess tail.hdr.seq f.hdr.seq then some (framel ++ [f])
    else (insertRev f framel.reverse).map List.reverse

def Jbuf.late (jb : Jbuf μ) (seq : BitVec 16) : Bool :=
  jb.running && seqLess (seq + .ofNat 16 jb.n) jb.seqPut

def jbufPut (jb : Jbuf μ) (hdr : RtpHeader) (mem : μ) : Option (Option Errno × Jbuf μ) :=
  if jb.late hdr.seq then some (some .ETIMEDOUT, jb)
  else
    match frameAlloc jb with
    | none => none
    | some (free, jb) =>
      match insertFrame jb.framel ⟨free.id, hdr, some mem⟩ with
      | none => some (some .EALREADY, jb.release free)
      | some framel => some (none, { jb with framel := framel, running := true, seqPut := hdr.seq })

def jbufGet (jb : Jbuf μ) : Option ((RtpHeader × Option μ) × Jbuf μ) :=
  match jb.framel with
  | [] => none
  | f :: framel =>
    if jb.n ≤ jb.min then none
    else some ((f.hdr, f.mem), { jb with framel := framel }.release f)

def jbufFlush (jb : Jbuf μ) : Jbuf μ :=
  { jb with
    pooll := jb.pooll ++ jb.framel.map fun f => { f with mem := none }
    framel := []
    n := 0
    running := false }

structure Jbuf.Counted (jb : Jbuf μ) : Prop where
  n_eq : jb.n = jb.framel.length
  total : jb.pooll.length + jb.framel.length = jb.max

theorem Jbuf.new_counted (min max : Nat) : (Jbuf.new min max : Jbuf μ).Counted :=
  ⟨rfl, by simp [Jbuf.new]⟩

theorem insertRev_length {f : Frame μ} {framel framel' : List (Frame μ)}
    (inserted : insertRev f framel = some framel') : framel'.length = framel.length + 1 := by
  induction framel generalizing framel' with
  | nil =>
    obtain rfl := Option.some.inj inserted
    rfl
  | cons le rest ih =>
    unfold insertRev at inserted
    split at inserted
    · obtain rfl := Option.some.inj inserted
      rfl
    · split at inserted
      · contradiction
      · obtain ⟨rest', inner, rfl⟩ := Option.map_eq_some_iff.mp inserted
        rw [List.length_cons, ih inner, List.length_cons]

theorem insertFrame_length {f : Frame μ} {framel framel' : List (Frame μ)}
    (inserted : insertFrame framel f = some framel') : framel'.length = framel.length + 1 := by
  unfold insertFrame at inserted
  split at inserted
  · rename_i empty
    rw [List.getLast?_eq_none_iff] at empty
    obtain rfl := Option.some.inj inserted
    rw [empty]
    rfl
  · split at inserted
    · obtain rfl := Option.some.inj inserted
      simp
    · obtain ⟨rev, inner, rfl⟩ := Option.map_eq_some_iff.mp inserted
      rw [List.length_reverse, insertRev_length inner, List.length_reverse]

theorem insertFrame_last {f : Frame μ} {framel : List (Frame μ)}
    (later : ∀ tail, framel.getLast? = some tail → seqLess tail.hdr.seq f.hdr.seq = true) :
    insertFrame framel f = some (framel ++ [f]) := by
  unfold insertFrame
  cases last : framel.getLast? with
  | none =>
    rw [List.getLast?_eq_none_iff] at last
    rw [last]
    rfl
  | some tail => simp only [later tail last, if_true]

structure PutFrom (jb jb' : Jbuf μ) : Prop where
  counted : jb'.Counted
  min_eq : jb'.min = jb.min
  max_eq : jb'.max = jb.max
  n_le : jb'.n ≤ jb.n + 1

theorem jbufPut_counted {jb : Jbuf μ} (counted : jb.Counted) (room : 0 < jb.max) (hdr : RtpHeader)
    (mem : μ) : ∃ result, jbufPut jb hdr mem = some result ∧ PutFrom jb result.2 := by
  have total := counted.total
  have n_eq := counted.n_eq
  unfold jbufPut
  split
  · exact ⟨_, rfl, counted, rfl, rfl, Nat.le_succ _⟩
  · unfold frameAlloc
    cases pool : jb.pooll with
    | cons free pooll =>
      rw [pool, List.length_cons] at total
      simp only
      cases inserted : insertFrame jb.framel ⟨free.id, hdr, some mem⟩ with
      | none =>
        refine ⟨_, rfl, ⟨?_, ?_⟩, rfl, rfl, ?_⟩
        · simp [Jbuf.release, n_eq]
        · simp [Jbuf.release]
          omega
        · simp [Jbuf.release]
      | some framel =>
        have longer := insertFrame_length inserted
        refine ⟨_, rfl, ⟨?_, ?_⟩, rfl, rfl, Nat.le_refl _⟩
        · simp only
          omega
        · simp only
          omega
    | nil =>
      cases buffered : jb.framel with
      | nil =>
        rw [pool, buffered] at total
        simp only [List.length_nil] at total
        omega
      | cons old framel =>
        rw [pool, buffered, List.length_cons, List.length_nil] at total
        rw [buffered, List.length_cons] at n_eq
        simp only
        cases inserted : insertFrame framel ⟨old.id, hdr, some mem⟩ with
        | none =>
          refine ⟨_, rfl, ⟨?_, ?_⟩, rfl, rfl, ?_⟩
          · simp only [Jbuf.release]
            omega
          · simp only [Jbuf.release, List.nil_append, List.length_singleton]
            omega
          · simp only [Jbuf.release]
            omega
        | some framel' =>
          have longer := insertFrame_length inserted
          refine ⟨_, rfl, ⟨?_, ?_⟩, rfl, rfl, Nat.le_succ _⟩
          · simp only
            omega
          · simp only [List.length_nil]
            omega

theorem jbufPut_last {jb : Jbuf μ} {hdr : RtpHeader} {free : Frame μ} {pooll : List (Frame μ)} (mem : μ)
    (onTime : jb.late hdr.seq = false) (pool : jb.pooll = free :: pooll)
    (later : ∀ tail, jb.framel.getLast? = some tail → seqLess tail.hdr.seq hdr.seq = true) :
    jbufPut jb hdr mem =
      some (none, { jb with
        pooll := pooll
        framel := jb.framel ++ [⟨free.id, hdr, some mem⟩]
        n := jb.n + 1
        running := true
        seqPut := hdr.seq }) := by
  have placed : insertFrame jb.framel ⟨free.id, hdr, some mem⟩ =
      some (jb.framel ++ [⟨free.id, hdr, some mem⟩]) := insertFrame_last later
  unfold jbufPut frameAlloc
  rw [onTime, if_neg (by decide), pool]
  simp only [placed]

theorem jbufGet_full {jb : Jbuf μ} {f : Frame μ} {framel : List (Frame μ)}
    (buffered : jb.framel = f :: framel) (full : jb.min < jb.n) :
    jbufGet jb = some ((f.hdr, f.mem), { jb with framel := framel }.release f) := by
  unfold jbufGet
  rw [buffered]
  simp only [if_neg (Nat.not_le.mpr full)]

theorem jbufGet_filling {jb : Jbuf μ} (filling : jb.n ≤ jb.min) : jbufGet jb = none := by
  unfold jbufGet
  cases jb.framel with
  | nil => rfl
  | cons f framel => simp only [if_pos filling]

end Baresip.Re
