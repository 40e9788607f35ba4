import Baresip.Avcodec.H264Packetize

set_option linter.dupNamespace false

namespace Baresip.Avcodec

open Re Video

variable {ω : Type}

/-- A NAL unit of types 1 to 23 in which no start code is emulated. -/
structure NalUnit where
  hdr : Byte
  data : List Byte
  single : SingleNal hdr
  unescaped : ¬ nalSeq <:+: hdr :: data

def NalUnit.bytes (unit : NalUnit) : List Byte := unit.hdr :: unit.data

def annexB (units : List NalUnit) : List Byte := units.flatMap fun unit => nalSeq ++ unit.bytes

def leadingZero (long : Bool) : List Byte := if long then [0] else []

/-- A byte stream of units, each with its flag for a four-byte start code. -/
def byteStream (units : List (Bool × NalUnit)) : List Byte :=
  units.flatMap fun (long, unit) => leadingZero long ++ nalSeq ++ unit.bytes

@[simp] theorem annexB_nil : annexB [] = [] := rfl

theorem annexB_cons (unit : NalUnit) (units : List NalUnit) :
    annexB (unit :: units) = nalSeq ++ unit.bytes ++ annexB units := by
  simp [annexB]

theorem startcode_inside {bytes : List Byte} {k : Nat} (starts : nalSeq <+: bytes.drop k) :
    nalSeq <:+: bytes := starts.isInfix.trans (List.drop_suffix k bytes).isInfix

theorem isStartcode_iff_starts (buf : List Byte) (p : Nat) :
    isStartcode buf p = true ↔ nalSeq <+: buf.drop p := by
  have at_ : ∀ k, buf.getD (p + k) 0 = (buf.drop p).getD k 0 := by
    intro k
    simp only [List.getD_eq_getElem?_getD, List.getElem?_drop]
  have first := at_ 0
  rw [Nat.add_zero] at first
  rw [isStartcode_iff, first, at_ 1, at_ 2]
  rcases buf.drop p with _ | ⟨a, _ | ⟨b, _ | ⟨c, rest⟩⟩⟩
  case cons.cons.cons =>
    simp only [nalSeq, List.getD_cons_zero, List.getD_cons_succ, List.cons_prefix_cons,
      List.nil_prefix, and_true]
    constructor
    · rintro ⟨rfl, rfl, rfl⟩
      exact ⟨rfl, rfl, rfl⟩
    · rintro ⟨rfl, rfl, rfl⟩
      exact ⟨rfl, rfl, rfl⟩
  all_goals simp [nalSeq]

theorem unescaped_zero {bytes : List Byte} (unescaped : ¬ nalSeq <:+: bytes) :
    ¬ nalSeq <:+: bytes ++ [0] := by
  rintro ⟨before, after, same⟩
  rcases List.eq_nil_or_concat after with rfl | ⟨tail, last, rfl⟩
  · rw [List.append_nil] at same
    have ends := congrArg List.getLast? same
    rw [List.getLast?_append, List.getLast?_concat] at ends
    simp [nalSeq] at ends
  · rw [List.concat_eq_append, ← List.append_assoc] at same
    exact unescaped ⟨before, tail, (List.append_inj' same rfl).1⟩

def NalUnit.extend (unit : NalUnit) (long : Bool) : NalUnit where
  hdr := unit.hdr
  data := unit.data ++ leadingZero long
  single := unit.single
  unescaped := by
    cases long with
    | false => simpa [leadingZero] using unit.unescaped
    | true => exact unescaped_zero unit.unescaped

/-- The units as the packetizer sees them: the first byte of a four-byte start code belongs to the unit
    before it. -/
def regroup : List (Bool × NalUnit) → List NalUnit
  | [] => []
  | [(_, unit)] => [unit]
  | (_, unit) :: (long, next) :: units => unit.extend long :: regroup ((long, next) :: units)

theorem byteStream_regroup (long : Bool) (unit : NalUnit) (units : List (Bool × NalUnit)) :
    byteStream ((long, unit) :: units) = leadingZero long ++ annexB (regroup ((long, unit) :: units)) := by
  induction units generalizing long unit with
  | nil => simp [byteStream, annexB, regroup]
  | cons next units ih =>
    obtain ⟨long', next⟩ := next
    have rest := ih long' next
    have cons : byteStream ((long, unit) :: (long', next) :: units) =
        leadingZero long ++ nalSeq ++ unit.bytes ++ byteStream ((long', next) :: units) := by
      simp [byteStream]
    rw [cons, rest, regroup, annexB_cons]
    simp [NalUnit.extend, NalUnit.bytes]

theorem no_startcode_before_startcode {bytes tail : List Byte} (unescaped : ¬ nalSeq <:+: bytes) (k : Nat)
    (inside : k < bytes.length) (follows : (∃ rest, tail = nalSeq ++ rest) ∨ k + 3 < bytes.length) :
    ¬ nalSeq <+: bytes.drop k ++ tail := by
  have clean : ¬ nalSeq <+: bytes.drop k := fun starts => unescaped (startcode_inside starts)
  have length : (bytes.drop k).length = bytes.length - k := List.length_drop
  generalize bytes.drop k = suffix at clean length
  rcases suffix with _ | ⟨a, _ | ⟨b, _ | ⟨c, more⟩⟩⟩
  · simp only [List.length_nil] at length
    omega
  · rcases follows with ⟨rest, rfl⟩ | long
    · simp [nalSeq]
    · simp only [List.length_cons, List.length_nil] at length
      omega
  · rcases follows with ⟨rest, rfl⟩ | long
    · simp [nalSeq]
    · simp only [List.length_cons, List.length_nil] at length
      omega
  · intro starts
    apply clean
    simpa [nalSeq] using starts

theorem firstFrom_unit (before slack : List Byte) (unit : NalUnit) (units : List NalUnit) :
    FirstFrom (before ++ (unit.bytes ++ (annexB units ++ slack))) before.length
      (before.length + (unit.bytes.length + (annexB units).length))
      (before.length + unit.bytes.length) := by
  have clear : ∀ q, (∃ rest, annexB units ++ slack = nalSeq ++ rest) ∧ q = before.length + unit.bytes.length ∨
      q + 3 ≤ before.length + unit.bytes.length →
      Clear (before ++ (unit.bytes ++ (annexB units ++ slack))) before.length q := by
    intro q where_ i after until_
    rw [Bool.eq_false_iff, ne_eq, isStartcode_iff_starts, List.drop_append,
      List.drop_of_length_le after, List.nil_append, List.drop_append_of_le_length (by omega)]
    have inside : i - before.length < unit.bytes.length := by omega
    rcases where_ with ⟨follows, ends⟩ | early
    · exact no_startcode_before_startcode unit.unescaped _ inside (.inl follows)
    · have room : i - before.length + 3 < unit.bytes.length := by omega
      exact no_startcode_before_startcode unit.unescaped _ inside (.inr room)
  cases units with
  | nil =>
    refine .inl ⟨by simp [annexB], ?_⟩
    intro i after until_
    simp only [annexB, List.flatMap_nil, List.length_nil, Nat.add_zero] at until_ ⊢
    exact clear (i + 1) (.inr (by omega)) i after (Nat.lt_succ_self i)
  | cons next units =>
    have follows : annexB (next :: units) ++ slack = nalSeq ++ (next.bytes ++ annexB units ++ slack) := by
      simp [annexB_cons]
    refine .inr ⟨Nat.le_add_right _ _, ?_, ?_, clear _ (.inl ⟨⟨_, follows⟩, rfl⟩)⟩
    · simp only [annexB_cons, List.length_append, nalSeq, NalUnit.bytes, List.length_cons]
      omega
    · rw [isStartcode_iff_starts, ← List.append_assoc, List.drop_append, List.length_append,
        List.drop_of_length_le (by simp), Nat.sub_self, List.nil_append, List.drop_zero, follows]
      exact List.prefix_append _ _

theorem skipZeros_startcode (before rest : List Byte) :
    skipZeros (before ++ (nalSeq ++ rest)) before.length = before.length + 3 := by
  have read : ∀ k, (before ++ (nalSeq ++ rest)).getD (before.length + k) 1 = (nalSeq ++ rest).getD k 1 := by
    intro k
    rw [List.getD_eq_getElem?_getD, List.getElem?_append_right (Nat.le_add_right _ _),
      Nat.add_sub_cancel_left, List.getD_eq_getElem?_getD]
  have size : before.length + 3 ≤ (before ++ (nalSeq ++ rest)).length := by
    simp only [List.length_append, nalSeq, List.length_cons]
    omega
  have first := read 0
  rw [Nat.add_zero] at first
  rw [skipZeros, dif_pos ⟨by omega, by rw [first]; rfl⟩, skipZeros, dif_pos ⟨by omega, by rw [read 1]; rfl⟩,
    skipZeros, dif_neg]
  rintro ⟨-, zero⟩
  rw [Nat.add_assoc, read 2] at zero
  exact absurd zero (by simp [nalSeq])

theorem nalLoop_unit (base : Nat) (slack : List Byte) (unit : NalUnit) (units : List NalUnit)
    (before : List Byte) (st : VidcodecSt ω) :
    nalLoop base (before ++ (annexB (unit :: units) ++ slack))
      (before.length + (annexB (unit :: units)).length) st before.length =
    let sent := st.sendNal units.isEmpty unit.hdr unit.data
    let rest := nalLoop base (before ++ (annexB (unit :: units) ++ slack))
      (before.length + (annexB (unit :: units)).length) sent.st
      (before ++ (nalSeq ++ unit.bytes)).length
    ⟨orErr sent.err rest.err, rest.st, sent.sent ++ rest.sent⟩ := by
  have stream : before ++ (annexB (unit :: units) ++ slack) =
      (before ++ nalSeq) ++ (unit.bytes ++ (annexB units ++ slack)) := by
    simp [annexB_cons]
  have skipped : skipZeros (before ++ (annexB (unit :: units) ++ slack)) before.length =
      (before ++ nalSeq).length := by
    rw [annexB_cons, List.append_assoc, List.append_assoc, skipZeros_startcode, List.length_append]
    rfl
  have size : before.length + (annexB (unit :: units)).length =
      (before ++ nalSeq).length + (unit.bytes.length + (annexB units).length) := by
    simp only [annexB_cons, List.length_append]
    omega
  have found : h264FindStartcode base (before ++ (annexB (unit :: units) ++ slack))
      (before ++ nalSeq).length (before.length + (annexB (unit :: units)).length) =
      (before ++ nalSeq).length + unit.bytes.length := by
    rw [stream, size]
    exact h264FindStartcode_eq base (firstFrom_unit (before ++ nalSeq) slack unit units)
  have inside : before.length < before.length + (annexB (unit :: units)).length := by
    rw [size, List.length_append]
    simp only [nalSeq, List.length_cons]
    omega
  have header : (before ++ (annexB (unit :: units) ++ slack)).getD (before ++ nalSeq).length 0 =
      unit.hdr := by
    rw [stream, List.getD_eq_getElem?_getD, List.getElem?_append_right (Nat.le_refl _), Nat.sub_self]
    rfl
  have data : ((before ++ (annexB (unit :: units) ++ slack)).drop ((before ++ nalSeq).length + 1)).take
      ((before ++ nalSeq).length + unit.bytes.length - (before ++ nalSeq).length - 1) = unit.data := by
    have width : (before ++ nalSeq).length + unit.bytes.length - (before ++ nalSeq).length - 1 =
        unit.data.length := by
      simp only [NalUnit.bytes, List.length_cons]
      omega
    rw [stream, width, ← List.drop_drop, List.drop_append_length, NalUnit.bytes, List.cons_append,
      List.drop_one, List.tail_cons, List.take_left]
  have last : decide ((before ++ nalSeq).length + unit.bytes.length ≥
      before.length + (annexB (unit :: units)).length) = units.isEmpty := by
    rw [size]
    cases units with
    | nil => simp [annexB]
    | cons next units =>
      simp [annexB_cons, nalSeq]
  have next : (before ++ (nalSeq ++ unit.bytes)).length = (before ++ nalSeq).length + unit.bytes.length := by
    simp only [List.length_append]
    omega
  conv_lhs => rw [nalLoop, dif_pos inside]
  simp only [skipped, found, header, data, last, next]

theorem nalLoop_sends (base : Nat) (slack : List Byte) (unit : NalUnit) (units : List NalUnit)
    (before : List Byte) {st : VidcodecSt ω} (direct : st.enqh = none) :
    Sends (nalLoop base (before ++ (annexB (unit :: units) ++ slack))
      (before.length + (annexB (unit :: units)).length) st before.length) true
      (annexB (unit :: units)) := by
  induction units generalizing unit before st with
  | nil =>
    have end_ : before.length + (annexB [unit]).length = (before ++ (nalSeq ++ unit.bytes)).length := by
      simp [annexB]
    have content : annexB [unit] = nalSeq ++ unit.hdr :: unit.data := by simp [annexB, NalUnit.bytes]
    have done : ∀ next : VidcodecSt ω, nalLoop base (before ++ (annexB [unit] ++ slack))
        (before.length + (annexB [unit]).length) next (before ++ (nalSeq ++ unit.bytes)).length =
        ⟨none, next, []⟩ := by
      intro next
      rw [nalLoop, dif_neg (by omega)]
    rw [nalLoop_unit]
    simp only [List.isEmpty_nil, done]
    rw [content]
    exact (sendNal_sends unit.single direct true unit.data).stop
  | cons next units ih =>
    have sends := sendNal_sends unit.single direct false unit.data
    have both := sends.append (ih next (before ++ (nalSeq ++ unit.bytes)) sends.direct)
    have stream : (before ++ (nalSeq ++ unit.bytes)) ++ (annexB (next :: units) ++ slack) =
        before ++ (annexB (unit :: next :: units) ++ slack) := by
      simp [annexB_cons]
    have size : (before ++ (nalSeq ++ unit.bytes)).length + (annexB (next :: units)).length =
        before.length + (annexB (unit :: next :: units)).length := by
      simp only [annexB_cons, List.length_append]
      omega
    have content : nalSeq ++ unit.hdr :: unit.data ++ annexB (next :: units) =
        annexB (unit :: next :: units) := by
      rw [annexB_cons unit, NalUnit.bytes]
    rw [stream, size, content] at both
    rw [nalLoop_unit]
    exact both

theorem firstFrom_stream (long : Bool) (slack : List Byte) (unit : NalUnit) (units : List NalUnit) :
    FirstFrom (leadingZero long ++ (annexB (unit :: units) ++ slack)) 0
      ((leadingZero long).length + (annexB (unit :: units)).length) (leadingZero long).length := by
  have stream : leadingZero long ++ (annexB (unit :: units) ++ slack) =
      leadingZero long ++ (nalSeq ++ (unit.bytes ++ annexB units ++ slack)) := by
    simp [annexB_cons]
  refine .inr ⟨Nat.zero_le _, ?_, ?_, ?_⟩
  · simp only [annexB_cons, List.length_append, nalSeq, NalUnit.bytes, List.length_cons]
    omega
  · rw [isStartcode_iff_starts, stream, List.drop_append_length]
    exact List.prefix_append _ _
  · intro i _ before
    cases long with
    | false => simp [leadingZero] at before
    | true =>
      have zero : i = 0 := by
        simp only [leadingZero, ite_true, List.length_singleton] at before
        omega
      rw [zero, Bool.eq_false_iff, ne_eq, isStartcode_iff_starts, stream]
      simp [leadingZero, nalSeq]

theorem h264Packetize_sends (base : Nat) (slack : List Byte) (long : Bool) (unit : NalUnit)
    (units : List (Bool × NalUnit)) {st : VidcodecSt ω} (direct : st.enqh = none) :
    Sends (h264Packetize base st (encoded (byteStream ((long, unit) :: units)) slack)) true
      (annexB (regroup ((long, unit) :: units))) := by
  obtain ⟨first, rest, grouped⟩ : ∃ first rest, regroup ((long, unit) :: units) = first :: rest := by
    cases units with
    | nil => exact ⟨_, _, rfl⟩
    | cons next units => exact ⟨_, _, rfl⟩
  have found := h264FindStartcode_eq base (firstFrom_stream long slack first rest)
  rw [byteStream_regroup, grouped]
  simp only [h264Packetize, encoded, List.append_assoc, List.length_append] at found ⊢
  rw [found]
  exact nalLoop_sends base slack first rest (leadingZero long) direct

end Baresip.Avcodec
