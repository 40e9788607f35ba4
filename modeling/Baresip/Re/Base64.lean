import Baresip.Re.Regex

set_option linter.dupNamespace false

namespace Baresip.Re

/-- The value of a character; the bit of `=` tells the decoder to leave a byte out. -/
def b64val (c : Byte) : BitVec 32 :=
  if chr 'A' ≤ c ∧ c ≤ chr 'Z' then (c - chr 'A').setWidth 32
  else if chr 'a' ≤ c ∧ c ≤ chr 'z' then (c - chr 'a').setWidth 32 + 26
  else if chr '0' ≤ c ∧ c ≤ chr '9' then (c - chr '0').setWidth 32 + 52
  else if c = chr '+' then 62
  else if c = chr '/' then 63
  else if c = chr '=' then 1 <<< 24
  else 0

def b64quantum (a b c d : Byte) : List Byte :=
  let v := b64val a <<< 18 ||| b64val b <<< 12 ||| b64val c <<< 6 ||| b64val d
  v.extractLsb' 16 8 ::
    ((if v.getLsbD 30 then [] else [v.extractLsb' 8 8]) ++ if v.getLsbD 24 then [] else [v.extractLsb' 0 8])

def base64DecodeQuanta : Nat → List Byte → List Byte
  | 0, _ => []
  | n + 1, mem =>
    b64quantum (mem.getD 0 0) (mem.getD 1 0) (mem.getD 2 0) (mem.getD 3 0) ++
      base64DecodeQuanta n (mem.drop 4)

/-- The decoder reads four characters at a time, past the end of a key whose length is no multiple of
    four: `beyond` is the memory that follows. -/
def base64Decode (inp beyond : List Byte) (olen : Nat) : Except Errno (List Byte) :=
  if olen < inp.length * 3 / 4 then .error .EOVERFLOW
  else .ok (base64DecodeQuanta ((inp.length + 3) / 4) (inp ++ beyond))

example : base64Decode (ascii "cmU=") [] 8 = .ok (ascii "re") := by decide

def b64table : List Byte := ascii "ABCDEFGHIJKLMNOPQRSTUVWXYZabcdefghijklmnopqrstuvwxyz0123456789+/"

/-- The character of a 6-bit value. -/
def b64char (v : BitVec 6) : Byte := b64table.getD v.toNat 0

def b64bits (a b c : Byte) : BitVec 24 := a ++ b ++ c

/-- Three bytes, of which the last `pad` ones are missing. -/
def b64group (a b c : Byte) (pad : Nat) : List Byte :=
  let v := b64bits a b c
  [b64char (v.extractLsb' 18 6), b64char (v.extractLsb' 12 6),
    if pad ≥ 2 then chr '=' else b64char (v.extractLsb' 6 6),
    if pad ≥ 1 then chr '=' else b64char (v.extractLsb' 0 6)]

def base64EncodeGroups : List Byte → List Byte
  | [] => []
  | [a] => b64group a 0 0 2
  | [a, b] => b64group a b 0 1
  | a :: b :: c :: inp => b64group a b c 0 ++ base64EncodeGroups inp

def base64Encode (inp : List Byte) (olen : Nat) : Except Errno (List Byte) :=
  if olen < inp.length * 4 / 3 then .error .EOVERFLOW else .ok (base64EncodeGroups inp)

/-- The offsets that the decoder reads. -/
def base64DecodeReads (inp : List Byte) (olen : Nat) : List Nat :=
  if olen < inp.length * 3 / 4 then []
  else (List.range ((inp.length + 3) / 4)).flatMap fun n => [4 * n, 4 * n + 1, 4 * n + 2, 4 * n + 3]

/-- Decoding stays in its input and in its output. -/
structure DecodeInside (inp : List Byte) (olen : Nat) : Prop where
  reads : ∀ i ∈ base64DecodeReads inp olen, i < inp.length
  writes : ∀ beyond out, base64Decode inp beyond olen = .ok out → out.length ≤ olen

def EncodeInside (inp : List Byte) (olen : Nat) : Prop := ∀ out, base64Encode inp olen = .ok out → out.length ≤ olen

def RoundTrips (inp : List Byte) : Prop :=
  ∀ olen out beyond olen', base64Encode inp olen = .ok out → out.length * 3 / 4 ≤ olen' →
    base64Decode out beyond olen' = .ok inp

section
variable {a b c : Byte} {p q r s : BitVec 6} {inp mem : List Byte} {olen n : Nat}

theorem b64val_char : ∀ v : BitVec 6, b64val (b64char v) = v.setWidth 32 := by
  unfold b64char b64table
  rw [ascii_ofList]
  decide +kernel

theorem b64val_pad : b64val (chr '=') = 1 <<< 24 := by decide

/-- The four 6-bit values of a group give its 24 bits back. -/
theorem sextets (v : BitVec 24) :
    (v.extractLsb' 18 6).setWidth 32 <<< 18 ||| (v.extractLsb' 12 6).setWidth 32 <<< 12 |||
      (v.extractLsb' 6 6).setWidth 32 <<< 6 ||| (v.extractLsb' 0 6).setWidth 32 = v.setWidth 32 := by
  ext i small
  simp only [BitVec.getElem_or, BitVec.getElem_shiftLeft, BitVec.getElem_setWidth, BitVec.getLsbD_extractLsb']
  by_cases low : i < 6
  · simp [low, show i < 12 by omega, show i < 18 by omega]
  · by_cases second : i < 12
    · simp [low, second, show i < 18 by omega, show i - 6 < 6 by omega, show 6 + (i - 6) = i by omega]
    · by_cases third : i < 18
      · simp [low, second, third, show ¬i - 6 < 6 by omega, show i - 12 < 6 by omega, show 12 + (i - 12) = i by omega]
      · by_cases fourth : i < 24
        · simp [low, second, third, show ¬i - 6 < 6 by omega, show ¬i - 12 < 6 by omega, show i - 18 < 6 by omega,
            show 18 + (i - 18) = i by omega]
        · simp [low, second, third, show ¬i - 6 < 6 by omega, show ¬i - 12 < 6 by omega, show ¬i - 18 < 6 by omega,
            BitVec.getLsbD_of_ge v i (by omega)]

/-- The bits above the 24 of a group do not show in its bytes. -/
theorem extract_marked {v : BitVec 24} {m : BitVec 32} (high : ∀ i < 24, m.getLsbD i = false) {k : Nat} (low : k ≤ 16) :
    (v.setWidth 32 ||| m).extractLsb' k 8 = v.extractLsb' k 8 := by
  ext i small
  have none_ := high (k + i) (by omega)
  simp [none_]
  omega

theorem group_bytes : (b64bits a b c).extractLsb' 16 8 = a ∧ (b64bits a b c).extractLsb' 8 8 = b ∧
    (b64bits a b c).extractLsb' 0 8 = c := by
  unfold b64bits
  refine ⟨?_, ?_, ?_⟩
  · ext i small
    rw [BitVec.getElem_extractLsb', BitVec.getLsbD_append, BitVec.getLsbD_append, if_neg (by omega), if_neg (by omega),
      show 16 + i - 8 - 8 = i by omega, BitVec.getLsbD_eq_getElem small]
  · ext i small
    rw [BitVec.getElem_extractLsb', BitVec.getLsbD_append, BitVec.getLsbD_append, if_neg (by omega), if_pos (by omega),
      show 8 + i - 8 = i by omega, BitVec.getLsbD_eq_getElem small]
  · ext i small
    rw [BitVec.getElem_extractLsb', BitVec.getLsbD_append, if_pos (by omega), Nat.zero_add, BitVec.getLsbD_eq_getElem small]

theorem low_zero : (b64bits a b 0).extractLsb' 0 6 = 0 := by
  ext i small
  rw [b64bits, BitVec.getElem_extractLsb', BitVec.getLsbD_append, if_pos (by omega)]
  simp

theorem middle_zero : (b64bits a 0 0).extractLsb' 6 6 = 0 := by
  ext i small
  rw [b64bits, BitVec.getElem_extractLsb', BitVec.getLsbD_append]
  split
  · simp
  · rw [BitVec.getLsbD_append, if_pos (by omega)]
    simp

/-- A group comes back with as many bytes as it has. -/
theorem quantum_marked (v : BitVec 24) {x y : Byte} {m : BitVec 32}
    (value : b64val x <<< 6 ||| b64val y = (v.extractLsb' 6 6).setWidth 32 <<< 6 ||| (v.extractLsb' 0 6).setWidth 32 ||| m)
    (high : ∀ i < 24, m.getLsbD i = false) :
    b64quantum (b64char (v.extractLsb' 18 6)) (b64char (v.extractLsb' 12 6)) x y =
      v.extractLsb' 16 8 :: ((if m.getLsbD 30 then [] else [v.extractLsb' 8 8]) ++
        if m.getLsbD 24 then [] else [v.extractLsb' 0 8]) := by
  have whole : b64val (b64char (v.extractLsb' 18 6)) <<< 18 ||| b64val (b64char (v.extractLsb' 12 6)) <<< 12 |||
      b64val x <<< 6 ||| b64val y = v.setWidth 32 ||| m := by
    rw [b64val_char, b64val_char, BitVec.or_assoc, value, ← sextets v]
    simp only [BitVec.or_assoc]
  unfold b64quantum
  rw [whole]
  dsimp only
  rw [extract_marked high (Nat.le_refl 16), extract_marked high (by decide), extract_marked high (by decide)]
  simp

/-- The characters of a group and its bytes. -/
theorem group_three (rest : List Byte) : ∃ w x y z, b64group a b c 0 ++ rest = w :: x :: y :: z :: rest ∧
    b64quantum w x y z = [a, b, c] := by
  refine ⟨_, _, _, _, rfl, ?_⟩
  rcases group_bytes (a := a) (b := b) (c := c) with ⟨first, second, third⟩
  rw [if_neg (by decide), if_neg (by decide), quantum_marked (m := 0) _ (by simp [b64val_char]) (by simp)]
  simp [first, second, third]

theorem group_two (rest : List Byte) : ∃ w x y z, b64group a b 0 1 ++ rest = w :: x :: y :: z :: rest ∧
    b64quantum w x y z = [a, b] := by
  refine ⟨_, _, _, _, rfl, ?_⟩
  rcases group_bytes (a := a) (b := b) (c := 0) with ⟨first, second, _⟩
  rw [if_neg (by decide), if_pos (by decide), quantum_marked (m := 1 <<< 24) _ _ (by decide)]
  · rw [first, second]
    rfl
  · rw [low_zero, b64val_char, b64val_pad]
    simp

theorem group_one (rest : List Byte) : ∃ w x y z, b64group a 0 0 2 ++ rest = w :: x :: y :: z :: rest ∧
    b64quantum w x y z = [a] := by
  refine ⟨_, _, _, _, rfl, ?_⟩
  rcases group_bytes (a := a) (b := 0) (c := 0) with ⟨first, _, _⟩
  rw [if_pos (by decide), if_pos (by decide), quantum_marked (m := (1 <<< 24) <<< 6 ||| 1 <<< 24) _ _ (by decide)]
  · rw [first]
    rfl
  · rw [low_zero, middle_zero, b64val_pad]
    simp

theorem base64DecodeQuanta_step {w x y z : Byte} (rest : List Byte) :
    base64DecodeQuanta (n + 1) (w :: x :: y :: z :: rest) = b64quantum w x y z ++ base64DecodeQuanta n rest := rfl

theorem encodeGroups_length (inp : List Byte) : (base64EncodeGroups inp).length = 4 * ((inp.length + 2) / 3) := by
  induction inp using base64EncodeGroups.induct with
  | case1 => rfl
  | case2 a =>
    rw [base64EncodeGroups]
    simp [b64group]
  | case3 a b =>
    rw [base64EncodeGroups]
    simp [b64group]
  | case4 a b c inp ih =>
    rw [base64EncodeGroups, List.length_append, ih]
    simp only [b64group, List.length_cons, List.length_nil]
    omega

theorem decode_encoded (inp rest : List Byte) :
    base64DecodeQuanta ((inp.length + 2) / 3) (base64EncodeGroups inp ++ rest) = inp := by
  induction inp using base64EncodeGroups.induct with
  | case1 => rfl
  | case2 a =>
    rcases group_one (a := a) rest with ⟨w, x, y, z, front, bytes⟩
    have count : ([a].length + 2) / 3 = 0 + 1 := by simp
    rw [base64EncodeGroups, front, count, base64DecodeQuanta_step, bytes]
    rfl
  | case3 a b =>
    rcases group_two (a := a) (b := b) rest with ⟨w, x, y, z, front, bytes⟩
    have count : ([a, b].length + 2) / 3 = 0 + 1 := by simp
    rw [base64EncodeGroups, front, count, base64DecodeQuanta_step, bytes]
    rfl
  | case4 a b c inp ih =>
    rcases group_three (a := a) (b := b) (c := c) (base64EncodeGroups inp ++ rest) with ⟨w, x, y, z, front, bytes⟩
    have count : ((a :: b :: c :: inp).length + 2) / 3 = (inp.length + 2) / 3 + 1 := by
      simp only [List.length_cons]
      omega
    rw [base64EncodeGroups, List.append_assoc, front, count, base64DecodeQuanta_step, bytes, ih]
    rfl

theorem round_trips (inp : List Byte) : RoundTrips inp := by
  intro olen out beyond olen' encoded enough
  unfold base64Encode at encoded
  split_ifs at encoded
  cases encoded
  rw [base64Decode, if_neg (by omega), encodeGroups_length]
  have count : (4 * ((inp.length + 2) / 3) + 3) / 4 = (inp.length + 2) / 3 := by omega
  rw [count, decode_encoded]

theorem quantum_length (w x y z : Byte) : (b64quantum w x y z).length ≤ 3 := by
  unfold b64quantum
  dsimp only
  split <;> split <;> simp

theorem quanta_length (n : Nat) (mem : List Byte) : (base64DecodeQuanta n mem).length ≤ 3 * n := by
  induction n generalizing mem with
  | zero => exact Nat.le_refl 0
  | succ n ih =>
    rw [base64DecodeQuanta, List.length_append]
    have first := quantum_length (mem.getD 0 0) (mem.getD 1 0) (mem.getD 2 0) (mem.getD 3 0)
    have others := ih (mem.drop 4)
    omega

theorem decodeInside_iff (inp : List Byte) (olen : Nat) :
    DecodeInside inp olen ↔ olen < inp.length * 3 / 4 ∨ inp.length % 4 = 0 := by
  constructor
  · intro inside
    by_cases small : olen < inp.length * 3 / 4
    · exact Or.inl small
    · refine Or.inr ?_
      by_cases whole : inp.length % 4 = 0
      · exact whole
      · have last := inside.reads (4 * (inp.length / 4) + 3) (by
          rw [base64DecodeReads, if_neg small, List.mem_flatMap]
          refine ⟨inp.length / 4, List.mem_range.mpr (by omega), ?_⟩
          simp)
        omega
  · intro fits
    constructor
    · intro i read
      unfold base64DecodeReads at read
      split_ifs at read with small
      · cases read
      · have whole := fits.resolve_left small
        rcases List.mem_flatMap.mp read with ⟨n, few, here⟩
        have few := List.mem_range.mp few
        simp only [List.mem_cons, List.not_mem_nil, or_false] at here
        omega
    · intro beyond out decoded
      unfold base64Decode at decoded
      split_ifs at decoded with small
      cases decoded
      have whole := fits.resolve_left small
      have written := quanta_length ((inp.length + 3) / 4) (inp ++ beyond)
      omega

theorem encodeInside_iff (inp : List Byte) (olen : Nat) :
    EncodeInside inp olen ↔ olen < inp.length * 4 / 3 ∨ 4 * ((inp.length + 2) / 3) ≤ olen := by
  unfold EncodeInside base64Encode
  by_cases small : olen < inp.length * 4 / 3
  · rw [if_pos small]
    exact ⟨fun _ => Or.inl small, fun _ out encoded => by cases encoded⟩
  · rw [if_neg small]
    constructor
    · intro inside
      have written := inside _ rfl
      rw [encodeGroups_length] at written
      exact Or.inr written
    · intro fits out encoded
      cases encoded
      rw [encodeGroups_length]
      exact fits.resolve_left small

end

end Baresip.Re
