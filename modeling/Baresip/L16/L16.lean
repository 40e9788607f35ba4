import Baresip.Library.Loops
import Baresip.Re.Mbuf

set_option linter.dupNamespace false

namespace Baresip.L16

open Re Library

/-- The byte order of the host. -/
inductive Endian
  | little | big
  deriving DecidableEq, Repr

/-- A 16-bit value whose bytes lie in memory as given. -/
def hostWord : Endian → Byte → Byte → BitVec 16
  | .little, a, b => b ++ a
  | .big, a, b => a ++ b

def hostBytes : Endian → BitVec 16 → List Byte
  | .little, v => [v.extractLsb' 0 8, v.extractLsb' 8 8]
  | .big, v => [v.extractLsb' 8 8, v.extractLsb' 0 8]

/-- `ntohs` and `htons` -/
def ntohs : Endian → BitVec 16 → BitVec 16
  | .little, v => v.extractLsb' 0 8 ++ v.extractLsb' 8 8
  | .big, v => v

/-- `mbuf_read_u16`, which yields 0 and leaves the position where it is when fewer than two bytes are left. -/
def readU16 (e : Endian) (mb : Mbuf) : BitVec 16 × Mbuf :=
  match mb.readMem 2 with
  | .ok (data, mb) => (hostWord e (data.getD 0 0) (data.getD 1 0), mb)
  | .error _ => (0, mb)

def writeU16 (e : Endian) (mb : Mbuf) (v : BitVec 16) : Mbuf := mb.writeMem (hostBytes e v)

/-- The loop of `encode` and of `decode`, which go on while so many bytes are left. -/
def convertBody (room : Nat) (e : Endian) (s : Mbuf × Mbuf) : (Mbuf × Mbuf) ⊕ (Mbuf × Mbuf) :=
  if s.2.getLeft < room then .inr s
  else
    let (v, src) := readU16 e s.2
    .inl (writeU16 e s.1 (ntohs e v), src)

def encodeBody : Endian → Mbuf × Mbuf → (Mbuf × Mbuf) ⊕ (Mbuf × Mbuf) := convertBody 2

def decodeBody : Endian → Mbuf × Mbuf → (Mbuf × Mbuf) ⊕ (Mbuf × Mbuf) := convertBody 1

/-- The samples of a payload, in network order. -/
def networkWords : List Byte → List (BitVec 16)
  | a :: b :: payload => (a ++ b) :: networkWords payload
  | _ => []

/-- The loop ends, and has written every sample of the payload and nothing else. -/
def Converts (body : Mbuf × Mbuf → (Mbuf × Mbuf) ⊕ (Mbuf × Mbuf)) (e : Endian) (dst : Mbuf) (src : Unread) : Prop :=
  ∃ src', Returns body (dst, src.mb) ((networkWords src.bytes).foldl (writeU16 e) dst, src')

section
variable {room : Nat} {e : Endian} {dst : Mbuf} {src : Unread}

theorem networkWords_length (payload : List Byte) : (networkWords payload).length = payload.length / 2 := by
  induction payload using networkWords.induct with
  | case1 a b payload ih =>
    simp only [networkWords, List.length_cons, ih]
    omega
  | case2 payload short =>
    rcases payload with _ | ⟨a, _ | ⟨b, payload⟩⟩
    · rfl
    · simp [networkWords]
    · exact absurd rfl (short a b payload)

theorem networkWords_get {payload : List Byte} {i : Nat} {a b : Byte} (first : payload[2 * i]? = some a)
    (second : payload[2 * i + 1]? = some b) : (networkWords payload)[i]? = some (a ++ b) := by
  induction i generalizing payload with
  | zero =>
    rcases payload with _ | ⟨x, _ | ⟨y, payload⟩⟩
    · cases first
    · cases second
    · cases first
      cases second
      rfl
  | succ i ih =>
    rcases payload with _ | ⟨x, _ | ⟨y, payload⟩⟩
    · cases first
    · cases second
    · exact ih first second

theorem ntohs_hostWord (a b : Byte) : ntohs e (hostWord e a b) = a ++ b := by
  cases e with
  | little =>
    have low : (b ++ a : BitVec (8 + 8)).extractLsb' 0 8 = a := by
      ext i small
      rw [BitVec.getElem_extractLsb', BitVec.getLsbD_append]
      simp [small]
    have high : (b ++ a : BitVec (8 + 8)).extractLsb' 8 8 = b := by
      ext i small
      rw [BitVec.getElem_extractLsb', BitVec.getLsbD_append]
      simp [small]
    show (b ++ a).extractLsb' 0 8 ++ (b ++ a).extractLsb' 8 8 = a ++ b
    rw [low, high]
  | big => rfl

theorem bytes_length (src : Unread) : src.bytes.length = src.mb.getLeft := Mbuf.left_length src.inside

theorem body_ends (short : src.mb.getLeft < room) : convertBody room e (dst, src.mb) = .inr (dst, src.mb) := if_pos short

/-- A sample is read and written. -/
theorem body_sample {a b : Byte} {payload : List Byte} (enough : room ≤ 2) (left : src.bytes = a :: b :: payload) :
    convertBody room e (dst, src.mb) = .inl (writeU16 e dst (a ++ b), src.mb.advance 2) := by
  have size : src.mb.getLeft = payload.length + 2 := by
    rw [← bytes_length, left]
    rfl
  have front : (src.mb.buf.drop src.mb.pos).take 2 = [a, b] := by
    have whole : ((src.mb.buf.drop src.mb.pos).take src.mb.getLeft).take 2 = [a, b] := congrArg (List.take 2) left
    rwa [List.take_take, Nat.min_eq_left (by omega)] at whole
  have read : src.mb.readMem 2 = .ok ([a, b], src.mb.advance 2) := by
    rw [Mbuf.readMem, if_neg (by omega), front]
  have more : ¬src.mb.getLeft < room := by omega
  unfold convertBody readU16
  rw [if_neg more, read]
  show Sum.inl (writeU16 e dst (ntohs e (hostWord e a b)), src.mb.advance 2) = _
  rw [ntohs_hostWord]

/-- What is left after some bytes have been read. -/
def skip (src : Unread) (n : Nat) (fits : n ≤ src.mb.getLeft) : Unread where
  mb := src.mb.advance n
  ordered := src.advance_ordered fits
  inside := src.inside

theorem convert_returns (few : room ≤ 2) (ends : ∀ n, n % 2 = src.bytes.length % 2 → n < 2 → n < room) :
    Converts (convertBody room e) e dst src := by
  generalize payload : src.bytes = bytes at ends
  induction bytes using networkWords.induct generalizing src dst with
  | case1 a b rest ih =>
    have fits : 2 ≤ src.mb.getLeft := by
      rw [← bytes_length, payload]
      exact Nat.le_add_left 2 rest.length
    have left : (skip src 2 fits).bytes = rest := by
      show (src.mb.advance 2).left = rest
      rw [Mbuf.advance_left]
      exact congrArg (List.drop 2) payload
    have later : Converts (convertBody room e) e (writeU16 e dst (a ++ b)) (skip src 2 fits) := by
      apply ih left
      intro n same less
      apply ends n _ less
      rw [same, List.length_cons, List.length_cons]
      omega
    rcases later with ⟨src', returns⟩
    refine ⟨src', Returns.step (body_sample few payload) ?_⟩
    rw [left] at returns
    rw [payload]
    exact returns
  | case2 bytes short =>
    have none_ : networkWords src.bytes = [] := by
      rw [payload]
      exact networkWords.eq_2 bytes short
    have size : bytes.length < 2 := by
      rcases bytes with _ | ⟨a, _ | ⟨b, rest⟩⟩
      · exact Nat.zero_lt_two
      · exact Nat.one_lt_two
      · exact absurd rfl (short a b rest)
    refine ⟨src.mb, ?_⟩
    rw [none_]
    apply Returns.done
    apply body_ends
    rw [← bytes_length, payload]
    exact ends _ rfl size

/-- The encoder converts every whole sample and leaves an odd byte alone. -/
theorem encode_converts (e : Endian) (dst : Mbuf) (src : Unread) : Converts (encodeBody e) e dst src :=
  convert_returns (Nat.le_refl 2) fun _ _ less => less

/-- Once an odd number of bytes is left, the decoder goes on for ever. -/
theorem decode_odd {s s' : Mbuf × Mbuf} (odd : s.2.getLeft % 2 = 1) (goes : decodeBody e s = .inl s') :
    s'.2.getLeft % 2 = 1 := by
  unfold decodeBody convertBody readU16 Mbuf.readMem at goes
  rw [if_neg (by omega)] at goes
  by_cases one : 2 > s.2.getLeft
  · rw [if_pos one] at goes
    cases goes
    exact odd
  · rw [if_neg one] at goes
    cases goes
    simp only [Mbuf.getLeft, Mbuf.advance] at odd one ⊢
    omega

theorem decode_stuck (odd : src.mb.getLeft % 2 = 1) (r : Mbuf × Mbuf) : ¬Returns (decodeBody e) (dst, src.mb) r := by
  intro returns
  have impossible := returns.of_invariant (I := fun s => s.2.getLeft % 2 = 1) (Q := fun _ => False)
    (fun s next odd goes => decode_odd odd goes)
    (fun s r odd ends => by
      unfold decodeBody convertBody at ends
      rw [if_neg (by omega)] at ends
      cases ends)
    odd
  exact impossible

end

/-- The decoder converts a payload exactly when its length is even. -/
theorem decode_converts_iff (e : Endian) (dst : Mbuf) (src : Unread) :
    Converts (decodeBody e) e dst src ↔ src.bytes.length % 2 = 0 := by
  constructor
  · rintro ⟨src', returns⟩
    by_cases even : src.bytes.length % 2 = 0
    · exact even
    · rw [bytes_length] at even
      exact absurd returns (decode_stuck (by omega) _)
  · intro even
    apply convert_returns (Nat.le_succ 1)
    intro n same less
    omega

/-- A payload of one byte. -/
theorem decode_never_returns :
    ¬∃ r, Returns (decodeBody .little) (Mbuf.alloc 512, (Unread.ofBytes [0x11]).mb) r := by
  rintro ⟨r, returns⟩
  exact decode_stuck (by decide) r returns

end Baresip.L16
