import Baresip.Rtcp.Encode
import Baresip.Rtcp.Widths

set_option linter.dupNamespace false

namespace Baresip.Rtcp

open Re Library Decoder

variable {mb mb' : Mbuf} {start : Nat} {data more : List Byte} {α : Type}

/-- A writer puts these bytes behind what has been written. -/
def Writes (write : Mbuf → Mbuf) (bytes : List Byte) : Prop :=
  ∀ mb start data, mb.Holds start data → (write mb).Holds start (data ++ bytes)

theorem Writes.mem (bytes : List Byte) : Writes (fun mb => mb.writeMem bytes) bytes := fun _ _ _ held => held.write bytes

theorem Writes.u32 (v : BitVec 32) : Writes (fun mb => writeU32 mb v) (be32 v) := Writes.mem (be32 v)

theorem Writes.comp {f g : Mbuf → Mbuf} (first : Writes f data) (second : Writes g more) :
    Writes (fun mb => g (f mb)) (data ++ more) := by
  intro mb start written held
  rw [← List.append_assoc]
  exact second _ _ _ (first _ _ _ held)

theorem Writes.all {f : Mbuf → α → Mbuf} {bytes : α → List Byte} (each : ∀ a, Writes (fun mb => f mb a) (bytes a))
    (items : List α) : Writes (fun mb => items.foldl f mb) (items.flatMap bytes) := by
  induction items with
  | nil =>
    intro mb start written held
    rw [List.flatMap_nil, List.append_nil]
    exact held
  | cons a items ih => exact (each a).comp ih

/-- The bytes that make the size a multiple of four. -/
def padding (size : Nat) : List Byte := List.replicate (pad4 size - size) 0

theorem pad4_length (bytes : List Byte) : (bytes ++ padding bytes.length).length = pad4 bytes.length := by
  have less : bytes.length ≤ pad4 bytes.length := by
    unfold pad4
    omega
  rw [List.length_append, padding, List.length_replicate, Nat.add_sub_cancel' less]

/-- The loop that pads writes what is missing behind the bytes that are counted. -/
theorem padEncode_holds (size : Mbuf → Nat) (offset : Nat) {before : List Byte} (held : mb.Holds start (before ++ data))
    (counts : ∀ mb data, mb.Holds start (before ++ data) → size mb = offset + data.length) :
    (padEncode size 3 mb).Holds start (before ++ data ++ padding (offset + data.length)) := by
  have turns : ∀ n mb data, mb.Holds start (before ++ data) → pad4 (offset + data.length) - (offset + data.length) ≤ n →
      (padEncode size n mb).Holds start (before ++ data ++ padding (offset + data.length)) := by
    intro n
    induction n with
    | zero =>
      intro mb data held full
      unfold padding padEncode
      rw [Nat.le_zero.mp full]
      exact (List.append_nil (before ++ data)).symm ▸ held
    | succ n ih =>
      intro mb data held most
      have counted := counts mb data held
      unfold padEncode
      by_cases aligned : size mb % 4 = 0
      · have full : pad4 (offset + data.length) - (offset + data.length) = 0 := by
          unfold pad4
          omega
        unfold padding
        rw [if_neg (not_not.mpr aligned), full]
        exact (List.append_nil (before ++ data)).symm ▸ held
      · have length : (data ++ [(0 : Byte)]).length = data.length + 1 := List.length_append
        have less : pad4 (offset + (data.length + 1)) - (offset + (data.length + 1)) + 1 =
            pad4 (offset + data.length) - (offset + data.length) := by
          unfold pad4
          omega
        have next : (mb.writeU8 0).Holds start (before ++ (data ++ [0])) := by
          rw [← List.append_assoc]
          exact held.write [0]
        have later := ih (mb.writeU8 0) (data ++ [0]) next (by rw [length]; omega)
        rw [if_pos aligned]
        unfold padding at later ⊢
        rw [length, ← List.append_assoc, List.append_assoc (before ++ data)] at later
        rw [← less, List.replicate_succ]
        exact later
  apply turns 3 mb data held
  unfold pad4
  omega

theorem readU16_reads (v : BitVec 16) : readU16.Reads (be16 v) v := by
  have reads := (Reads.number (putBe_length 2 v.toNat) : (number 2 : Dec Nat).Reads _ _).map (BitVec.ofNat 16)
  rw [getBe_toNat rfl, BitVec.ofNat_toNat, BitVec.setWidth_eq] at reads
  exact reads

theorem readU32_reads (v : BitVec 32) : readU32.Reads (be32 v) v := by
  have reads := (Reads.number (putBe_length 4 v.toNat) : (number 4 : Dec Nat).Reads _ _).map (BitVec.ofNat 32)
  rw [getBe_toNat rfl, BitVec.ofNat_toNat, BitVec.setWidth_eq] at reads
  exact reads

theorem be32_length (v : BitVec 32) : (be32 v).length = 4 := putBe_length 4 _

theorem be16_length (v : BitVec 16) : (be16 v).length = 2 := putBe_length 2 _

def RtcpRr.words (rr : RtcpRr) : List (BitVec 32) := [rr.ssrc, rr.fraction ++ rr.lost, rr.lastSeq, rr.jitter, rr.lsr, rr.dlsr]

def RtcpRr.bytes (rr : RtcpRr) : List Byte := rr.words.flatMap be32

theorem rtcpRrEncode_writes (rr : RtcpRr) : Writes (fun mb => rtcpRrEncode mb rr) rr.bytes :=
  Writes.all (f := writeU32) Writes.u32 rr.words

theorem flatMap_length {bytes : α → List Byte} {n : Nat} (each : ∀ a, (bytes a).length = n) (items : List α) :
    (items.flatMap bytes).length = items.length * n := by
  induction items with
  | nil => exact (Nat.zero_mul n).symm
  | cons a items ih => rw [List.flatMap_cons, List.length_append, each, ih, List.length_cons, Nat.succ_mul, Nat.add_comm]

theorem flatMap_be32_length (words : List (BitVec 32)) : (words.flatMap be32).length = words.length * 4 :=
  flatMap_length be32_length words

theorem lost_word (fraction : BitVec 8) (lost : BitVec 24) :
    (fraction ++ lost).extractLsb' 24 8 = fraction ∧ (fraction ++ lost).extractLsb' 0 24 = lost := by
  have high := fraction.isLt
  have low := lost.isLt
  have value : (fraction ++ lost).toNat = fraction.toNat * 2 ^ 24 + lost.toNat := by
    rw [BitVec.toNat_append, ← Nat.shiftLeft_add_eq_or_of_lt low, Nat.shiftLeft_eq]
  constructor
  · apply BitVec.eq_of_toNat_eq
    rw [BitVec.extractLsb'_toNat, value, Nat.shiftRight_eq_div_pow]
    omega
  · apply BitVec.eq_of_toNat_eq
    rw [BitVec.extractLsb'_toNat, value, Nat.shiftRight_zero]
    omega

theorem rtcpRrDecode_reads (rr : RtcpRr) : rtcpRrDecode.Reads rr.bytes rr := by
  apply Reads.need
  · unfold RtcpRr.bytes
    rw [flatMap_be32_length]
    exact Nat.le_refl _
  · rcases lost_word rr.fraction rr.lost with ⟨fraction, lost⟩
    have bytes : rr.bytes = be32 rr.ssrc ++ (be32 (rr.fraction ++ rr.lost) ++ (be32 rr.lastSeq ++ (be32 rr.jitter ++
      (be32 rr.lsr ++ (be32 rr.dlsr ++ []))))) := rfl
    rw [bytes]
    refine (readU32_reads _).bind ((readU32_reads _).bind ((readU32_reads _).bind ((readU32_reads _).bind
      ((readU32_reads _).bind ((readU32_reads _).bind ?_)))))
    rw [fraction, lost]
    exact Reads.pure

theorem itemEncode_writes (type : Byte) (v : List Byte) : Writes
    (fun mb => ((mb.writeU8 type).writeU8 (.ofNat 8 v.length)).writeMem v) (type :: .ofNat 8 v.length :: v) :=
  ((Writes.mem [type]).comp (Writes.mem [.ofNat 8 v.length])).comp (Writes.mem v)

def Gnack.bytes (gnack : Gnack) : List Byte := be16 gnack.pid ++ be16 gnack.blp

theorem rtcpRtpfbGnackEncode_writes (gnack : Gnack) : Writes (fun mb => rtcpRtpfbGnackEncode mb gnack) gnack.bytes :=
  (Writes.mem (be16 gnack.pid)).comp (Writes.mem (be16 gnack.blp))

theorem gnackDecode_reads (gnack : Gnack) : gnackDecode.Reads gnack.bytes gnack := by
  have bytes : gnack.bytes = be16 gnack.pid ++ (be16 gnack.blp ++ []) := by
    rw [List.append_nil]
    rfl
  rw [bytes]
  exact (readU16_reads _).bind ((readU16_reads _).bind Reads.pure)

/-- The values of an entry have 13, 13 and 6 bits on the wire. -/
structure Sli.InRange (sli : Sli) : Prop where
  first : sli.first.toNat < 2 ^ 13
  number : sli.number.toNat < 2 ^ 13
  picid : sli.picid.toNat < 2 ^ 6

def Sli.word (sli : Sli) : BitVec 32 :=
  sli.first.setWidth 32 <<< 19 ||| sli.number.setWidth 32 <<< 6 ||| sli.picid.setWidth 32

theorem Sli.InRange.word {sli : Sli} (range : sli.InRange) :
    sli.word.toNat = sli.first.toNat * 2 ^ 19 + sli.number.toNat * 2 ^ 6 + sli.picid.toNat := by
  have high := range.first
  have middle := range.number
  have low := range.picid
  have first : (sli.first.setWidth 32 <<< 19).toNat = sli.first.toNat <<< 19 := by
    rw [BitVec.toNat_shiftLeft, BitVec.toNat_setWidth, Nat.shiftLeft_eq, Nat.shiftLeft_eq]
    omega
  have number : (sli.number.setWidth 32 <<< 6).toNat = sli.number.toNat * 2 ^ 6 := by
    rw [BitVec.toNat_shiftLeft, BitVec.toNat_setWidth, Nat.shiftLeft_eq]
    omega
  have picid : (sli.picid.setWidth 32).toNat = sli.picid.toNat := by
    rw [BitVec.toNat_setWidth]
    omega
  have upper : sli.first.toNat <<< 19 ||| sli.number.toNat * 2 ^ 6 = (sli.first.toNat * 2 ^ 13 + sli.number.toNat) <<< 6 := by
    rw [← Nat.shiftLeft_add_eq_or_of_lt (by omega), Nat.shiftLeft_eq, Nat.shiftLeft_eq]
    omega
  unfold Sli.word
  rw [BitVec.toNat_or, BitVec.toNat_or, first, number, picid, upper, ← Nat.shiftLeft_add_eq_or_of_lt low, Nat.shiftLeft_eq]
  omega

theorem rtcpPsfbSliEncode_writes (sli : Sli) : Writes (fun mb => rtcpPsfbSliEncode mb sli) (be32 sli.word) :=
  Writes.mem (be32 sli.word)

theorem sliDecode_reads {sli : Sli} (range : sli.InRange) : sliDecode.Reads (be32 sli.word) sli := by
  have word := range.word
  have high := range.first
  have middle := range.number
  have low := range.picid
  have first : (sli.word.extractLsb' 19 13).setWidth 16 = sli.first := by
    apply BitVec.eq_of_toNat_eq
    rw [BitVec.toNat_setWidth, BitVec.extractLsb'_toNat, word, Nat.shiftRight_eq_div_pow]
    omega
  have number : (sli.word.extractLsb' 6 13).setWidth 16 = sli.number := by
    apply BitVec.eq_of_toNat_eq
    rw [BitVec.toNat_setWidth, BitVec.extractLsb'_toNat, word, Nat.shiftRight_eq_div_pow]
    omega
  have picid : (sli.word.extractLsb' 0 6).setWidth 8 = sli.picid := by
    apply BitVec.eq_of_toNat_eq
    rw [BitVec.toNat_setWidth, BitVec.extractLsb'_toNat, word, Nat.shiftRight_eq_div_pow]
    omega
  rw [← List.append_nil (be32 sli.word)]
  refine (readU32_reads _).bind ?_
  rw [first, number, picid]
  exact Reads.pure

/-- A writer that does not fail and puts these bytes behind what has been written. -/
def EncodeWrites (encode : Encode) (bytes : List Byte) : Prop :=
  ∀ mb start data, mb.Holds start data → ∃ mb', encode mb = (none, mb') ∧ mb'.Holds start (data ++ bytes)

def Fails (encode : Encode) (e : Errno) : Prop :=
  ∀ mb start data, mb.Holds start data → ∃ mb', encode mb = (some e, mb')

def SdesArg.bytes : SdesArg → List Byte
  | (type, some v) => type :: .ofNat 8 v.length :: v
  | (_, none) => []

def SdesArg.item (arg : SdesArg) : Option RtcpSdesItem := arg.2.map fun v => ⟨arg.1, .ofNat 8 v.length, v⟩

def tooLong (arg : SdesArg) : Bool := arg.2.any fun v => 255 < v.length

/-- The arguments for one source. -/
structure Chunk where
  src : BitVec 32
  items : List SdesArg
  deriving DecidableEq, Repr

namespace Chunk

variable (chunk : Chunk)

/-- There has to be an argument, which may be missing its value, and no value may be too long. -/
def refused : Bool := chunk.items.isEmpty || chunk.items.any tooLong

def fields : List Byte := be32 chunk.src ++ (chunk.items.flatMap SdesArg.bytes ++ [RTCP_SDES_END])

def bytes : List Byte := chunk.fields ++ padding chunk.fields.length

def value : RtcpSdes := ⟨chunk.src, chunk.items.filterMap SdesArg.item⟩

end Chunk

theorem sdesItemsEncode_writes {items : List SdesArg} (fit : items.any tooLong = false) :
    EncodeWrites (sdesItemsEncode items) (items.flatMap SdesArg.bytes) := by
  induction items with
  | nil =>
    intro mb start data held
    refine ⟨mb, rfl, ?_⟩
    rw [List.flatMap_nil, List.append_nil]
    exact held
  | cons item items ih =>
    rw [List.any_cons, Bool.or_eq_false_iff] at fit
    rcases fit with ⟨first, others⟩
    intro mb start data held
    rcases item with ⟨type, v⟩
    rw [List.flatMap_cons, ← List.append_assoc]
    cases v with
    | none =>
      rcases ih others mb start data held with ⟨mb', written, holds⟩
      refine ⟨mb', written, ?_⟩
      rw [SdesArg.bytes, List.append_nil]
      exact holds
    | some v =>
      have short : ¬ v.length > 255 := of_decide_eq_false first
      rcases ih others _ start _ (itemEncode_writes type v mb start data held) with ⟨mb', written, holds⟩
      refine ⟨mb', ?_, holds⟩
      unfold sdesItemsEncode
      rw [if_neg short]
      exact written

theorem sdesItemsEncode_fails {items : List SdesArg} (long : items.any tooLong = true) :
    Fails (sdesItemsEncode items) .EINVAL := by
  induction items with
  | nil => cases long
  | cons item items ih =>
    intro mb start data held
    rw [List.any_cons, Bool.or_eq_true] at long
    rcases item with ⟨type, v⟩
    unfold sdesItemsEncode
    cases v with
    | none =>
      rcases long with first | others
      · cases first
      · exact ih others mb start data held
    | some v =>
      by_cases first : v.length > 255
      · exact ⟨mb, if_pos first⟩
      · rcases long with first' | others
        · exact absurd (of_decide_eq_true first') first
        · rcases ih others _ start _ (itemEncode_writes type v mb start data held) with ⟨mb', failed⟩
          exact ⟨mb', (if_neg first).trans failed⟩

theorem rtcpSdesEncode_writes {chunk : Chunk} (taken : chunk.refused = false) :
    EncodeWrites (rtcpSdesEncode chunk.src chunk.items) chunk.bytes := by
  unfold Chunk.refused at taken
  rcases Bool.or_eq_false_iff.mp taken with ⟨some_, fit⟩
  have items : chunk.items ≠ [] := by
    intro none_
    rw [none_] at some_
    cases some_
  intro mb start data held
  rcases sdesItemsEncode_writes fit _ start _ (held.write (be32 chunk.src)) with ⟨mb', written, holds⟩
  have ended := holds.write [RTCP_SDES_END]
  have fields : data ++ be32 chunk.src ++ chunk.items.flatMap SdesArg.bytes ++ [RTCP_SDES_END] = data ++ chunk.fields := by
    rw [Chunk.fields, List.append_assoc, List.append_assoc, ← List.append_assoc (be32 _), ← List.append_assoc]
  rw [fields] at ended
  have position : mb.pos = start + data.length := held.atEnd.trans held.ends
  have padded := padEncode_holds (fun m => m.pos - mb.pos) 0 ended (by
    intro m more there
    have ends := there.atEnd.trans there.ends
    rw [List.length_append] at ends
    omega)
  refine ⟨padEncode (fun m => m.pos - mb.pos) 3 (mb'.writeU8 RTCP_SDES_END), ?_, ?_⟩
  · unfold rtcpSdesEncode
    rw [if_neg items]
    have same : sdesItemsEncode chunk.items (writeU32 mb chunk.src) = (none, mb') := written
    rw [same]
  · rw [Nat.zero_add, List.append_assoc] at padded
    exact padded

theorem rtcpSdesEncode_fails {chunk : Chunk} (refused : chunk.refused = true) :
    Fails (rtcpSdesEncode chunk.src chunk.items) .EINVAL := by
  intro mb start data held
  unfold rtcpSdesEncode
  by_cases none_ : chunk.items = []
  · exact ⟨mb, if_pos none_⟩
  · have long : chunk.items.any tooLong = true := by
      unfold Chunk.refused at refused
      rcases (Bool.or_eq_true _ _).mp refused with empty | long
      · exact absurd (List.isEmpty_iff.mp empty) none_
      · exact long
    rcases sdesItemsEncode_fails long _ start _ (held.write (be32 chunk.src)) with ⟨mb', failed⟩
    have same : sdesItemsEncode chunk.items (writeU32 mb chunk.src) = (some .EINVAL, mb') := failed
    rw [if_neg none_, same]
    exact ⟨mb', rfl⟩

theorem sdesItems_reads {items : List SdesArg} (fit : items.any tooLong = false)
    (types : ∀ item ∈ items.filterMap SdesArg.item, item.type ≠ RTCP_SDES_END) :
    Reads (sdesItemsDecode : Dec _) (items.flatMap SdesArg.bytes ++ [RTCP_SDES_END]) (items.filterMap SdesArg.item) := by
  induction items with
  | nil =>
    intro rest
    exact sdesItems_end rest
  | cons item items ih =>
    rw [List.any_cons, Bool.or_eq_false_iff] at fit
    rcases fit with ⟨first, others⟩
    rcases item with ⟨type, v⟩
    cases v with
    | none => exact ih others types
    | some v =>
      have reads := ih others fun item mem => types item (List.mem_cons_of_mem _ mem)
      have short : ¬ 255 < v.length := of_decide_eq_false first
      have whole : v.length = (BitVec.ofNat 8 v.length).toNat := by
        rw [BitVec.toNat_ofNat]
        omega
      intro rest
      have behind := reads rest
      rw [List.append_assoc] at behind
      have step := @sdesItems_item (items.flatMap SdesArg.bytes ++ ([RTCP_SDES_END] ++ rest)) v type _
        (types _ List.mem_cons_self) whole
      rw [behind] at step
      rw [List.flatMap_cons, SdesArg.bytes, List.append_assoc, List.append_assoc]
      exact step

theorem rtcpSdesDecode_reads {chunk : Chunk} (taken : chunk.refused = false)
    (types : ∀ item ∈ chunk.value.itemv, item.type ≠ RTCP_SDES_END) : rtcpSdesDecode.Reads chunk.bytes chunk.value := by
  unfold Chunk.refused at taken
  have fit := (Bool.or_eq_false_iff.mp taken).2
  apply Reads.need
  · unfold Chunk.bytes Chunk.fields
    rw [List.length_append, List.length_append, be32_length]
    unfold RTCP_SRC_SIZE
    omega
  · apply Reads.padded _ (pad4_length _)
    have fields : chunk.fields = be32 chunk.src ++ (chunk.items.flatMap SdesArg.bytes ++ [RTCP_SDES_END] ++ []) := by
      rw [List.append_nil]
      rfl
    rw [fields]
    exact (readU32_reads _).bind ((sdesItems_reads fit types).bind Reads.pure)

end Baresip.Rtcp
