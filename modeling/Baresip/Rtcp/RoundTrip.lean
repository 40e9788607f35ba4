import Baresip.Rtcp.Compound
import Baresip.Rtcp.Elements

set_option linter.dupNamespace false

namespace Baresip.Rtcp

open Re Library Decoder

variable {mb mb' : Mbuf} {α : Type}

/-- A packet as its caller has it. The count of some types is the caller's choice. -/
inductive Packet
  | sr (ssrc ntpSec ntpFrac rtpTs psent osent : BitVec 32) (rrv : List RtcpRr)
  | rr (ssrc : BitVec 32) (rrv : List RtcpRr)
  | sdes (chunks : List Chunk)
  | bye (srcv : List (BitVec 32)) (reason : Option (List Byte))
  | app (subtype : BitVec 5) (src : BitVec 32) (name : List Byte) (data : Option (List Byte))
  | fir (count : BitVec 5) (ssrc : BitVec 32)
  | nack (count : BitVec 5) (ssrc : BitVec 32) (fsn blp : BitVec 16)
  | gnack (ssrcPacket ssrcMedia : BitVec 32) (gnackv : List Gnack)
  | pli (ssrcPacket ssrcMedia : BitVec 32)
  | sli (ssrcPacket ssrcMedia : BitVec 32) (sliv : List Sli)
  deriving DecidableEq, Repr

/-- A handler that encodes one element after the other. -/
def eachEncode (f : Mbuf → α → Mbuf) (items : List α) : Encode := fun mb => (none, items.foldl f mb)

def chunksEncode : List Chunk → Encode
  | [], mb => (none, mb)
  | chunk :: chunks, mb =>
    match rtcpSdesEncode chunk.src chunk.items mb with
    | (some e, mb) => (some e, mb)
    | (none, mb) => chunksEncode chunks mb

namespace Packet

def count : Packet → Nat
  | sr _ _ _ _ _ _ rrv => rrv.length
  | rr _ rrv => rrv.length
  | sdes chunks => chunks.length
  | bye srcv _ => srcv.length
  | app subtype _ _ _ => subtype.toNat
  | fir count _ => count.toNat
  | nack count _ _ _ => count.toNat
  | gnack .. => RTCP_RTPFB_GNACK.toNat
  | pli .. => RTCP_PSFB_PLI.toNat
  | sli .. => RTCP_PSFB_SLI.toNat

def args : Packet → RtcpArgs
  | sr ssrc ntpSec ntpFrac rtpTs psent osent rrv =>
    .sr ssrc ntpSec ntpFrac rtpTs psent osent (some (eachEncode rtcpRrEncode rrv))
  | rr ssrc rrv => .rr ssrc (some (eachEncode rtcpRrEncode rrv))
  | sdes chunks => .sdes (some (chunksEncode chunks))
  | bye srcv reason => .bye srcv reason
  | app _ src name data => .app src name data
  | fir _ ssrc => .fir ssrc
  | nack _ ssrc fsn blp => .nack ssrc fsn blp
  | gnack ssrcPacket ssrcMedia gnackv => .rtpfb ssrcPacket ssrcMedia (some (eachEncode rtcpRtpfbGnackEncode gnackv))
  | pli ssrcPacket ssrcMedia => .psfb ssrcPacket ssrcMedia none
  | sli ssrcPacket ssrcMedia sliv => .psfb ssrcPacket ssrcMedia (some (eachEncode rtcpPsfbSliEncode sliv))

def encode (packet : Packet) : Encode := rtcpVencode (.ofNat 32 packet.count) packet.args

/-- What a decoder is to return. -/
def contents : Packet → RtcpBody
  | sr ssrc ntpSec ntpFrac rtpTs psent osent rrv => .sr ssrc ntpSec ntpFrac rtpTs psent osent rrv
  | rr ssrc rrv => .rr ssrc rrv
  | sdes chunks => .sdes (chunks.map Chunk.value)
  | bye srcv reason => .bye srcv reason
  | app _ src name data => .app src name (data.getD [])
  | fir _ ssrc => .fir ssrc
  | nack _ ssrc fsn blp => .nack ssrc fsn blp
  | gnack ssrcPacket ssrcMedia gnackv => .fb ssrcPacket ssrcMedia (.ofNat 32 gnackv.length) (.gnackv gnackv)
  | pli ssrcPacket ssrcMedia => .fb ssrcPacket ssrcMedia 0 .none
  | sli ssrcPacket ssrcMedia sliv => .fb ssrcPacket ssrcMedia (.ofNat 32 sliv.length) (.sliv sliv)

/-- The bytes behind the header, without the padding at the end. -/
def bytes : Packet → List Byte
  | sr ssrc ntpSec ntpFrac rtpTs psent osent rrv =>
    [ssrc, ntpSec, ntpFrac, rtpTs, psent, osent].flatMap be32 ++ rrv.flatMap RtcpRr.bytes
  | rr ssrc rrv => be32 ssrc ++ rrv.flatMap RtcpRr.bytes
  | sdes chunks => chunks.flatMap Chunk.bytes
  | bye srcv reason => srcv.flatMap be32 ++ reason.elim [] fun reason => .ofNat 8 reason.length :: reason
  | app _ src name data => be32 src ++ name ++ data.getD []
  | fir _ ssrc => be32 ssrc
  | nack _ ssrc fsn blp => be32 ssrc ++ be16 fsn ++ be16 blp
  | gnack ssrcPacket ssrcMedia gnackv => be32 ssrcPacket ++ be32 ssrcMedia ++ gnackv.flatMap Gnack.bytes
  | pli ssrcPacket ssrcMedia => be32 ssrcPacket ++ be32 ssrcMedia
  | sli ssrcPacket ssrcMedia sliv => be32 ssrcPacket ++ be32 ssrcMedia ++ sliv.flatMap fun sli => be32 sli.word

/-- What the encoder refuses: a source without an argument or with a value that is too long, and application data that
    does not fill its last word. -/
def refusal : Packet → Option Errno
  | sdes chunks => if chunks.any Chunk.refused then some .EINVAL else none
  | app _ _ _ (some data) => if data.length % 4 ≠ 0 then some .EBADMSG else none
  | _ => none

/-- The values are in the range of their fields: an item is not the end marker, a reason is a string whose length is a
    byte, a name has four bytes, and the entries of a slice loss indication have their bits. -/
def Values : Packet → Prop
  | sdes chunks => ∀ chunk ∈ chunks, ∀ item ∈ chunk.value.itemv, item.type ≠ RTCP_SDES_END
  | bye _ (some reason) => reason.length ≤ 255 ∧ 0 ∉ reason
  | app _ _ name _ => name.length = 4
  | sli _ _ sliv => ∀ sli ∈ sliv, sli.InRange
  | _ => True

/-- Also the count and the length are in the range of their fields. -/
structure InRange (packet : Packet) : Prop where
  counted : packet.count ≤ 31
  values : packet.Values
  length : pad4 packet.bytes.length ≤ 4 * 65535

end Packet

theorem eachEncode_writes {f : Mbuf → α → Mbuf} {bytes : α → List Byte} (each : ∀ a, Writes (fun mb => f mb a) (bytes a))
    (items : List α) : EncodeWrites (eachEncode f items) (items.flatMap bytes) :=
  fun mb start data held => ⟨items.foldl f mb, rfl, Writes.all each items mb start data held⟩

/-- A handler that is run behind what a writer has written. -/
theorem Writes.ench {write : Mbuf → Mbuf} {ench : Encode} {front behind : List Byte} (first : Writes write front)
    (second : EncodeWrites ench behind) : EncodeWrites (fun mb => runEnch (some ench) (write mb)) (front ++ behind) := by
  intro mb start data held
  rw [← List.append_assoc]
  exact second _ _ _ (first _ _ _ held)

theorem Writes.encode {write : Mbuf → Mbuf} {bytes : List Byte} (writes : Writes write bytes) :
    EncodeWrites (fun mb => (none, write mb)) bytes :=
  fun mb start data held => ⟨write mb, rfl, writes mb start data held⟩

theorem Writes.none_ : Writes id [] := by
  intro mb start data held
  rw [List.append_nil]
  exact held

theorem chunksEncode_writes {chunks : List Chunk} (taken : chunks.any Chunk.refused = false) :
    EncodeWrites (chunksEncode chunks) (chunks.flatMap Chunk.bytes) := by
  induction chunks with
  | nil => exact Writes.none_.encode
  | cons chunk chunks ih =>
    rw [List.any_cons, Bool.or_eq_false_iff] at taken
    rcases taken with ⟨first, others⟩
    intro mb start data held
    rcases rtcpSdesEncode_writes first mb start data held with ⟨mb', written, holds⟩
    rcases ih others mb' start _ holds with ⟨mb'', written', holds'⟩
    rw [List.append_assoc] at holds'
    refine ⟨mb'', ?_, holds'⟩
    unfold chunksEncode
    rw [written]
    exact written'

theorem chunksEncode_fails {chunks : List Chunk} (refused : chunks.any Chunk.refused = true) :
    Fails (chunksEncode chunks) .EINVAL := by
  induction chunks with
  | nil => cases refused
  | cons chunk chunks ih =>
    intro mb start data held
    unfold chunksEncode
    cases first : chunk.refused with
    | true =>
      rcases rtcpSdesEncode_fails first mb start data held with ⟨mb', failed⟩
      rw [failed]
      exact ⟨mb', rfl⟩
    | false =>
      rw [List.any_cons, first, Bool.false_or] at refused
      rcases rtcpSdesEncode_writes first mb start data held with ⟨mb', written, holds⟩
      rw [written]
      exact ih refused mb' start _ holds

theorem sdes_accepted {chunks : List Chunk} (taken : (Packet.sdes chunks).refusal = none) :
    chunks.any Chunk.refused = false := by
  have is : (if chunks.any Chunk.refused then some Errno.EINVAL else none) = none := taken
  cases refused : chunks.any Chunk.refused with
  | false => rfl
  | true =>
    rw [refused] at is
    cases is

theorem take_length {count : Nat} (counted : count ≤ 31) : (BitVec.ofNat 32 count).toNat = count := by
  rw [BitVec.toNat_ofNat]
  omega

theorem reasonEncode_writes (reason : List Byte) :
    Writes (fun mb => (mb.writeU8 (.ofNat 8 reason.length)).writeMem reason) (.ofNat 8 reason.length :: reason) :=
  (Writes.mem [.ofNat 8 reason.length]).comp (Writes.mem reason)

theorem pairEncode_writes (a b : BitVec 32) : Writes (fun mb => writeU32 (writeU32 mb a) b) (be32 a ++ be32 b) :=
  (Writes.u32 a).comp (Writes.u32 b)

/-- What is written behind the header of a packet that is not refused. -/
theorem bodyEncode_writes {packet : Packet} (range : packet.InRange) (taken : packet.refusal = none) :
    EncodeWrites (bodyEncode packet.count packet.args) packet.bytes := by
  cases packet with
  | sr ssrc ntpSec ntpFrac rtpTs psent osent rrv =>
    exact (Writes.all (f := writeU32) Writes.u32 [ssrc, ntpSec, ntpFrac, rtpTs, psent, osent]).ench
      (eachEncode_writes rtcpRrEncode_writes rrv)
  | rr ssrc rrv => exact (Writes.u32 ssrc).ench (eachEncode_writes rtcpRrEncode_writes rrv)
  | sdes chunks => exact chunksEncode_writes (sdes_accepted taken)
  | bye srcv reason =>
    have sources := Writes.all (f := writeU32) Writes.u32 srcv
    have whole : srcv.take srcv.length = srcv := List.take_length
    intro mb start data held
    unfold bodyEncode Packet.args Packet.count
    dsimp only
    rw [whole]
    cases reason with
    | none =>
      have bytes : (Packet.bye srcv none).bytes = srcv.flatMap be32 := List.append_nil _
      rw [bytes]
      exact ⟨_, rfl, sources mb start data held⟩
    | some reason => exact ⟨_, rfl, (sources.comp (reasonEncode_writes reason)) mb start data held⟩
  | app subtype src name data =>
    have name_ : name.take 4 = name := by
      have length : name.length = 4 := range.values
      rw [← length, List.take_length]
    have head : Writes (fun mb => (writeU32 mb src).writeMem name) (be32 src ++ name) := (Writes.u32 src).comp (Writes.mem name)
    intro mb start written held
    unfold bodyEncode Packet.args
    dsimp only
    rw [name_]
    cases data with
    | none =>
      have bytes : (Packet.app subtype src name none).bytes = be32 src ++ name := List.append_nil _
      rw [bytes]
      exact ⟨_, rfl, head mb start written held⟩
    | some data =>
      by_cases words : data.length % 4 ≠ 0
      · have is : (if data.length % 4 ≠ 0 then some Errno.EBADMSG else none) = none := taken
        rw [if_pos words] at is
        cases is
      · dsimp only
        rw [if_neg words]
        exact ⟨_, rfl, (head.comp (Writes.mem data)) mb start written held⟩
  | fir count ssrc => exact (Writes.u32 ssrc).encode
  | nack count ssrc fsn blp => exact (((Writes.u32 ssrc).comp (Writes.mem (be16 fsn))).comp (Writes.mem (be16 blp))).encode
  | gnack ssrcPacket ssrcMedia gnackv =>
    exact (pairEncode_writes ssrcPacket ssrcMedia).ench (eachEncode_writes rtcpRtpfbGnackEncode_writes gnackv)
  | pli ssrcPacket ssrcMedia => exact (pairEncode_writes ssrcPacket ssrcMedia).encode
  | sli ssrcPacket ssrcMedia sliv =>
    exact (pairEncode_writes ssrcPacket ssrcMedia).ench (eachEncode_writes rtcpPsfbSliEncode_writes sliv)

theorem bodyEncode_fails {packet : Packet} {e : Errno} (refused : packet.refusal = some e) :
    Fails (bodyEncode packet.count packet.args) e := by
  unfold Packet.refusal at refused
  cases packet with
  | sdes chunks =>
    cases some_ : chunks.any Chunk.refused with
    | false =>
      dsimp only at refused
      rw [some_] at refused
      cases refused
    | true =>
      dsimp only at refused
      rw [some_] at refused
      obtain rfl := Option.some.inj refused
      exact chunksEncode_fails some_
  | app subtype src name data =>
    cases data with
    | none => cases refused
    | some data =>
      dsimp only at refused
      by_cases words : data.length % 4 ≠ 0
      · rw [if_pos words] at refused
        obtain rfl := Option.some.inj refused
        intro mb start written held
        exact ⟨_, if_pos words⟩
      · rw [if_neg words] at refused
        cases refused
  | _ => cases refused

/-- The length of a packet whose fields take `n` bytes, in words. -/
def words (n : Nat) : BitVec 16 := .ofNat 16 (pad4 n / 4)

def hdrBytes (count : BitVec 8) (type : RtcpType) (length : BitVec 16) : List Byte :=
  [RTCP_VERSION.setWidth 8 <<< 6 ||| count, type.code] ++ be16 length

/-- The header, the fields and the padding of a packet. -/
def wire (count : BitVec 8) (type : RtcpType) (fields : List Byte) : List Byte :=
  hdrBytes count type (words fields.length) ++ (fields ++ padding fields.length)

theorem padding_header (n : Nat) : padding (RTCP_HDR_SIZE + n) = padding n := by
  unfold padding
  rw [pad4_header]
  congr 1
  omega

theorem rtcpVencode_writes {count : BitVec 32} {args : RtcpArgs} {fields : List Byte}
    (writes : EncodeWrites (bodyEncode count.toNat args) fields) (mb : Mbuf) :
    ∃ mb', rtcpVencode count args mb = (none, mb') ∧ mb'.Holds mb.pos (wire (count.setWidth 8) args.type fields) := by
  rcases writes _ _ [] (mb.holds_restart (mb.pos + RTCP_HDR_SIZE)) with ⟨body, written, held⟩
  have front : body.Holds (mb.pos + RTCP_HDR_SIZE) ([] ++ fields) := held
  have padded := padEncode_holds (fun m => m.endPos - mb.pos) RTCP_HDR_SIZE front (by
    intro m data there
    have ends := there.ends
    rw [List.nil_append] at ends
    omega)
  rw [List.nil_append, padding_header] at padded
  have ends := padded.ends
  rw [pad4_length] at ends
  have size : (padEncode (fun m => m.endPos - mb.pos) 3 body).endPos - mb.pos - RTCP_HDR_SIZE = pad4 fields.length := by
    omega
  have first : [RTCP_VERSION.setWidth 8 <<< 6 ||| count.setWidth 8].length ≤ RTCP_HDR_SIZE := (show 1 ≤ 4 by decide)
  have second : [args.type.code].length ≤
      RTCP_HDR_SIZE - [RTCP_VERSION.setWidth 8 <<< 6 ||| count.setWidth 8].length := (show 1 ≤ 3 by decide)
  have third : (be16 (words fields.length)).length = RTCP_HDR_SIZE -
      [RTCP_VERSION.setWidth 8 <<< 6 ||| count.setWidth 8].length - [args.type.code].length := be16_length _
  have header := ((padded.patched.write first).write second).write (Nat.le_of_eq third)
  rw [third, Nat.sub_self] at header
  refine ⟨_, ?_, header.holds⟩
  unfold rtcpVencode
  dsimp only
  rw [written]
  dsimp only
  rw [size]
  rfl

theorem rtcpVencode_fails {count : BitVec 32} {args : RtcpArgs} {e : Errno} (fails : Fails (bodyEncode count.toNat args) e)
    (mb : Mbuf) : (rtcpVencode count args mb).1 = some e := by
  rcases fails _ _ [] (mb.holds_restart (mb.pos + RTCP_HDR_SIZE)) with ⟨mb', failed⟩
  unfold rtcpVencode
  dsimp only
  rw [failed]

theorem hdr_byte (count : BitVec 5) :
    (RTCP_VERSION.setWidth 8 <<< 6 ||| count.setWidth 8 : BitVec 8).extractLsb' 6 2 = RTCP_VERSION ∧
      (RTCP_VERSION.setWidth 8 <<< 6 ||| count.setWidth 8 : BitVec 8).extractLsb' 5 1 = 0 ∧
      (RTCP_VERSION.setWidth 8 <<< 6 ||| count.setWidth 8 : BitVec 8).extractLsb' 0 5 = count := by
  revert count
  decide

theorem rtcpHdrDecode_reads (count : BitVec 5) (type : RtcpType) (length : BitVec 16) :
    rtcpHdrDecode.Reads (hdrBytes (count.setWidth 8) type length) ⟨RTCP_VERSION, 0, count, type.code, length⟩ := by
  apply Reads.need
  · show RTCP_HDR_SIZE ≤ (be16 length).length + 2
    rw [be16_length]
    exact Nat.le_refl 4
  · rcases hdr_byte count with ⟨version, p, counted⟩
    have bytes : hdrBytes (count.setWidth 8) type length =
        [RTCP_VERSION.setWidth 8 <<< 6 ||| count.setWidth 8] ++ ([type.code] ++ (be16 length ++ [])) := by
      rw [List.append_nil]
      rfl
    rw [bytes]
    refine (readU8_reads _).bind ((readU8_reads _).bind ((readU16_reads _).bind ?_))
    rw [version, p, counted]
    exact Reads.pure

theorem narrow_count {count : Nat} (counted : count ≤ 31) :
    (BitVec.ofNat 32 count).setWidth 8 = (BitVec.ofNat 5 count).setWidth 8 := by
  apply BitVec.eq_of_toNat_eq
  rw [BitVec.toNat_setWidth, BitVec.toNat_setWidth, BitVec.toNat_ofNat, BitVec.toNat_ofNat]
  omega

theorem words_toNat {n : Nat} (fits : pad4 n ≤ 4 * 65535) : 4 * (words n).toNat = pad4 n := by
  unfold words
  rw [BitVec.toNat_ofNat]
  unfold pad4 at *
  omega

theorem many_reads {d : Dec α} {bytes : α → List Byte} {items : List α} (each : ∀ a ∈ items, d.Reads (bytes a) a) :
    (many items.length d).Reads (items.flatMap bytes) items := by
  have reads := Reads.many each
  rw [List.map_id'] at reads
  exact reads

theorem rtcpRr_length (rr : RtcpRr) : rr.bytes.length = RTCP_RR_SIZE := flatMap_be32_length _

theorem gnack_length (gnack : Gnack) : gnack.bytes.length = 4 := by
  unfold Gnack.bytes
  rw [List.length_append, be16_length, be16_length]

theorem pair_length (a b : BitVec 32) : (be32 a ++ be32 b).length = RTCP_FB_SIZE := by
  rw [List.length_append, be32_length, be32_length]
  rfl

/-- A feedback packet with as many entries as its length says. -/
theorem fbDecode_reads {length : BitVec 16} {d : Dec α} {fci : List α → Fci} {bytes : α → List Byte} {items : List α}
    (ssrcPacket ssrcMedia : BitVec 32) (each : ∀ a ∈ items, d.Reads (bytes a) a) (width : ∀ a, (bytes a).length = 4)
    (counted : length.toNat = items.length + 2) :
    (fbDecode length fun n => do
      need (n * 4).toNat .EBADMSG
      let items ← many n.toNat d
      return fci items).Reads (be32 ssrcPacket ++ be32 ssrcMedia ++ items.flatMap bytes)
        (.fb ssrcPacket ssrcMedia (.ofNat 32 items.length) (fci items)) := by
  have two : 2 ≤ length.toNat := by omega
  rcases entries_size length with ⟨_, count, size⟩ | ⟨less, _⟩
  · have n : (length.setWidth 32 - 2 : BitVec 32) = .ofNat 32 items.length := by
      apply BitVec.eq_of_toNat_eq
      have lt := length.isLt
      rw [count, BitVec.toNat_ofNat]
      omega
    have count_ : (BitVec.ofNat 32 items.length).toNat = items.length := by
      rw [← n, count]
      omega
    have size_ : (BitVec.ofNat 32 items.length * 4).toNat = 4 * items.length := by
      rw [← n, size]
      omega
    apply Reads.need
    · rw [List.length_append, pair_length]
      exact Nat.le_add_right _ _
    · rw [List.append_assoc]
      refine (readU32_reads _).bind ((readU32_reads _).bind ?_)
      dsimp only
      rw [n, size_, count_, ← List.append_nil (items.flatMap bytes)]
      refine Reads.bind (Reads.need ?_ ((many_reads each).map fci)) Reads.pure
      rw [flatMap_length width, Nat.mul_comm]
  · omega

theorem reasonDecode_reads {reason : List Byte} (short : reason.length ≤ 255) (string : 0 ∉ reason) :
    reasonDecode.Reads (.ofNat 8 reason.length :: reason) reason := by
  have length : (BitVec.ofNat 8 reason.length).toNat = reason.length := by
    rw [BitVec.toNat_ofNat]
    omega
  have whole : reason.takeWhile (· != 0) = reason := by
    rw [← List.append_nil reason, List.takeWhile_append_of_pos]
    · rfl
    · intro c inside
      exact bne_iff_ne.mpr fun zero => string (zero ▸ inside)
  show reasonDecode.Reads ([BitVec.ofNat 8 reason.length] ++ reason) reason
  refine (readU8_reads _).bind ?_
  rw [length]
  have read : Reads (do
      let str ← next reason.length
      return str.takeWhile (· != 0)) reason (reason.takeWhile (· != 0)) := (Reads.next (ε := Errno) reason).map _
  rw [whole] at read
  exact Reads.need (Nat.le_refl _) read

/-- The reason of a BYE, which is there when the header's length covers more than the sources. -/
theorem byeReason_reads {srcv : List (BitVec 32)} {reason : Option (List Byte)} (range : (Packet.bye srcv reason).InRange) :
    (if pad4 (Packet.bye srcv reason).bytes.length > srcv.length * 4 then do
        let reason ← reasonDecode
        return RtcpBody.bye srcv (some reason)
      else return .bye srcv none : Dec RtcpBody).Reads (reason.elim [] fun reason => .ofNat 8 reason.length :: reason)
      (.bye srcv reason) := by
  unfold Packet.bytes
  dsimp only
  rw [List.length_append, flatMap_be32_length]
  cases reason with
  | none =>
    have none_ : ¬ pad4 (srcv.length * 4 + ([] : List Byte).length) > srcv.length * 4 := by
      rw [List.length_nil]
      unfold pad4
      omega
    rw [Option.elim_none, if_neg none_]
    exact Reads.pure
  | some reason =>
    have some_ : pad4 (srcv.length * 4 + (.ofNat 8 reason.length :: reason : List Byte).length) > srcv.length * 4 := by
      rw [List.length_cons]
      unfold pad4
      omega
    rcases range.values with ⟨short, string⟩
    rw [Option.elim_some, if_pos some_]
    exact (reasonDecode_reads short string).map fun reason => RtcpBody.bye srcv (some reason)

theorem app_words {subtype : BitVec 5} {src : BitVec 32} {name : List Byte} {data : Option (List Byte)}
    (taken : (Packet.app subtype src name data).refusal = none) : (data.getD []).length % 4 = 0 := by
  cases data with
  | none => rfl
  | some data =>
    have is : (if data.length % 4 ≠ 0 then some Errno.EBADMSG else none) = none := taken
    by_cases words : data.length % 4 ≠ 0
    · rw [if_pos words] at is
      cases is
    · exact not_not.mp words

/-- The data of an APP packet takes whole words, so the header's length covers it without padding. -/
theorem appData_reads {subtype : BitVec 5} {src : BitVec 32} {name : List Byte} {data : Option (List Byte)}
    (taken : (Packet.app subtype src name data).refusal = none) (name_ : name.length = 4) :
    (if pad4 (Packet.app subtype src name data).bytes.length > RTCP_APP_SIZE then do
        need (pad4 (Packet.app subtype src name data).bytes.length - RTCP_APP_SIZE) .EBADMSG
        let data ← next (pad4 (Packet.app subtype src name data).bytes.length - RTCP_APP_SIZE)
        return RtcpBody.app src name data
      else return .app src name [] : Dec RtcpBody).Reads (data.getD []) (.app src name (data.getD [])) := by
  have padded : pad4 (Packet.app subtype src name data).bytes.length = RTCP_APP_SIZE + (data.getD []).length := by
    have whole := app_words taken
    unfold Packet.bytes
    dsimp only
    rw [List.length_append, List.length_append, be32_length, name_]
    unfold pad4 RTCP_APP_SIZE
    omega
  rw [padded, Nat.add_sub_cancel_left]
  cases data.getD [] with
  | nil => exact Reads.pure
  | cons c rest =>
    have more : RTCP_APP_SIZE + (c :: rest).length > RTCP_APP_SIZE := Nat.lt_add_of_pos_right (Nat.succ_pos _)
    rw [if_pos more]
    exact Reads.need (Nat.le_refl _) ((Reads.next _).map fun data => RtcpBody.app src name data)

theorem rtcpRtpfbDecode_gnack (n : BitVec 32) : rtcpRtpfbDecode RTCP_RTPFB_GNACK n = do
    need (n * 4).toNat .EBADMSG
    let gnackv ← many n.toNat gnackDecode
    return .gnackv gnackv := if_pos rfl

theorem rtcpPsfbDecode_sli (n : BitVec 32) : rtcpPsfbDecode RTCP_PSFB_SLI n = do
    need (n * 4).toNat .EBADMSG
    let sliv ← many n.toNat sliDecode
    return .sliv sliv := by
  have different : RTCP_PSFB_SLI ≠ RTCP_PSFB_PLI := by decide
  unfold rtcpPsfbDecode
  rw [if_neg different, if_pos rfl]

theorem fbDecode_pli (ssrcPacket ssrcMedia : BitVec 32) :
    (fbDecode 2 (rtcpPsfbDecode RTCP_PSFB_PLI)).Reads (be32 ssrcPacket ++ be32 ssrcMedia)
      (.fb ssrcPacket ssrcMedia 0 .none) := by
  apply Reads.need (Nat.le_of_eq (pair_length _ _).symm)
  rw [← List.append_nil (be32 ssrcMedia)]
  exact (readU32_reads _).bind ((readU32_reads _).bind (Reads.pure (a := RtcpBody.fb ssrcPacket ssrcMedia 0 .none)))

section
variable {packet : Packet} {hdr : RtcpHdr}

/-- The fields of a packet are read from what is written behind its header. -/
theorem bodyDecode_reads (range : packet.InRange) (taken : packet.refusal = none) (type : hdr.pt = packet.args.type.code)
    (is_ : hdr.count = .ofNat 5 packet.count) (length : 4 * hdr.length.toNat = pad4 packet.bytes.length) :
    (bodyDecode hdr).Reads packet.bytes packet.contents := by
  have counted : hdr.count.toNat = packet.count := by
    have most := range.counted
    rw [is_, BitVec.toNat_ofNat]
    omega
  have is : RtcpType.ofCode hdr.pt = some packet.args.type := by
    rw [type, RtcpType.ofCode_code]
  unfold bodyDecode
  dsimp only
  rw [is, counted]
  cases packet with
  | sr ssrc ntpSec ntpFrac rtpTs psent osent rrv =>
    have bytes : (Packet.sr ssrc ntpSec ntpFrac rtpTs psent osent rrv).bytes =
        be32 ssrc ++ (be32 ntpSec ++ (be32 ntpFrac ++ (be32 rtpTs ++ (be32 psent ++ (be32 osent ++
          (rrv.flatMap RtcpRr.bytes ++ [])))))) := by
      simp [Packet.bytes]
    apply Reads.need
    · unfold Packet.bytes
      dsimp only
      rw [List.length_append, flatMap_be32_length]
      exact Nat.le_add_right _ _
    · rw [bytes]
      exact (readU32_reads _).bind ((readU32_reads _).bind ((readU32_reads _).bind ((readU32_reads _).bind
        ((readU32_reads _).bind ((readU32_reads _).bind ((many_reads fun rr _ => rtcpRrDecode_reads rr).bind Reads.pure))))))
  | rr ssrc rrv =>
    apply Reads.need
    · unfold Packet.bytes
      dsimp only
      rw [List.length_append, be32_length]
      exact Nat.le_add_right _ _
    · unfold Packet.bytes
      dsimp only
      rw [← List.append_nil (rrv.flatMap _)]
      exact (readU32_reads _).bind ((many_reads fun rr _ => rtcpRrDecode_reads rr).bind Reads.pure)
  | sdes chunks =>
    have accepted : ∀ chunk ∈ chunks, chunk.refused = false :=
      fun chunk member => Bool.eq_false_iff.mpr (List.any_eq_false.mp (sdes_accepted taken) chunk member)
    unfold Packet.bytes
    dsimp only
    rw [← List.append_nil (chunks.flatMap _)]
    exact (Reads.many fun chunk member => rtcpSdesDecode_reads (accepted chunk member) (range.values chunk member)).bind
      Reads.pure
  | bye srcv reason =>
    rw [length]
    show Reads _ (srcv.flatMap be32 ++ reason.elim [] fun reason => .ofNat 8 reason.length :: reason) _
    apply Reads.need
    · rw [List.length_append, flatMap_be32_length]
      exact Nat.le_add_right _ _
    · exact (many_reads fun v (_ : v ∈ srcv) => readU32_reads v).bind (byeReason_reads range)
  | app subtype src name data =>
    have name_ : name.length = 4 := range.values
    have next_ : (next 4 : Dec _).Reads name name := name_ ▸ Reads.next name
    rw [length]
    show Reads _ (be32 src ++ name ++ data.getD []) _
    rw [List.append_assoc]
    apply Reads.need
    · rw [List.length_append, List.length_append, be32_length, name_]
      show 8 ≤ _
      omega
    · exact (readU32_reads _).bind (next_.bind (appData_reads taken name_))
  | fir count ssrc =>
    apply Reads.need
    · exact Nat.le_of_eq (be32_length ssrc).symm
    · rw [← List.append_nil (Packet.bytes _)]
      exact (readU32_reads ssrc).bind Reads.pure
  | nack count ssrc fsn blp =>
    have bytes : (Packet.nack count ssrc fsn blp).bytes = be32 ssrc ++ (be16 fsn ++ (be16 blp ++ [])) := by
      simp [Packet.bytes]
    rw [bytes]
    apply Reads.need
    · rw [List.append_nil, List.length_append, List.length_append, be32_length, be16_length, be16_length]
      exact Nat.le_refl 8
    · exact (readU32_reads _).bind ((readU16_reads _).bind ((readU16_reads _).bind Reads.pure))
  | gnack ssrcPacket ssrcMedia gnackv =>
    have width := flatMap_length gnack_length gnackv
    have gnack : hdr.count = RTCP_RTPFB_GNACK := is_
    unfold Packet.bytes at length
    dsimp only at length
    rw [List.length_append, pair_length, width] at length
    unfold RTCP_FB_SIZE pad4 at length
    show (fbDecode hdr.length (rtcpRtpfbDecode hdr.count)).Reads _ _
    rw [gnack, funext rtcpRtpfbDecode_gnack]
    exact fbDecode_reads _ _ (fun gnack _ => gnackDecode_reads gnack) gnack_length (by omega)
  | pli ssrcPacket ssrcMedia =>
    have pli : hdr.count = RTCP_PSFB_PLI := is_
    have two : hdr.length = 2 := by
      apply BitVec.eq_of_toNat_eq
      have size : pad4 (be32 ssrcPacket ++ be32 ssrcMedia).length = 8 := by
        rw [pair_length]
        rfl
      have words : 4 * hdr.length.toNat = 8 := length.trans size
      show hdr.length.toNat = 2
      omega
    show (fbDecode hdr.length (rtcpPsfbDecode hdr.count)).Reads (be32 ssrcPacket ++ be32 ssrcMedia)
      (.fb ssrcPacket ssrcMedia 0 .none)
    rw [pli, two]
    exact fbDecode_pli ssrcPacket ssrcMedia
  | sli ssrcPacket ssrcMedia sliv =>
    have width := flatMap_length (fun sli : Sli => be32_length sli.word) sliv
    have sli : hdr.count = RTCP_PSFB_SLI := is_
    unfold Packet.bytes at length
    dsimp only at length
    rw [List.length_append, pair_length, width] at length
    unfold RTCP_FB_SIZE pad4 at length
    show (fbDecode hdr.length (rtcpPsfbDecode hdr.count)).Reads _ _
    rw [sli, funext rtcpPsfbDecode_sli]
    exact fbDecode_reads _ _ (fun sli member => sliDecode_reads (range.values sli member)) (fun sli => be32_length sli.word)
      (by omega)

theorem hdrBytes_length (count : BitVec 8) (type : RtcpType) (length : BitVec 16) :
    (hdrBytes count type length).length = RTCP_HDR_SIZE := by
  unfold hdrBytes
  rw [List.length_append, be16_length]
  rfl

theorem wire_length (count : BitVec 8) (type : RtcpType) (fields : List Byte) :
    (wire count type fields).length = RTCP_HDR_SIZE + pad4 fields.length := by
  unfold wire
  rw [List.length_append, hdrBytes_length, pad4_length]

/-- The header that is written in front of a packet. -/
def Packet.header (packet : Packet) : RtcpHdr :=
  ⟨RTCP_VERSION, 0, .ofNat 5 packet.count, packet.args.type.code, words packet.bytes.length⟩

def Packet.wire (packet : Packet) : List Byte :=
  Rtcp.wire ((BitVec.ofNat 5 packet.count).setWidth 8) packet.args.type packet.bytes

theorem packetDecode_wire (range : packet.InRange) (taken : packet.refusal = none) :
    packetDecode packet.wire = .ok (⟨packet.header, packet.contents⟩, []) := by
  have length : packet.wire.length = RTCP_HDR_SIZE + pad4 packet.bytes.length := wire_length _ _ _
  have behind : packet.wire.drop RTCP_HDR_SIZE = packet.bytes ++ padding packet.bytes.length := by
    unfold Packet.wire wire
    rw [← hdrBytes_length, List.drop_left]
  have header : rtcpHdrDecode packet.wire = .ok (packet.header, packet.wire.drop RTCP_HDR_SIZE) := by
    rw [behind]
    exact rtcpHdrDecode_reads _ _ _ _
  have some_ : RTCP_HDR_SIZE ≤ packet.wire.length := length ▸ Nat.le_add_right _ _
  have size : (packet.wire.drop RTCP_HDR_SIZE).length = pad4 packet.bytes.length := by
    rw [behind, pad4_length]
  have fits : 4 * packet.header.length.toNat = pad4 packet.bytes.length := words_toNat range.length
  have body : bodyDecode packet.header (packet.wire.drop RTCP_HDR_SIZE) =
      .ok (packet.contents, (packet.wire.drop RTCP_HDR_SIZE).drop packet.bytes.length) := by
    rw [behind, List.drop_left]
    exact bodyDecode_reads range taken rfl rfl fits _
  have enough : packet.bytes.length ≤ (packet.wire.drop RTCP_HDR_SIZE).length := by
    rw [size]
    unfold pad4
    omega
  have decoded := packetDecode_ok header some_ rfl (Nat.le_of_eq (fits.trans size.symm)) enough body
  rw [length, Nat.min_self, ← length, List.drop_length] at decoded
  exact decoded

/-- What is written is the packet as it goes over the wire, behind what the buffer holds. -/
theorem encode_wire (range : packet.InRange) (taken : packet.refusal = none) (mb : Mbuf) :
    ∃ mb', packet.encode mb = (none, mb') ∧ mb'.Holds mb.pos packet.wire := by
  have writes : EncodeWrites (bodyEncode (BitVec.ofNat 32 packet.count).toNat packet.args) packet.bytes := by
    rw [take_length range.counted]
    exact bodyEncode_writes range taken
  rcases rtcpVencode_writes writes mb with ⟨mb', written, held⟩
  rw [narrow_count range.counted] at held
  exact ⟨mb', written, held⟩

/-- The bytes that are written for a packet are decoded to the same type, count and contents. Their size is four times one
    more than the length that they say. What is refused is not written. -/
theorem rtcpDecode_encode (range : packet.InRange) (mb : Mbuf) :
    (packet.encode mb).1 = packet.refusal ∧ (packet.refusal = none → ∃ length,
      rtcpDecode ((packet.encode mb).2.setPos mb.pos) =
        .ok (⟨⟨RTCP_VERSION, 0, .ofNat 5 packet.count, packet.args.type.code, length⟩, packet.contents⟩, (packet.encode mb).2) ∧
      (packet.encode mb).2.pos = (packet.encode mb).2.endPos ∧
      (packet.encode mb).2.endPos = mb.pos + 4 * (length.toNat + 1)) := by
  cases taken : packet.refusal with
  | some e =>
    have fails : Fails (bodyEncode (BitVec.ofNat 32 packet.count).toNat packet.args) e := by
      rw [take_length range.counted]
      exact bodyEncode_fails taken
    exact ⟨rtcpVencode_fails fails mb, nofun⟩
  | none =>
    rcases encode_wire range taken mb with ⟨mb', written, held⟩
    have length : packet.wire.length = RTCP_HDR_SIZE + pad4 packet.bytes.length := wire_length _ _ _
    have fits : 4 * packet.header.length.toNat = pad4 packet.bytes.length := words_toNat range.length
    have ends := held.ends
    rw [written]
    refine ⟨rfl, fun _ => ⟨words packet.bytes.length, ?_, held.atEnd, ?_⟩⟩
    · have decoded : packetDecode (mb'.setPos mb.pos).left =
          .ok (⟨packet.header, packet.contents⟩, (mb'.setPos mb.pos).left.drop packet.wire.length) := by
        rw [held.left, List.drop_length]
        exact packetDecode_wire range taken
      have inside : packet.wire.length ≤ (mb'.setPos mb.pos).left.length := by
        rw [held.left]
      have back : (mb'.setPos mb.pos).advance packet.wire.length = mb' := by
        have position : mb.pos + packet.wire.length = mb'.pos := by rw [held.atEnd, ends]
        show ({ mb' with pos := mb.pos + packet.wire.length } : Mbuf) = mb'
        rw [position]
      have moved := rtcpDecode_ok inside decoded
      rw [back] at moved
      exact moved
    · have words_ : 4 * (words packet.bytes.length).toNat = pad4 packet.bytes.length := fits
      show mb'.endPos = _
      unfold RTCP_HDR_SIZE at length
      omega

end

/-- The source that leaves with a word. -/
def goodbye : Packet := .bye [0x11223344] (some [0x41, 0x64, 0x6a, 0x6f])

theorem rtcpDecode_encode_goodbye : (goodbye.encode (Mbuf.alloc 0)).1 = none ∧ ∃ length,
    rtcpDecode ((goodbye.encode (Mbuf.alloc 0)).2.setPos 0) =
      .ok (⟨⟨2, 0, 1, 203, length⟩, .bye [0x11223344] (some [0x41, 0x64, 0x6a, 0x6f])⟩, (goodbye.encode (Mbuf.alloc 0)).2) := by
  have range : goodbye.InRange := ⟨by decide, ⟨by decide, by decide⟩, by decide⟩
  rcases rtcpDecode_encode range (Mbuf.alloc 0) with ⟨none_, decodes⟩
  rcases decodes rfl with ⟨length, decoded, _⟩
  exact ⟨none_, length, decoded⟩

end Baresip.Rtcp
