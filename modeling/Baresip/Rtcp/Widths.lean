import Baresip.Rtcp.Packet

set_option linter.dupNamespace false

namespace Baresip.Rtcp

open Re Library Decoder

variable {left rest data : List Byte} {α : Type}

/-- The next multiple of four. -/
def pad4 (n : Nat) : Nat := (n + 3) / 4 * 4

/-- How many bytes the items of a chunk take with their end marker, if the last of them is whole. -/
def sdesItemsWidth : List Byte → Option Nat
  | [] => some 0
  | type :: left =>
    if type = RTCP_SDES_END then some 1
    else
      match left with
      | [] => none
      | length :: left =>
        if left.length < length.toNat then none
        else (sdesItemsWidth (left.drop length.toNat)).map (2 + length.toNat + ·)
termination_by left => left.length
decreasing_by
  simp only [List.length_drop, List.length_cons]
  omega

/-- The padding of what takes `w` bytes, of which the last may be missing at the end of the buffer. -/
def paddedWidth (size w : Nat) : Option Nat := if w ≤ size then some (min (pad4 w) size) else none

def sdesWidth (left : List Byte) : Option Nat :=
  (sdesItemsWidth (left.drop RTCP_SRC_SIZE)).bind fun w => paddedWidth left.length (RTCP_SRC_SIZE + w)

def sdesvWidth : Nat → List Byte → Option Nat
  | 0, _ => some 0
  | n + 1, left => (sdesWidth left).bind fun w => (sdesvWidth n (left.drop w)).map (w + ·)

/-- The entries of a feedback packet fill what its length leaves behind the two sources. -/
def fciWidth (length : BitVec 16) : Option Nat := if 2 ≤ length.toNat then some (4 * length.toNat) else none

/-- How many bytes the fields of a packet take behind its header, which is said by its type, its count and, for some
    types, by its length or by what it holds. -/
def fieldsWidth (hdr : RtcpHdr) (left : List Byte) : Option Nat :=
  let count := hdr.count.toNat
  let rem := 4 * hdr.length.toNat
  match RtcpType.ofCode hdr.pt with
  | some .SR => some (RTCP_SRC_SIZE + RTCP_SR_SIZE + count * RTCP_RR_SIZE)
  | some .RR => some (RTCP_SRC_SIZE + count * RTCP_RR_SIZE)
  | some .SDES => sdesvWidth count left
  | some .BYE => some (count * 4 + if rem > count * 4 then 1 + (left[count * 4]?.getD 0).toNat else 0)
  | some .APP => some (max RTCP_APP_SIZE rem)
  | some .FIR => some RTCP_FIR_SIZE
  | some .NACK => some RTCP_NACK_SIZE
  | some .RTPFB => if hdr.count = RTCP_RTPFB_GNACK then fciWidth hdr.length else some RTCP_FB_SIZE
  | some .PSFB => if hdr.count = RTCP_PSFB_SLI then fciWidth hdr.length else some RTCP_FB_SIZE
  | none => some rem

theorem readU8_full : Full readU8 1 := Full.number.map _

theorem readU16_full : Full readU16 2 := Full.number.map _

theorem readU32_full : Full readU32 4 := Full.number.map _

theorem rtcpHdrDecode_sized : Sized rtcpHdrDecode RTCP_HDR_SIZE :=
  Full.need (readU8_full.bind fun _ => readU8_full.bind fun _ => readU16_full.bind fun _ => Full.pure)

theorem rtcpRrDecode_sized : Sized rtcpRrDecode RTCP_RR_SIZE :=
  Full.need (readU32_full.bind fun _ => readU32_full.bind fun _ => readU32_full.bind fun _ => readU32_full.bind fun _ =>
    readU32_full.bind fun _ => readU32_full.bind fun _ => Full.pure)

theorem gnackDecode_full : Full gnackDecode 4 := readU16_full.bind fun _ => readU16_full.bind fun _ => Full.pure

theorem sliDecode_full : Full sliDecode 4 := readU32_full.bind fun _ => Full.pure

theorem slurp_eq (start : Nat) (left : List Byte) (inside : left.length ≤ start) :
    slurp start left = left.drop (pad4 (start - left.length) - (start - left.length)) := by
  induction left with
  | nil => exact List.drop_nil.symm
  | cons b left ih =>
    rw [List.length_cons] at inside ⊢
    have less := ih (by omega)
    unfold slurp
    by_cases aligned : (start - (left.length + 1)) % 4 = 0
    · have none_ : pad4 (start - (left.length + 1)) - (start - (left.length + 1)) = 0 := by
        unfold pad4
        omega
      rw [if_neg (not_not.mpr aligned), none_, List.drop_zero]
    · have one : pad4 (start - (left.length + 1)) - (start - (left.length + 1)) =
          pad4 (start - left.length) - (start - left.length) + 1 := by
        unfold pad4
        omega
      rw [if_pos aligned, less, one, List.drop_succ_cons]

/-- The padding behind what has been taken from the start on. -/
theorem padded_ok {d : Dec α} {a : α} {w : Nat} (result : d left = .ok (a, left.drop w)) (enough : w ≤ left.length) :
    padded d left = .ok (a, left.drop (min (pad4 w) left.length)) := by
  have rest : (left.drop w).length = left.length - w := List.length_drop
  have taken : left.length - (left.drop w).length = w := by omega
  have aligned : w ≤ pad4 w := by
    unfold pad4
    omega
  have bytes : slurp left.length (left.drop w) = left.drop (min (pad4 w) left.length) := by
    rw [slurp_eq _ _ (by omega), taken, List.drop_drop]
    by_cases all : pad4 w ≤ left.length
    · congr 1
      omega
    · rw [List.drop_eq_nil_of_le (by omega), List.drop_eq_nil_of_le (by omega)]
  have start : (remaining : Dec Nat) left = .ok (left.length, left) := rfl
  unfold padded
  rw [bind_ok start, bind_ok result]
  show Except.ok (a, slurp left.length (left.drop w)) = _
  rw [bytes]

theorem padded_error {d : Dec α} {e : Errno} (result : d left = .error e) : padded d left = .error e := by
  have start : (remaining : Dec Nat) left = .ok (left.length, left) := rfl
  unfold padded
  rw [bind_ok start, bind_error result]

theorem Reads.padded {d : Dec α} {a : α} {padding : List Byte} (reads : d.Reads data a)
    (aligned : (data ++ padding).length = pad4 data.length) : (padded d).Reads (data ++ padding) a := by
  intro rest
  have result : d (data ++ padding ++ rest) = .ok (a, (data ++ padding ++ rest).drop data.length) := by
    rw [List.append_assoc, List.drop_left]
    exact reads (padding ++ rest)
  have fits : (data ++ padding).length ≤ (data ++ padding ++ rest).length := (List.prefix_append _ rest).length_le
  have less : data.length ≤ (data ++ padding).length := by
    rw [List.length_append]
    omega
  rw [padded_ok result (by omega), ← aligned, Nat.min_eq_left fits, List.drop_left]

theorem padded_measured {d : Dec α} {width : Option Nat} (measured : Measured d left width) :
    Measured (padded d) left (width.bind (paddedWidth left.length)) := by
  cases measured with
  | fails e short result =>
    apply Measured.fails e _ (padded_error result)
    intro v is
    rcases Option.bind_eq_some_iff.mp is with ⟨w, first, last⟩
    have less := short w first
    unfold paddedWidth at last
    rw [if_neg (by omega)] at last
    cases last
  | takes w a is enough result own =>
    subst is
    refine .takes (min (pad4 w) left.length) a (if_pos enough) (Nat.min_le_right _ _) (padded_ok result enough) ?_
    have aligned : w ≤ pad4 w := by
      unfold pad4
      omega
    by_cases inside : pad4 w ≤ left.length
    · rw [Nat.min_eq_left inside]
      rcases own with reads | all
      · left
        have length : (left.take w).length = w := by
          rw [List.length_take]
          omega
        have whole : left.take (pad4 w) = left.take w ++ (left.drop w).take (pad4 w - w) := by
          rw [← List.take_add, Nat.add_sub_cancel' aligned]
        rw [whole]
        apply Reads.padded reads
        rw [← whole, List.length_take, length]
        omega
      · right
        omega
    · right
      omega

theorem sdesItems_end (rest : List Byte) : sdesItemsDecode (RTCP_SDES_END :: rest) = .ok ([], rest) := by
  unfold sdesItemsDecode
  exact if_pos rfl

theorem sdesItems_item {type : Byte} {length : BitVec 8} (some_ : type ≠ RTCP_SDES_END) (whole : data.length = length.toNat) :
    sdesItemsDecode (type :: length :: (data ++ rest)) =
      match sdesItemsDecode rest with
      | .error e => .error e
      | .ok (items, left) => .ok (⟨type, length, data⟩ :: items, left) := by
  rw [sdesItemsDecode, if_neg some_]
  have enough : ¬ (data ++ rest).length < length.toNat := by
    rw [List.length_append]
    omega
  rewrite [if_neg enough, ← whole, List.take_left, List.drop_left]
  rfl

/-- An item in front of what has been measured. -/
theorem sdesItems_measured_item {type : Byte} {length : BitVec 8} {width : Option Nat} (some_ : type ≠ RTCP_SDES_END)
    (whole : data.length = length.toNat) (measured : Measured (sdesItemsDecode : Dec _) rest width) :
    Measured (sdesItemsDecode : Dec _) (type :: length :: (data ++ rest)) (width.map (2 + length.toNat + ·)) := by
  have size : (type :: length :: (data ++ rest)).length = 2 + length.toNat + rest.length := by
    rw [List.length_cons, List.length_cons, List.length_append]
    omega
  cases measured with
  | fails e short result =>
    refine .fails e ?_ ?_
    · intro w is
      rcases Option.map_eq_some_iff.mp is with ⟨w', first, rfl⟩
      have less := short w' first
      omega
    · rw [sdesItems_item some_ whole, result]
  | takes w items is enough result own =>
    have more : 2 + length.toNat + w = data.length + w + 1 + 1 := by omega
    refine .takes (2 + length.toNat + w) (⟨type, length, data⟩ :: items) ?_ ?_ ?_ ?_
    · rw [is]
      rfl
    · omega
    · rw [sdesItems_item some_ whole, result, more, List.drop_succ_cons, List.drop_succ_cons, List.drop_length_add_append]
    · rcases own with reads | all
      · left
        intro behind
        rw [more, List.take_succ_cons, List.take_succ_cons, List.take_length_add_append, List.cons_append, List.cons_append,
          List.append_assoc, sdesItems_item some_ whole, reads behind]
      · right
        omega

theorem sdesItems_measured (left : List Byte) : Measured (sdesItemsDecode : Dec _) left (sdesItemsWidth left) := by
  induction size : left.length using Nat.strong_induction_on generalizing left with
  | _ size ih =>
    subst size
    cases left with
    | nil => exact .takes 0 [] (by rw [sdesItemsWidth]) (Nat.le_refl 0) (by rw [sdesItemsDecode]; rfl) (.inr rfl)
    | cons type left =>
      by_cases last : type = RTCP_SDES_END
      · subst last
        refine .takes 1 [] ?_ ?_ (sdesItems_end left) (.inl fun rest => sdesItems_end rest)
        · unfold sdesItemsWidth
          exact if_pos rfl
        · rw [List.length_cons]
          omega
      · cases left with
        | nil =>
          refine .fails .EBADMSG ?_ ?_
          · intro w is
            rw [sdesItemsWidth, if_neg last] at is
            cases is
          · rw [sdesItemsDecode, if_neg last]
        | cons length left =>
          by_cases short : left.length < length.toNat
          · refine .fails .EBADMSG ?_ ?_
            · intro w is
              rw [sdesItemsWidth, if_neg last] at is
              simp only [short, ite_true, reduceCtorEq] at is
            · rw [sdesItemsDecode, if_neg last]
              exact if_pos short
          · have whole : (left.take length.toNat).length = length.toNat := by
              rw [List.length_take]
              omega
            have width : sdesItemsWidth (type :: length :: left) =
                (sdesItemsWidth (left.drop length.toNat)).map (2 + length.toNat + ·) := by
              rw [sdesItemsWidth, if_neg last]
              exact if_neg short
            have less : (left.drop length.toNat).length < (type :: length :: left).length := by
              rw [List.length_drop, List.length_cons, List.length_cons]
              omega
            have split := sdesItems_measured_item last whole (ih _ less _ rfl)
            rw [List.take_append_drop] at split
            rw [width]
            exact split

theorem rtcpSdesDecode_measured (left : List Byte) : Measured rtcpSdesDecode left (sdesWidth left) := by
  apply Measured.need
  · intro v is
    rcases Option.bind_eq_some_iff.mp is with ⟨w, _, padding⟩
    unfold paddedWidth at padding
    split at padding
    · obtain rfl := Option.some.inj padding
      unfold pad4
      omega
    · cases padding
  · intro enough
    have items : Measured (do
        let src ← readU32
        let items ← sdesItemsDecode
        return (⟨src, items⟩ : RtcpSdes)) left ((sdesItemsWidth (left.drop 4)).map (4 + ·)) := by
      apply readU32_full.then_ enough
      intro src
      exact (sdesItems_measured (left.drop 4)).map _
    have all := padded_measured items
    rw [Option.bind_map] at all
    exact all

theorem rtcpSdesv_measured (count : Nat) (left : List Byte) :
    Measured (many count rtcpSdesDecode) left (sdesvWidth count left) := by
  induction count generalizing left with
  | zero => exact Sized.pure.measured left
  | succ count ih =>
    apply (rtcpSdesDecode_measured left).bind
    intro a w _ _ _
    exact (ih (left.drop w)).map _

/-- The size of the entries that is checked is what the length says, or more than any datagram has. -/
theorem entries_size (length : BitVec 16) : 2 ≤ length.toNat ∧ (length.setWidth 32 - 2 : BitVec 32).toNat = length.toNat - 2 ∧
      ((length.setWidth 32 - 2 : BitVec 32) * 4).toNat = 4 * (length.toNat - 2) ∨
    length.toNat < 2 ∧ 2 ^ 32 - 8 ≤ ((length.setWidth 32 - 2 : BitVec 32) * 4).toNat := by
  have less := length.isLt
  have two : (2 : BitVec 32).toNat = 2 := rfl
  have four : (4 : BitVec 32).toNat = 4 := rfl
  rw [BitVec.toNat_mul, BitVec.toNat_sub, BitVec.toNat_setWidth, two, four]
  omega

theorem rtcpRrv_sized (count : Nat) : Sized (many count rtcpRrDecode) (count * RTCP_RR_SIZE) := rtcpRrDecode_sized.many count

section
variable {hdr : RtcpHdr}

theorem sr_sized (is : RtcpType.ofCode hdr.pt = some .SR) :
    Sized (bodyDecode hdr) (RTCP_SRC_SIZE + RTCP_SR_SIZE + hdr.count.toNat * RTCP_RR_SIZE) := by
  unfold bodyDecode
  rw [is]
  apply Leads.need
  exact readU32_full.leads fun _ => readU32_full.leads fun _ => readU32_full.leads fun _ => readU32_full.leads fun _ =>
    readU32_full.leads fun _ => readU32_full.leads fun _ => ((rtcpRrv_sized _).map _).leads

theorem rr_sized (is : RtcpType.ofCode hdr.pt = some .RR) :
    Sized (bodyDecode hdr) (RTCP_SRC_SIZE + hdr.count.toNat * RTCP_RR_SIZE) := by
  unfold bodyDecode
  rw [is]
  apply Leads.need
  exact readU32_full.leads fun _ => ((rtcpRrv_sized _).map _).leads

theorem fir_sized (is : RtcpType.ofCode hdr.pt = some .FIR) : Sized (bodyDecode hdr) RTCP_FIR_SIZE := by
  unfold bodyDecode
  rw [is]
  exact Full.need (readU32_full.map _)

theorem nack_sized (is : RtcpType.ofCode hdr.pt = some .NACK) : Sized (bodyDecode hdr) RTCP_NACK_SIZE := by
  unfold bodyDecode
  rw [is]
  exact Full.need (readU32_full.bind fun _ => readU16_full.bind fun _ => readU16_full.map _)

theorem app_sized (is : RtcpType.ofCode hdr.pt = some .APP) :
    Sized (bodyDecode hdr) (max RTCP_APP_SIZE (4 * hdr.length.toNat)) := by
  unfold bodyDecode
  rw [is]
  by_cases more : 4 * hdr.length.toNat > RTCP_APP_SIZE
  · have size : max RTCP_APP_SIZE (4 * hdr.length.toNat) = RTCP_APP_SIZE + (4 * hdr.length.toNat - RTCP_APP_SIZE) := by
      omega
    rw [size]
    simp only [more, ite_true]
    apply Leads.need
    exact readU32_full.leads fun _ => Full.next.leads fun _ => (Full.need (Full.next.map _)).leads
  · rw [Nat.max_eq_left (Nat.not_lt.mp more)]
    simp only [more, ite_false]
    exact Full.need (n := 4 + (4 + 0)) (readU32_full.bind fun _ => Full.next.bind fun _ => Full.pure)

/-- A feedback packet without entries. -/
theorem fb_sized {length : BitVec 16} {fciDecode : BitVec 32 → Dec Fci} {fci : Fci}
    (none_ : ∀ n, fciDecode n = pure fci) : Sized (fbDecode length fciDecode) RTCP_FB_SIZE := by
  unfold fbDecode
  simp only [none_]
  exact Full.need (n := 4 + (4 + (0 + 0))) (readU32_full.bind fun _ => readU32_full.bind fun _ => Full.pure.bind fun _ =>
    Full.pure)

/-- The entries of a feedback packet. A length below 2 asks for more of them than are left. -/
theorem fb_measured {length : BitVec 16} {d : Dec α} {fci : List α → Fci} (entry : d.Full 4)
    (small : left.length < 2 ^ 32 - 8) :
    Measured (fbDecode length fun n => do
      need (n * 4).toNat .EBADMSG
      let items ← many n.toNat d
      return fci items) left (fciWidth length) := by
  rcases entries_size length with ⟨more, count, size⟩ | ⟨less, size⟩
  · have width : fciWidth length = some (RTCP_FB_SIZE + (length.toNat - 2) * 4) := by
      unfold fciWidth RTCP_FB_SIZE
      rw [if_pos more]
      congr 1
      omega
    rw [width]
    apply Sized.measured
    unfold fbDecode
    dsimp only
    rw [count, size, Nat.mul_comm 4]
    apply Leads.need (n := 4 + 4)
    exact readU32_full.leads fun _ => readU32_full.leads fun _ => ((Full.need ((entry.many _).map _)).map _).leads
  · have width : fciWidth length = none := if_neg (Nat.not_le.mpr less)
    rw [width]
    apply Measured.need
    · intro w is
      cases is
    · intro enough
      unfold RTCP_FB_SIZE at enough
      have four : 4 ≤ left.length := by omega
      have eight : 4 ≤ (left.drop 4).length := by
        rw [List.length_drop]
        omega
      have short : ((left.drop 4).drop 4).length < ((length.setWidth 32 - 2 : BitVec 32) * 4).toNat := by
        rw [List.length_drop, List.length_drop]
        omega
      apply Measured.fails .EBADMSG
      · intro w is
        cases is
      · exact readU32_full.error four fun _ => readU32_full.error eight fun _ => bind_error (bind_error (need_error short))

theorem rtpfb_measured (is : RtcpType.ofCode hdr.pt = some .RTPFB) (small : left.length < 2 ^ 32 - 8) :
    Measured (bodyDecode hdr) left (if hdr.count = RTCP_RTPFB_GNACK then fciWidth hdr.length else some RTCP_FB_SIZE) := by
  unfold bodyDecode
  rw [is]
  by_cases gnack : hdr.count = RTCP_RTPFB_GNACK
  · have entries : rtcpRtpfbDecode hdr.count = fun n => do
        need (n * 4).toNat .EBADMSG
        let gnackv ← many n.toNat gnackDecode
        return .gnackv gnackv := funext fun _ => if_pos gnack
    rw [if_pos gnack]
    dsimp only
    rw [entries]
    exact fb_measured gnackDecode_full small
  · rw [if_neg gnack]
    exact (fb_sized fun _ => if_neg gnack).measured left

theorem psfb_measured (is : RtcpType.ofCode hdr.pt = some .PSFB) (small : left.length < 2 ^ 32 - 8) :
    Measured (bodyDecode hdr) left (if hdr.count = RTCP_PSFB_SLI then fciWidth hdr.length else some RTCP_FB_SIZE) := by
  unfold bodyDecode
  rw [is]
  by_cases sli : hdr.count = RTCP_PSFB_SLI
  · have different : RTCP_PSFB_SLI ≠ RTCP_PSFB_PLI := by decide
    have entries : rtcpPsfbDecode hdr.count = fun n => do
        need (n * 4).toNat .EBADMSG
        let sliv ← many n.toNat sliDecode
        return .sliv sliv := by
      funext n
      unfold rtcpPsfbDecode
      rw [sli, if_neg different, if_pos rfl]
    rw [if_pos sli]
    dsimp only
    rw [entries]
    exact fb_measured sliDecode_full small
  · rw [if_neg sli]
    have none_ : ∀ n, rtcpPsfbDecode hdr.count n = pure Fci.none := by
      intro n
      unfold rtcpPsfbDecode
      rw [if_neg sli, ite_self]
    exact (fb_sized none_).measured left

theorem readU8_reads (b : Byte) : readU8.Reads [b] b := by
  have value : BitVec.ofNat 8 (getBe [b]) = b := by
    apply BitVec.eq_of_toNat_eq
    simp [getBe]
  have byte : (number 1 : Dec Nat).Reads [b] (getBe [b]) := Reads.number rfl
  have reads := byte.map (BitVec.ofNat 8)
  rw [value] at reads
  exact reads

theorem reasonDecode_measured {len : Byte} (first : left[0]? = some len) :
    Measured reasonDecode left (some (1 + len.toNat)) := by
  cases left with
  | nil => cases first
  | cons b left =>
    obtain rfl := Option.some.inj first
    show Measured _ ([b] ++ left) ((some b.toNat).map ([b].length + ·))
    apply (readU8_reads b).then_
    exact (Full.need (Full.next.map _)).measured left

theorem bye_measured (is : RtcpType.ofCode hdr.pt = some .BYE) (fits : 4 * hdr.length.toNat ≤ left.length) :
    Measured (bodyDecode hdr) left (some (hdr.count.toNat * 4 +
      if 4 * hdr.length.toNat > hdr.count.toNat * 4 then 1 + (left[hdr.count.toNat * 4]?.getD 0).toNat else 0)) := by
  unfold bodyDecode
  rw [is]
  apply Measured.need
  · intro w is
    obtain rfl := Option.some.inj is
    omega
  · intro enough
    show Measured _ left ((some _).map (hdr.count.toNat * 4 + ·))
    apply (readU32_full.many hdr.count.toNat).then_ enough
    intro srcv
    by_cases more : 4 * hdr.length.toNat > hdr.count.toNat * 4
    · simp only [more, ite_true]
      have byte : (left.drop (hdr.count.toNat * 4))[0]? = some (left[hdr.count.toNat * 4]?.getD 0) := by
        rw [List.getElem?_drop, Nat.add_zero, List.getElem?_eq_getElem (by omega)]
        rfl
      exact (reasonDecode_measured byte).map fun reason => RtcpBody.bye srcv (some reason)
    · simp only [more, ite_false]
      exact Sized.pure.measured _

/-- What is read of a packet behind its header is as long as its fields are. -/
theorem bodyDecode_measured (hdr : RtcpHdr) (left : List Byte) (fits : 4 * hdr.length.toNat ≤ left.length)
    (small : left.length < 2 ^ 32 - 8) : Measured (bodyDecode hdr) left (fieldsWidth hdr left) := by
  unfold fieldsWidth
  cases is : RtcpType.ofCode hdr.pt with
  | none =>
    unfold bodyDecode
    rw [is]
    exact (Full.next.map fun _ => RtcpBody.unknown).measured fits
  | some type =>
    cases type with
    | FIR => exact (fir_sized is).measured left
    | NACK => exact (nack_sized is).measured left
    | SR => exact (sr_sized is).measured left
    | RR => exact (rr_sized is).measured left
    | SDES =>
      unfold bodyDecode
      rw [is]
      exact (rtcpSdesv_measured _ left).map _
    | BYE => exact bye_measured is fits
    | APP => exact (app_sized is).measured left
    | RTPFB => exact rtpfb_measured is small
    | PSFB => exact psfb_measured is small

end

end Baresip.Rtcp
