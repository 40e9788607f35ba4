import Baresip.Stun.Msg

set_option linter.dupNamespace false

namespace Baresip.Stun

open Re Library

/-- The family of the address that the bytes hold. -/
def family (value : List Byte) : Nat := (readBe 1 (value.drop 1)).1

/-- How many bytes the decoder reads for a value. -/
def consumed (format : Option Format) (len : Nat) (value : List Byte) : Nat :=
  match format with
  | some (.addr _) => if family value = 1 then 8 else 20
  | some .changeReq => 4
  | some .msgIntegrity => 20
  | some .unknownAttr => 2 * (len / 2)
  | some .uint16 => 2
  | some .uint32 => 4
  | some .uint8 => 1
  | some .evenPort => 1
  | some .empty => 0
  | some .uint64 => 8
  | some .str | some .errCode | some .data | none => len

/-- The lengths for which the value and its padding are what the decoder reads and skips. -/
def Takes (format : Option Format) (len : Nat) (value : List Byte) : Prop :=
  match format with
  | some (.addr _) => len = 8 ∧ family value = 1 ∨ len = 20 ∧ family value = 2
  | some .unknownAttr => len % 4 ≠ 1
  | some .uint16 => len ≤ 4
  | some .uint8 => len ≤ 4
  | some .evenPort => len ≤ 4
  | _ => True

theorem readBe_le {n : Nat} {left : List Byte} (enough : n ≤ left.length) :
    readBe n left = (getBe (left.take n), left.drop n) := if_pos enough

theorem readBe_take {n len : Nat} {left : List Byte} (fits : n ≤ len) (enough : len ≤ left.length) :
    readBe n (left.take len) = (getBe (left.take n), (left.take len).drop n) := by
  have enough_ : n ≤ (left.take len).length := by
    rw [List.length_take]
    omega
  rw [readBe_le enough_, List.take_take, Nat.min_eq_left fits]

theorem addrDecode_eq (tid : Option (BitVec 96)) (left : List Byte) : addrDecode tid left =
    if left.length < 4 then .error .EBADMSG
    else
      match family left with
      | 1 =>
        if left.length < 8 then .error .EBADMSG
        else .ok (.inet (xorIn (.ofNat 32 (getBe ((left.drop 4).take 4))) tid)
          (xorPort (.ofNat 16 (getBe ((left.drop 2).take 2))) tid), left.drop 8)
      | 2 =>
        if left.length < 20 then .error .EBADMSG
        else .ok (.inet6 (xorIn6 (.ofNat 128 (getBe ((left.drop 4).take 16))) tid)
          (xorPort (.ofNat 16 (getBe ((left.drop 2).take 2))) tid), left.drop 20)
      | _ => .error .EAFNOSUPPORT := by
  unfold addrDecode
  split
  · rfl
  · rename_i enough
    have h1 : 1 ≤ left.length := by omega
    have h2 : 1 ≤ (left.drop 1).length := by rw [List.length_drop]; omega
    have h3 : 2 ≤ (left.drop 2).length := by rw [List.length_drop]; omega
    rw [readBe_le h1]
    dsimp only
    unfold family
    rw [readBe_le h2]
    dsimp only
    rw [List.drop_drop, readBe_le h3]
    dsimp only
    rw [List.drop_drop]
    generalize getBe ((left.drop 1).take 1) = f
    rcases f with _ | _ | _ | f
    · rfl
    · simp only [Nat.reduceAdd]
      by_cases short : left.length < 8
      · rewrite [List.length_drop, if_pos short, if_pos (by omega)]
        rfl
      · have h4 : 4 ≤ (left.drop 4).length := by rw [List.length_drop]; omega
        rewrite [List.length_drop, if_neg short, if_neg (by omega), readBe_le h4, List.drop_drop]
        rfl
    · simp only [Nat.reduceAdd]
      by_cases short : left.length < 20
      · rewrite [List.length_drop, if_pos short, if_pos (by omega)]
        rfl
      · rewrite [List.length_drop, if_neg short, if_neg (by omega), List.drop_drop]
        rfl
    · rfl

theorem readTypes_rest {n : Nat} {left : List Byte} (enough : 2 * n ≤ left.length) :
    (readTypes n left).2 = left.drop (2 * n) := by
  induction n generalizing left with
  | zero => rfl
  | succ n ih =>
    have first : 2 ≤ left.length := by omega
    have others : 2 * n ≤ (left.drop 2).length := by rw [List.length_drop]; omega
    unfold readTypes
    rw [readBe_le first]
    dsimp only
    rw [ih others, List.drop_drop]
    congr 1
    omega

theorem readTypes_take {n len : Nat} {left : List Byte} (fits : 2 * n ≤ len) (enough : len ≤ left.length) :
    (readTypes n (left.take len)).1 = (readTypes n left).1 := by
  induction n generalizing left len with
  | zero => rfl
  | succ n ih =>
    have first : 2 ≤ left.length := by omega
    have others : len - 2 ≤ (left.drop 2).length := by rw [List.length_drop]; omega
    unfold readTypes
    rw [readBe_le first, readBe_take (by omega) enough]
    dsimp only
    rw [List.drop_take, ih (by omega) others]

section
variable {tid : BitVec 96} {format : Option Format} {len : Nat} {left rest : List Byte} {v : AttrValue}

/-- The checks that the decoder makes of a length, and of the family of an address. -/
def Checked (format : Option Format) (len : Nat) (value : List Byte) : Prop :=
  match format with
  | some (.addr _) => family value = 1 ∨ family value = 2
  | some .changeReq => len = 4
  | some .msgIntegrity => len = 20
  | some .errCode => 4 ≤ len
  | some .uint16 => 2 ≤ len
  | some .uint32 => len = 4
  | some .uint8 => 1 ≤ len
  | some .evenPort => 1 ≤ len
  | some .empty => len = 0
  | some .uint64 => len = 8
  | _ => True

structure Read (format : Option Format) (len : Nat) (left rest : List Byte) : Prop where
  checked : Checked format len left
  rest_eq : rest = left.drop (consumed format len left)
  enough : consumed format len left ≤ left.length

theorem addrDecode_read {tid : Option (BitVec 96)} {sa : Sa} (decoded : addrDecode tid left = .ok (sa, rest)) :
    (family left = 1 ∨ family left = 2) ∧ rest = left.drop (if family left = 1 then 8 else 20) ∧
      (if family left = 1 then 8 else 20) ≤ left.length := by
  rw [addrDecode_eq] at decoded
  split at decoded
  · cases decoded
  · split at decoded
    · rename_i one
      split at decoded
      · cases decoded
      · cases decoded
        rw [one]
        exact ⟨.inl rfl, rfl, by rw [if_pos rfl]; omega⟩
    · rename_i two
      split at decoded
      · cases decoded
      · cases decoded
        rw [two]
        exact ⟨.inr rfl, rfl, by rw [if_neg (by decide)]; omega⟩
    · cases decoded

theorem strDecode_read {str : List Byte} (decoded : strDecode len left = .ok (str, rest)) :
    str = (left.take len).takeWhile (· != 0) ∧ rest = left.drop len ∧ len ≤ left.length := by
  unfold strDecode at decoded
  split at decoded
  · cases decoded
  · cases decoded
    exact ⟨rfl, rfl, by omega⟩

theorem numDecode_read {valid : Bool} {n : Nat} {value : Nat → AttrValue} (enough : valid → n ≤ left.length)
    (decoded : numDecode valid n value left = .ok (v, rest)) :
    valid ∧ v = value (getBe (left.take n)) ∧ rest = left.drop n ∧ n ≤ left.length := by
  unfold numDecode at decoded
  split at decoded
  · rename_i isValid
    rw [readBe_le (enough isValid)] at decoded
    cases decoded
    exact ⟨isValid, rfl, rfl, enough isValid⟩
  · cases decoded

theorem errCodeDecode_eq (four : 4 ≤ len) (enough : len ≤ left.length) : errCodeDecode len left =
    .ok (.errCode (.ofNat 16 (getBe ((left.drop 2).take 1) % 8 * 100 + getBe ((left.drop 3).take 1)))
      (((left.drop 4).take (len - 4)).takeWhile (· != 0)), left.drop len) := by
  have h1 : 1 ≤ (left.drop 2).length := by rw [List.length_drop]; omega
  have h2 : 1 ≤ (left.drop 3).length := by rw [List.length_drop]; omega
  have h3 : ¬ (left.drop 4).length < len - 4 := by rw [List.length_drop]; omega
  have behind : 4 + (len - 4) = len := by omega
  unfold errCodeDecode
  rw [if_neg (Nat.not_lt.mpr four), readBe_le h1]
  dsimp only
  rw [List.drop_drop, readBe_le h2]
  dsimp only
  rw [List.drop_drop, strDecode, if_neg h3, List.drop_drop, behind]

theorem errCodeDecode_read (enough : len ≤ left.length) (decoded : errCodeDecode len left = .ok (v, rest)) :
    4 ≤ len ∧ rest = left.drop len := by
  by_cases four : 4 ≤ len
  · rw [errCodeDecode_eq four enough] at decoded
    cases decoded
    exact ⟨four, rfl⟩
  · unfold errCodeDecode at decoded
    rw [if_pos (by omega)] at decoded
    cases decoded

theorem valueDecode_read (enough : len ≤ left.length) (decoded : valueDecode tid format len left = .ok (v, rest)) :
    Read format len left rest := by
  unfold valueDecode at decoded
  split at decoded
  · split at decoded
    · cases decoded
    · rename_i sa after result
      cases decoded
      obtain ⟨known, rest_eq, fits⟩ := addrDecode_read result
      exact ⟨known, rest_eq, fits⟩
  · obtain ⟨valid, -, rest_eq, fits⟩ := numDecode_read (by simp; omega) decoded
    exact ⟨by simpa [Checked] using valid, rest_eq, fits⟩
  · split at decoded
    · cases decoded
    · rename_i result
      cases decoded
      obtain ⟨-, rest_eq, fits⟩ := strDecode_read result
      exact ⟨trivial, rest_eq, fits⟩
  · split at decoded
    · cases decoded
    · rename_i twenty
      split at decoded
      · cases decoded
      · cases decoded
        exact ⟨by simpa [Checked] using twenty, rfl, by simp only [consumed]; omega⟩
  · obtain ⟨valid, rest_eq⟩ := errCodeDecode_read enough decoded
    exact ⟨valid, rest_eq, enough⟩
  · cases decoded
    have fits : 2 * (len / 2) ≤ left.length := by omega
    exact ⟨trivial, readTypes_rest fits, fits⟩
  · obtain ⟨valid, -, rest_eq, fits⟩ := numDecode_read (by simp; omega) decoded
    exact ⟨by simpa [Checked] using valid, rest_eq, fits⟩
  · obtain ⟨valid, -, rest_eq, fits⟩ := numDecode_read (by simp; omega) decoded
    exact ⟨by simpa [Checked] using valid, rest_eq, fits⟩
  · cases decoded
    exact ⟨trivial, rfl, enough⟩
  · obtain ⟨valid, -, rest_eq, fits⟩ := numDecode_read (by simp; omega) decoded
    exact ⟨by simpa [Checked] using valid, rest_eq, fits⟩
  · obtain ⟨valid, -, rest_eq, fits⟩ := numDecode_read (by simp; omega) decoded
    exact ⟨by simpa [Checked] using valid, rest_eq, fits⟩
  · split at decoded
    · cases decoded
    · cases decoded
      exact ⟨by simp only [Checked]; omega, rfl, Nat.zero_le _⟩
  · obtain ⟨valid, -, rest_eq, fits⟩ := numDecode_read (by simp; omega) decoded
    exact ⟨by simpa [Checked] using valid, rest_eq, fits⟩
  · cases decoded
    exact ⟨trivial, rfl, enough⟩

theorem slice_take {a n len : Nat} (left : List Byte) (fits : a + n ≤ len) :
    ((left.take len).drop a).take n = (left.drop a).take n := by
  rw [List.drop_take, List.take_take, Nat.min_eq_left (by omega)]

theorem family_take {len : Nat} (two : 2 ≤ len) (enough : len ≤ left.length) :
    family (left.take len) = family left := by
  have here : 1 ≤ (left.drop 1).length := by rw [List.length_drop]; omega
  have there : 1 ≤ ((left.take len).drop 1).length := by rw [List.length_drop, List.length_take]; omega
  unfold family
  rw [readBe_le here, readBe_le there, slice_take left two]

theorem addrDecode_inet {tid : Option (BitVec 96)} (one : family left = 1) (enough : 8 ≤ left.length) :
    addrDecode tid left = .ok (.inet (xorIn (.ofNat 32 (getBe ((left.drop 4).take 4))) tid)
      (xorPort (.ofNat 16 (getBe ((left.drop 2).take 2))) tid), left.drop 8) := by
  rw [addrDecode_eq, if_neg (by omega), one]
  exact if_neg (by omega)

theorem addrDecode_inet6 {tid : Option (BitVec 96)} (two : family left = 2) (enough : 20 ≤ left.length) :
    addrDecode tid left = .ok (.inet6 (xorIn6 (.ofNat 128 (getBe ((left.drop 4).take 16))) tid)
      (xorPort (.ofNat 16 (getBe ((left.drop 2).take 2))) tid), left.drop 20) := by
  rw [addrDecode_eq, if_neg (by omega), two]
  exact if_neg (by omega)

theorem addrDecode_take {tid : Option (BitVec 96)} {sa : Sa} (decoded : addrDecode tid left = .ok (sa, rest))
    (fits : (if family left = 1 then 8 else 20) ≤ len) (enough : len ≤ left.length) :
    addrDecode tid (left.take len) = .ok (sa, (left.take len).drop (if family left = 1 then 8 else 20)) := by
  obtain ⟨known, -, -⟩ := addrDecode_read decoded
  have length : (left.take len).length = len := by rw [List.length_take]; omega
  rcases known with one | two
  · rw [if_pos one] at fits ⊢
    have same := family_take (show 2 ≤ len by omega) enough
    rw [addrDecode_inet one (by omega)] at decoded
    rw [addrDecode_inet (same.trans one) (by omega)]
    cases decoded
    rw [slice_take left (by omega), slice_take left (by omega)]
  · have notOne : ¬ family left = 1 := by omega
    rw [if_neg notOne] at fits ⊢
    have same := family_take (show 2 ≤ len by omega) enough
    rw [addrDecode_inet6 two (by omega)] at decoded
    rw [addrDecode_inet6 (same.trans two) (by omega)]
    cases decoded
    rw [slice_take left (by omega), slice_take left (by omega)]

theorem numDecode_take {valid : Bool} {n : Nat} {value : Nat → AttrValue} (isValid : valid) (fits : n ≤ len)
    (enough : len ≤ left.length) :
    numDecode valid n value (left.take len) = .ok (value (getBe (left.take n)), (left.take len).drop n) := by
  unfold numDecode
  rw [if_pos isValid, readBe_take fits enough]

theorem strDecode_take {m len : Nat} {left : List Byte} (fits : m ≤ len) (enough : len ≤ left.length) :
    strDecode m (left.take len) = .ok ((left.take m).takeWhile (· != 0), (left.take len).drop m) := by
  have long : ¬ (left.take len).length < m := by
    rw [List.length_take]
    omega
  unfold strDecode
  rw [if_neg long, List.take_take, Nat.min_eq_left fits]

theorem errCodeDecode_take (enough : len ≤ left.length) (decoded : errCodeDecode len left = .ok (v, rest)) :
    errCodeDecode len (left.take len) = .ok (v, (left.take len).drop len) := by
  obtain ⟨four, -⟩ := errCodeDecode_read enough decoded
  have length : (left.take len).length = len := by rw [List.length_take]; omega
  rw [errCodeDecode_eq four enough] at decoded
  rw [errCodeDecode_eq four (Nat.le_of_eq length.symm)]
  cases decoded
  rw [slice_take left (by omega), slice_take left (by omega), slice_take left (by omega)]

theorem valueDecode_take (enough : len ≤ left.length) (decoded : valueDecode tid format len left = .ok (v, rest))
    (fits : consumed format len left ≤ len) : valueDecode tid format len (left.take len) =
      .ok (v, (left.take len).drop (consumed format len left)) := by
  unfold valueDecode at decoded ⊢
  split at decoded
  · split at decoded
    · cases decoded
    · rename_i sa after result
      cases decoded
      rw [addrDecode_take result fits enough]
      rfl
  · obtain ⟨valid, rfl, -⟩ := numDecode_read (by simp; omega) decoded
    exact numDecode_take valid fits enough
  · split at decoded
    · cases decoded
    · rename_i result
      cases decoded
      obtain ⟨rfl, -⟩ := strDecode_read result
      rw [strDecode_take (Nat.le_refl len) enough]
      rfl
  · split at decoded
    · cases decoded
    · rename_i twenty
      split at decoded
      · cases decoded
      · cases decoded
        have long : ¬ (left.take len).length < 20 := by
          rw [List.length_take]
          omega
        rw [if_neg twenty, if_neg long, List.take_take, Nat.min_eq_left (show 20 ≤ len by omega)]
        rfl
  · exact errCodeDecode_take enough decoded
  · cases decoded
    have half : 2 * (len / 2) ≤ len := by omega
    have whole : (left.take len).length = len := by rw [List.length_take]; omega
    dsimp only
    rw [readTypes_take half enough, readTypes_rest (Nat.le_trans half (Nat.le_of_eq whole.symm))]
    rfl
  · obtain ⟨valid, rfl, -⟩ := numDecode_read (by simp; omega) decoded
    exact numDecode_take valid fits enough
  · obtain ⟨valid, rfl, -⟩ := numDecode_read (by simp; omega) decoded
    exact numDecode_take valid fits enough
  · cases decoded
    rw [List.take_take, Nat.min_self]
    rfl
  · obtain ⟨valid, rfl, -⟩ := numDecode_read (by simp; omega) decoded
    exact numDecode_take valid fits enough
  · obtain ⟨valid, rfl, -⟩ := numDecode_read (by simp; omega) decoded
    exact numDecode_take valid fits enough
  · split at decoded
    · cases decoded
    · rename_i notLong
      cases decoded
      rw [if_neg notLong]
      rfl
  · obtain ⟨valid, rfl, -⟩ := numDecode_read (by simp; omega) decoded
    exact numDecode_take valid fits enough
  · cases decoded
    rfl

/-- What is read of a value and skipped behind it when the length is one that the decoder takes. -/
theorem takes_consumed (checked : Checked format len left) (takes : Takes format len left) :
    consumed format len left ≤ len ∧ rounded (consumed format len left) = rounded len := by
  rcases format with _ | f
  · exact ⟨Nat.le_refl _, rfl⟩
  · cases f
    case addr xor =>
      rcases takes with ⟨rfl, one⟩ | ⟨rfl, two⟩
      · simp [consumed, one]
      · simp [consumed, two]
    case str | errCode | data => exact ⟨Nat.le_refl _, rfl⟩
    all_goals
      simp only [Checked, Takes, consumed, rounded, padding] at checked takes ⊢
      omega

end

def itemType (left : List Byte) : BitVec 16 := .ofNat 16 (getBe (left.take 2))
def itemLen (left : List Byte) : Nat := getBe ((left.drop 2).take 2)
def itemFormat (left : List Byte) : Option Format := formatOf (itemType left)

/-- How many bytes the decoder reads for the value of the next item. -/
def itemRead (left : List Byte) : Nat := consumed (itemFormat left) (itemLen left) (left.drop 4)

/-- The length of the next item is one that the decoder takes. -/
def ItemTakes (left : List Byte) : Prop := Takes (itemFormat left) (itemLen left) (left.drop 4)

section
variable {tid : BitVec 96} {left rest : List Byte} {attr : Attr}

theorem attrDecode_eq (four : 4 ≤ left.length) : attrDecode tid left =
    if left.length - 4 < itemLen left then .error .EBADMSG
    else
      match valueDecode tid (itemFormat left) (itemLen left) (left.drop 4) with
      | .error e => .error e
      | .ok (v, rest) => .ok (⟨itemType left, v⟩, rest.drop (padding (left.length - 4 - rest.length))) := by
  have h1 : 2 ≤ left.length := by omega
  have h2 : 2 ≤ (left.drop 2).length := by rw [List.length_drop]; omega
  unfold attrDecode
  rw [if_neg (Nat.not_lt.mpr four), readBe_le h1]
  dsimp only
  rw [readBe_le h2]
  dsimp only
  rw [List.drop_drop, List.length_drop]
  rfl

/-- An attribute whose value has been decoded. -/
structure Decoded (tid : BitVec 96) (left : List Byte) (attr : Attr) (rest : List Byte) : Prop where
  four : 4 + itemLen left ≤ left.length
  type : attr.type = itemType left
  value : ∃ behind, valueDecode tid (itemFormat left) (itemLen left) (left.drop 4) = .ok (attr.v, behind)
  read : Checked (itemFormat left) (itemLen left) (left.drop 4)
  enough : 4 + itemRead left ≤ left.length
  rest_eq : rest = left.drop (4 + rounded (itemRead left))

theorem attrDecode_decoded (decoded : attrDecode tid left = .ok (attr, rest)) : Decoded tid left attr rest := by
  by_cases four : 4 ≤ left.length
  · rw [attrDecode_eq four] at decoded
    split at decoded
    · cases decoded
    · rename_i fits
      split at decoded
      · cases decoded
      · rename_i v behind result
        cases decoded
        have enough : itemLen left ≤ (left.drop 4).length := by rw [List.length_drop]; omega
        have read := valueDecode_read enough result
        have inside : itemRead left ≤ left.length - 4 := List.length_drop ▸ read.enough
        refine ⟨by omega, rfl, ⟨behind, result⟩, read.checked, by omega, ?_⟩
        have back : left.length - 4 - (left.length - 4 - itemRead left) = itemRead left := by omega
        have rest_eq : behind = (left.drop 4).drop (itemRead left) := read.rest_eq
        rw [rest_eq, List.length_drop, List.length_drop, back, List.drop_drop, List.drop_drop, rounded]
  · unfold attrDecode at decoded
    rw [if_pos (by omega)] at decoded
    cases decoded

/-- The next item has been decoded from its own bytes, and it and its padding have been passed. -/
structure Item (tid : BitVec 96) (left : List Byte) (attr : Attr) (rest : List Byte) : Prop where
  decoded : attrDecode tid left = .ok (attr, rest)
  own : attrDecode tid (left.take (4 + itemLen left)) = .ok (attr, [])
  consumes : left.length = rest.length + (4 + rounded (itemLen left))

theorem itemType_take {n : Nat} (four : 4 ≤ n) : itemType (left.take n) = itemType left := by
  unfold itemType
  rw [List.take_take, Nat.min_eq_left (by omega)]

theorem itemLen_take {n : Nat} (four : 4 ≤ n) : itemLen (left.take n) = itemLen left := by
  unfold itemLen
  rw [List.drop_take, List.take_take, Nat.min_eq_left (by omega)]

theorem itemFormat_take {n : Nat} (four : 4 ≤ n) : itemFormat (left.take n) = itemFormat left := by
  rw [itemFormat, itemType_take four]
  rfl

/-- With a length that the decoder takes, the value is decoded from its own bytes. -/
theorem Decoded.own (decoded : Decoded tid left attr rest)
    (takes : ItemTakes left) :
    attrDecode tid (left.take (4 + itemLen left)) = .ok (attr, []) := by
  obtain ⟨behind, value⟩ := decoded.value
  obtain ⟨fits, same⟩ : itemRead left ≤ itemLen left ∧ rounded (itemRead left) = rounded (itemLen left) :=
    takes_consumed decoded.read takes
  have four := decoded.four
  have enough : itemLen left ≤ (left.drop 4).length := by rw [List.length_drop]; omega
  have whole : (left.take (4 + itemLen left)).length = 4 + itemLen left := by rw [List.length_take]; omega
  have length : (((left.drop 4).take (itemLen left)).drop (itemRead left)).length = itemLen left - itemRead left := by
    rw [List.length_drop, List.length_take, Nat.min_eq_left enough]
  have nothing : (((left.drop 4).take (itemLen left)).drop (itemRead left)).drop (padding (itemRead left)) = [] := by
    apply List.drop_of_length_le
    unfold rounded at same
    omega
  have back : itemLen left - (itemLen left - itemRead left) = itemRead left := by omega
  have alone : valueDecode tid (itemFormat left) (itemLen left) ((left.drop 4).take (itemLen left)) =
      .ok (attr.v, ((left.drop 4).take (itemLen left)).drop (itemRead left)) :=
    valueDecode_take enough value fits
  rw [attrDecode_eq (by omega), whole, itemFormat_take (by omega), itemType_take (by omega), itemLen_take (by omega),
    if_neg (by omega), List.drop_take, Nat.add_sub_cancel_left, alone]
  dsimp only
  rw [length, back, nothing, ← decoded.type]

theorem takes_of_passed {format : Option Format} {len : Nat} {value : List Byte} (total : Nat) (length : len ≤ value.length)
    (checked : Checked format len value) (enough : consumed format len value ≤ total)
    (passed : total = total - rounded (consumed format len value) + rounded len)
    (own : consumed format len (value.take len) ≤ len) : Takes format len value := by
  rcases format with _ | f
  · trivial
  · cases f
    case addr xor =>
      simp only [consumed] at own enough passed
      have long : 8 ≤ len := by
        split at own
        · exact own
        · omega
      rw [family_take (by omega) length] at own
      rcases checked with one | two
      · rw [one, if_pos rfl] at own enough passed
        simp only [rounded, padding] at passed
        exact .inl ⟨by omega, one⟩
      · rw [two, if_neg (by decide)] at own enough passed
        simp only [rounded, padding] at passed
        exact .inr ⟨by omega, two⟩
    case str | errCode | data | changeReq | msgIntegrity | uint32 | empty | uint64 => trivial
    all_goals
      simp only [Checked, Takes, consumed, rounded, padding] at checked passed enough ⊢
      omega

/-- An item that is decoded from its own bytes has a length that the decoder takes. -/
theorem Item.takes (item : Item tid left attr rest) : ItemTakes left := by
  have decoded := attrDecode_decoded item.decoded
  have four := decoded.four
  have whole : (left.take (4 + itemLen left)).length = 4 + itemLen left := by rw [List.length_take]; omega
  have consumes := item.consumes
  have enough := decoded.enough
  have own := (attrDecode_decoded item.own).enough
  unfold itemRead at own
  rw [whole, itemFormat_take (by omega), itemLen_take (by omega), List.drop_take, Nat.add_sub_cancel_left] at own
  rw [decoded.rest_eq, List.length_drop] at consumes
  apply takes_of_passed (left.length - 4)
  · rw [List.length_drop]
    omega
  · exact decoded.read
  · show itemRead left ≤ left.length - 4
    omega
  · show left.length - 4 = left.length - 4 - rounded (itemRead left) + rounded (itemLen left)
    omega
  · omega

end

end Baresip.Stun
