import Baresip.Stun.Item

set_option linter.dupNamespace false

namespace Baresip.Stun

open Re Library

/-- The attributes are those of items that follow each other up to the bytes behind the message. -/
inductive Tiles (tid : BitVec 96) (extra : Nat) : List Byte → List Attr → Prop
  | done {left : List Byte} (ends : left.length = extra) : Tiles tid extra left []
  | item {left rest : List Byte} {attr : Attr} {attrs : List Attr} (item : Item tid left attr rest)
      (others : Tiles tid extra rest attrs) : Tiles tid extra left (attr :: attrs)

/-- Every item of the bytes has a length that the decoder takes. There are no more items than `n`. -/
def LengthsFit : Nat → List Byte → Prop
  | 0, _ => True
  | n + 1, body => 4 ≤ body.length → ItemTakes body ∧ LengthsFit n (body.drop (4 + rounded (itemLen body)))

section
variable {tid : BitVec 96} {left rest body trailing : List Byte} {attr : Attr} {extra : Nat} {s s' : AttrsSt}

theorem wraps_back {left extra m : Nat} (inside : extra ≤ left) (fits : left < m) :
    (left + m - extra) % m = left - extra := by
  have moved : left + m - extra = (left - extra) + m := by omega
  rw [moved, Nat.add_mod_right, Nat.mod_eq_of_lt (by omega)]

theorem wraps_past {left extra m : Nat} (past : left < extra) (fits : extra ≤ m) :
    (left + m - extra) % m = left + m - extra := Nat.mod_eq_of_lt (by omega)

theorem goesOn_inside {left extra : Nat} (inside : extra ≤ left) (fits : left < sizeValues) :
    goesOn left extra = true ↔ 4 ≤ left - extra := by
  unfold goesOn
  rw [wraps_back inside fits]
  exact decide_eq_true_iff

/-- Behind the message the difference wraps around. -/
theorem goesOn_past {left extra : Nat} (past : left < extra) (fits : extra + 4 ≤ sizeValues) :
    goesOn left extra = true := by
  unfold goesOn
  rw [wraps_past past (by omega)]
  apply decide_eq_true
  omega

theorem attrsBody_item (on : goesOn s.left.length extra = true) (decoded : attrDecode tid s.left = .ok (attr, rest)) :
    attrsBody tid extra s = .inl ⟨rest, s.attrl ++ [attr], noteUnknown s.ua attr⟩ := by
  unfold attrsBody
  rw [if_pos on, decoded]

theorem attrsBody_error {e : StunErr} (on : goesOn s.left.length extra = true)
    (failed : attrDecode tid s.left = .error e) : attrsBody tid extra s = .inr (.error e) := by
  unfold attrsBody
  rw [if_pos on, failed]

theorem attrsBody_done (off : ¬ goesOn s.left.length extra = true) : attrsBody tid extra s = .inr (.ok s) := by
  unfold attrsBody
  rw [if_neg off]

theorem Decoded.shorter (decoded : Decoded tid left attr rest) : rest.length < left.length := by
  have four := decoded.four
  rw [decoded.rest_eq, List.length_drop]
  omega

theorem past_fails {fuel : Nat} (past : s.left.length < extra) (fits : extra + 4 ≤ sizeValues) :
    loop (attrsBody tid extra) fuel s ≠ some (.ok s') := by
  induction fuel generalizing s with
  | zero =>
    intro none_
    unfold loop at none_
    contradiction
  | succ fuel ih =>
    have on := goesOn_past past fits
    cases result : attrDecode tid s.left with
    | error e =>
      rw [loop_inr fuel (attrsBody_error on result)]
      intro failed
      cases failed
    | ok item =>
      obtain ⟨attr, rest⟩ := item
      have shorter := (attrDecode_decoded result).shorter
      rw [loop_inl fuel (attrsBody_item on result)]
      exact ih (Nat.lt_trans shorter past)

theorem itemType_append (four : 4 ≤ body.length) : itemType (body ++ trailing) = itemType body := by
  unfold itemType
  rw [List.take_append_of_le_length (by omega)]

theorem itemLen_append (four : 4 ≤ body.length) : itemLen (body ++ trailing) = itemLen body := by
  have enough : 2 ≤ (body.drop 2).length := by
    rw [List.length_drop]
    omega
  unfold itemLen
  rw [List.drop_append_of_le_length (by omega), List.take_append_of_le_length enough]

theorem family_append {value : List Byte} (two : 2 ≤ value.length) : family (value ++ trailing) = family value := by
  have here : 1 ≤ (value.drop 1).length := by rw [List.length_drop]; omega
  have there : 1 ≤ ((value ++ trailing).drop 1).length := by rw [List.length_drop, List.length_append]; omega
  unfold family
  rw [readBe_le here, readBe_le there, List.drop_append_of_le_length (by omega), List.take_append_of_le_length here]

theorem family_short {value : List Byte} (short : value.length < 2) : family value = 0 := by
  have none_ : ¬ 1 ≤ (value.drop 1).length := by rw [List.length_drop]; omega
  unfold family readBe
  rw [if_neg none_]

theorem takes_append {format : Option Format} {len : Nat} {value : List Byte} (takes : Takes format len value) :
    Takes format len (value ++ trailing) := by
  rcases format with _ | f
  · exact takes
  · cases f
    case addr xor =>
      have two : 2 ≤ value.length := by
        by_contra short
        have zero := family_short (Nat.lt_of_not_le short)
        rcases takes with ⟨-, one⟩ | ⟨-, two⟩
        · omega
        · omega
      unfold Takes
      rw [family_append two]
      exact takes
    all_goals exact takes

theorem takes_of_append {format : Option Format} {len : Nat} {value : List Byte}
    (two : ∀ xor, format = some (.addr xor) → 2 ≤ value.length) (takes : Takes format len (value ++ trailing)) :
    Takes format len value := by
  rcases format with _ | f
  · exact takes
  · cases f
    case addr xor =>
      unfold Takes at takes
      rw [family_append (two xor rfl)] at takes
      exact takes
    all_goals exact takes

/-- The bytes behind the message have no part in the length of an item that lies inside. -/
theorem itemTakes_append (four : 4 ≤ body.length) (fits : 4 + itemRead (body ++ trailing) ≤ body.length) :
    ItemTakes (body ++ trailing) ↔ ItemTakes body := by
  unfold itemRead at fits
  unfold ItemTakes
  have format : itemFormat (body ++ trailing) = itemFormat body := by
    rw [itemFormat, itemType_append four]
    rfl
  rw [format, itemLen_append four, List.drop_append_of_le_length four] at fits ⊢
  constructor
  · apply takes_of_append
    intro xor addr
    rw [addr] at fits
    have eight : 8 ≤ consumed (some (.addr xor)) (itemLen body) (body.drop 4 ++ trailing) := by
      unfold consumed
      dsimp only
      split <;> omega
    rw [List.length_drop]
    omega
  · exact takes_append

theorem Tiles.takes_first {attrs : List Attr} (tiles : Tiles tid extra left (attr :: attrs)) : ItemTakes left := by
  cases tiles with
  | item item others => exact item.takes

theorem LengthsFit.of_short {n : Nat} (short : body.length < 4) : LengthsFit n body := by
  cases n with
  | zero => trivial
  | succ n =>
    intro four
    omega

theorem LengthsFit.item {n : Nat} (takes : ItemTakes body)
    (others : LengthsFit n (body.drop (4 + rounded (itemLen body)))) : LengthsFit (n + 1) body :=
  fun _ => ⟨takes, others⟩

/-- A decoded item that ends inside the message. -/
theorem Decoded.inside (decoded : Decoded tid left attr rest) (past : ¬ rest.length < extra)
    (cut : left = body ++ trailing) (length : trailing.length = extra) (aligned : body.length % 4 = 0) :
    4 + rounded (itemRead left) ≤ body.length ∧ rest = body.drop (4 + rounded (itemRead left)) ++ trailing := by
  have enough := decoded.enough
  have whole : left.length = body.length + extra := by rw [cut, List.length_append, length]
  have rest_eq := decoded.rest_eq
  have shorter : rest.length = left.length - (4 + rounded (itemRead left)) := by rw [rest_eq, List.length_drop]
  have fits : 4 + rounded (itemRead left) ≤ body.length := by
    unfold rounded padding at *
    omega
  refine ⟨fits, ?_⟩
  rw [rest_eq, congrArg (List.drop _) cut]
  exact List.drop_append_of_le_length fits

theorem Decoded.item_iff (decoded : Decoded tid left attr rest) (result : attrDecode tid left = .ok (attr, rest))
    (cut : left = body ++ trailing) (fits : 4 + rounded (itemRead left) ≤ body.length) :
    Item tid left attr rest ↔ ItemTakes body := by
  have four : 4 ≤ body.length := by omega
  have small : 4 + itemRead left ≤ body.length := by
    unfold rounded at fits
    omega
  have same : ItemTakes left ↔ ItemTakes body := by
    rw [cut] at small ⊢
    exact itemTakes_append four small
  rw [← same]
  constructor
  · exact Item.takes
  · intro takes
    have lengths : rounded (itemRead left) = rounded (itemLen left) := (takes_consumed decoded.read takes).2
    have whole : left.length = body.length + trailing.length := by rw [cut, List.length_append]
    refine ⟨result, decoded.own takes, ?_⟩
    rw [decoded.rest_eq, List.length_drop, ← lengths]
    omega

/-- How many bytes of the message the attribute takes if it is one of those that are put behind all others. -/
def trailerSize (attr : Attr) : Nat :=
  if attr.type = StunAttrib.MSG_INTEGRITY.code then MI_SIZE
  else if attr.type = StunAttrib.FINGERPRINT.code then FP_SIZE
  else 0

def trailersSize : List Attr → Nat
  | [] => 0
  | attr :: attrs => trailerSize attr + trailersSize attrs

theorem Decoded.trailerSize_le (decoded : Decoded tid left attr rest) :
    trailerSize attr ≤ 4 + rounded (itemRead left) := by
  unfold trailerSize itemRead
  rw [decoded.type]
  split
  · rename_i mi
    have format : itemFormat left = some .msgIntegrity := by
      rw [itemFormat, mi]
      rfl
    rw [format]
    show MI_SIZE ≤ 4 + rounded 20
    decide
  · split
    · rename_i fp
      have format : itemFormat left = some .uint32 := by
        rw [itemFormat, fp]
        rfl
      rw [format]
      show FP_SIZE ≤ 4 + rounded 4
      decide
    · exact Nat.zero_le _

/-- What the loop has decoded from the bytes of the message. -/
structure Walked (tid : BitVec 96) (extra : Nat) (left body : List Byte) (attrs : List Attr) : Prop where
  tiles_iff (n : Nat) (enough : body.length ≤ n) : Tiles tid extra left attrs ↔ LengthsFit n body
  trailers : trailersSize attrs ≤ body.length

theorem Walked.done (ends : left.length = extra) (short : body.length < 4) : Walked tid extra left body [] where
  tiles_iff _ _ := ⟨fun _ => .of_short short, fun _ => .done ends⟩
  trailers := Nat.zero_le _

theorem Walked.item {attrs : List Attr} (decoded : Decoded tid left attr rest)
    (result : attrDecode tid left = .ok (attr, rest)) (cut : left = body ++ trailing)
    (fits : 4 + rounded (itemRead left) ≤ body.length)
    (walked : Walked tid extra rest (body.drop (4 + rounded (itemRead left))) attrs) :
    Walked tid extra left body (attr :: attrs) where
  tiles_iff n enough := by
    have item_iff := decoded.item_iff result cut fits
    have four : 4 ≤ body.length := by omega
    have lens : itemLen left = itemLen body := by rw [cut, itemLen_append four]
    have lengths : ItemTakes body → rounded (itemRead left) = rounded (itemLen body) := by
      intro takes
      rw [← lens]
      exact (takes_consumed decoded.read (item_iff.2 takes).takes).2
    cases n with
    | zero => omega
    | succ n =>
      have others := walked.tiles_iff n (by rw [List.length_drop]; omega)
      constructor
      · intro tiles
        cases tiles with
        | item item tiles =>
          rename_i after
          have same : after = rest := by
            have results := item.decoded.symm.trans result
            injection results with pairs
            exact congrArg Prod.snd pairs
          subst same
          intro _
          have takes := item_iff.1 item
          exact ⟨takes, lengths takes ▸ others.1 tiles⟩
      · intro fit
        obtain ⟨takes, fit⟩ := fit four
        exact .item (item_iff.2 takes) (others.2 (lengths takes ▸ fit))
  trailers := by
    have size := decoded.trailerSize_le
    have sizes := walked.trailers
    rw [List.length_drop] at sizes
    unfold trailersSize
    omega

theorem loop_walked {fuel : Nat} (cut : s.left = body ++ trailing) (length : trailing.length = extra)
    (aligned : body.length % 4 = 0) (fits : s.left.length + 4 ≤ sizeValues)
    (result : loop (attrsBody tid extra) fuel s = some (.ok s')) :
    ∃ attrs, s'.attrl = s.attrl ++ attrs ∧ Walked tid extra s.left body attrs := by
  induction fuel generalizing s body with
  | zero =>
    unfold loop at result
    contradiction
  | succ fuel ih =>
    have whole : s.left.length = body.length + extra := by rw [cut, List.length_append, length]
    have on_iff := goesOn_inside (show extra ≤ s.left.length by omega) (show s.left.length < sizeValues by omega)
    by_cases on : goesOn s.left.length extra = true
    · cases decodes : attrDecode tid s.left with
      | error e =>
        rw [loop_inr fuel (attrsBody_error on decodes)] at result
        cases result
      | ok item =>
        obtain ⟨attr, rest⟩ := item
        rw [loop_inl fuel (attrsBody_item on decodes)] at result
        have decoded := attrDecode_decoded decodes
        have shorter := decoded.shorter
        have past : ¬ rest.length < extra := by
          intro past
          exact past_fails past (by omega) result
        obtain ⟨inside, rest_eq⟩ := decoded.inside past cut length aligned
        have aligned' : (body.drop (4 + rounded (itemRead s.left))).length % 4 = 0 := by
          rw [List.length_drop]
          unfold rounded padding at *
          omega
        obtain ⟨attrs, attrl, walked⟩ :=
          ih rest_eq aligned' (Nat.le_trans (Nat.add_le_add_right (Nat.le_of_lt shorter) 4) fits) result
        refine ⟨attr :: attrs, ?_, .item decoded decodes cut inside walked⟩
        rw [attrl, List.append_assoc]
        rfl
    · have off : ¬ 4 ≤ s.left.length - extra := fun four => on (on_iff.2 four)
      rw [loop_inr fuel (attrsBody_done on)] at result
      cases result
      exact ⟨[], (List.append_nil _).symm, .done (by omega) (by omega)⟩

end

end Baresip.Stun
