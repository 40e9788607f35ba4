import Baresip.Re.Lookup

set_option linter.dupNamespace false

namespace Baresip.Re.Lookup

/-- What is said of a parameter is right: absent where no element has the name, or the value of one that does. -/
def Right (report : Report) (named : Nat → Prop) (value : Nat → Pl → Prop) : Prop :=
  match report with
  | .absent => ∀ j, ¬ named j
  | .found v => ∃ j, named j ∧ value j v
  | .unset => False

section
variable {first pass at_ : Nat → Nat → Prop} {slice : Nat → Nat → Pl → Prop} {report : Report} {named : Nat → Prop}
  {value : Nat → Pl → Prop}

theorem right_iff (unique : ∀ a k a' k', first a k → first a' k' → a = a' ∧ k = k')
    (outcome : (report = .absent ∧ ∀ a k, first a k → ¬ pass a k) ∨
      ∃ a k v, first a k ∧ pass a k ∧ slice a k v ∧ report = .found v)
    (meets : ∀ a k v, first a k → slice a k v → ((∃ j, named j ∧ value j v) ↔ at_ a k)) :
    Right report named value ↔
      (∀ a k, first a k → pass a k → at_ a k) ∧ ((∃ j, named j) → ∃ a k, first a k ∧ pass a k) := by
  rcases outcome with ⟨rfl, fails⟩ | ⟨a, k, v, here, passes, cut, rfl⟩
  · constructor
    · intro none_
      exact ⟨fun a k here passes => absurd passes (fails a k here), fun ⟨j, has⟩ => absurd has (none_ j)⟩
    · rintro ⟨-, some_⟩ j has
      obtain ⟨a, k, here, passes⟩ := some_ ⟨j, has⟩
      exact fails a k here passes
  · show (∃ j, named j ∧ value j v) ↔ _
    rw [meets a k v here cut]
    constructor
    · intro is
      refine ⟨fun a' k' here' _ => ?_, fun _ => ⟨a, k, here, passes⟩⟩
      obtain ⟨rfl, rfl⟩ := unique a k a' k' here here'
      exact is
    · rintro ⟨is, -⟩
      exact is a k here passes

theorem right_iff_cut (outcome : (report = .absent ∧ ∀ a k, first a k → ¬ pass a k) ∨
      (report = .unset ∧ ∃ a k, first a k ∧ pass a k)) :
    Right report named value ↔ (∀ a k, first a k → ¬ pass a k) ∧ ∀ j, ¬ named j := by
  rcases outcome with ⟨rfl, fails⟩ | ⟨rfl, a, k, here, passes⟩
  · exact ⟨fun none_ => ⟨fails, none_⟩, fun none_ => none_.2⟩
  · exact ⟨False.elim, fun fails => fails.1 a k here passes⟩

end

/-- The pattern has room for the name and for what comes behind it. -/
def Fits (sip : Bool) (tail : Tail) (name : List Byte) : Prop :=
  (headText sip).length + name.length + (tailText tail).length ≤ 127

instance (sip : Bool) (tail : Tail) (name : List Byte) : Decidable (Fits sip tail name) :=
  inferInstanceAs (Decidable (_ ≤ _))

/-- The name in a pattern that has no room for what comes behind it. -/
def cutName (sip : Bool) (name : List Byte) : List Byte := if (headText sip).length + name.length ≤ 127 then name else []

section
variable {sip : Bool} {tail : Tail} {name : List Byte}

theorem printed_fits (fits : Fits sip tail name) :
    printed (headText sip) name (tailText tail) = headText sip ++ (name ++ tailText tail) := if_pos fits

theorem printed_cut (cut : ¬ Fits sip tail name) :
    printed (headText sip) name (tailText tail) = headText sip ++ (cutName sip name ++ tailText .bare) := by
  unfold Fits at cut
  rw [printed, if_neg cut, cutName]
  split_ifs
  · rw [tailText, List.append_nil]
  · rw [tailText, List.append_nil, List.append_nil]

theorem cutName_plain (plain : ∀ c ∈ name, Plain c) : ∀ c ∈ cutName sip name, Plain c := by
  unfold cutName
  split_ifs
  · exact plain
  · exact fun c none_ => absurd none_ List.not_mem_nil

end

/-- An attempt from here begins with a separator or with the text. -/
def Fresh (text : List Byte) (a : Nat) : Prop := text[a]? = some (chr ';') ∨ a = 0

/-- The name does not go on at this position. -/
def EndsAt (text : List Byte) (i : Nat) : Prop := ∀ c, text[i]? = some c → Ends c

variable {text name : List Byte}

theorem fresh_iff (a : Nat) :
    ((text.drop a).takeWhile fun c => decide (c = chr ';')) ≠ [] ∨ a = 0 ↔ Fresh text a := by
  unfold Fresh
  refine or_congr_left ?_
  rw [← List.head?_drop]
  cases text.drop a with
  | nil => simp
  | cons c p => by_cases semi : c = chr ';' <;> simp [semi]

theorem endsAt_iff (i : Nat) :
    ¬ (((text.drop i).takeWhile fun c => decide (Ends c)) = [] ∧ i < text.length) ↔ EndsAt text i := by
  unfold EndsAt
  rw [← List.head?_drop]
  cases behind : text.drop i with
  | nil =>
    have short := List.drop_eq_nil_iff.mp behind
    simp [short]
  | cons c p =>
    have inside : i < text.length := by
      by_contra outside
      rw [List.drop_eq_nil_iff.mpr (Nat.le_of_not_lt outside)] at behind
      contradiction
    by_cases ends : Ends c <;> simp [ends, inside]

/-! What the four functions say. -/

theorem Tail.bare_spelled {name : List Byte} (value : Tail.bare = .value) : name ≠ [] := by
  cases value

section
variable (bounded : text.length ≤ Regex.uint32Max) (plain : ∀ c ∈ name, Plain c) (some_ : name ≠ [])
include bounded plain

theorem search_cut (sip : Bool) :
    (∃ e, reRegex text (headText sip ++ (cutName sip name ++ tailText .bare)) = .error e ∧
        ∀ a k, ¬ First sip .bare text (cutName sip name) a k) ∨
      ∃ a k, reRegex text (headText sip ++ (cutName sip name ++ tailText .bare)) =
          .ok (leadCaptures sip a (text.drop a)) ∧
        First sip .bare text (cutName sip name) a k := by
  have plain : ∀ c ∈ cutName sip name, Plain c := cutName_plain plain
  cases found : reRegex text (headText sip ++ (cutName sip name ++ tailText .bare)) with
  | error e => exact .inl ⟨e, rfl, lookup_error bounded plain Tail.bare_spelled found⟩
  | ok captures =>
    obtain ⟨a, k, first, behind, goes, rfl⟩ := (lookup_ok bounded plain Tail.bare_spelled _).mp found
    obtain rfl : [] = behind := Except.ok.inj goes
    rw [List.append_nil]
    exact .inr ⟨a, k, rfl, first⟩

include some_

theorem search_value (sip : Bool) :
    (∃ e, reRegex text (headText sip ++ (name ++ tailText .value)) = .error e ∧
        ∀ a k, ¬ First sip .value text name a k) ∨
      ∃ a k gap gap' v, reRegex text (headText sip ++ (name ++ tailText .value)) =
          .ok (leadCaptures sip a (text.drop a) ++ [gap, gap', v]) ∧
        First sip .value text name a k ∧ valueAt text name.length k = some v := by
  cases found : reRegex text (headText sip ++ (name ++ tailText .value)) with
  | error e => exact .inl ⟨e, rfl, lookup_error bounded plain (fun _ => some_) found⟩
  | ok captures =>
    obtain ⟨a, k, first, behind, goes, rfl⟩ := (lookup_ok bounded plain (fun _ => some_) _).mp found
    obtain ⟨pl, value⟩ := Option.isSome_iff_exists.mp (first.1.goes rfl)
    obtain ⟨gap, gap', matched⟩ := value_matches (by rw [List.length_drop]; omega) value (k + name.length)
    obtain rfl := Except.ok.inj (matched.symm.trans goes)
    refine .inr ⟨a, k, gap, gap', _, rfl, first, ?_⟩
    rw [valueAt, value]
    rfl

theorem search_ends (sip : Bool) :
    (∃ e, reRegex text (headText sip ++ (name ++ tailText .ends)) = .error e ∧
        ∀ a k, ¬ First sip .ends text name a k) ∨
      ∃ a k, reRegex text (headText sip ++ (name ++ tailText .ends)) =
          .ok (leadCaptures sip a (text.drop a) ++
            [⟨k + name.length, (text.drop (k + name.length)).takeWhile fun c => decide (Ends c)⟩]) ∧
        First sip .ends text name a k := by
  cases found : reRegex text (headText sip ++ (name ++ tailText .ends)) with
  | error e => exact .inl ⟨e, rfl, lookup_error bounded plain (fun _ => some_) found⟩
  | ok captures =>
    obtain ⟨a, k, first, behind, goes, rfl⟩ := (lookup_ok bounded plain (fun _ => some_) _).mp found
    rw [tailItems, matchItems_class (caseless_of (by decide)) (by rw [List.length_drop]; omega)] at goes
    obtain rfl := Except.ok.inj goes
    exact .inr ⟨a, k, rfl, first⟩

theorem fmtParamGet_outcome (fits : Fits false .value name) :
    (fmtParamGet text name = .absent ∧ ∀ a k, First false .value text name a k → ¬ Fresh text a) ∨
      ∃ a k v, First false .value text name a k ∧ Fresh text a ∧ valueAt text name.length k = some v ∧
        fmtParamGet text name = .found v := by
  have expr : printed fmtHead name valueTail = _ := printed_fits fits
  rcases search_value bounded plain some_ false with ⟨e, found, none_⟩ | ⟨a, k, gap, gap', v, found, first, at_⟩
  · exact .inl ⟨by rw [fmtParamGet, expr, found], fun a k first => absurd first (none_ a k)⟩
  · have report : fmtParamGet text name =
        if ((text.drop a).takeWhile fun c => decide (c = chr ';')) ≠ [] ∨ a = 0 then .found v else .absent := by
      rw [fmtParamGet, expr, found]
      rfl
    rw [report]
    by_cases fresh : Fresh text a
    · exact .inr ⟨a, k, v, first, fresh, at_, if_pos ((fresh_iff a).mpr fresh)⟩
    · refine .inl ⟨if_neg fun is => fresh ((fresh_iff a).mp is), fun a' k' first' => ?_⟩
      rwa [← (first.unique first').1]

omit some_ in
theorem fmtParamGet_cut (cut : ¬ Fits false .value name) :
    (fmtParamGet text name = .absent ∧ ∀ a k, First false .bare text (cutName false name) a k → ¬ Fresh text a) ∨
      (fmtParamGet text name = .unset ∧ ∃ a k, First false .bare text (cutName false name) a k ∧ Fresh text a) := by
  have expr : printed fmtHead name valueTail = _ := printed_cut cut
  rcases search_cut bounded plain false with ⟨e, found, none_⟩ | ⟨a, k, found, first⟩
  · exact .inl ⟨by rw [fmtParamGet, expr, found], fun a k first => absurd first (none_ a k)⟩
  · have report : fmtParamGet text name =
        if ((text.drop a).takeWhile fun c => decide (c = chr ';')) ≠ [] ∨ a = 0 then .unset else .absent := by
      rw [fmtParamGet, expr, found]
      rfl
    rw [report]
    by_cases fresh : Fresh text a
    · exact .inr ⟨if_pos ((fresh_iff a).mpr fresh), a, k, first, fresh⟩
    · refine .inl ⟨if_neg fun is => fresh ((fresh_iff a).mp is), fun a' k' first' => ?_⟩
      rwa [← (first.unique first').1]

/-- An answer without a value, as a report. -/
def ofBool : Option Bool → Report
  | some true => .found ⟨0, []⟩
  | some false => .absent
  | none => .unset

theorem fmtParamExists_outcome (fits : Fits false .ends name) :
    (ofBool (fmtParamExists text name) = .absent ∧
        ∀ a k, First false .ends text name a k → ¬ (Fresh text a ∧ EndsAt text (k + name.length))) ∨
      ∃ a k v, First false .ends text name a k ∧ (Fresh text a ∧ EndsAt text (k + name.length)) ∧ v = ⟨0, []⟩ ∧
        ofBool (fmtParamExists text name) = .found v := by
  have expr : printed fmtHead name endsTail = _ := printed_fits fits
  rcases search_ends bounded plain some_ false with ⟨e, found, none_⟩ | ⟨a, k, found, first⟩
  · exact .inl ⟨by rw [fmtParamExists, expr, found]; rfl, fun a k first => absurd first (none_ a k)⟩
  · have report : fmtParamExists text name =
        if ((text.drop (k + name.length)).takeWhile fun c => decide (Ends c)) = [] ∧ k + name.length < text.length then
          some false
        else some (decide (((text.drop a).takeWhile fun c => decide (c = chr ';')) ≠ [] ∨ a = 0)) := by
      rw [fmtParamExists, expr, found]
      rfl
    rw [report]
    by_cases passes : Fresh text a ∧ EndsAt text (k + name.length)
    · refine .inr ⟨a, k, _, first, passes, rfl, ?_⟩
      rw [if_neg ((endsAt_iff _).mpr passes.2), decide_eq_true ((fresh_iff a).mpr passes.1)]
      rfl
    · refine .inl ⟨?_, fun a' k' first' => ?_⟩
      · split_ifs with goes
        · rfl
        · rw [decide_eq_false fun is => passes ⟨(fresh_iff a).mp is, (endsAt_iff _).mp goes⟩]
          rfl
      · obtain ⟨rfl, rfl⟩ := first.unique first'
        exact passes

omit some_ in
theorem fmtParamExists_cut (cut : ¬ Fits false .ends name) :
    (ofBool (fmtParamExists text name) = .absent ∧
        ∀ a k, First false .bare text (cutName false name) a k → ¬ True) ∨
      (ofBool (fmtParamExists text name) = .unset ∧ ∃ a k, First false .bare text (cutName false name) a k ∧ True) := by
  have expr : printed fmtHead name endsTail = _ := printed_cut cut
  rcases search_cut bounded plain false with ⟨e, found, none_⟩ | ⟨a, k, found, first⟩
  · exact .inl ⟨by rw [fmtParamExists, expr, found]; rfl, fun a k first => absurd first (none_ a k)⟩
  · exact .inr ⟨by rw [fmtParamExists, expr, found]; rfl, a, k, first, trivial⟩

theorem sipParamDecode_outcome (fits : Fits true .value name) :
    (sipParamDecode text name = .absent ∧ ∀ a k, First true .value text name a k → ¬ True) ∨
      ∃ a k v, First true .value text name a k ∧ True ∧ valueAt text name.length k = some v ∧
        sipParamDecode text name = .found v := by
  have expr : printed sipHead name valueTail = _ := printed_fits fits
  rcases search_value bounded plain some_ true with ⟨e, found, none_⟩ | ⟨a, k, gap, gap', v, found, first, at_⟩
  · exact .inl ⟨by rw [sipParamDecode, expr, found], fun a k first => absurd first (none_ a k)⟩
  · exact .inr ⟨a, k, v, first, trivial, at_, by rw [sipParamDecode, expr, found]; rfl⟩

omit some_ in
theorem sipParamDecode_cut (cut : ¬ Fits true .value name) :
    (sipParamDecode text name = .absent ∧ ∀ a k, First true .bare text (cutName true name) a k → ¬ True) ∨
      (sipParamDecode text name = .unset ∧ ∃ a k, First true .bare text (cutName true name) a k ∧ True) := by
  have expr : printed sipHead name valueTail = _ := printed_cut cut
  rcases search_cut bounded plain true with ⟨e, found, none_⟩ | ⟨a, k, found, first⟩
  · exact .inl ⟨by rw [sipParamDecode, expr, found], fun a k first => absurd first (none_ a k)⟩
  · exact .inr ⟨by rw [sipParamDecode, expr, found]; rfl, a, k, first, trivial⟩

theorem sipParamExists_outcome (fits : Fits true .ends name) :
    (sipParamExists text name = .absent ∧
        ∀ a k, First true .ends text name a k → ¬ EndsAt text (k + name.length)) ∨
      ∃ a k v, First true .ends text name a k ∧ EndsAt text (k + name.length) ∧ v = spanAt text name.length a k ∧
        sipParamExists text name = .found v := by
  have expr : printed sipHead name endsTail = _ := printed_fits fits
  rcases search_ends bounded plain some_ true with ⟨e, found, none_⟩ | ⟨a, k, found, first⟩
  · exact .inl ⟨by rw [sipParamExists, expr, found], fun a k first => absurd first (none_ a k)⟩
  · have report : sipParamExists text name =
        if ((text.drop (k + name.length)).takeWhile fun c => decide (Ends c)) = [] ∧ k + name.length < text.length then
          .absent
        else .found (spanAt text name.length a k) := by
      rw [sipParamExists, expr, found]
      rfl
    rw [report]
    by_cases ends : EndsAt text (k + name.length)
    · exact .inr ⟨a, k, _, first, ends, rfl, if_neg ((endsAt_iff _).mpr ends)⟩
    · refine .inl ⟨if_pos (not_not.mp fun goes => ends ((endsAt_iff _).mp goes)), fun a' k' first' => ?_⟩
      obtain ⟨rfl, rfl⟩ := first.unique first'
      exact ends

omit some_ in
theorem sipParamExists_cut (cut : ¬ Fits true .ends name) :
    (sipParamExists text name = .absent ∧ ∀ a k, First true .bare text (cutName true name) a k → ¬ True) ∨
      (sipParamExists text name = .unset ∧ ∃ a k, First true .bare text (cutName true name) a k ∧ True) := by
  have expr : printed sipHead name endsTail = _ := printed_cut cut
  rcases search_cut bounded plain true with ⟨e, found, none_⟩ | ⟨a, k, found, first⟩
  · exact .inl ⟨by rw [sipParamExists, expr, found], fun a k first => absurd first (none_ a k)⟩
  · exact .inr ⟨by rw [sipParamExists, expr, found]; rfl, a, k, first, trivial⟩

end

/-! Where the names of elements stand. -/

variable {sip : Bool} {j k k' : Nat}

theorem Named.spelled (named : Named sip text name j) : Starts name (text.drop (nameStart text j)) := by
  have same := named.name
  have length := congrArg List.length same
  rw [List.length_map, List.length_map] at length
  unfold elementName at same length
  rw [List.prefix_iff_eq_take.mp (List.takeWhile_prefix _), length] at same
  exact same

theorem Named.ends (named : Named sip text name j) : EndsAt text (nameStart text j + name.length) := by
  have length := congrArg List.length named.name
  rw [List.length_map, List.length_map] at length
  intro c at_
  have behind : ((text.drop (nameStart text j)).dropWhile fun c => !decide (Ends c)).head? = some c := by
    have split := List.takeWhile_append_dropWhile (p := fun c => !decide (Ends c)) (l := text.drop (nameStart text j))
    rw [← at_, ← List.head?_drop, ← List.drop_drop]
    conv_rhs => rw [← split]
    unfold elementName at length
    rw [← length, List.drop_left]
  have stops := List.head?_dropWhile_not (fun c => !decide (Ends c)) (text.drop (nameStart text j))
  rw [behind] at stops
  simpa using stops

/-- Between a name and its value are blanks, one equals sign, and perhaps a quote. -/
theorem value_between {p : List Byte} {pl : Pl} (value : valueBehind p = some pl) :
    0 < pl.off ∧ ∀ c ∈ p.take pl.off, Ends c ∨ c = chr '"' := by
  unfold valueBehind at value
  dsimp only at value
  split at value
  · contradiction
  · rename_i b q behind
    split_ifs at value with other empty
    obtain rfl := Option.some.inj value
    generalize gap_ : (p.takeWhile fun c => decide (White c)).length = gap at *
    generalize gap'_ : (q.takeWhile fun c => decide (White c)).length = gap' at *
    have front (m : Nat) : p.take (gap + 1 + m) = p.take gap ++ b :: q.take m := by
      rw [Nat.add_assoc, List.take_add, behind, Nat.add_comm, List.take_succ_cons]
    have blanks : ∀ c ∈ p.take (gap + 1 + gap'), Ends c := by
      intro c member
      rw [front, not_not.mp other] at member
      rcases List.mem_append.mp member with member | member
      · exact whites_end c (gap_ ▸ member)
      · rcases List.mem_cons.mp member with rfl | member
        · decide
        · exact whites_end c (gap'_ ▸ member)
    unfold Regex.stripQuotes
    split_ifs with quoted
    · refine ⟨Nat.succ_pos _, fun c member => ?_⟩
      rw [List.take_add] at member
      rcases List.mem_append.mp member with member | member
      · exact .inl (blanks c member)
      · right
        have same : p.drop (gap + 1 + gap') = q.drop gap' := by
          rw [Nat.add_assoc, ← List.drop_drop, behind, Nat.add_comm, List.drop_succ_cons]
        have first := quoted.2.1
        dsimp only at member first
        rw [same] at member
        cases r : q.drop gap' with
        | nil =>
          rw [r] at member
          exact absurd member List.not_mem_nil
        | cons x r' =>
          rw [r] at member first
          rw [List.head?_take] at first
          split_ifs at first
          rw [List.mem_singleton.mp member]
          exact Option.some.inj first
    · exact ⟨by dsimp only; omega, fun c member => .inl (blanks c member)⟩

theorem valueAt_inj (plain : ∀ c ∈ name, Plain c) (some_ : name ≠ []) {v : Pl} (spelled : Starts name (text.drop k))
    (spelled' : Starts name (text.drop k')) (at_ : valueAt text name.length k = some v)
    (at_' : valueAt text name.length k' = some v) : k = k' := by
  have apart {k k' : Nat} (spelled' : Starts name (text.drop k')) (at_ : valueAt text name.length k = some v)
      (at_' : valueAt text name.length k' = some v) : ¬ k < k' := by
    intro less
    obtain ⟨pl, value, rfl⟩ := Option.map_eq_some_iff.mp at_
    obtain ⟨pl', value', same⟩ := Option.map_eq_some_iff.mp at_'
    obtain ⟨further, between⟩ := value_between value
    have offs : k' + name.length + pl'.off = k + name.length + pl.off := congrArg Pl.off same
    have between' {i : Nat} {c : Byte} (from_ : k + name.length ≤ i) (to_ : i < k + name.length + pl.off)
        (here : text[i]? = some c) : Ends c ∨ c = chr '"' := by
      apply between
      apply List.mem_of_getElem? (i := i - (k + name.length))
      rw [List.getElem?_take, if_pos (by omega), List.getElem?_drop, ← here]
      congr 1
      omega
    -- the later name would begin in front of the value, or go on where the earlier one ends
    by_cases inFront : k + name.length ≤ k'
    · have some_ := List.length_pos_iff.mpr some_
      obtain ⟨c, here, goes, quote⟩ := spelled_plain plain spelled' some_
      rcases between' inFront (by omega) here with ends | quoted
      · exact goes ends
      · exact quote quoted
    · obtain ⟨c, here, goes, quote⟩ := spelled_plain (i := k + name.length - k') plain spelled' (by omega)
      rw [show k' + (k + name.length - k') = k + name.length by omega] at here
      rcases between' (Nat.le_refl _) (by omega) here with ends | quoted
      · exact goes ends
      · exact quote quoted
  exact Nat.le_antisymm (Nat.le_of_not_lt (apart spelled at_' at_)) (Nat.le_of_not_lt (apart spelled' at_ at_'))

/-! When what they say is right. -/

/-- The exact condition on the text and the name: where the pattern has room for all of it, that the first place which
passes what the function asks of it is that of an element, and that there is such a place where an element has the
name; where the pattern has been cut, that neither is there a place nor has an element the name. -/
def Condition (sip : Bool) (tail : Tail) (text name : List Byte) (pass pass' at_ : Nat → Nat → Prop) : Prop :=
  if Fits sip tail name then
    (∀ a k, First sip tail text name a k → pass a k → at_ a k) ∧
      ((∃ j, Named sip text name j) → ∃ a k, First sip tail text name a k ∧ pass a k)
  else
    (∀ a k, First sip .bare text (cutName sip name) a k → ¬ pass' a k) ∧ ∀ j, ¬ Named sip text name j

/-- The value of the element that begins at `j`. -/
def HasValue (text name : List Byte) (j : Nat) (v : Pl) : Prop :=
  valueAt text name.length (nameStart text j) = some v

/-- The name of an element stands at this position. -/
def NamedAt (sip : Bool) (text name : List Byte) (k : Nat) : Prop := ∃ j, Named sip text name j ∧ nameStart text j = k

def FmtExistsRight (text name : List Byte) : Prop :=
  Right (ofBool (fmtParamExists text name)) (Named false text name) fun _ v => v = ⟨0, []⟩

def FmtExistsCondition (text name : List Byte) : Prop :=
  Condition false .ends text name (fun a k => Fresh text a ∧ EndsAt text (k + name.length)) (fun _ _ => True)
    fun _ _ => ∃ j, Named false text name j

def FmtGetRight (text name : List Byte) : Prop :=
  Right (fmtParamGet text name) (Named false text name) (HasValue text name)

def FmtGetCondition (text name : List Byte) : Prop :=
  Condition false .value text name (fun a _ => Fresh text a) (fun a _ => Fresh text a)
    fun _ k => NamedAt false text name k

/-- `sip_param_exists` gives the stretch of an element from its semicolon to the end of its name. -/
def SipExistsRight (text name : List Byte) : Prop :=
  Right (sipParamExists text name) (Named true text name) fun j v =>
    v = spanAt text name.length (j - 1) (nameStart text j)

def SipExistsCondition (text name : List Byte) : Prop :=
  Condition true .ends text name (fun _ k => EndsAt text (k + name.length)) (fun _ _ => True)
    fun a _ => Named true text name (a + 1)

def SipDecodeRight (text name : List Byte) : Prop :=
  Right (sipParamDecode text name) (Named true text name) (HasValue text name)

def SipDecodeCondition (text name : List Byte) : Prop :=
  Condition true .value text name (fun _ _ => True) (fun _ _ => True) fun _ k => NamedAt true text name k

theorem meets_value (plain : ∀ c ∈ name, Plain c) (some_ : name ≠ []) {tail : Tail} {a k : Nat} {v : Pl}
    (first : First sip tail text name a k) (at_ : valueAt text name.length k = some v) :
    (∃ j, Named sip text name j ∧ HasValue text name j v) ↔ NamedAt sip text name k := by
  constructor
  · rintro ⟨j, named, value⟩
    exact ⟨j, named, valueAt_inj plain some_ named.spelled first.1.spelled value at_⟩
  · rintro ⟨j, named, rfl⟩
    exact ⟨j, named, at_⟩

/-- The blanks behind the semicolon of an attempt are those in front of the element's name. -/
theorem nameStart_lead {tail : Tail} {a k : Nat} (place : Place true tail text name a k) : nameStart text (a + 1) = k := by
  obtain ⟨n, leads, rfl⟩ := place.lead
  have here := List.drop_eq_getElem_cons place.inside
  unfold lead at leads
  rw [if_pos rfl, here] at leads
  dsimp only at leads
  split_ifs at leads
  obtain rfl := Option.some.inj leads
  rw [nameStart, Nat.add_assoc]

theorem meets_span {tail : Tail} {a k : Nat} {v : Pl} (first : First true tail text name a k)
    (span : v = spanAt text name.length a k) :
    (∃ j, Named true text name j ∧ v = spanAt text name.length (j - 1) (nameStart text j)) ↔
      Named true text name (a + 1) := by
  constructor
  · rintro ⟨j, named, same⟩
    have offs : a = j - 1 := congrArg Pl.off (span.symm.trans same)
    rcases named.begins with ⟨other, -⟩ | ⟨i, rfl, -⟩
    · contradiction
    · rw [offs]
      exact named
  · intro named
    exact ⟨a + 1, named, by rw [span, nameStart_lead first.1]; rfl⟩

end Baresip.Re.Lookup
