import Baresip.Re.Ucmp

set_option linter.dupNamespace false

namespace Baresip.Re.Ucmp

open Library (strung strung_nil strung_cons strung_head)
open Lookup (Starts)

variable {x y n r : List Byte} {xs : List (List Byte)}

/-! The walks. -/

variable {ah : List Byte → List Byte → Except Fault Unit}

theorem paramWalk_parses : Regex.Parses (ascii ";[^;=]+[=]*[^;]*")
    [.lit (chr ';'), .cls true false (singles (ascii ";=")) 1 Regex.uint32Max,
      .cls false false (singles (ascii "=")) 0 Regex.uint32Max,
      .cls true false (singles (ascii ";")) 0 Regex.uint32Max] := by
  have name : Regex.Opens (ascii "[^;=]+") true false (singles (ascii ";=")) 1 Regex.uint32Max :=
    .ofList fun _ _ _ _ _ _ _ _ _ => rfl
  have equals : Regex.Opens (ascii "[=]*") false false (singles (ascii "=")) 0 Regex.uint32Max :=
    .ofList fun _ _ _ _ _ _ _ _ _ => rfl
  have value : Regex.Opens (ascii "[^;]*") true false (singles (ascii ";")) 0 Regex.uint32Max :=
    .ofList fun _ _ _ _ _ _ _ _ _ => rfl
  exact .ofList ((((Regex.Parses.nil.cls value).cls equals).cls name).lit (by decide))

theorem headerWalk_parses : Regex.Parses (ascii "[?&]1[^=]+=[^&]+")
    [.cls false false (singles (ascii "?&")) 1 1, .cls true false (singles (ascii "=")) 1 Regex.uint32Max,
      .lit (chr '='), .cls true false (singles (ascii "&")) 1 Regex.uint32Max] := by
  have sep : Regex.Opens (ascii "[?&]1") false false (singles (ascii "?&")) 1 1 := .ofList fun _ _ _ _ _ _ _ _ _ => rfl
  have name : Regex.Opens (ascii "[^=]+") true false (singles (ascii "=")) 1 Regex.uint32Max :=
    .ofList fun _ _ _ _ _ _ _ _ _ => rfl
  have value : Regex.Opens (ascii "[^&]+") true false (singles (ascii "&")) 1 Regex.uint32Max :=
    .ofList fun _ _ _ _ _ _ _ _ _ => rfl
  exact .ofList ((((Regex.Parses.nil.cls value).lit (by decide)).cls name).cls sep)

/-- The equal signs behind the name of a parameter. -/
def equalSigns (x : List Byte) : List Byte := (x.dropWhile (· ≠ chr '=')).takeWhile (· = chr '=')

theorem param_length (x : List Byte) :
    1 + (nameOf x).length + (equalSigns x).length + (paramValue x).length = x.length + 1 := by
  have whole := congrArg List.length (name_append x)
  have behind := congrArg List.length (List.takeWhile_append_dropWhile (p := fun c => decide (c = chr '='))
    (l := x.dropWhile (· ≠ chr '=')))
  rw [List.length_append] at whole behind
  rw [equalSigns, paramValue]
  omega

theorem name_stops (stops : ∀ c ∈ r.head?, c = chr ';') :
    ∀ c ∈ (x.dropWhile (· ≠ chr '=') ++ r).head?, c = chr '=' ∨ c = chr ';' := by
  intro c first
  have next := List.head?_dropWhile_not (fun c => decide (c ≠ chr '=')) x
  cases behind : x.dropWhile fun c => decide (c ≠ chr '=') with
  | nil =>
    rw [behind] at first
    exact .inr (stops c first)
  | cons b q =>
    rw [behind] at first next
    obtain rfl := Option.some.inj first
    exact .inl (not_not.mp (of_decide_eq_false next))

theorem paramWalk_takes (named : nameOf x ≠ []) (without : chr ';' ∉ x) (stops : ∀ c ∈ r.head?, c = chr ';')
    (fits : x.length ≤ Regex.uint32Max) :
    Takes [.lit (chr ';'), .cls true false (singles (ascii ";=")) 1 Regex.uint32Max,
      .cls false false (singles (ascii "=")) 0 Regex.uint32Max,
      .cls true false (singles (ascii ";")) 0 Regex.uint32Max] (chr ';' :: (x ++ r))
      [nameOf x, equalSigns x, paramValue x] := by
  have name (c : Byte) : exprMatch (singles (ascii ";=")) (tolower c) true = decide (c ≠ chr ';' ∧ c ≠ chr '=') := by
    rw [exprMatch_singles (caseless_of (by decide))]
    show (true ^^ [chr ';', chr '='].contains c) = _
    simp
  have lengths := param_length x
  have behind := behind_takes (y := x.dropWhile (· ≠ chr '='))
    (fun member => without ((List.dropWhile_suffix _).subset member)) stops
    (Nat.le_trans (List.dropWhile_suffix _).length_le fits)
  have inside : ∀ c ∈ nameOf x, exprMatch (singles (ascii ";=")) (tolower c) true = true := by
    intro c member
    rw [name, decide_eq_true_iff]
    constructor
    · rintro rfl
      exact without (name_within member)
    · rintro rfl
      exact name_plain member
  have ends : ∀ c ∈ (x.dropWhile (· ≠ chr '=') ++ r).head?,
      exprMatch (singles (ascii ";=")) (tolower c) true = false := by
    intro c first
    rw [name, decide_eq_false_iff_not]
    rintro ⟨semi, equals⟩
    exact (name_stops stops c first).elim equals semi
  have all := behind.cls (by omega) (List.length_pos_iff.mpr named) inside ends
  rw [← List.append_assoc, name_append] at all
  exact all.lit (chr ';')

theorem captures_three {captures : List Pl} {a b c : List Byte} (vals : captures.map Pl.val = [a, b, c]) :
    ∃ p q r : Pl, captures = [p, q, r] ∧ p.val = a ∧ q.val = b ∧ r.val = c := by
  match captures, vals with
  | [p, q, r], vals =>
    simp only [List.map_cons, List.map_nil, List.cons.injEq, and_true] at vals
    exact ⟨p, q, r, rfl, vals⟩

theorem uriParamsApply_strung (walked : ∀ x ∈ xs, chr ';' ∉ x ∧ nameOf x ≠ [])
    (fits : (strung (chr ';') (chr ';') xs).length ≤ Regex.uint32Max) :
    uriParamsApply ah (strung (chr ';') (chr ';') xs) = xs.forM fun x => ah (nameOf x) (paramValue x) := by
  induction xs with
  | nil => rw [uriParamsApply, strung_nil, dif_pos rfl]; rfl
  | cons x xs ih =>
    obtain ⟨⟨without, named⟩, others⟩ := List.forall_mem_cons.mp walked
    rw [strung_cons, List.length_cons, List.length_append] at fits
    obtain ⟨captures, found, vals⟩ := (paramWalk_takes named without (r := strung (chr ';') (chr ';') xs) strung_head
      (by omega)).reRegex paramWalk_parses (by decide) (List.cons_ne_nil _ _)
    obtain ⟨pname, eq, pvalue, rfl, name, signs, value⟩ := captures_three vals
    rw [strung_cons, uriParamsApply, dif_neg (List.cons_ne_nil _ _), found]
    dsimp only
    rw [name, signs, value, param_length, List.drop_succ_cons, List.drop_left, ih others (by omega)]
    show _ = (ah (nameOf x) (paramValue x) >>= fun _ => xs.forM fun x => ah (nameOf x) (paramValue x))
    cases ah (nameOf x) (paramValue x) <;> rfl

theorem header_length (value : headerValue x ≠ []) :
    1 + (nameOf x).length + 1 + (headerValue x).length = x.length + 1 := by
  have whole := congrArg List.length (name_append x)
  have more := List.length_pos_iff.mpr value
  rw [headerValue, List.length_tail] at more ⊢
  rw [List.length_append] at whole
  omega

/-- A header is its name, an equals sign and its value. -/
theorem header_whole (value : headerValue x ≠ []) : nameOf x ++ chr '=' :: headerValue x = x := by
  have next := List.head?_dropWhile_not (fun c => decide (c ≠ chr '=')) x
  have whole := name_append x
  unfold headerValue at *
  cases behind : x.dropWhile fun c => decide (c ≠ chr '=') with
  | nil =>
    rw [behind] at value
    contradiction
  | cons c q =>
    rw [behind] at next whole
    rw [List.tail_cons, ← show c = chr '=' from not_not.mp (of_decide_eq_false next)]
    exact whole

theorem headerWalk_takes {c : Byte} (sep : c = chr '?' ∨ c = chr '&') (named : nameOf x ≠ []) (value : headerValue x ≠ [])
    (without : chr '&' ∉ x) (stops : ∀ c ∈ r.head?, c = chr '&') (fits : x.length ≤ Regex.uint32Max) :
    Takes [.cls false false (singles (ascii "?&")) 1 1, .cls true false (singles (ascii "=")) 1 Regex.uint32Max,
      .lit (chr '='), .cls true false (singles (ascii "&")) 1 Regex.uint32Max] (c :: (x ++ r))
      [[c], nameOf x, headerValue x] := by
  have equals (c : Byte) : exprMatch (singles (ascii "=")) (tolower c) true = decide (c ≠ chr '=') := by
    rw [exprMatch_singles (caseless_of (by decide))]
    show (true ^^ [chr '='].contains c) = _
    simp
  have lengths := header_length value
  have behind : Takes [.cls true false (singles (ascii "&")) 1 Regex.uint32Max] (headerValue x ++ r) [headerValue x] := by
    apply (Takes.nil r).cls (by omega) (List.length_pos_iff.mpr value)
    · intro c member
      rw [amp_class, decide_eq_true_iff]
      rintro rfl
      exact without ((List.dropWhile_suffix _).subset ((List.tail_suffix _).subset member))
    · intro c first
      rw [amp_class, stops c first]
      decide
  have inside : ∀ c ∈ nameOf x, exprMatch (singles (ascii "=")) (tolower c) true = true := by
    intro c member
    rw [equals, decide_eq_true_iff]
    rintro rfl
    exact name_plain member
  have ends : ∀ c ∈ (chr '=' :: (headerValue x ++ r)).head?, exprMatch (singles (ascii "=")) (tolower c) true = false := by
    rintro c ⟨⟩
    rw [equals]
    decide
  have all := (behind.lit (chr '=')).cls (by omega) (List.length_pos_iff.mpr named) inside ends
  rw [← List.cons_append, ← List.append_assoc, header_whole value] at all
  intro off
  obtain ⟨captures, taken, vals⟩ := all (off + 1)
  rw [matchItems_one, sep_class, decide_eq_true sep, if_pos rfl, taken]
  exact ⟨_, rfl, congrArg ([c] :: ·) vals⟩

theorem uriHeadersApply_strung {sep : Byte} (sep_ : sep = chr '?' ∨ sep = chr '&')
    (walked : ∀ x ∈ xs, chr '&' ∉ x ∧ nameOf x ≠ [] ∧ headerValue x ≠ [])
    (fits : (strung sep (chr '&') xs).length ≤ Regex.uint32Max) :
    uriHeadersApply ah (strung sep (chr '&') xs) = xs.forM fun x => ah (nameOf x) (headerValue x) := by
  induction xs generalizing sep with
  | nil => rw [uriHeadersApply, strung_nil, dif_pos rfl]; rfl
  | cons x xs ih =>
    obtain ⟨⟨without, named, valued⟩, others⟩ := List.forall_mem_cons.mp walked
    rw [strung_cons, List.length_cons, List.length_append] at fits
    obtain ⟨captures, found, vals⟩ := (headerWalk_takes sep_ named valued without (r := strung (chr '&') (chr '&') xs)
      strung_head (by omega)).reRegex headerWalk_parses (by decide) (List.cons_ne_nil _ _)
    obtain ⟨mark, hname, hvalue, rfl, one, name, value⟩ := captures_three vals
    rw [strung_cons, uriHeadersApply, dif_neg (List.cons_ne_nil _ _), found]
    dsimp only
    rw [one, name, value, List.length_singleton, header_length valued, List.drop_succ_cons, List.drop_left,
      ih (.inr rfl) others (by omega)]
    show _ = (ah (nameOf x) (headerValue x) >>= fun _ => xs.forM fun x => ah (nameOf x) (headerValue x))
    cases ah (nameOf x) (headerValue x) <;> rfl


/-! The handlers at the elements of another URI. -/

variable {a b u v : Uri (List Byte)}

theorem cstr_tolower (x : List Byte) : (cstr x).map tolower = (x.map tolower).takeWhile (· != 0) := by
  have zero (c : Byte) : (tolower c != 0) = (c != 0) := by
    have fixed := tolower_fixed (b := 0) (by decide) (by decide) c
    rw [Bool.eq_iff_iff, bne_iff_ne, bne_iff_ne, Ne, fixed]
  rw [cstr, List.takeWhile_map]
  congr 2
  funext c
  exact (zero c).symm

theorem plCasecmp_alike (alike : Alike x y) : plCasecmp x y = true := by
  rw [plCasecmp, Bool.and_eq_true, beq_iff_eq, beq_iff_eq, cstr_tolower, cstr_tolower, alike]
  exact ⟨alike.length, rfl⟩

theorem plCasecmp_comm (x y : List Byte) : plCasecmp x y = plCasecmp y x := by
  rw [plCasecmp, plCasecmp, Bool.beq_comm, Bool.beq_comm (a := (cstr x).map tolower)]

theorem params_row (walked : Walked v) : strung (chr ';') (chr ';') (paramsOf v) = v.params :=
  Library.strung_unstrung walked.params

theorem headers_row (walked : Walked v) : strung (chr '?') (chr '&') (headersOf v) = v.headers :=
  Library.strung_unstrung walked.headers

theorem params_without : ∀ x ∈ paramsOf v, chr ';' ∉ x := Library.unstrung_without

theorem headers_without : ∀ x ∈ headersOf v, chr '&' ∉ x := Library.unstrung_without

theorem paramResult_answers (x : List Byte) (y : Option (List Byte)) : paramResult x y ≠ .error .undefined := by
  cases y with
  | none =>
    rw [paramResult]
    split_ifs <;> simp
  | some y =>
    rw [paramResult]
    split_ifs <;> simp

theorem paramHandler_eq (walked : Walked v) (finds : Finds u v) (member : x ∈ paramsOf u) :
    paramHandler v.params (nameOf x) (paramValue x) =
      paramResult x ((paramsOf v).find? fun y => decide (Starts (nameOf x) y)) := by
  obtain ⟨plain, short⟩ := finds.paramPattern x member
  have within : chr ';' ∉ nameOf x := fun inside => params_without x member (name_within inside)
  unfold paramHandler
  rw [← params_row walked]
  cases found : (paramsOf v).find? fun y => decide (Starts (nameOf x) y) with
  | none =>
    obtain ⟨e, missing⟩ := uriParamGet_missing plain short within params_without found
    rw [missing]
    rfl
  | some y =>
    have same := (finds.param x member y found).1.length
    have value : (y.drop (nameOf x).length).dropWhile (· = chr '=') = paramValue y := by
      rw [same, drop_name, paramValue]
    rw [uriParamGet_found plain short within params_without (by rw [params_row walked]; exact walked.fits.1) found, value]
    rfl

/-- What the first header of the name makes of it. -/
def headerResult (e : Errno) (x : List Byte) : Option (List Byte) → Except Fault Unit
  | some y => if plCasecmp (headerValue x) (headerValue y) then .ok () else .error (.err .EINVAL)
  | none => .error (.err e)

theorem headerResult_answers (e : Errno) (x : List Byte) (y : Option (List Byte)) :
    headerResult e x y ≠ .error .undefined := by
  cases y with
  | none => simp [headerResult]
  | some y =>
    rw [headerResult]
    split_ifs <;> simp

theorem headerHandler_eq (walked : Walked v) (finds : Finds u v) (member : x ∈ headersOf u) :
    ∃ e, headerHandler v.headers (nameOf x) (headerValue x) =
      headerResult e x ((headersOf v).find? fun y => decide (Alike (nameOf x) (nameOf y))) := by
  obtain ⟨plain, short⟩ := finds.headerPattern x member
  have within : chr '&' ∉ nameOf x ∧ chr '=' ∉ nameOf x :=
    ⟨fun inside => headers_without x member (name_within inside), name_plain⟩
  have without : ∀ y ∈ headersOf v, chr '&' ∉ y ∧ headerValue y ≠ [] :=
    fun y inside => ⟨headers_without y inside, (walked.header y inside).2⟩
  unfold headerHandler
  rw [← headers_row walked]
  cases found : (headersOf v).find? fun y => decide (Alike (nameOf x) (nameOf y)) with
  | none =>
    obtain ⟨e, missing⟩ := uriHeaderGet_missing plain short within without (finds.inner x member) found
    exact ⟨e, by rw [missing]; rfl⟩
  | some y =>
    have fits : (strung (chr '?') (chr '&') (headersOf v)).length ≤ Regex.uint32Max := by
      rw [headers_row walked]
      exact walked.fits.2
    exact ⟨.EINVAL, by rw [uriHeaderGet_found plain short within without fits (finds.inner x member) found]; rfl⟩

/-! Both walks over two URIs. -/

theorem forM_ok {f : List Byte → Except Fault Unit} : xs.forM f = .ok () ↔ ∀ x ∈ xs, f x = .ok () := by
  induction xs with
  | nil => exact ⟨fun _ => nofun, fun _ => rfl⟩
  | cons x xs ih =>
    rw [List.forall_mem_cons, ← ih]
    show (f x >>= fun _ => xs.forM f) = .ok () ↔ _
    cases f x with
    | ok u => exact ⟨fun r => ⟨rfl, r⟩, And.right⟩
    | error e => exact ⟨nofun, fun both => nomatch both.1⟩

theorem forM_answers {f : List Byte → Except Fault Unit} (each : ∀ x ∈ xs, f x ≠ .error .undefined) :
    xs.forM f ≠ .error .undefined := by
  induction xs with
  | nil => exact nofun
  | cons x xs ih =>
    rw [List.forall_mem_cons] at each
    show (f x >>= fun _ => xs.forM f) ≠ _
    cases result : f x with
    | ok u => exact ih each.2
    | error e =>
      rw [result] at each
      exact each.1

def Accepts (u v : Uri (List Byte)) : Prop :=
  ∀ x ∈ paramsOf u, paramHandler v.params (nameOf x) (paramValue x) = .ok ()

def AcceptsHeaders (u v : Uri (List Byte)) : Prop :=
  ∀ x ∈ headersOf u, headerHandler v.headers (nameOf x) (headerValue x) = .ok ()

theorem params_walk (walked : Walked u) (walked' : Walked v) (finds : Finds u v) :
    (uriParamsApply (paramHandler v.params) u.params = .ok () ↔ Accepts u v) ∧
      uriParamsApply (paramHandler v.params) u.params ≠ .error .undefined := by
  have row := params_row walked
  have walk : uriParamsApply (paramHandler v.params) (strung (chr ';') (chr ';') (paramsOf u)) = _ :=
    uriParamsApply_strung (fun x member => ⟨params_without x member, walked.param x member⟩) (by rw [row]; exact walked.fits.1)
  rw [row] at walk
  rw [walk]
  refine ⟨forM_ok, forM_answers fun x member => ?_⟩
  rw [paramHandler_eq walked' finds member]
  exact paramResult_answers x _

theorem headers_walk (walked : Walked u) (walked' : Walked v) (finds : Finds u v) :
    (uriHeadersApply (headerHandler v.headers) u.headers = .ok () ↔ AcceptsHeaders u v) ∧
      uriHeadersApply (headerHandler v.headers) u.headers ≠ .error .undefined := by
  have row := headers_row walked
  have walk : uriHeadersApply (headerHandler v.headers) (strung (chr '?') (chr '&') (headersOf u)) = _ :=
    uriHeadersApply_strung (.inl rfl) (fun x member => ⟨headers_without x member, walked.header x member⟩) (by rw [row]; exact walked.fits.2)
  rw [row] at walk
  rw [walk]
  refine ⟨forM_ok, forM_answers fun x member => ?_⟩
  obtain ⟨e, result⟩ := headerHandler_eq walked' finds member
  rw [result]
  exact headerResult_answers e x _

theorem accepts_iff (walked : Walked v) (finds : Finds u v) (member : x ∈ paramsOf u) :
    paramHandler v.params (nameOf x) (paramValue x) = .ok () ↔
      match (paramsOf v).find? fun y => decide (Starts (nameOf x) y) with
      | some y => plCasecmp (paramValue x) (paramValue y) = true
      | none => nameOf x ∉ inBoth := by
  rw [paramHandler_eq walked finds member]
  cases (paramsOf v).find? fun y => decide (Starts (nameOf x) y) <;> simp [paramResult]

theorem acceptsHeaders_iff (walked : Walked v) (finds : Finds u v) (member : x ∈ headersOf u) :
    headerHandler v.headers (nameOf x) (headerValue x) = .ok () ↔
      ∃ y ∈ (headersOf v).find? fun y => decide (Alike (nameOf x) (nameOf y)),
        plCasecmp (headerValue x) (headerValue y) = true := by
  obtain ⟨e, result⟩ := headerHandler_eq walked finds member
  rw [result]
  cases (headersOf v).find? fun y => decide (Alike (nameOf x) (nameOf y)) <;> simp [headerResult]

theorem find_named (found : xs.find? (fun y => decide (Alike n (nameOf y))) = some y) : y ∈ xs ∧ Alike n (nameOf y) := by
  have alike := List.find?_some found
  rw [decide_eq_true_iff] at alike
  exact ⟨List.mem_of_find?_eq_some found, alike⟩

/-- A parameter with the name is found. -/
theorem find_starts (member : y ∈ paramsOf v) (alike : Alike n (nameOf y)) :
    ∃ y', (paramsOf v).find? (fun y => decide (Starts n y)) = some y' := by
  rw [← Option.isSome_iff_exists, List.find?_isSome]
  exact ⟨y, member, decide_eq_true alike.starts⟩

theorem accepts_values (walked : Walked v) (finds : Finds u v) (single : Single v) (accepts : Accepts u v) :
    ∀ x ∈ paramsOf u, ∀ y ∈ paramsOf v, Alike (nameOf x) (nameOf y) → Alike (paramValue x) (paramValue y) := by
  intro x member y member' alike
  obtain ⟨y', found⟩ := find_starts member' alike
  obtain ⟨named, settled⟩ := finds.param x member y' found
  have ok := (accepts_iff walked finds member).mp (accepts x member)
  rw [found] at ok
  exact (settled ok).trans (single.params y' (List.mem_of_find?_eq_some found) y member' (named.symm.trans alike))

theorem accepts_both (walked : Walked v) (finds : Finds u v) (accepts : Accepts u v) :
    ∀ s ∈ inBoth, (∃ x ∈ paramsOf u, Alike (nameOf x) s) → ∃ y ∈ paramsOf v, Alike (nameOf y) s := by
  rintro s special ⟨x, member, alike⟩
  rcases finds.both x member s special alike with rfl | there
  · have ok := (accepts_iff walked finds member).mp (accepts x member)
    cases found : (paramsOf v).find? fun y => decide (Starts (nameOf x) y) with
    | none =>
      rw [found] at ok
      exact absurd special ok
    | some y => exact ⟨y, List.mem_of_find?_eq_some found, (finds.param x member y found).1.symm⟩
  · exact there

theorem accepts_of (walked : Walked v) (finds : Finds u v)
    (values : ∀ x ∈ paramsOf u, ∀ y ∈ paramsOf v, Alike (nameOf x) (nameOf y) → Alike (paramValue x) (paramValue y))
    (both : ∀ s ∈ inBoth, (∃ x ∈ paramsOf u, Alike (nameOf x) s) → ∃ y ∈ paramsOf v, Alike (nameOf y) s) :
    Accepts u v := by
  intro x member
  rw [accepts_iff walked finds member]
  cases found : (paramsOf v).find? fun y => decide (Starts (nameOf x) y) with
  | none =>
    intro special
    obtain ⟨y, member', alike⟩ := both _ special ⟨x, member, rfl⟩
    obtain ⟨y', there⟩ := find_starts member' alike.symm
    rw [found] at there
    contradiction
  | some y =>
    exact plCasecmp_alike (values x member y (List.mem_of_find?_eq_some found) (finds.param x member y found).1)

theorem headers_there (walked : Walked v) (finds : Finds u v) (accepts : AcceptsHeaders u v) :
    ∀ x ∈ headersOf u, ∃ y ∈ headersOf v, Alike (nameOf x) (nameOf y) ∧ Alike (headerValue x) (headerValue y) := by
  intro x member
  obtain ⟨y, found, ok⟩ := (acceptsHeaders_iff walked finds member).mp (accepts x member)
  obtain ⟨there, alike⟩ := find_named found
  exact ⟨y, there, alike, finds.header x member y found ok⟩

theorem acceptsHeaders_of (walked : Walked v) (finds : Finds u v)
    (there : ∀ x ∈ headersOf u, ∃ y ∈ headersOf v, Alike (nameOf x) (nameOf y))
    (values : ∀ x ∈ headersOf u, ∀ y ∈ headersOf v, Alike (nameOf x) (nameOf y) → Alike (headerValue x) (headerValue y)) :
    AcceptsHeaders u v := by
  intro x member
  obtain ⟨y, member', alike⟩ := there x member
  have found : ((headersOf v).find? fun y => decide (Alike (nameOf x) (nameOf y))).isSome = true := by
    rw [List.find?_isSome]
    exact ⟨y, member', decide_eq_true alike⟩
  obtain ⟨y', found⟩ := Option.isSome_iff_exists.mp found
  obtain ⟨inside, named⟩ := find_named found
  rw [acceptsHeaders_iff walked finds member]
  exact ⟨y', found, plCasecmp_alike (values x member y' inside named)⟩

/-! The comparison. -/

/-- `inet_pton` reads the digits of an address in either case. -/
structure Inet.Caseless (inet : Inet) : Prop where
  pton4 : ∀ x y, Alike x y → inet.pton4 x = inet.pton4 y
  pton6 : ∀ x y, Alike x y → inet.pton6 x = inet.pton6 y

variable {inet : Inet}

theorem af_alike (caseless : inet.Caseless) (alike : Alike x y) : inet.af x = inet.af y := by
  have buf : Alike (cstr (x.take 63)) (cstr (y.take 63)) := by
    rw [Alike, cstr_tolower, cstr_tolower, List.map_take, List.map_take, alike]
  unfold Inet.af
  dsimp only
  rw [caseless.pton4 _ _ buf, caseless.pton6 _ _ buf]

theorem answer_then {w w' : Except Fault Unit} (answers : w ≠ .error .undefined) :
    (answer (w >>= fun _ => w') = some true ↔ w = .ok () ∧ answer w' = some true) ∧
      (answer w' ≠ none → answer (w >>= fun _ => w') ≠ none) := by
  cases w with
  | ok u => exact ⟨⟨fun r => ⟨rfl, r⟩, And.right⟩, id⟩
  | error fault =>
    cases fault with
    | err e => exact ⟨⟨nofun, fun both => nomatch both.1⟩, fun _ => nofun⟩
    | undefined => contradiction

/-- The two URIs can be walked, and each is looked up in the other. -/
structure Readable (a b : Uri (List Byte)) : Prop where
  left : Walked a
  right : Walked b
  finds : Finds a b
  finds' : Finds b a

theorem Readable.symm (readable : Readable a b) : Readable b a :=
  ⟨readable.right, readable.left, readable.finds', readable.finds⟩

theorem uriCmp_walks (caseless : inet.Caseless) (base : Base a b) (readable : Readable a b) :
    (uriCmp inet a b = some true ↔ Accepts a b ∧ Accepts b a ∧ AcceptsHeaders a b ∧ AcceptsHeaders b a) ∧
      uriCmp inet a b ≠ none := by
  obtain ⟨left, right, finds, finds'⟩ := readable
  obtain ⟨params, answers⟩ := params_walk left right finds
  obtain ⟨params', answers'⟩ := params_walk right left finds'
  obtain ⟨headers, answers''⟩ := headers_walk left right finds
  obtain ⟨headers', last⟩ := headers_walk right left finds'
  have end_ (w : Except Fault Unit) (answers : w ≠ .error .undefined) :
      (answer w = some true ↔ w = .ok ()) ∧ answer w ≠ none := by
    cases w with
    | ok u => exact ⟨⟨fun _ => rfl, fun _ => rfl⟩, nofun⟩
    | error fault =>
      cases fault with
      | err e => exact ⟨⟨nofun, nofun⟩, nofun⟩
      | undefined => contradiction
  have whole : uriCmp inet a b = answer (do
      uriParamsApply (paramHandler b.params) a.params
      uriParamsApply (paramHandler a.params) b.params
      uriHeadersApply (headerHandler b.headers) a.headers
      uriHeadersApply (headerHandler a.headers) b.headers) := by
    rw [uriCmp, if_neg (not_not.mpr (plCasecmp_alike base.scheme)), if_neg (not_not.mpr base.user),
      if_neg (not_not.mpr base.password), if_neg (not_not.mpr (plCasecmp_alike base.host)),
      if_neg (not_not.mpr (af_alike caseless base.host)), if_neg (not_not.mpr base.port)]
  rw [whole, (answer_then answers).1, (answer_then answers').1, (answer_then answers'').1, (end_ _ last).1, params, params',
    headers, headers']
  exact ⟨Iff.rfl, (answer_then answers).2 ((answer_then answers').2 ((answer_then answers'').2 (end_ _ last).2))⟩

theorem uriCmp_differs (scheme : Settled a.scheme b.scheme) (host : Settled a.host b.host) (differs : ¬ Base a b) :
    uriCmp inet a b = some false := by
  unfold uriCmp
  split_ifs with scheme_ user password host_ af port
  · rfl
  · rfl
  · rfl
  · rfl
  · exact absurd ⟨scheme scheme_, not_not.mp user, not_not.mp password, host host_, not_not.mp port⟩ differs
  · rfl
  · rfl

theorem uriCmp_same (caseless : inet.Caseless) (base : Base a b) (readable : Readable a b) (single : Single a) :
    uriCmp inet a b = some true ↔ Same a b := by
  rw [(uriCmp_walks caseless base readable).1]
  obtain ⟨left, right, finds, finds'⟩ := readable
  constructor
  · rintro ⟨forth, back, headers, headers'⟩
    refine ⟨base, fun x member y member' alike => ?_, fun s special => ?_, headers_there right finds headers,
      fun y member => ?_⟩
    · exact (accepts_values left finds' single back y member' x member alike.symm).symm
    · exact ⟨accepts_both right finds forth s special, accepts_both left finds' back s special⟩
    · obtain ⟨x, member', named, valued⟩ := headers_there left finds' headers' y member
      exact ⟨x, member', named.symm, valued.symm⟩
  · intro same
    have values : ∀ x ∈ headersOf a, ∀ y ∈ headersOf b, Alike (nameOf x) (nameOf y) →
        Alike (headerValue x) (headerValue y) := by
      intro x member y member' alike
      obtain ⟨x', inside, named, valued⟩ := same.headers' y member'
      exact (single.headers x member x' inside (alike.trans named.symm)).trans valued
    refine ⟨accepts_of right finds same.params fun s special => (same.both s special).mp,
      accepts_of left finds' (fun y member x member' alike => ?_) fun s special => (same.both s special).mpr,
      acceptsHeaders_of right finds (fun x member => ?_) values,
      acceptsHeaders_of left finds' (fun y member => ?_) fun y member x member' alike => ?_⟩
    · exact (same.params x member' y member alike.symm).symm
    · obtain ⟨y, member', named, -⟩ := same.headers x member
      exact ⟨y, member', named⟩
    · obtain ⟨x, member', named, -⟩ := same.headers' y member
      exact ⟨x, member', named.symm⟩
    · exact (values x member' y member alike.symm).symm

theorem Settled.symm (settled : Settled x y) : Settled y x := by
  intro same
  rw [plCasecmp_comm] at same
  exact (settled same).symm

theorem Base.symm (base : Base a b) : Base b a :=
  ⟨base.scheme.symm, base.user.symm, base.password.symm, base.host.symm, base.port.symm⟩

theorem Single.same (single : Single a) : Same a a :=
  ⟨⟨rfl, rfl, rfl, rfl, rfl⟩, single.params, fun _ _ => Iff.rfl, fun x member => ⟨x, member, rfl, rfl⟩,
    fun x member => ⟨x, member, rfl, rfl⟩⟩

/-- An `inet_pton` that knows of one address. -/
def oneAddress : Inet := ⟨fun _ => false, fun addr => addr.map tolower == ascii "2001:db8::1"⟩

theorem oneAddress_caseless : oneAddress.Caseless where
  pton4 _ _ _ := rfl
  pton6 _ _ alike := congrArg (· == ascii "2001:db8::1") alike

/-- The URI in `sip:bob@[2001:db8::1]:5060;transport=udp;lr?a=b&c=d`. -/
def lowerUri : Uri (List Byte) :=
  ⟨ascii "sip", some (ascii "bob"), some [], ascii "2001:db8::1", 5060, ascii ";transport=udp;lr", ascii "?a=b&c=d"⟩

/-- The URI in `SIP:bob@[2001:DB8::1]:5060;foo=1;Transport=UDP?c=D&a=b`. -/
def upperUri : Uri (List Byte) :=
  ⟨ascii "SIP", some (ascii "bob"), some [], ascii "2001:DB8::1", 5060, ascii ";foo=1;Transport=UDP", ascii "?c=D&a=b"⟩

theorem finds_plain (marks : ∀ y ∈ headersOf v, chr '?' ∉ y) :
    ∀ x ∈ headersOf u, ∀ y ∈ (headersOf v).takeWhile fun y => !decide (Alike (nameOf x) (nameOf y)),
      ∀ text, chr '?' :: text <:+ y → ¬ Hit (nameOf x) text := by
  intro x _ y member text inside _
  exact marks y ((List.takeWhile_prefix _).subset member) (inside.subset List.mem_cons_self)

end Baresip.Re.Ucmp
