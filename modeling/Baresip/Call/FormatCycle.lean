import Baresip.Re.Sdp
import Baresip.Library.RoundRobin

set_option linter.dupNamespace false

namespace Baresip.Call

open Re Library

variable {δ : Type}

def televRtpfmt : String := "telephone-event"

def isTelev (fmt : SdpFormat δ) : Bool := strCaseEq fmt.name (some televRtpfmt)

/-- `list_unlink` and `list_append` of the format that `sdp_media_rformat` found. -/
def moveToEnd (m : SdpMedia δ) (sf : SdpFormat δ) : SdpMedia δ :=
  { m with rfmtl := m.rfmtl.eraseP (·.sup) ++ [sf] }

/-- The goto loop, given up after `fuel` turns. -/
def sdpMediaFormatCycle : Nat → SdpMedia δ → Option (SdpMedia δ × Option (SdpFormat δ))
  | 0, _ => none
  | fuel + 1, m =>
    match sdpMediaRformat m none with
    | none => some (m, none)
    | some sf =>
      let m := moveToEnd m sf
      match sdpMediaRformat m none with
      | none => some (m, none)
      | some sf => if isTelev sf then sdpMediaFormatCycle fuel m else some (m, some sf)

def formatCycles (fuel : Nat) : Nat → SdpMedia δ → Option (SdpMedia δ × List (SdpFormat δ))
  | 0, m => some (m, [])
  | calls + 1, m =>
    match sdpMediaFormatCycle fuel m with
    | none => none
    | some (m, returned) =>
      match formatCycles fuel calls m with
      | none => none
      | some (m, rest) => some (m, returned.toList ++ rest)

def supported (m : SdpMedia δ) : List (SdpFormat δ) :=
  if m.raddr.port == 0 then [] else m.rfmtl.filter (·.sup)

def encoder (fmt : SdpFormat δ) : Bool := !isTelev fmt

def encoders (m : SdpMedia δ) : List (SdpFormat δ) := (supported m).filter encoder

/-- Calls terminate, keep the formats, and return every encoder once before any of them again. -/
def CyclesFairly (m : SdpMedia δ) : Prop :=
  ∃ fuel, ∀ calls, ∃ next returned, formatCycles fuel calls m = some (next, returned) ∧
    next.rfmtl.Perm m.rfmtl ∧ (encoders m ≠ [] → returned.length = calls) ∧
    RoundRobin (encoders m) returned

theorem rformat_eq_head (m : SdpMedia δ) : sdpMediaRformat m none = (supported m).head? := by
  unfold sdpMediaRformat supported
  split
  · rfl
  · rw [List.head?_filter]
    simp

theorem supported_moveToEnd {m : SdpMedia δ} {sf : SdpFormat δ} {rest : List (SdpFormat δ)}
    (first : supported m = sf :: rest) : supported (moveToEnd m sf) = rest ++ [sf] := by
  unfold supported at first ⊢
  by_cases noPort : m.raddr.port == 0
  · rw [if_pos noPort] at first
    contradiction
  · rw [if_neg noPort] at first
    have moved := moveFirst_filter first
    have found := find?_of_filter first
    simp only [moveFirst, found] at moved
    simp only [moveToEnd, noPort, Bool.false_eq_true, ite_false]
    exact moved

theorem moveToEnd_perm {m : SdpMedia δ} {sf : SdpFormat δ} {rest : List (SdpFormat δ)}
    (first : supported m = sf :: rest) : (moveToEnd m sf).rfmtl.Perm m.rfmtl := by
  unfold supported at first
  by_cases noPort : m.raddr.port == 0
  · rw [if_pos noPort] at first
    contradiction
  · rw [if_neg noPort] at first
    have perm := moveFirst_perm (·.sup) m.rfmtl
    have found := find?_of_filter first
    simp only [moveFirst, found] at perm
    exact perm

theorem formatCycle_turn {m : SdpMedia δ} {sf : SdpFormat δ} {rest : List (SdpFormat δ)} (fuel : Nat)
    (first : supported m = sf :: rest) :
    ∃ next, supported next = rest ++ [sf] ∧ next.rfmtl.Perm m.rfmtl ∧
      ∀ new tail, rest ++ [sf] = new :: tail → sdpMediaFormatCycle (fuel + 1) m =
        if isTelev new then sdpMediaFormatCycle fuel next else some (next, some new) := by
  refine ⟨moveToEnd m sf, supported_moveToEnd first, moveToEnd_perm first, ?_⟩
  intro new tail queue
  have head := rformat_eq_head m
  have head' := rformat_eq_head (moveToEnd m sf)
  rw [first, List.head?_cons] at head
  rw [supported_moveToEnd first, queue, List.head?_cons] at head'
  rw [sdpMediaFormatCycle]
  simp only [head, head']

def skipped (queue : List (SdpFormat δ)) : Nat := (queue.takeWhile isTelev).length

theorem skipped_rotate {f : SdpFormat δ} {queue : List (SdpFormat δ)} (telev : isTelev f = true)
    (some_ : ∃ e ∈ f :: queue, encoder e = true) : skipped (queue ++ [f]) + 1 = skipped (f :: queue) := by
  obtain ⟨e, member, isEncoder⟩ := some_
  have inside : e ∈ queue := by
    rcases List.mem_cons.mp member with rfl | inside
    · simp [encoder, telev] at isEncoder
    · exact inside
  have stops : ¬ ∀ x ∈ queue, isTelev x = true := by
    intro all
    simp [encoder, all e inside] at isEncoder
  unfold skipped
  rw [List.takeWhile_cons_of_pos telev, List.length_cons, List.takeWhile_append, if_neg]
  intro whole
  have same : queue.takeWhile isTelev = queue := (List.takeWhile_prefix _).eq_of_length whole
  have all : (queue.takeWhile isTelev).all isTelev = true := List.all_takeWhile
  rw [same, List.all_eq_true] at all
  exact stops all

theorem formatCycle_returns (fuel : Nat) {m : SdpMedia δ} {f : SdpFormat δ} {rest : List (SdpFormat δ)}
    (first : supported m = f :: rest) (some_ : ∃ e ∈ rest ++ [f], encoder e = true)
    (enough : skipped (rest ++ [f]) < fuel) :
    ∃ next new tail, sdpMediaFormatCycle fuel m = some (next, some new) ∧
      next.rfmtl.Perm m.rfmtl ∧ supported next = new :: tail ∧ encoder new = true ∧
      new :: tail.filter encoder = (rest ++ [f]).filter encoder := by
  induction fuel generalizing m f rest with
  | zero => contradiction
  | succ fuel ih =>
    obtain ⟨next, queued, perm, turn⟩ := formatCycle_turn fuel first
    obtain ⟨new, tail, queue⟩ : ∃ new tail, rest ++ [f] = new :: tail := by
      cases rest with
      | nil => exact ⟨f, [], rfl⟩
      | cons new tail => exact ⟨new, tail ++ [f], rfl⟩
    rw [queue] at queued some_ enough
    rw [turn new tail queue, queue]
    by_cases telev : isTelev new = true
    · have shorter := skipped_rotate telev some_
      obtain ⟨e, member, isEncoder⟩ := some_
      have later : ∃ e ∈ tail ++ [new], encoder e = true :=
        ⟨e, by simpa [or_comm] using member, isEncoder⟩
      obtain ⟨last, found, tail', returns, perm', queued', good, order⟩ := ih queued later (by omega)
      have passed : encoder new = false := by simp [encoder, telev]
      refine ⟨last, found, tail', by rw [if_pos telev]; exact returns, perm'.trans perm, queued', good, ?_⟩
      rw [order, List.filter_append, List.filter_cons_of_neg (by simp [passed]),
        List.filter_cons_of_neg (by simp [passed]), List.filter_nil, List.append_nil]
    · have good : encoder new = true := by simp [encoder, telev]
      refine ⟨next, new, tail, by rw [if_neg telev], perm, queued, good, ?_⟩
      rw [List.filter_cons_of_pos good]

theorem skipped_lt {m : SdpMedia δ} {f : SdpFormat δ} {rest : List (SdpFormat δ)}
    (first : supported m = f :: rest) : skipped (rest ++ [f]) < m.rfmtl.length + 1 := by
  have skips : skipped (rest ++ [f]) ≤ (rest ++ [f]).length :=
    (List.takeWhile_prefix isTelev).length_le
  have part : (supported m).length ≤ m.rfmtl.length := by
    unfold supported
    split
    · exact Nat.zero_le _
    · exact List.length_filter_le _ _
  rw [first] at part
  simp only [List.length_append, List.length_cons, List.length_nil] at skips part
  omega

theorem formatCycles_serve (calls : Nat) {m : SdpMedia δ} {f : SdpFormat δ} {rest : List (SdpFormat δ)}
    (first : supported m = f :: rest) (good : encoder f = true) :
    ∃ next returned, formatCycles (m.rfmtl.length + 1) calls m = some (next, returned) ∧
      next.rfmtl.Perm m.rfmtl ∧ returned.length = calls ∧
      Serves (rest.filter encoder ++ [f]) returned := by
  induction calls generalizing m f rest with
  | zero => exact ⟨m, [], rfl, List.Perm.refl _, rfl, trivial⟩
  | succ calls ih =>
    obtain ⟨next, new, tail, returns, perm, queued, good', order⟩ :=
      formatCycle_returns (m.rfmtl.length + 1) first ⟨f, by simp, good⟩ (skipped_lt first)
    obtain ⟨last, returned, cycles, perm', length, serves⟩ := ih queued good'
    rw [List.filter_append, List.filter_cons_of_pos good, List.filter_nil] at order
    refine ⟨last, new :: returned, ?_, perm'.trans perm, by simp [length],
      ⟨tail.filter encoder, order.symm, serves⟩⟩
    rw [formatCycles, returns]
    rw [perm.length_eq] at cycles
    simp only [cycles, Option.toList_some, List.singleton_append]

theorem cyclesFairly_of_encoder {m : SdpMedia δ} {e : SdpFormat δ} (member : e ∈ supported m)
    (good : encoder e = true) : CyclesFairly m := by
  obtain ⟨f, rest, first⟩ := List.exists_cons_of_ne_nil (List.ne_nil_of_mem member)
  refine ⟨m.rfmtl.length + 1, ?_⟩
  intro calls
  cases calls with
  | zero => exact ⟨m, [], rfl, List.Perm.refl _, fun _ => rfl, roundRobin_nil _⟩
  | succ calls =>
    have some_ : ∃ e ∈ rest ++ [f], encoder e = true := ⟨e, by
      rw [first] at member
      simpa [or_comm] using member, good⟩
    obtain ⟨next, new, tail, returns, perm, queued, good', order⟩ :=
      formatCycle_returns (m.rfmtl.length + 1) first some_ (skipped_lt first)
    obtain ⟨last, returned, cycles, perm', length, serves⟩ := formatCycles_serve calls queued good'
    have robin : RoundRobin (new :: tail.filter encoder) (new :: returned) :=
      Serves.roundRobin ⟨tail.filter encoder, rfl, serves⟩
    have members : (new :: tail.filter encoder).Perm (encoders m) := by
      rw [order, encoders, first]
      exact (List.perm_append_singleton f rest).filter _
    refine ⟨last, new :: returned, ?_, perm'.trans perm, fun _ => by simp [length], robin.of_perm members⟩
    rw [formatCycles, returns]
    rw [perm.length_eq] at cycles
    simp only [cycles, Option.toList_some, List.singleton_append]

theorem cyclesFairly_of_none {m : SdpMedia δ} (none_ : supported m = []) : CyclesFairly m := by
  have empty : encoders m = [] := by
    rw [encoders, none_, List.filter_nil]
  have returns : sdpMediaFormatCycle 1 m = some (m, none) := by
    simp only [sdpMediaFormatCycle, rformat_eq_head, none_, List.head?_nil]
  have cycles : ∀ calls, formatCycles 1 calls m = some (m, []) := by
    intro calls
    induction calls with
    | zero => rfl
    | succ calls ih =>
      rw [formatCycles, returns]
      simp only [ih, Option.toList_none, List.nil_append]
  refine ⟨1, fun calls => ⟨m, [], cycles calls, List.Perm.refl _, ?_, roundRobin_nil _⟩⟩
  intro some_
  contradiction

theorem formatCycle_loops (fuel : Nat) {m : SdpMedia δ} (some_ : supported m ≠ [])
    (telev : ∀ fmt ∈ supported m, isTelev fmt = true) : sdpMediaFormatCycle fuel m = none := by
  induction fuel generalizing m with
  | zero => rfl
  | succ fuel ih =>
    obtain ⟨f, rest, first⟩ := List.exists_cons_of_ne_nil some_
    obtain ⟨next, queued, -, turn⟩ := formatCycle_turn fuel first
    obtain ⟨new, tail, queue⟩ := List.exists_cons_of_ne_nil (List.append_ne_nil_of_right_ne_nil rest
      (List.cons_ne_nil f []))
    have same : ∀ fmt, fmt ∈ supported next ↔ fmt ∈ supported m := by
      intro fmt
      rw [queued, first]
      simp [or_comm]
    have isNew : isTelev new = true := by
      apply telev new
      rw [← same, queued, queue]
      exact List.mem_cons_self ..
    rw [turn new tail queue, if_pos isNew]
    apply ih
    · rw [queued, queue]
      exact List.cons_ne_nil new tail
    · intro fmt member
      exact telev fmt ((same fmt).mp member)

/-- Cycling works exactly when there is nothing to cycle or something other than telephone events. -/
theorem formatCycle_fair_iff (m : SdpMedia δ) :
    CyclesFairly m ↔ supported m = [] ∨ ∃ fmt ∈ supported m, isTelev fmt = false := by
  constructor
  · rintro ⟨fuel, cycles⟩
    by_contra stuck
    rw [not_or] at stuck
    obtain ⟨some_, telev⟩ := stuck
    have loops := formatCycle_loops fuel some_ (by simpa using telev)
    obtain ⟨next, returned, once, -⟩ := cycles 1
    rw [formatCycles, loops] at once
    contradiction
  · rintro (none_ | ⟨fmt, member, other⟩)
    · exact cyclesFairly_of_none none_
    · exact cyclesFairly_of_encoder member (by simp [encoder, other])

def staticFormat (pt : Nat) (name : String) : SdpFormat Unit :=
  ⟨some (toString pt), none, none, some name, none, none, false, false, pt, 8000, 1⟩

def televOnly : SdpMedia Unit :=
  sdpMediaAlignFormats
    { lfmtl := [staticFormat 0 "PCMU", staticFormat 101 "telephone-event"]
      rfmtl := [staticFormat 101 "telephone-event"]
      rattrl := []
      raddr := .inet 0x0a000001 4000
      raddrRtcp := .init
      ldir := .sendrecv
      rdir := .sendrecv
      disabled := false
      known := nofun } false

theorem formatCycle_televOnly_loops : ¬ ∃ fuel out, sdpMediaFormatCycle fuel televOnly = some out := by
  have aligned : (supported televOnly).map isTelev = [true] := by decide
  have some_ : supported televOnly ≠ [] := by
    intro empty
    rw [empty] at aligned
    contradiction
  have telev : ∀ fmt ∈ supported televOnly, isTelev fmt = true := by
    intro fmt member
    have inside : isTelev fmt ∈ (supported televOnly).map isTelev := List.mem_map_of_mem member
    rw [aligned] at inside
    simpa using inside
  rintro ⟨fuel, out, returns⟩
  rw [formatCycle_loops fuel some_ telev] at returns
  contradiction

end Baresip.Call
