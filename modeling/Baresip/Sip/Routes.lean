import Baresip.Library.Runs
import Baresip.Sip.Dialog

set_option linter.dupNamespace false

namespace Baresip.Sip.Dialog

open Re Library

theorem bind_ok {A B : Type} {x : Except Errno A} {f : A → Except Errno B} {b : B} (done : x >>= f = .ok b) :
    ∃ a, x = .ok a ∧ f a = .ok b := by
  cases x with
  | error e => contradiction
  | ok a => exact ⟨a, rfl, done⟩

/-- The slice is memory of this allocation. -/
def Slice.In (s : Slice) (b : Buffer) : Prop := s.buf = b.id ∧ s.off + s.len ≤ b.bytes.length

instance (s : Slice) (b : Buffer) : Decidable (s.In b) := inferInstanceAs (Decidable (_ ∧ _))

/-- What `sip_dialog_route` returns lies in memory that the dialog holds. -/
def SipDialog.Owned (dlg : SipDialog) : Prop :=
  ∀ s ∈ (sipDialogRoute dlg).slices, s.In dlg.uri ∨ s.In dlg.mb

instance : DecidablePred SipDialog.Owned := fun dlg =>
  inferInstanceAs (Decidable (∀ s ∈ (sipDialogRoute dlg).slices, s.In dlg.uri ∨ s.In dlg.mb))

/-- A failed operation leaves the dialog as it was. -/
def State.Unchanged (s : State) (op : Op) : Prop := ∀ e, (s.apply op).1 = .error e → (s.apply op).2 = s.dlg

/-- A route in the dialog's URI has its scheme at the front of it. -/
def SipDialog.Anchored (dlg : SipDialog) : Prop := dlg.route.scheme.buf = dlg.uri.id → dlg.route.scheme.off = 0

/-- An update that finds a URI comes while a route in the old one is anchored. -/
def State.Safe (s : State) : Op → Prop
  | .create _ _ => True
  | .update mem msg => (∃ uri, updateFrom mem msg = .ok uri) → s.dlg.Anchored

/-- What every operation keeps, the updates that leave a route behind included. -/
structure State.Inv (s : State) : Prop where
  pos : s.dlg.pos = 0
  uri : s.dlg.uri.id < s.next
  mb : s.dlg.mb.id < s.next
  apart : s.dlg.uri.id ≠ s.dlg.mb.id
  whole : ∀ sl ∈ s.dlg.route.slices, sl.buf = s.dlg.route.scheme.buf

/-- All parts of a route are in one allocation. -/
def LiesIn (route : Uri Slice) (b : Buffer) : Prop := ∀ s ∈ route.slices, s.In b

theorem LiesIn.whole {route : Uri Slice} {b : Buffer} (lies : LiesIn route b) :
    ∀ s ∈ route.slices, s.buf = route.scheme.buf := by
  intro s member
  rw [(lies s member).1, (lies _ route.scheme_mem).1]

theorem liesIn_map {uri : Uri Pl} {b : Buffer} (inside : ∀ s ∈ uri.slices, Regex.Inside b.bytes.length s) :
    LiesIn (uri.map b.slice) b := by
  intro s member
  rw [Uri.slices_map] at member
  obtain ⟨pl, there, rfl⟩ := List.mem_map.mp member
  exact ⟨rfl, inside pl there⟩

theorem uriDecode_lies {uri : Buffer} {tmp : Uri Pl} (decoded : uriDecode ⟨0, cstr uri.bytes⟩ = .ok tmp) :
    LiesIn (tmp.map uri.slice) uri := by
  apply liesIn_map
  apply uriDecode_inside _ decoded
  show 0 + (cstr uri.bytes).length ≤ uri.bytes.length
  rw [Nat.zero_add]
  exact (List.takeWhile_prefix _).length_le

theorem routeFrom_lies {mb uri : Buffer} {rend : Nat} {route : Uri Slice}
    (long : rend ≠ 0 → routeOffset ≤ mb.bytes.length) (found : routeFrom mb uri rend = .ok route) :
    LiesIn route uri ∨ LiesIn route mb := by
  unfold routeFrom at found
  split_ifs at found with some_
  · obtain ⟨addr, decoded, rfl⟩ := map_ok found
    have room := long some_
    refine .inr (liesIn_map (sipAddrDecode_inside ?_ decoded))
    show routeOffset + ((mb.bytes.drop routeOffset).take (rend - routeOffset)).length ≤ mb.bytes.length
    rw [List.length_take, List.length_drop]
    omega
  · obtain ⟨tmp, decoded, rfl⟩ := map_ok found
    exact .inl (uriDecode_lies decoded)

theorem owned_of_lies {dlg : SipDialog} (lies : LiesIn dlg.route dlg.uri ∨ LiesIn dlg.route dlg.mb) : dlg.Owned := by
  intro s member
  exact lies.imp (fun lies => lies s member) (fun lies => lies s member)

theorem AllocArgs.rend_long {args : AllocArgs} (some_ : args.rend ≠ 0) : routeOffset ≤ args.routes.length := by
  unfold AllocArgs.rend at some_
  unfold AllocArgs.routes
  split at some_
  · contradiction
  · rename_i uri rest routev
    rw [routev, List.flatMap_cons, AllocArgs.route]
    simp only [List.length_append, List.append_assoc]
    have seven : (ascii "Route: <").length = 8 := by decide
    rw [seven]
    exact Nat.le_trans (by decide) (Nat.le_add_right 8 _)

theorem SipMsg.rend_long {msg : SipMsg} {fwd : Bool} (some_ : msg.rend fwd ≠ 0) :
    routeOffset ≤ (msg.routes fwd).length := by
  unfold SipMsg.rend at some_
  unfold SipMsg.routes
  split at some_
  · contradiction
  · rename_i val rest routev
    rw [routev, List.flatMap_cons]
    simp only [List.length_append, List.append_assoc]
    exact Nat.le_add_right 7 _

theorem alloc_first {mem : Mem} {args : AllocArgs} {dlg : SipDialog} (opened : sipDialogAlloc mem args = .ok dlg) :
    (State.first dlg).Inv ∧ dlg.Owned := by
  unfold sipDialogAlloc at opened
  obtain ⟨_, -, opened⟩ := bind_ok opened
  obtain ⟨uri, -, opened⟩ := bind_ok opened
  obtain ⟨_, -, opened⟩ := bind_ok opened
  obtain ⟨_, -, opened⟩ := bind_ok opened
  obtain ⟨_, -, opened⟩ := bind_ok opened
  obtain ⟨_, -, opened⟩ := bind_ok opened
  obtain ⟨route, found, opened⟩ := bind_ok opened
  obtain rfl := Except.ok.inj opened
  have lies := routeFrom_lies
    (fun some_ => by
      simp only [List.length_append, List.append_assoc]
      exact Nat.le_trans (AllocArgs.rend_long some_) (Nat.le_add_right _ _)) found
  exact ⟨⟨rfl, Nat.zero_lt_two, Nat.one_lt_two, Nat.zero_ne_one, lies.elim LiesIn.whole LiesIn.whole⟩, owned_of_lies lies⟩

theorem accept_first {mem : Mem} {lseq : BitVec 16} {msg : SipMsg} {dlg : SipDialog}
    (opened : sipDialogAccept mem lseq msg = .ok dlg) : (State.first dlg).Inv ∧ dlg.Owned := by
  unfold sipDialogAccept at opened
  obtain ⟨_, -, opened⟩ := bind_ok opened
  obtain ⟨_, -, opened⟩ := bind_ok opened
  obtain ⟨addr, -, opened⟩ := bind_ok opened
  obtain ⟨_, -, opened⟩ := bind_ok opened
  obtain ⟨uri, -, opened⟩ := bind_ok opened
  obtain ⟨callid, -, opened⟩ := bind_ok opened
  obtain ⟨_, -, opened⟩ := bind_ok opened
  obtain ⟨rtag, -, opened⟩ := bind_ok opened
  obtain ⟨_, -, opened⟩ := bind_ok opened
  obtain ⟨_, -, opened⟩ := bind_ok opened
  obtain ⟨route, found, opened⟩ := bind_ok opened
  obtain rfl := Except.ok.inj opened
  have lies := routeFrom_lies
    (fun some_ => by
      simp only [List.length_append, List.append_assoc]
      exact Nat.le_trans (SipMsg.rend_long some_) (Nat.le_add_right _ _)) found
  exact ⟨⟨rfl, Nat.zero_lt_two, Nat.one_lt_two, Nat.zero_ne_one, lies.elim LiesIn.whole LiesIn.whole⟩, owned_of_lies lies⟩

theorem start_first {start : Start} {dlg : SipDialog} (opened : start.run = .ok dlg) :
    (State.first dlg).Inv ∧ dlg.Owned := by
  cases start with
  | alloc mem args => exact alloc_first opened
  | accept mem lseq msg => exact accept_first opened

/-- What an operation comes to: a failure, a new route in memory that the dialog has now, or a new URI under the
    route it had. -/
inductive Applied (s : State) : Op → Except Errno Unit → SipDialog → Prop
  | failed {op : Op} (e : Errno) (safe : s.Safe op) : Applied s op (.error e) s.dlg
  | renewed {op : Op} {dlg : SipDialog} (safe : s.Safe op) (pos : dlg.pos = 0) (uri : dlg.uri.id = s.next)
      (mb : dlg.mb.id = s.next + 1 ∨ dlg.mb = s.dlg.mb) (lies : LiesIn dlg.route dlg.uri ∨ LiesIn dlg.route dlg.mb) :
      Applied s op (.ok ()) dlg
  | relinked {mem : Mem} {msg : SipMsg} {uri : List Byte} (taken : updateFrom mem msg = .ok uri)
      (elsewhere : ¬ (s.dlg.route.scheme.buf = s.dlg.uri.id ∧ s.dlg.route.scheme.off = 0)) :
      Applied s (.update mem msg) (.ok ()) { s.dlg with uri := ⟨s.next, uri⟩ }

theorem create_applied (s : State) (mem : Mem) (msg : SipMsg) (inv : s.Inv) :
    Applied s (.create mem msg) (sipDialogCreate mem s.next s.dlg msg).1
      (sipDialogCreate mem s.next s.dlg msg).2 := by
  have rewound : { s.dlg with pos := 0 } = s.dlg := by
    rw [← inv.pos]
  unfold sipDialogCreate
  cases createFrom mem s.dlg msg with
  | error e => exact .failed e trivial
  | ok from_ =>
    obtain ⟨uri, rtag⟩ := from_
    dsimp only
    rw [rewound]
    generalize (if msg.req then msg.from_ else msg.to_) = peer
    generalize (if msg.req then msg.cseq else 0) = rseq
    split_ifs
    · exact .failed .ENOMEM trivial
    · split
      · exact .failed _ trivial
      · rename_i route found
        have lies := routeFrom_lies
          (fun some_ => by
            simp only [List.length_append, List.append_assoc]
            exact Nat.le_trans (SipMsg.rend_long some_) (Nat.le_add_right _ _)) found
        exact .renewed trivial rfl rfl (.inl rfl) lies

theorem update_applied (s : State) (mem : Mem) (msg : SipMsg) (inv : s.Inv) :
    Applied s (.update mem msg) (sipDialogUpdate mem s.next s.dlg msg).1
      (sipDialogUpdate mem s.next s.dlg msg).2 := by
  unfold sipDialogUpdate
  cases taken : updateFrom mem msg with
  | error e =>
    refine .failed e ?_
    rintro ⟨uri, ok⟩
    rw [taken] at ok
    contradiction
  | ok uri =>
    dsimp only
    split_ifs with front
    · have safe : s.Safe (.update mem msg) := fun _ _ => front.2
      split
      · exact .failed _ safe
      · rename_i tmp decoded
        exact .renewed safe inv.pos rfl (.inr rfl)
          (.inl (uriDecode_lies decoded))
    · exact .relinked taken front

theorem apply_applied (s : State) (op : Op) (inv : s.Inv) : Applied s op (s.apply op).1 (s.apply op).2 := by
  cases op with
  | create mem msg => exact create_applied s mem msg inv
  | update mem msg => exact update_applied s mem msg inv

theorem unchanged_of_inv (s : State) (op : Op) (inv : s.Inv) : s.Unchanged op := by
  intro e failed
  have applied := apply_applied s op inv
  rw [failed] at applied
  generalize (s.apply op).2 = dlg at applied
  cases applied with
  | failed => rfl

theorem inv_step (s : State) (op : Op) (inv : s.Inv) : (s.step op).Inv := by
  have applied := apply_applied s op inv
  have uri := inv.uri
  have mb := inv.mb
  have later : s.next < s.next + 2 := Nat.lt_add_of_pos_right Nat.zero_lt_two
  unfold State.step
  generalize (s.apply op).1 = r at applied
  generalize (s.apply op).2 = dlg at applied
  cases applied with
  | failed e safe => exact { inv with uri := Nat.lt_trans uri later, mb := Nat.lt_trans mb later }
  | renewed safe pos new mb' lies =>
    have id : dlg.mb.id = s.next + 1 ∨ dlg.mb.id < s.next := mb'.imp_right fun same => by rw [same]; exact mb
    refine ⟨pos, ?_, ?_, ?_, lies.elim LiesIn.whole LiesIn.whole⟩
    · show dlg.uri.id < s.next + 2
      omega
    · show dlg.mb.id < s.next + 2
      omega
    · show dlg.uri.id ≠ dlg.mb.id
      omega
  | relinked taken elsewhere =>
    exact ⟨inv.pos, later, Nat.lt_trans mb later, (Nat.ne_of_lt mb).symm, inv.whole⟩

/-- With a new URI under it, a route lies in the dialog's memory exactly when it was not in the old one. -/
theorem relinked_owned {s : State} (inv : s.Inv) (owned : s.dlg.Owned) (uri : List Byte) :
    ({ s.dlg with uri := ⟨s.next, uri⟩ } : SipDialog).Owned ↔ s.dlg.route.scheme.buf ≠ s.dlg.uri.id := by
  constructor
  · intro still inside
    rcases still _ s.dlg.route.scheme_mem with here | here
    · exact Nat.ne_of_lt inv.uri (inside.symm.trans here.1)
    · exact inv.apart (inside.symm.trans here.1)
  · intro outside sl member
    rcases owned sl member with here | here
    · exact absurd ((inv.whole sl member).symm.trans here.1) outside
    · exact .inr here

theorem owned_step (s : State) (op : Op) (inv : s.Inv) (owned : s.dlg.Owned) :
    (s.step op).dlg.Owned ↔ s.Safe op := by
  have applied := apply_applied s op inv
  unfold State.step
  generalize (s.apply op).1 = r at applied
  generalize (s.apply op).2 = dlg at applied
  cases applied with
  | failed e safe => exact iff_of_true owned safe
  | renewed safe pos new mb' lies => exact iff_of_true (owned_of_lies lies) safe
  | relinked taken elsewhere =>
    apply (relinked_owned inv owned _).trans
    constructor
    · exact fun outside _ inside => absurd inside outside
    · exact fun safe inside => elsewhere ⟨inside, safe ⟨_, taken⟩ inside⟩

/-- The route stays in the dialog's memory exactly as long as every update that finds a URI comes while a route in
    the old URI starts where that does; and no operation that fails changes the dialog. -/
theorem routes_owned (start : Start) (ops : List Op) (dlg : SipDialog) (opened : start.run = .ok dlg) :
    Throughout State.step (fun s => s.dlg.Owned) (.first dlg) ops ∧ Along State.step State.Unchanged (.first dlg) ops ↔
      Along State.step State.Safe (.first dlg) ops := by
  obtain ⟨inv, owned⟩ := start_first opened
  have unchanged : Along State.step State.Unchanged (.first dlg) ops :=
    along_of_invariant inv_step unchanged_of_inv inv
  rw [and_iff_left unchanged]
  exact throughout_iff_along_of_invariant inv_step owned_step inv owned

def memory : Mem := ⟨true, true, true, true, true, true, true⟩

def request (contact : String) : SipMsg :=
  ⟨true, [ascii contact], [], some (ascii "c"), ascii "<sip:a@b>;tag=x", some (ascii "x"), ascii "<sip:c@d>", none, 1, 0⟩

/-- The dialog of a request with the Contact `uri`, whose URI is found from `off` on. -/
def accepted (uri : String) (off : Nat) : SipDialog :=
  { route :=
      ⟨⟨0, off, 3⟩, some ⟨0, off + 4, 1⟩, some ⟨0, off + 5, 0⟩, ⟨0, off + 6, 1⟩, 0, ⟨0, off + 7, 0⟩, ⟨0, off + 7, 0⟩⟩
    mb := ⟨1, ascii "To: <sip:a@b>;tag=x\r\nFrom: <sip:c@d>;tag=0000000000000000\r\n"⟩
    pos := 0, callid := ascii "c", ltag := ascii "0000000000000000", rtag := some (ascii "x"), uri := ⟨0, ascii uri⟩
    lseq := 0, rseq := 1, cpos := 0 }

theorem routes_owned_accepted :
    Throughout State.step (fun s => s.dlg.Owned) (.first (accepted "sip:a@b" 0)) [.update memory (request "<sip:e@f>")] ∧
        Along State.step State.Unchanged (.first (accepted "sip:a@b" 0)) [.update memory (request "<sip:e@f>")] ↔
      Along State.step State.Safe (.first (accepted "sip:a@b" 0)) [.update memory (request "<sip:e@f>")] :=
  routes_owned (.accept memory 0 (request "<sip:a@b>")) _ _ (by decide +kernel)

/-- The pattern of a URI is not anchored: past a colon in front of the URI, the scheme is not where the URI starts,
    and the next update frees the URI under the route. -/
theorem update_frees_route :
    ¬ ∀ (start : Start) (ops : List Op) (dlg : SipDialog), start.run = .ok dlg →
      Throughout State.step (fun s => s.dlg.Owned) (.first dlg) ops ∧
        Along State.step State.Unchanged (.first dlg) ops := by
  intro owned
  have freed : ¬ Throughout State.step (fun s => s.dlg.Owned) (.first (accepted ":sip:a@b" 1))
      [.update memory (request "<sip:e@f>")] := by decide +kernel
  exact freed (owned (.accept memory 0 (request "<:sip:a@b>")) _ _ (by decide +kernel)).1

end Baresip.Sip.Dialog
