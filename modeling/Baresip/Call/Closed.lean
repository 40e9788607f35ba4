import Baresip.Library.Runs
import Baresip.Call.Closing

set_option linter.dupNamespace false

namespace Baresip.Call.Closing

open Library

/-- A handler that may be called has the call as its argument. -/
inductive Armed (w : World) (c : Nat) : Prop
  | timer (runs : c ∈ w.timers)
  | sess {s : Nat} {sess : Sess} (live : w.sesss s = some sess) (arg : sess.arg = some c)
  | sub {n : Nat} {sub : Sub} (live : w.subs n = some sub) (arg : sub.arg = some c)
  | mnat {m : Nat} {sess : MnatSess} (live : w.mnatSesss m = some sess) (arg : sess.arg = c)
  | audio {a : Nat} {audio : Audio} (live : w.audios a = some audio) (arg : audio.arg = c)

structure Kept (w : World) : Prop where
  handlers : ∀ c, Armed w c → (w.calls c).isSome
  once : w.closed.Nodup
  released : ∀ c ∈ w.closed, w.calls c = none
  disarmed : ∀ c ∈ w.closed, ¬Armed w c
  sound : w.misused = false

def SessOwn (sess : Sess) : Prop := sess.terminated = 0 ∧ sess.nrefs = 1
def SubOwn (sub : Sub) : Prop := sub.terminated = false ∧ sub.nrefs = 1

/-- What holds of the calls, the timers and the delivered events, whatever the calls point to. -/
structure Tracked (calls : Nat → Option CallObj) (timers closed : List Nat) (next : Nat) : Prop where
  running : ∀ c ∈ timers, (calls c).isSome
  timersOnce : timers.Nodup
  once : closed.Nodup
  released : ∀ c ∈ closed, calls c = none ∧ c < next
  fresh : Fresh calls next
  waits : ∀ c call, calls c = some call → call.mnats.isSome → call.mnatWait → call.state = .outgoing → call.sess = none

structure Inv (w : World) : Prop where
  sesss : Linked w.calls CallObj.sess w.sesss Sess.arg SessOwn
  subs : Linked w.calls CallObj.sub w.subs Sub.arg SubOwn
  mnats : Linked w.calls CallObj.mnats w.mnatSesss (fun sess => some sess.arg) fun _ => True
  audios : Linked w.calls CallObj.audio w.audios (fun audio => some audio.arg) fun _ => True
  calls : Tracked w.calls w.timers w.closed w.next
  freshSesss : Fresh w.sesss w.next
  freshSubs : Fresh w.subs w.next
  freshMnats : Fresh w.mnatSesss w.next
  freshAudios : Fresh w.audios w.next
  sound : w.misused = false

namespace Tracked

variable {calls : Nat → Option CallObj} {timers timers' closed : List Nat} {next c : Nat} {call call' : CallObj}

theorem mono (tracked : Tracked calls timers closed next) {next' : Nat} (le : next ≤ next') :
    Tracked calls timers closed next' :=
  { tracked with
    released := fun c mem => ⟨(tracked.released c mem).1, Nat.lt_of_lt_of_le (tracked.released c mem).2 le⟩
    fresh := tracked.fresh.mono le }

theorem cancelled (tracked : Tracked calls timers closed next) (fewer : timers'.Sublist timers) :
    Tracked calls timers' closed next :=
  { tracked with
    running := fun c mem => tracked.running c (fewer.subset mem)
    timersOnce := tracked.timersOnce.sublist fewer }

theorem started (tracked : Tracked calls timers closed next) (here : calls c = some call) (idle : c ∉ timers) :
    Tracked calls (c :: timers) closed next :=
  { tracked with
    running := by
      intro d mem
      rcases List.mem_cons.mp mem with rfl | mem
      · rw [here]
        rfl
      · exact tracked.running d mem
    timersOnce := List.nodup_cons.mpr ⟨idle, tracked.timersOnce⟩ }

/-- A call that has not been closed is set, be it new or not. -/
theorem set (tracked : Tracked calls timers closed next) (old : c < next) (live : c ∉ closed)
    (waits : call.mnats.isSome → call.mnatWait → call.state = .outgoing → call.sess = none) :
    Tracked (Function.update calls c (some call)) timers closed next where
  running d mem := by
    by_cases own : d = c
    · rw [own, Function.update_self]
      rfl
    · rw [Function.update_of_ne own]
      exact tracked.running d mem
  timersOnce := tracked.timersOnce
  once := tracked.once
  released d mem := by
    rw [Function.update_of_ne]
    · exact tracked.released d mem
    · rintro rfl
      exact live mem
  fresh := tracked.fresh.update old
  waits d call' here := by
    by_cases own : d = c
    · rw [own, Function.update_self] at here
      cases here
      exact waits
    · rw [Function.update_of_ne own] at here
      exact tracked.waits d call' here

theorem opened (tracked : Tracked calls timers closed next) (here : calls c = some call) : c ∉ closed := by
  intro mem
  rw [(tracked.released c mem).1] at here
  cases here

theorem changed (tracked : Tracked calls timers closed next) (here : calls c = some call)
    (waits : call'.mnats.isSome → call'.mnatWait → call'.state = .outgoing → call'.sess = none) :
    Tracked (Function.update calls c (some call')) timers closed next :=
  tracked.set (tracked.fresh.old here) (tracked.opened here) waits

theorem new (tracked : Tracked calls timers closed next)
    (waits : call.mnats.isSome → call.mnatWait → call.state = .outgoing → call.sess = none) :
    Tracked (Function.update calls next (some call)) timers closed (next + 1) := by
  apply (tracked.mono (Nat.le_succ next)).set (Nat.lt_succ_self next) _ waits
  intro mem
  exact Nat.lt_irrefl next (tracked.released next mem).2

theorem gone (tracked : Tracked calls timers closed next) (here : calls c = some call) (fewer : timers'.Sublist timers)
    (cancelled : c ∉ timers') : Tracked (Function.update calls c none) timers' closed next where
  running d mem := by
    rw [Function.update_of_ne]
    · exact tracked.running d (fewer.subset mem)
    · rintro rfl
      exact cancelled mem
  timersOnce := tracked.timersOnce.sublist fewer
  once := tracked.once
  released d mem := by
    by_cases own : d = c
    · rw [own, Function.update_self]
      exact ⟨rfl, tracked.fresh.old here⟩
    · rw [Function.update_of_ne own]
      exact tracked.released d mem
  fresh := tracked.fresh.update (tracked.fresh.old here)
  waits d call' live := by
    by_cases own : d = c
    · rw [own, Function.update_self] at live
      cases live
    · rw [Function.update_of_ne own] at live
      exact tracked.waits d call' live

/-- The event is delivered for a call that is gone, and for which it has not been delivered. -/
theorem delivered (tracked : Tracked calls timers closed next) (none_ : calls c = none) (old : c < next)
    (first : c ∉ closed) : Tracked calls timers (c :: closed) next :=
  { tracked with
    once := List.nodup_cons.mpr ⟨first, tracked.once⟩
    released := by
      intro d mem
      rcases List.mem_cons.mp mem with rfl | mem
      · exact ⟨none_, old⟩
      · exact tracked.released d mem }

end Tracked

section
variable {net : Net} {w w' : World} {c : Nat} {call : CallObj}

theorem Inv.armed (inv : Inv w) (armed : Armed w c) : (w.calls c).isSome := by
  rcases armed with runs | ⟨live, arg⟩ | ⟨live, arg⟩ | ⟨live, arg⟩ | ⟨live, arg⟩
  · exact inv.calls.running c runs
  · rcases (inv.sesss.backs live arg).2 with ⟨call, here, _⟩
    rw [here]
    rfl
  · rcases (inv.subs.backs live arg).2 with ⟨call, here, _⟩
    rw [here]
    rfl
  · rcases (inv.mnats.backs live (congrArg some arg)).2 with ⟨call, here, _⟩
    rw [here]
    rfl
  · rcases (inv.audios.backs live (congrArg some arg)).2 with ⟨call, here, _⟩
    rw [here]
    rfl

theorem Inv.kept (inv : Inv w) : Kept w where
  handlers c := inv.armed
  once := inv.calls.once
  released c mem := (inv.calls.released c mem).1
  disarmed c mem armed := by
    have live := inv.armed armed
    rw [(inv.calls.released c mem).1] at live
    cases live
  sound := inv.sound

/-- A call has been released, and with it all that it points to. -/
structure Gone (w w' : World) (c : Nat) (call : CallObj) : Prop where
  calls : w'.calls = Function.update w.calls c none
  sesss : Freed w.sesss w'.sesss Sess.arg call.sess
  subs : Freed w.subs w'.subs Sub.arg call.sub
  mnatSesss : Freed w.mnatSesss w'.mnatSesss (fun sess => some sess.arg) call.mnats
  audios : Freed w.audios w'.audios (fun audio => some audio.arg) call.audio
  timers : w'.timers.Sublist w.timers
  cancelled : c ∉ w'.timers
  closed : w'.closed = w.closed ∨ w'.closed = c :: w.closed
  next : w'.next = w.next
  sound : w'.misused = false

theorem Inv.gone (inv : Inv w) (here : w.calls c = some call) (gone : Gone w w' c call) : Inv w' := by
  have nothing {α : Type} {pointer : CallObj → Option α} : ∀ owner ∈ (none : Option CallObj), pointer owner = none := by
    intro owner none_
    cases none_
  constructor
  case sesss =>
    rw [gone.calls]
    exact inv.sesss.release here gone.sesss nothing
  case subs =>
    rw [gone.calls]
    exact inv.subs.release here gone.subs nothing
  case mnats =>
    rw [gone.calls]
    exact inv.mnats.release here gone.mnatSesss nothing
  case audios =>
    rw [gone.calls]
    exact inv.audios.release here gone.audios nothing
  case calls =>
    have tracked := inv.calls.gone here gone.timers gone.cancelled
    rw [gone.calls, gone.next]
    rcases gone.closed with same | one
    · rw [same]
      exact tracked
    · rw [one]
      exact tracked.delivered (Function.update_self _ _ _) (inv.calls.fresh.old here) (inv.calls.opened here)
  case freshSesss =>
    rw [gone.next]
    exact inv.freshSesss.freed inv.sesss here gone.sesss
  case freshSubs =>
    rw [gone.next]
    exact inv.freshSubs.freed inv.subs here gone.subs
  case freshMnats =>
    rw [gone.next]
    exact inv.freshMnats.freed inv.mnats here gone.mnatSesss
  case freshAudios =>
    rw [gone.next]
    exact inv.freshAudios.freed inv.audios here gone.audios
  case sound => exact gone.sound

/-- Everything that a call points to is there, and nothing has been misused. -/
structure Safe (w : World) (call : CallObj) : Prop where
  sess : dangles w.sesss call.sess = false
  sub : dangles w.subs call.sub = false
  mnats : dangles w.mnatSesss call.mnats = false
  audio : dangles w.audios call.audio = false
  sound : w.misused = false

theorem Inv.safe (inv : Inv w) (here : w.calls c = some call) : Safe w call where
  sess := inv.sesss.sound here
  sub := inv.subs.sound here
  mnats := inv.mnats.sound here
  audio := inv.audios.sound here
  sound := inv.sound

theorem check_live (here : w.calls c = some call) : w.check c = w := by
  simp [World.check, here]

theorem callStreamStop_eq (here : w.calls c = some call) (safe : Safe w call) : w.callStreamStop c =
    { w with audios := modify w.audios call.audio fun audio => some { audio with running := false }
             timers := w.timers.erase c } := by
  rw [World.callStreamStop, check_live here, here]
  simp [World.audioStop, World.tmrCancel, safe.audio]

theorem Safe.stopped (here : w.calls c = some call) (safe : Safe w call) : Safe (w.callStreamStop c) call := by
  rw [callStreamStop_eq here safe]
  exact ⟨safe.sess, safe.sub, safe.mnats, (dangles_modify fun _ => rfl).trans safe.audio, safe.sound⟩

theorem derefCall_eq (here : w.calls c = some call) (safe : Safe w call) : w.derefCall net c =
    { w with calls := Function.update w.calls c none
             sesss := modify w.sesss call.sess fun sess => sess.deref net.bye
             subs := modify w.subs call.sub fun sub => sub.deref net.unsubscribe
             mnatSesss := modify w.mnatSesss call.mnats fun _ => none
             audios := modify w.audios call.audio fun _ => none
             timers := w.timers.erase c } := by
  have audio : dangles (modify w.audios call.audio fun audio => some { audio with running := false }) call.audio = false :=
    (dangles_modify fun _ => rfl).trans safe.audio
  rw [World.derefCall, callStreamStop_eq here safe, here]
  simp only [World.derefSess, World.derefAudio, World.derefMnatSess, World.derefSub, World.setCall, Option.bind_some,
    modify_modify, safe.sess, safe.sub, safe.mnats, safe.sound, audio, Bool.or_false]

theorem closedEvent_eq (here : w.calls c = some call) (safe : Safe w call) : w.closedEvent net c =
    { w.derefCall net c with closed := c :: w.closed } := by
  have same : { w with closed := c :: w.closed }.check c = { w with closed := c :: w.closed } := check_live here
  rw [World.closedEvent, same, derefCall_eq here safe, derefCall_eq]
  · exact here
  · exact ⟨safe.sess, safe.sub, safe.mnats, safe.audio, safe.sound⟩

/-- A world in which a call is closed, which differs from the one before in what the call points to. -/
structure Near (w w' : World) (c : Nat) (call : CallObj) : Prop where
  calls : w'.calls = w.calls
  sesss : ∀ s, call.sess ≠ some s → w'.sesss s = w.sesss s
  ending : ∀ s sess, call.sess = some s → w'.sesss s = some sess → sess.arg = none ∨ SessOwn sess
  subs : ∀ n, call.sub ≠ some n → w'.subs n = w.subs n
  mnatSesss : w'.mnatSesss = w.mnatSesss
  audios : ∀ a, call.audio ≠ some a → w'.audios a = w.audios a
  timers : w'.timers.Sublist w.timers
  closed : w'.closed = w.closed
  next : w'.next = w.next
  safe : Safe w' call

theorem Inv.near (inv : Inv w) (here : w.calls c = some call) : Near w w c call where
  calls := rfl
  sesss _ _ := rfl
  ending s sess points there := by
    rcases inv.sesss.pointers here points with ⟨sess', there', back⟩
    rw [there] at there'
    cases there'
    exact Or.inr (inv.sesss.backs there back).1
  subs _ _ := rfl
  mnatSesss := rfl
  audios _ _ := rfl
  timers := List.Sublist.refl _
  closed := rfl
  next := rfl
  safe := inv.safe here

theorem Near.stopped (here : w.calls c = some call) (near : Near w w' c call) : Near w (w'.callStreamStop c) c call := by
  have live : w'.calls c = some call := by rw [near.calls, here]
  have safe := near.safe.stopped live
  rw [callStreamStop_eq live near.safe] at safe ⊢
  exact {
    calls := near.calls
    sesss := near.sesss
    ending := near.ending
    subs := near.subs
    mnatSesss := near.mnatSesss
    audios := fun a differ => (modify_other differ).trans (near.audios a differ)
    timers := List.erase_sublist.trans near.timers
    closed := near.closed
    next := near.next
    safe := safe }

@[simp] theorem Sess.termwait_arg {sess : Sess} : sess.termwait.arg = none := rfl

@[simp] theorem Sess.terminate_arg {sess : Sess} {bye : Bool} : (sess.terminate bye).2.arg = sess.arg := by
  unfold Sess.terminate
  split_ifs <;> rfl

theorem Sess.destruct_arg {sess sess' : Sess} {bye : Bool} (ending : sess.arg = none ∨ sess.terminated = 0)
    (kept : sess.destruct bye = some sess') : sess'.arg = none := by
  have lost : (if sess.terminated = 0 then sess.termwait else sess).arg = none := by
    by_cases live : sess.terminated = 0
    · rw [if_pos live]
      rfl
    · rw [if_neg live]
      exact ending.resolve_right live
  unfold Sess.destruct at kept
  split at kept
  · cases kept
    rfl
  · split at kept
    · generalize (if sess.terminated = 0 then sess.termwait else sess) = ended at kept lost
      dsimp only at kept
      split at kept
      · cases kept
        rw [Sess.terminate_arg, lost]
      · cases kept
    · cases kept

/-- A session that is released has lost its call, or loses it. -/
theorem Sess.deref_arg {sess sess' : Sess} {bye : Bool} (ending : sess.arg = none ∨ SessOwn sess)
    (kept : sess.deref bye = some sess') : sess'.arg = none := by
  unfold Sess.deref at kept
  split at kept
  · cases kept
    rename_i more
    rcases ending with gone | own
    · exact gone
    · rw [own.2] at more
      exact absurd more (Nat.lt_irrefl 1)
  · apply Sess.destruct_arg _ kept
    rcases ending with gone | own
    · exact Or.inl gone
    · exact Or.inr own.1

@[simp] theorem Sub.terminate_arg {sub : Sub} {unsubscribe : Bool} : (sub.terminate unsubscribe).2.arg = none := by
  unfold Sub.terminate
  dsimp only
  split_ifs <;> rfl

theorem Sub.destruct_arg {sub sub' : Sub} {unsubscribe : Bool} (kept : sub.destruct unsubscribe = some sub') :
    sub'.arg = none := by
  unfold Sub.destruct at kept
  split at kept
  · cases kept
  · dsimp only at kept
    split at kept
    · cases kept
      exact Sub.terminate_arg
    · cases kept

theorem Sub.deref_arg {sub sub' : Sub} {unsubscribe : Bool} (ending : sub.arg = none ∨ SubOwn sub)
    (kept : sub.deref unsubscribe = some sub') : sub'.arg = none := by
  unfold Sub.deref at kept
  split at kept
  · cases kept
    rename_i more
    rcases ending with gone | own
    · exact gone
    · rw [own.2] at more
      exact absurd more (Nat.lt_irrefl 1)
  · exact Sub.destruct_arg kept

theorem Inv.subOwn (inv : Inv w) (here : w.calls c = some call) {n : Nat} {sub : Sub} (points : call.sub = some n)
    (there : w.subs n = some sub) : sub.arg = some c ∧ SubOwn sub := by
  rcases inv.subs.pointers here points with ⟨sub', there', back⟩
  rw [there] at there'
  cases there'
  exact ⟨back, (inv.subs.backs there back).1⟩

theorem Inv.subFreed (inv : Inv w) (here : w.calls c = some call) :
    Freed w.subs (modify w.subs call.sub fun sub => sub.deref net.unsubscribe) Sub.arg call.sub := by
  apply Freed.modify
  intro n sub sub' points there kept
  exact Sub.deref_arg (Or.inr (inv.subOwn here points there).2) kept

/-- The subscription is given as it is afterwards. -/
theorem Near.derefCall (inv : Inv w) (here : w.calls c = some call) (near : Near w w' c call) {subs : Nat → Option Sub}
    (freed : Freed w.subs subs Sub.arg call.sub) : Gone w { w'.derefCall net c with subs := subs } c call := by
  have live : w'.calls c = some call := by rw [near.calls, here]
  rw [derefCall_eq live near.safe]
  exact {
    calls := by rw [near.calls]
    sesss := by
      apply Freed.after near.sesss
      apply Freed.modify
      intro s sess sess' points there kept
      exact Sess.deref_arg (near.ending s sess points there) kept
    subs := freed
    mnatSesss := by
      rw [near.mnatSesss]
      apply Freed.modify
      intro m sess sess' _ _ kept
      cases kept
    audios := by
      apply Freed.after near.audios
      apply Freed.modify
      intro a audio audio' _ _ kept
      cases kept
    timers := List.erase_sublist.trans near.timers
    cancelled := by
      intro mem
      exact (inv.calls.timersOnce.sublist near.timers).not_mem_erase mem
    closed := Or.inl near.closed
    next := near.next
    sound := near.safe.sound }

theorem Near.closedEvent (inv : Inv w) (here : w.calls c = some call) (near : Near w w' c call) {subs : Nat → Option Sub}
    (freed : Freed w.subs subs Sub.arg call.sub) : Gone w { w'.closedEvent net c with subs := subs } c call := by
  have gone : Gone w { w'.derefCall net c with subs := subs } c call := near.derefCall inv here freed
  rw [closedEvent_eq (by rw [near.calls, here]) near.safe]
  exact { gone with closed := Or.inr (by rw [near.closed]) }

end

end Baresip.Call.Closing
