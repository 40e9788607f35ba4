import Baresip.Call.Released

set_option linter.dupNamespace false

namespace Baresip.Call.Closing

open Library

section
variable {net : Net} {w w' : World} {c : Nat} {call call' : CallObj}

theorem Inv.sipsessProgrHandler (inv : Inv w) (here : w.calls c = some call) {scode : Nat} {start : Bool} :
    Inv (w.sipsessProgrHandler c scode start) := by
  unfold World.sipsessProgrHandler
  rw [here]
  dsimp only
  split
  · exact inv
  · rename_i later
    have settled (state : CallState) (kept : state = .outgoing → call.state = .outgoing) :
        Inv ((w.setCall c (some { call with state := state })).callStreamStop c |>.callStreamStart c start false) := by
      have changed : Inv (w.setCall c (some { call with state := state })) :=
        inv.setCall here rfl rfl rfl rfl fun some_ waiting outgoing =>
          inv.calls.waits c call here some_ waiting (kept outgoing)
      have live : (w.setCall c (some { call with state := state })).calls c = some { call with state := state } :=
        Function.update_self _ _ _
      apply (changed.callStreamStop live).callStreamStart
      rw [callStreamStop_eq live (changed.safe live)]
      exact live
    apply settled
    intro outgoing
    split at outgoing
    · cases outgoing
    · split at outgoing
      · cases outgoing
      · exact outgoing

theorem Inv.sipsessEstabHandler (inv : Inv w) (here : w.calls c = some call) {start : Bool} :
    Inv (w.sipsessEstabHandler c start) := by
  unfold World.sipsessEstabHandler
  rw [here]
  dsimp only
  split
  · exact inv
  · have settled : Inv (w.setCall c (some { call with state := .established })) :=
      inv.setCall here rfl rfl rfl rfl fun _ _ outgoing => by cases outgoing
    exact settled.callStreamStart (Function.update_self _ _ _) start true

theorem Inv.sessHandler (inv : Inv w) (here : w.calls c = some call) (event : SessEvent) :
    Inv (w.sessHandler net c event) := by
  have same : w.check c = w := check_live here
  cases event with
  | progr scode start => exact inv.sipsessProgrHandler here
  | estab start => exact inv.sipsessEstabHandler here
  | refer mnat err ok =>
    show Inv ((w.check c).connect net mnat err ok)
    rw [same]
    exact inv.connect
  | _ =>
    show Inv (w.check c)
    rw [same]
    exact inv

/-- A session that changes to one without a call is closed, as far as the call is concerned. -/
theorem Inv.nearSess (inv : Inv w) (here : w.calls c = some call) {s : Nat} (points : call.sess = some s) {sess : Sess}
    (loose : sess.arg = none) : Near w (w.setSess s (some sess)) c call :=
  have now : (w.setSess s (some sess)).sesss s = some sess := Function.update_self _ _ _
  { inv.near here with
    sesss := fun _ differ => update_others points differ
    ending := by
      intro s' sess' points' there
      rw [points] at points'
      cases points'
      rw [now] at there
      cases there
      exact Or.inl loose
    safe := { inv.safe here with
      sess := by
        rw [points, dangles_some, now]
        rfl } }

theorem Inv.sipsessTerminate (inv : Inv w) {s : Nat} {sess sess' : Sess} (there : w.sesss s = some sess)
    (arg : sess'.arg = sess.arg) (terminated : sess'.terminated = sess.terminated) (nrefs : sess'.nrefs = sess.nrefs) :
    Inv (w.sipsessTerminate net s sess') := by
  have ended : (if sess'.wait then sess'.termwait else (sess'.termwait.terminate net.bye).2).arg = none := by
    split
    · rfl
    · rw [Sess.terminate_arg, Sess.termwait_arg]
  unfold World.sipsessTerminate
  split
  · apply inv.setSess there
    · intro _ new
      cases new
      exact arg
    · intro _ new _ own
      cases new
      exact ⟨terminated.trans own.1, nrefs.trans own.2⟩
    · intro _
      rfl
  · dsimp only
    cases tied : sess.arg with
    | none =>
      rw [arg, tied]
      apply inv.sessLoose there tied
      intro _ new
      cases new
      exact ended
    | some c =>
      rw [arg, tied]
      rcases (inv.sesss.backs there tied).2 with ⟨call, here, points⟩
      have near := inv.nearSess here points ended
      dsimp only
      rw [World.sipsessCloseHandler, check_live (near.calls ▸ here)]
      exact inv.stopClosed here near rfl

theorem Inv.subTied (inv : Inv w) {n : Nat} {sub : Sub} (there : w.subs n = some sub) (ended : sub.terminated = true) :
    sub.arg = none := by
  cases tied : sub.arg with
  | none => rfl
  | some c =>
    have own := (inv.subs.backs there tied).1
    rw [own.1] at ended
    cases ended

theorem Inv.sessTied (inv : Inv w) {s : Nat} {sess : Sess} (there : w.sesss s = some sess) (ended : sess.terminated ≠ 0) :
    sess.arg = none := by
  cases tied : sess.arg with
  | none => rfl
  | some c => exact absurd (inv.sesss.backs there tied).1.1 ended

/-- The last reference of what has been terminated goes. -/
theorem Inv.sessDone (inv : Inv w) {s : Nat} {sess : Sess} (there : w.sesss s = some sess) (loose : sess.arg = none) :
    Inv (w.derefSess net (some s)) := by
  have dropped : Inv (w.setSess s (sess.deref net.bye)) :=
    inv.sessLoose there loose fun sess' kept => Sess.deref_arg (Or.inl loose) kept
  rw [World.derefSess, modify_live there, dangles_some, there]
  simpa [World.setSess] using dropped

theorem Inv.subDone (inv : Inv w) {n : Nat} {sub : Sub} (there : w.subs n = some sub) (loose : sub.arg = none) :
    Inv (w.derefSub net (some n)) := by
  have dropped : Inv (w.setSub n (sub.deref net.unsubscribe)) :=
    inv.subLoose there loose fun sub' kept => Sub.deref_arg (Or.inl loose) kept
  rw [World.derefSub, modify_live there, dangles_some, there]
  simpa [World.setSub] using dropped

theorem Inv.sipsubTerminate (inv : Inv w) {n : Nat} {sub sub' : Sub} (there : w.subs n = some sub) (arg : sub'.arg = sub.arg) :
    Inv (w.sipsubTerminate net n sub') := by
  unfold World.sipsubTerminate
  dsimp only
  rw [arg]
  cases tied : sub.arg with
  | none =>
    apply inv.subLoose there tied
    intro _ new
    cases new
    exact Sub.terminate_arg
  | some c =>
    rcases (inv.subs.backs there tied).2 with ⟨call, here, points⟩
    have live : (w.setSub n (some (sub'.terminate net.unsubscribe).2)).calls c = some call := here
    have freed : Freed w.subs
        (modify (Function.update w.subs n (some (sub'.terminate net.unsubscribe).2)) call.sub fun sub => sub.deref net.unsubscribe)
        Sub.arg call.sub := by
      rw [points]
      apply Freed.after fun _ differ => update_others rfl differ
      apply Freed.modify
      intro n' ended ended' own there' kept
      cases own
      rw [Function.update_self] at there'
      cases there'
      exact Sub.deref_arg (Or.inl Sub.terminate_arg) kept
    have released := inv.subReleased here freed
    dsimp only
    rw [World.sipsubCloseHandler, check_live live, live]
    have quiet : dangles (Function.update w.subs n (some (sub'.terminate net.unsubscribe).2)) call.sub = false := by
      rw [points, dangles_some, Function.update_self]
      rfl
    simpa [World.derefSub, World.setSub, World.setCall, quiet] using released

theorem Inv.subscriptionEnds (inv : Inv w) {n : Nat} {sub : Sub} (there : w.subs n = some sub) :
    Inv (w.subscriptionEnds net n) := by
  unfold World.subscriptionEnds
  rw [there]
  dsimp only
  split
  · exact inv.sipsubTerminate there rfl
  · rename_i ended
    have loose : sub.arg = none := inv.subTied there (by simpa using ended)
    split
    · have waited : Inv (w.setSub n (some { sub with termwait := false })) := by
        apply inv.subLoose there loose
        intro _ new
        cases new
        exact loose
      exact waited.subDone (Function.update_self _ _ _) loose
    · exact inv

@[simp] theorem Sub.noted_arg {sub : Sub} {terminated : Bool} : (sub.noted terminated).arg = sub.arg := by
  unfold Sub.noted
  split <;> rfl

theorem Sub.noted_own {sub : Sub} {terminated : Bool} (own : SubOwn sub) : SubOwn (sub.noted terminated) := by
  unfold Sub.noted
  split <;> exact own

/-- The subscription as it is while its handler runs. -/
def Sub.held (sub : Sub) (terminated : Bool) : Sub := { sub.noted terminated with nrefs := sub.nrefs + 1 }

theorem Sub.held_deref {sub : Sub} {terminated unsubscribe : Bool} (more : sub.nrefs ≠ 0) :
    (sub.held terminated).deref unsubscribe = some { sub.noted terminated with nrefs := sub.nrefs } := by
  unfold Sub.deref
  rw [if_pos]
  · rfl
  · show 1 < sub.nrefs + 1
    omega

variable (net) in
/-- A call that is closed by the NOTIFY of its subscription. -/
theorem Inv.notifyClosed (inv : Inv w) {n : Nat} {sub : Sub} (there : w.subs n = some sub) (tied : sub.arg = some c)
    (terminated : Bool) :
    let w' := (w.setSub n (some (sub.held terminated))).closedEvent net c
    (w'.subs n).map Sub.nrefs = some 1 ∧ Inv (w'.derefSub net (some n)) := by
  rcases inv.subs.backs there tied with ⟨own, call, here, points⟩
  have now : (w.setSub n (some (sub.held terminated))).subs n = some (sub.held terminated) := Function.update_self _ _ _
  have near : Near w (w.setSub n (some (sub.held terminated))) c call :=
    { inv.near here with
      subs := fun _ differ => update_others points differ
      safe := { inv.safe here with
        sub := by
          rw [points, dangles_some, now]
          rfl } }
  have live : (w.setSub n (some (sub.held terminated))).calls c = some call := here
  have subs : ((w.setSub n (some (sub.held terminated))).closedEvent net c).subs =
      modify (w.setSub n (some (sub.held terminated))).subs (some n) fun sub => sub.deref net.unsubscribe := by
    rw [closedEvent_eq live near.safe, derefCall_eq live near.safe, points]
  have left : ((w.setSub n (some (sub.held terminated))).closedEvent net c).subs n =
      some { sub.noted terminated with nrefs := sub.nrefs } := by
    rw [subs, modify_self, now]
    exact Sub.held_deref (by rw [own.2]; exact Nat.one_ne_zero)
  constructor
  · rw [left]
    exact congrArg some own.2
  · have noted : SubOwn { sub.noted terminated with nrefs := sub.nrefs } := ⟨(Sub.noted_own own).1, own.2⟩
    have lost : Freed ((w.setSub n (some (sub.held terminated))).closedEvent net c).subs
        (modify ((w.setSub n (some (sub.held terminated))).closedEvent net c).subs (some n) fun sub => sub.deref net.unsubscribe)
        Sub.arg (some n) := by
      apply Freed.modify
      intro n' sub' sub'' same there' kept
      cases same
      rw [left] at there'
      cases there'
      exact Sub.deref_arg (Or.inr noted) kept
    have same : ∀ n', some n ≠ some n' → ((w.setSub n (some (sub.held terminated))).closedEvent net c).subs n' = w.subs n' := by
      intro n' differ
      rw [subs, modify_other differ]
      exact update_others rfl differ
    have freed : Freed w.subs
        (modify ((w.setSub n (some (sub.held terminated))).closedEvent net c).subs (some n) fun sub => sub.deref net.unsubscribe)
        Sub.arg call.sub := by
      rw [points]
      exact lost.after same
    have quiet : dangles ((w.setSub n (some (sub.held terminated))).closedEvent net c).subs (some n) = false := by
      rw [dangles_some, left]
      rfl
    rw [World.derefSub, quiet, Bool.or_false]
    exact inv.gone here (near.closedEvent inv here freed)

variable (net) in
/-- A NOTIFY that does not close a call. -/
theorem Inv.notifyLeft (inv : Inv w) {n : Nat} {sub : Sub} (there : w.subs n = some sub) (terminated : Bool) :
    let w' := (w.setSub n (some (sub.held terminated))).derefSub net (some n)
    Inv w' ∧ (sub.nrefs + 1 ≠ 1 → ∃ sub', w'.subs n = some sub') := by
  have now : (w.setSub n (some (sub.held terminated))).subs n = some (sub.held terminated) := Function.update_self _ _ _
  have eq : (w.setSub n (some (sub.held terminated))).derefSub net (some n) =
      w.setSub n ((sub.held terminated).deref net.unsubscribe) := by
    rw [World.derefSub, modify_live now, dangles_some, now]
    simp [World.setSub]
  dsimp only
  rw [eq]
  constructor
  · cases tied : sub.arg with
    | none =>
      apply inv.subLoose there tied
      have loose : (sub.held terminated).arg = none := Sub.noted_arg.trans tied
      intro sub' kept
      exact Sub.deref_arg (Or.inl loose) kept
    | some c =>
      have own := (inv.subs.backs there tied).1
      rw [Sub.held_deref (by rw [own.2]; exact Nat.one_ne_zero)]
      apply inv.setSub there
      · intro _ new
        cases new
        exact Sub.noted_arg
      · intro _ new _ _
        cases new
        exact ⟨(Sub.noted_own own).1, own.2⟩
      · intro _
        rfl
  · intro more
    rw [Sub.held_deref (by omega)]
    exact ⟨_, Function.update_self _ _ _⟩

theorem Inv.notifyHandler (inv : Inv w) {n : Nat} {sub : Sub} (there : w.subs n = some sub) {terminated : Bool}
    {sc : Option Nat} : Inv (w.notifyHandler net n sub terminated sc) := by
  have now : (w.setSub n (some (sub.held terminated))).subs n = some (sub.held terminated) := Function.update_self _ _ _
  -- the handler has not closed a call
  have plain : Inv (
      let w' := w.setSub n (some (sub.held terminated))
      let nrefs := (w'.subs n).map Sub.nrefs
      let w' := w'.derefSub net (some n)
      if nrefs = some 1 then w' else if terminated then w'.subscriptionEnds net n else w') := by
    rcases inv.notifyLeft net there terminated with ⟨left, stays⟩
    dsimp only
    rw [now]
    split
    · exact left
    · rename_i more
      split
      · rcases stays (fun one => more (congrArg some one)) with ⟨sub', there'⟩
        exact left.subscriptionEnds there'
      · exact left
  unfold World.notifyHandler
  cases tied : sub.arg with
  | none => exact plain
  | some c =>
    cases sc with
    | none => exact plain
    | some sc =>
      dsimp only [World.sipsubNotifyHandler]
      split
      · exact plain
      · split
        · rcases inv.notifyClosed net there tied terminated with ⟨one, closed⟩
          show Inv (if (((w.setSub n (some (sub.held terminated))).closedEvent net c).subs n).map Sub.nrefs = some 1
            then _ else _)
          rw [if_pos one]
          exact closed
        · exact plain

theorem Inv.step (inv : Inv w) (action : Net × Action) : Inv (step w action) := by
  rcases action with ⟨net, action⟩
  cases action with
  | connect mnat err ok => exact inv.connect
  | accept mnat err ok start => exact inv.accept
  | options err => exact inv.options
  | hangup c => exact inv.hangup
  | transfer c ok => exact inv.transfer
  | inviteTimeout c =>
    dsimp only [Closing.step]
    split
    · rename_i runs
      exact inv.inviteTimeout runs
    · exact inv
  | mnat m failed ok start =>
    dsimp only [Closing.step]
    cases there : w.mnatSesss m with
    | none => exact inv
    | some sess => exact inv.mnatHandler there
  | audioError a =>
    dsimp only [Closing.step]
    cases there : w.audios a with
    | none => exact inv
    | some audio =>
      dsimp only
      split
      · rcases (inv.audios.backs there rfl).2 with ⟨call, here, _⟩
        exact inv.audioErrorHandler here
      · exact inv
  | sessClosed s established peerterm =>
    dsimp only [Closing.step]
    cases there : w.sesss s with
    | none => exact inv
    | some sess => exact inv.sipsessTerminate there rfl rfl rfl
  | sessEvent s event =>
    dsimp only [Closing.step]
    cases tied : (w.sesss s).bind Sess.arg with
    | none => exact inv
    | some c =>
      rcases Option.bind_eq_some_iff.mp tied with ⟨sess, there, arg⟩
      rcases (inv.sesss.backs there arg).2 with ⟨call, here, _⟩
      exact inv.sessHandler here event
  | sessPending s established req replyl requestl =>
    dsimp only [Closing.step]
    cases there : w.sesss s with
    | none => exact inv
    | some sess =>
      apply inv.setSess there
      · intro _ new
        cases new
        rfl
      · intro _ new _ own
        cases new
        exact own
      · intro _
        rfl
  | sessDone s =>
    dsimp only [Closing.step]
    cases there : w.sesss s with
    | none => exact inv
    | some sess =>
      split
      · rename_i ended
        exact inv.sessDone there (inv.sessTied there (by simpa using ended))
      · exact inv
  | notify n terminated sc =>
    dsimp only [Closing.step]
    cases there : w.subs n with
    | none => exact inv
    | some sub => exact inv.notifyHandler there
  | subClosed n termwait subscribed =>
    dsimp only [Closing.step]
    cases there : w.subs n with
    | none => exact inv
    | some sub =>
      dsimp only
      split
      · exact inv
      · exact inv.sipsubTerminate there rfl
  | subPending n termwait req expires subscribed =>
    dsimp only [Closing.step]
    cases there : w.subs n with
    | none => exact inv
    | some sub =>
      apply inv.setSub there
      · intro _ new
        cases new
        rfl
      · intro _ new _ own
        cases new
        exact own
      · intro _
        rfl
  | subDone n =>
    dsimp only [Closing.step]
    cases there : w.subs n with
    | none => exact inv
    | some sub =>
      split
      · rename_i ended
        exact inv.subDone there (inv.subTied there (by simpa using ended))
      · exact inv

theorem init_inv : Inv init where
  sesss := Linked.empty
  subs := Linked.empty
  mnats := Linked.empty
  audios := Linked.empty
  calls := {
    running := fun _ mem => by cases mem
    timersOnce := List.nodup_nil
    once := List.nodup_nil
    released := fun _ mem => by cases mem
    fresh := fun _ _ => rfl
    waits := fun _ _ here => by cases here }
  freshSesss _ _ := rfl
  freshSubs _ _ := rfl
  freshMnats _ _ := rfl
  freshAudios _ _ := rfl
  sound := rfl

end

/-- Whatever happens in whatever order, a call is closed at most once and released then, and no handler is left that could
    be called with a call that is gone. -/
theorem closed_once (actions : List (Net × Action)) : Throughout step Kept init actions := by
  have run : Throughout step Inv init actions := throughout_of_invariant (fun _ action inv => inv.step action) init_inv
  exact run.mono fun _ inv => inv.kept

/-- The timeout of an incoming call and the CANCEL that comes after it. -/
example : ([(⟨true, true⟩, .accept false none true true), (⟨true, true⟩, .inviteTimeout 0), (⟨true, true⟩, .sessClosed 2 false true)].foldl
    step init).closed = [0] := by
  decide

end Baresip.Call.Closing
