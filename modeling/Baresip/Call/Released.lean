import Baresip.Call.Closed

set_option linter.dupNamespace false

namespace Baresip.Call.Closing

open Library

section
variable {net : Net} {w w' : World} {c : Nat} {call call' : CallObj}

theorem Near.freed (inv : Inv w) (here : w.calls c = some call) (near : Near w w' c call) (same : w'.subs = w.subs) :
    Freed w.subs (w'.derefCall net c).subs Sub.arg call.sub := by
  rw [derefCall_eq (by rw [near.calls, here]) near.safe]
  show Freed w.subs (modify w'.subs call.sub _) Sub.arg call.sub
  rw [same]
  exact inv.subFreed here

theorem Near.keptRelease (inv : Inv w) (here : w.calls c = some call) (near : Near w w' c call) (same : w'.subs = w.subs) :
    Inv (w'.derefCall net c) :=
  inv.gone here (near.derefCall inv here (near.freed inv here same))

theorem Near.keptClosed (inv : Inv w) (here : w.calls c = some call) (near : Near w w' c call) (same : w'.subs = w.subs) :
    Inv (w'.closedEvent net c) := by
  have freed : Freed w.subs (w'.closedEvent net c).subs Sub.arg call.sub := by
    rw [closedEvent_eq (by rw [near.calls, here]) near.safe]
    exact near.freed inv here same
  exact inv.gone here (near.closedEvent inv here freed)

theorem Inv.derefCall (inv : Inv w) (here : w.calls c = some call) : Inv (w.derefCall net c) :=
  (inv.near here).keptRelease inv here rfl

theorem Inv.stopClosed (inv : Inv w) (here : w.calls c = some call) (near : Near w w' c call) (same : w'.subs = w.subs) :
    Inv ((w'.callStreamStop c).closedEvent net c) := by
  apply (near.stopped here).keptClosed inv here
  rw [callStreamStop_eq (by rw [near.calls, here]) near.safe]
  exact same

theorem Inv.tmrCancel (inv : Inv w) : Inv (w.tmrCancel c) :=
  { inv with calls := inv.calls.cancelled List.erase_sublist }

theorem Inv.inviteTimeout (inv : Inv w) (runs : c ∈ w.timers) : Inv ((w.tmrCancel c).inviteTimeout net c) := by
  rcases Option.isSome_iff_exists.mp (inv.calls.running c runs) with ⟨call, here⟩
  have cancelled : Inv (w.tmrCancel c) := inv.tmrCancel
  have live : (w.tmrCancel c).calls c = some call := here
  rw [World.inviteTimeout, check_live live]
  exact (cancelled.near live).keptClosed cancelled live rfl

theorem Inv.audioErrorHandler (inv : Inv w) (here : w.calls c = some call) : Inv (w.audioErrorHandler net c) := by
  rw [World.audioErrorHandler, check_live here]
  exact inv.stopClosed here (inv.near here) rfl

/-- A session changes, or goes once its call is none. -/
theorem Inv.setSess (inv : Inv w) {s : Nat} {sess : Sess} (there : w.sesss s = some sess) {next : Option Sess}
    (same : ∀ sess' ∈ next, sess'.arg = sess.arg) (good : ∀ sess' ∈ next, sess.arg ≠ none → SessOwn sess → SessOwn sess')
    (stays : sess.arg ≠ none → next.isSome) : Inv (w.setSess s next) :=
  { inv with
    sesss := inv.sesss.partChanged there same good stays
    freshSesss := inv.freshSesss.update (inv.freshSesss.old there) }

theorem Inv.setSub (inv : Inv w) {n : Nat} {sub : Sub} (there : w.subs n = some sub) {next : Option Sub}
    (same : ∀ sub' ∈ next, sub'.arg = sub.arg) (good : ∀ sub' ∈ next, sub.arg ≠ none → SubOwn sub → SubOwn sub')
    (stays : sub.arg ≠ none → next.isSome) : Inv (w.setSub n next) :=
  { inv with
    subs := inv.subs.partChanged there same good stays
    freshSubs := inv.freshSubs.update (inv.freshSubs.old there) }

theorem Inv.sessLoose (inv : Inv w) {s : Nat} {sess : Sess} (there : w.sesss s = some sess) (loose : sess.arg = none)
    {next : Option Sess} (loose' : ∀ sess' ∈ next, sess'.arg = none) : Inv (w.setSess s next) := by
  apply inv.setSess there
  · intro sess' new
    rw [loose, loose' sess' new]
  · intro _ _ tied
    exact absurd loose tied
  · intro tied
    exact absurd loose tied

theorem Inv.subLoose (inv : Inv w) {n : Nat} {sub : Sub} (there : w.subs n = some sub) (loose : sub.arg = none)
    {next : Option Sub} (loose' : ∀ sub' ∈ next, sub'.arg = none) : Inv (w.setSub n next) := by
  apply inv.setSub there
  · intro sub' new
    rw [loose, loose' sub' new]
  · intro _ _ tied
    exact absurd loose tied
  · intro tied
    exact absurd loose tied

theorem Inv.setCall (inv : Inv w) (here : w.calls c = some call) (sess : call'.sess = call.sess) (sub : call'.sub = call.sub)
    (mnats : call'.mnats = call.mnats) (audio : call'.audio = call.audio)
    (waits : call'.mnats.isSome → call'.mnatWait → call'.state = .outgoing → call'.sess = none) :
    Inv (w.setCall c (some call')) :=
  { inv with
    sesss := inv.sesss.ownerChanged here sess
    subs := inv.subs.ownerChanged here sub
    mnats := inv.mnats.ownerChanged here mnats
    audios := inv.audios.ownerChanged here audio
    calls := inv.calls.changed here waits }

variable (call') in
theorem Inv.newSess (inv : Inv w) (here : w.calls c = some call) (vacant : call.sess = none) (sub : call'.sub = call.sub)
    (mnats : call'.mnats = call.mnats) (audio : call'.audio = call.audio) {req : Bool}
    (settled : call'.mnats.isSome → call'.mnatWait → call'.state ≠ .outgoing) : Inv (w.newSess c call' req) :=
  { inv with
    sesss := by
      apply inv.sesss.attach _ (inv.freshSesss w.next (Nat.le_refl _)) rfl ⟨rfl, rfl⟩ rfl
      intro old live
      rw [here] at live
      cases live
      exact vacant
    subs := inv.subs.ownerChanged here sub
    mnats := inv.mnats.ownerChanged here mnats
    audios := inv.audios.ownerChanged here audio
    calls := by
      apply (inv.calls.changed here _).mono (Nat.le_succ _)
      intro some_ waiting outgoing
      exact absurd outgoing (settled some_ waiting)
    freshSesss := inv.freshSesss.extend
    freshSubs := inv.freshSubs.mono (Nat.le_succ _)
    freshMnats := inv.freshMnats.mono (Nat.le_succ _)
    freshAudios := inv.freshAudios.mono (Nat.le_succ _) }

theorem Inv.newCall (inv : Inv w) : Inv w.newCall :=
  have unused : w.calls w.next = none := inv.calls.fresh w.next (Nat.le_refl _)
  { inv with
    sesss := inv.sesss.vacant unused rfl
    subs := inv.subs.vacant unused rfl
    mnats := inv.mnats.vacant unused rfl
    audios := inv.audios.vacant unused rfl
    calls := inv.calls.new (fun _ _ _ => rfl)
    freshSesss := inv.freshSesss.mono (Nat.le_succ _)
    freshSubs := inv.freshSubs.mono (Nat.le_succ _)
    freshMnats := inv.freshMnats.mono (Nat.le_succ _)
    freshAudios := inv.freshAudios.mono (Nat.le_succ _) }

theorem Inv.newMnatSess (inv : Inv w) (here : w.calls c = some call) (vacant : call.mnats = none) (unused : call.sess = none) :
    Inv (w.newMnatSess c) := by
  rw [World.newMnatSess, here]
  exact { inv with
    sesss := inv.sesss.ownerChanged here rfl
    subs := inv.subs.ownerChanged here rfl
    mnats := by
      apply inv.mnats.attach _ (inv.freshMnats w.next (Nat.le_refl _)) rfl trivial rfl
      intro old live
      rw [here] at live
      cases live
      exact vacant
    audios := inv.audios.ownerChanged here rfl
    calls := by
      apply Tracked.mono _ (Nat.le_succ _)
      apply inv.calls.changed here
      intro _ _ _
      exact unused
    freshSesss := inv.freshSesss.mono (Nat.le_succ _)
    freshSubs := inv.freshSubs.mono (Nat.le_succ _)
    freshMnats := inv.freshMnats.extend
    freshAudios := inv.freshAudios.mono (Nat.le_succ _) }

theorem Inv.newAudio (inv : Inv w) (here : w.calls c = some call) (vacant : call.audio = none) (unused : call.sess = none) :
    Inv (w.newAudio c) := by
  rw [World.newAudio, here]
  exact { inv with
    sesss := inv.sesss.ownerChanged here rfl
    subs := inv.subs.ownerChanged here rfl
    mnats := inv.mnats.ownerChanged here rfl
    audios := by
      apply inv.audios.attach _ (inv.freshAudios w.next (Nat.le_refl _)) rfl trivial (rfl : some (Audio.mk c false).arg = some c)
      intro old live
      rw [here] at live
      cases live
      exact vacant
    calls := by
      apply Tracked.mono _ (Nat.le_succ _)
      apply inv.calls.changed here
      intro _ _ _
      exact unused
    freshSesss := inv.freshSesss.mono (Nat.le_succ _)
    freshSubs := inv.freshSubs.mono (Nat.le_succ _)
    freshMnats := inv.freshMnats.mono (Nat.le_succ _)
    freshAudios := inv.freshAudios.extend }

theorem Inv.audioChanged (inv : Inv w) (here : w.calls c = some call) {f : Audio → Audio}
    (same : ∀ audio, (f audio).arg = audio.arg) :
    Inv { w with audios := modify w.audios call.audio fun audio => some (f audio) } := by
  cases points : call.audio with
  | none =>
    rw [modify_null]
    exact inv
  | some a =>
    rcases inv.audios.pointers here points with ⟨audio, there, _⟩
    rw [modify_live there]
    exact { inv with
      audios := by
        apply inv.audios.partChanged there
        · intro audio' new
          cases new
          exact congrArg some (same audio)
        · intro _ _ _ _
          trivial
        · intro _
          rfl
      freshAudios := inv.freshAudios.update (inv.freshAudios.old there) }

theorem Inv.callStreamStop (inv : Inv w) (here : w.calls c = some call) : Inv (w.callStreamStop c) := by
  rw [callStreamStop_eq here (inv.safe here)]
  have stopped : Inv { w with audios := modify w.audios call.audio fun audio => some { audio with running := false } } :=
    inv.audioChanged here (fun _ => rfl)
  exact stopped.tmrCancel

theorem Inv.callStreamStart (inv : Inv w) (here : w.calls c = some call) (start active : Bool) :
    Inv (w.callStreamStart c start active) := by
  have started : Inv (w.audioStart call.audio start) := by
    rw [World.audioStart, (inv.safe here).audio, Bool.or_false]
    exact inv.audioChanged here (fun _ => rfl)
  rw [World.callStreamStart, check_live here, here]
  dsimp only [Option.bind_some]
  split
  · exact started.tmrCancel
  · exact started

/-- A call that `call_alloc` has made. -/
structure Ready (w : World) (c : Nat) (mnat : Bool) (call : CallObj) : Prop where
  here : w.calls c = some call
  idle : call.state = .idle
  sess : call.sess = none
  mnats : mnat = false → call.mnats = none
  timers : c ∉ w.timers

theorem newCall_ready (inv : Inv w) (mnat : Bool) : Ready w.newCall w.next mnat ⟨.idle, none, none, none, none, false⟩ where
  here := Function.update_self _ _ _
  idle := rfl
  sess := rfl
  mnats _ := rfl
  timers mem := by
    have live := inv.calls.running w.next mem
    rw [inv.calls.fresh w.next (Nat.le_refl _)] at live
    cases live

theorem newMnatSess_ready (ready : Ready w c true call) : Ready (w.newMnatSess c) c true { call with mnats := some w.next } where
  here := by
    rw [World.newMnatSess, ready.here]
    exact Function.update_self _ _ _
  idle := ready.idle
  sess := ready.sess
  mnats off := by cases off
  timers := ready.timers

theorem newAudio_ready {mnat : Bool} (ready : Ready w c mnat call) :
    Ready (w.newAudio c) c mnat { call with audio := some w.next, mnatWait := true } where
  here := by
    rw [World.newAudio, ready.here]
    exact Function.update_self _ _ _
  idle := ready.idle
  sess := ready.sess
  mnats := ready.mnats
  timers := ready.timers

variable (net) in
theorem Inv.callAlloc (inv : Inv w) (mnat : Bool) (err : Option World.Stage) :
    Inv (w.callAlloc net mnat err).2 ∧
      ((w.callAlloc net mnat err).1 = true → ∃ call, Ready (w.callAlloc net mnat err).2 w.next mnat call) := by
  have ready := newCall_ready inv mnat
  have rest {w' : World} {call : CallObj} (inv' : Inv w') (ready : Ready w' w.next mnat call) (vacant : call.audio = none) :
      let result := if err = some .audio then (false, w'.derefCall net w.next)
        else if err = some .video then (false, (w'.newAudio w.next).derefCall net w.next) else (true, w'.newAudio w.next)
      Inv result.2 ∧ (result.1 = true → ∃ call, Ready result.2 w.next mnat call) := by
    have ready' := newAudio_ready ready
    have inv'' := inv'.newAudio ready.here vacant ready.sess
    dsimp only
    split
    · exact ⟨inv'.derefCall ready.here, fun made => by cases made⟩
    · split
      · exact ⟨inv''.derefCall ready'.here, fun made => by cases made⟩
      · exact ⟨inv'', fun _ => ⟨_, ready'⟩⟩
  unfold World.callAlloc
  dsimp only
  split
  · exact ⟨inv.newCall.derefCall ready.here, fun made => by cases made⟩
  · cases mnat with
    | false => exact rest inv.newCall ready rfl
    | true => exact rest (inv.newCall.newMnatSess ready.here rfl rfl) (newMnatSess_ready ready) rfl

theorem Inv.connect (inv : Inv w) {mnat : Bool} {err : Option World.Stage} {ok : Bool} : Inv (w.connect net mnat err ok) := by
  rcases inv.callAlloc net mnat err with ⟨inv', made⟩
  unfold World.connect
  dsimp only
  generalize w.callAlloc net mnat err = result at inv' made ⊢
  cases allocated : result.1 with
  | false => exact inv'
  | true =>
    rcases made allocated with ⟨call, ready⟩
    cases ok with
    | false => exact inv'.derefCall ready.here
    | true =>
      rw [ready.here]
      cases mnat with
      | false =>
        have off : call.mnats = none := ready.mnats rfl
        have sent : Inv (result.2.newSess w.next { call with state := .outgoing } true) :=
          inv'.newSess { call with state := .outgoing } ready.here ready.sess rfl rfl rfl fun some_ => by simp [off] at some_
        exact sent
      | true =>
        have waiting : Inv (result.2.setCall w.next (some { call with state := .outgoing })) :=
          inv'.setCall ready.here rfl rfl rfl rfl fun _ _ _ => ready.sess
        exact waiting

theorem Inv.accept (inv : Inv w) {mnat : Bool} {err : Option World.Stage} {ok start : Bool} :
    Inv (w.accept net mnat err ok start) := by
  rcases inv.callAlloc net mnat err with ⟨inv', made⟩
  unfold World.accept
  dsimp only
  generalize w.callAlloc net mnat err = result at inv' made ⊢
  cases allocated : result.1 with
  | false => exact inv'
  | true =>
    rcases made allocated with ⟨call, ready⟩
    cases ok with
    | false => exact inv'.derefCall ready.here
    | true =>
      rw [ready.here]
      have invited : Inv (result.2.newSess w.next { call with state := .incoming } false) :=
        inv'.newSess { call with state := .incoming } ready.here ready.sess rfl rfl rfl fun _ _ outgoing => by cases outgoing
      have live : (result.2.newSess w.next { call with state := .incoming } false).calls w.next =
          some { call with state := .incoming, sess := some result.2.next } := Function.update_self _ _ _
      have waiting : Inv { result.2.newSess w.next { call with state := .incoming } false with
          timers := w.next :: result.2.timers } :=
        { invited with calls := invited.calls.started live ready.timers }
      cases mnat with
      | false =>
        have started := waiting.callStreamStart live start false
        exact started
      | true => exact waiting

theorem Inv.options (inv : Inv w) {err : Option World.Stage} : Inv (w.options net err) := by
  rcases inv.callAlloc net false err with ⟨inv', made⟩
  unfold World.options
  dsimp only
  split
  · rename_i allocated
    rcases made allocated with ⟨call, ready⟩
    exact inv'.derefCall ready.here
  · exact inv'

theorem Inv.sessFreed (inv : Inv w) (here : w.calls c = some call) :
    Freed w.sesss (modify w.sesss call.sess fun sess => sess.deref net.bye) Sess.arg call.sess := by
  apply Freed.modify
  intro s sess sess' points there kept
  exact Sess.deref_arg ((inv.near here).ending s sess points there) kept

theorem Inv.sessReleased (inv : Inv w) (here : w.calls c = some call) :
    Inv ((w.derefSess net call.sess).setCall c (some { call with sess := none })) := by
  rw [World.derefSess, (inv.safe here).sess, Bool.or_false]
  exact { inv with
    sesss := by
      apply inv.sesss.release here (inv.sessFreed here)
      intro owner new
      cases new
      rfl
    subs := inv.subs.ownerChanged here rfl
    mnats := inv.mnats.ownerChanged here rfl
    audios := inv.audios.ownerChanged here rfl
    calls := inv.calls.changed here fun _ _ _ => rfl
    freshSesss := inv.freshSesss.modify }

/-- The subscription of a call has been replaced by what does not have it as its argument. -/
theorem Inv.subReleased (inv : Inv w) (here : w.calls c = some call) {subs : Nat → Option Sub}
    (freed : Freed w.subs subs Sub.arg call.sub) : Inv { w.setCall c (some { call with sub := none }) with subs := subs } :=
  { inv with
    sesss := inv.sesss.ownerChanged here rfl
    subs := by
      apply inv.subs.release here freed
      intro owner new
      cases new
      rfl
    mnats := inv.mnats.ownerChanged here rfl
    audios := inv.audios.ownerChanged here rfl
    calls := inv.calls.changed here (inv.calls.waits c call here)
    freshSubs := inv.freshSubs.freed inv.subs here freed }

theorem Inv.hangup (inv : Inv w) : Inv (w.hangup net c) := by
  unfold World.hangup
  cases here : w.calls c with
  | none => exact inv
  | some call =>
    dsimp only
    split
    · exact ((inv.near here).stopped here).keptRelease inv here (by rw [callStreamStop_eq here (inv.safe here)])
    · have released : Inv ((w.derefSess net call.sess).setCall c (some { call with sess := none })) := inv.sessReleased here
      have live : ((w.derefSess net call.sess).setCall c (some { call with sess := none })).calls c =
          some { call with sess := none } := Function.update_self _ _ _
      apply ((released.near live).stopped live).keptRelease released live
      rw [callStreamStop_eq live (released.safe live)]

theorem Inv.newSub (inv : Inv w) (here : w.calls c = some call) (vacant : call.sub = none) (sub : Sub) (arg : sub.arg = some c)
    (own : SubOwn sub) :
    Inv { (w.setSub w.next (some sub)).setCall c (some { call with sub := some w.next }) with next := w.next + 1 } :=
  { inv with
    sesss := inv.sesss.ownerChanged here rfl
    subs := by
      apply inv.subs.attach _ (inv.freshSubs w.next (Nat.le_refl _)) rfl own arg
      intro old live
      rw [here] at live
      cases live
      exact vacant
    mnats := inv.mnats.ownerChanged here rfl
    audios := inv.audios.ownerChanged here rfl
    calls := by
      apply Tracked.mono _ (Nat.le_succ _)
      apply inv.calls.changed here
      exact inv.calls.waits c call here
    freshSesss := inv.freshSesss.mono (Nat.le_succ _)
    freshSubs := inv.freshSubs.extend
    freshMnats := inv.freshMnats.mono (Nat.le_succ _)
    freshAudios := inv.freshAudios.mono (Nat.le_succ _) }

theorem Inv.transfer (inv : Inv w) {ok : Bool} : Inv (w.transfer net c ok) := by
  unfold World.transfer
  cases here : w.calls c with
  | none => exact inv
  | some call =>
    have freed : Freed w.subs (modify w.subs call.sub fun sub => sub.deref net.unsubscribe) Sub.arg call.sub :=
      inv.subFreed here
    have released := inv.subReleased here freed
    dsimp only
    rw [World.derefSub, (inv.safe here).sub, Bool.or_false]
    split
    · have live : (Function.update w.calls c (some { call with sub := none })) c = some { call with sub := none } :=
        Function.update_self _ _ _
      have renewed := released.newSub live rfl ⟨some c, false, false, false, true, true, false, 1⟩ rfl ⟨rfl, rfl⟩
      simp only [World.setCall, World.setSub, Function.update_idem] at renewed ⊢
      exact renewed
    · exact released

theorem Inv.mnatHandler (inv : Inv w) {m : Nat} {sess : MnatSess} (there : w.mnatSesss m = some sess) {failed ok start : Bool} :
    Inv (w.mnatHandler net sess.arg failed ok start) := by
  rcases (inv.mnats.backs there rfl).2 with ⟨call, here, points⟩
  unfold World.mnatHandler
  rw [here]
  dsimp only
  split
  · exact (inv.near here).keptClosed inv here rfl
  · split
    · exact inv
    · rename_i waiting
      have waiting : call.mnatWait = true := by simpa using waiting
      have settled : Inv (w.setCall sess.arg (some { call with mnatWait := false })) :=
        inv.setCall here rfl rfl rfl rfl fun _ wait => by cases wait
      split
      · rename_i outgoing
        unfold World.sendInvite
        split
        · have vacant : call.sess = none := inv.calls.waits _ call here (by rw [points]; rfl) waiting outgoing
          exact inv.newSess { call with mnatWait := false } here vacant rfl rfl rfl fun _ wait => by cases wait
        · exact settled
      · exact settled.callStreamStart (Function.update_self _ _ _) start false
      · exact settled

end

end Baresip.Call.Closing
