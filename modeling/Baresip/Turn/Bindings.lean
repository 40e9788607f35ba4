import Baresip.Library.Numbering
import Baresip.Turn.Chan

set_option linter.dupNamespace false

namespace Baresip.Turn

open Re Library

/-- The numbers and the peers of the ChannelBind requests that were sent. -/
def bindings : List ChanEvent → List (Nat × Sa)
  | [] => []
  | .requested request :: events => (request.channelNumber.toNat, request.xorPeerAddr) :: bindings events
  | _ :: events => bindings events

/-- When the server last confirmed a binding. -/
def lastConfirmed (nr : BitVec 16) : List ChanEvent → Option Nat
  | [] => none
  | .confirmed nr' _ time :: events => if nr' = nr then some time else lastConfirmed nr events
  | _ :: events => lastConfirmed nr events

/-- ChannelData goes to the peer that the number was requested for, a Send indication to one without a number. -/
def Frames (bound : List (Nat × Sa)) (peer : Sa) : Sending → Prop
  | .channelData nr => (nr.toNat, peer) ∈ bound
  | .indication => peer ∉ bound.map Prod.snd
  | .noHeadroom => True

def Framed : List ChanEvent → Prop
  | [] => True
  | .sent peer sending _ :: events => Frames (bindings events) peer sending ∧ Framed events
  | _ :: events => Framed events

/-- ChannelData was sent only within the lifetime of a binding that the server had confirmed. -/
def WithinLifetime : List ChanEvent → Prop
  | [] => True
  | .sent _ (.channelData nr) time :: events =>
    (∃ confirmed ∈ lastConfirmed nr events, time ≤ confirmed + CHAN_LIFETIME * 1000) ∧ WithinLifetime events
  | _ :: events => WithinLifetime events

namespace Channels

def names (c : Channels) : List (Nat × Sa) := c.chans.map fun chan => (chan.nr.toNat, chan.peer)

/-- The refresh timer of a channel is set from its last confirmation. -/
def Refreshes (events : List ChanEvent) (chan : Chan) : Prop :=
  ∀ due ∈ chan.tmr, ∃ confirmed ∈ lastConfirmed chan.nr events, due = confirmed + CHAN_REFRESH * 1000

structure Sound (c : Channels) : Prop where
  numbers : (c.chans.map Chan.nr).Nodup
  peers : (c.chans.map Chan.peer).Nodup
  range : ∀ chan ∈ c.chans, 0x4000 ≤ chan.nr.toNat ∧ chan.nr.toNat < 0x7fff
  given : ∀ p ∈ bindings c.events, ∀ q ∈ bindings c.events, p.1 = q.1 → p.2 = q.2
  framed : Framed c.events
  refreshed : ∀ chan ∈ c.chans, Refreshes c.events chan

structure Inv (c : Channels) : Prop where
  numbered : Numbered CHAN_NUMB_MIN.toNat c.nr.toNat c.names
  counter : CHAN_NUMB_MIN.toNat ≤ c.nr.toNat ∧ c.nr.toNat ≤ CHAN_NUMB_MAX.toNat
  known : ∀ p ∈ c.names, p.2 ≠ .unspec
  bound : ∀ p, p ∈ bindings c.events ↔ p ∈ c.names
  framed : Framed c.events
  refreshed : ∀ chan ∈ c.chans, Refreshes c.events chan

section
variable {md5 : List Byte → List Byte} {c : Channels} {nr : BitVec 16} {f : Chan → Chan} {chan : Chan} {peer : Sa}

theorem Inv.sound (inv : Inv c) : Sound c where
  numbers := by
    have nodup := inv.numbered.numbers
    unfold names at nodup
    rw [List.map_map] at nodup
    exact List.Nodup.of_map BitVec.toNat (by rwa [List.map_map])
  peers := by
    have nodup := inv.numbered.keys
    unfold names at nodup
    rwa [List.map_map] at nodup
  range chan mem := by
    have range := inv.numbered.range _ (List.mem_map_of_mem mem)
    have counter := inv.counter.2
    exact ⟨range.1, Nat.lt_of_lt_of_le range.2 counter⟩
  given p mem q mem' same :=
    congrArg Prod.snd (inv.numbered.key_unique ((inv.bound p).mp mem) ((inv.bound q).mp mem') same)
  framed := inv.framed
  refreshed := inv.refreshed

theorem change_names (keeps : ∀ chan, (f chan).nr = chan.nr ∧ (f chan).peer = chan.peer) :
    (c.change nr f).names = c.names := by
  unfold names change
  rw [List.map_map]
  apply List.map_congr_left
  intro chan _
  by_cases here : chan.nr = nr
  · simp [here, keeps chan]
  · simp [here]

theorem change_held (keeps : ∀ chan, (f chan).nr = chan.nr ∧ (f chan).peer = chan.peer) {p : Nat × Sa}
    (held : p ∈ c.names) : p ∈ (c.change nr f).names := by
  rw [change_names keeps]
  exact held

/-- A change of one channel that leaves its timer alone or stops it. -/
theorem Inv.change (inv : Inv c) (keeps : ∀ chan, (f chan).nr = chan.nr ∧ (f chan).peer = chan.peer)
    (timer : ∀ chan, ∀ due ∈ (f chan).tmr, due ∈ chan.tmr) : Inv (c.change nr f) where
  numbered := by
    rw [change_names keeps]
    exact inv.numbered
  counter := inv.counter
  known := by
    rw [change_names keeps]
    exact inv.known
  bound := by
    rw [change_names keeps]
    exact inv.bound
  framed := inv.framed
  refreshed := by
    intro changed mem due set
    rcases List.mem_map.mp mem with ⟨chan, held, rfl⟩
    by_cases here : chan.nr = nr
    · rw [if_pos here] at set ⊢
      rw [(keeps chan).1]
      exact inv.refreshed chan held due (timer chan due set)
    · rw [if_neg here] at set ⊢
      exact inv.refreshed chan held due set

/-- An event that confirms nothing and asks for no other binding. -/
theorem Inv.log (inv : Inv c) {event : ChanEvent} (same : ∀ p, p ∈ bindings (event :: c.events) ↔ p ∈ bindings c.events)
    (confirms : ∀ nr, lastConfirmed nr (event :: c.events) = lastConfirmed nr c.events)
    (framed : Framed (event :: c.events)) : Inv (c.log event) where
  numbered := inv.numbered
  counter := inv.counter
  known := inv.known
  bound p := (same p).trans (inv.bound p)
  framed := framed
  refreshed chan mem due set := by
    have refreshed := inv.refreshed chan mem due set
    rwa [← confirms] at refreshed

theorem Inv.handler (inv : Inv c) (err : Option TurnErr) (scode : Nat) : Inv (c.handler err scode) :=
  inv.log (fun _ => Iff.rfl) (fun _ => rfl) inv.framed

theorem Inv.turnc (inv : Inv c) (turnc : Turnc) : Inv { c with turnc := turnc } :=
  ⟨inv.numbered, inv.counter, inv.known, inv.bound, inv.framed, inv.refreshed⟩

theorem Inv.elapse (inv : Inv c) (ms : Nat) : Inv { c with now := c.now + ms } :=
  ⟨inv.numbered, inv.counter, inv.known, inv.bound, inv.framed, inv.refreshed⟩

/-- A request for a binding that the tables hold already. -/
theorem Inv.chanbindRequest (inv : Inv c) (held : (nr.toNat, peer) ∈ c.names) (resetLs : Bool) (err : Option TurnErr) :
    Inv (c.chanbindRequest nr peer resetLs err) := by
  have changed : Inv (c.change nr fun chan =>
      { chan with ls := if resetLs then LoopState.reset else chan.ls, ct := err.isNone }) :=
    inv.change (fun _ => ⟨rfl, rfl⟩) fun _ _ set => set
  unfold Channels.chanbindRequest
  dsimp only
  by_cases fine : err.isNone = true
  · rw [if_pos fine]
    apply changed.log
    · intro p
      constructor
      · intro mem
        rcases List.mem_cons.mp mem with rfl | old
        · exact (inv.bound _).mpr held
        · exact old
      · exact List.mem_cons_of_mem _
    · exact fun _ => rfl
    · exact changed.framed
  · rw [if_neg fine]
    exact changed

/-- A confirmed binding, whose refresh timer is set. -/
theorem confirm_names : (c.confirm nr peer).names = c.names := change_names fun _ => ⟨rfl, rfl⟩

theorem Inv.confirm (inv : Inv c) (nr : BitVec 16) (peer : Sa) : Inv (c.confirm nr peer) where
  numbered := by
    rw [confirm_names]
    exact inv.numbered
  counter := inv.counter
  known := by
    rw [confirm_names]
    exact inv.known
  bound := by
    rw [confirm_names]
    exact inv.bound
  framed := inv.framed
  refreshed := by
    intro changed mem due set
    rcases List.mem_map.mp mem with ⟨chan, held, rfl⟩
    have last : lastConfirmed chan.nr (.confirmed nr peer c.now :: c.events) =
        if nr = chan.nr then some c.now else lastConfirmed chan.nr c.events := rfl
    by_cases here : chan.nr = nr
    · rw [if_pos here] at set ⊢
      rw [if_pos here.symm] at last
      exact ⟨c.now, last, (Option.some.inj set).symm⟩
    · rw [if_neg here] at set ⊢
      rw [if_neg fun same => here same.symm] at last
      rcases inv.refreshed chan held due set with ⟨confirmed, was, after_⟩
      exact ⟨confirmed, last.trans was, after_⟩

theorem findNumb_some (found : c.findNumb nr = some chan) : chan ∈ c.chans ∧ chan.nr = nr :=
  ⟨List.mem_of_find?_eq_some found, by simpa using List.find?_some found⟩

theorem findPeer_some (inv : Inv c) (found : c.findPeer peer = some chan) : (chan.nr.toNat, peer) ∈ c.names := by
  have held := List.mem_of_find?_eq_some found
  have same := List.find?_some found
  have equal : chan.peer = peer := by
    cases known : chan.peer with
    | unspec => exact absurd known (inv.known _ (List.mem_map_of_mem held))
    | inet addr port =>
      cases peer with
      | inet addr' port' => simpa [known, Sa.cmp, SaFlag.hasAddr, SaFlag.hasPort] using same
      | _ => simp [known, Sa.cmp] at same
    | inet6 addr port =>
      cases peer with
      | inet6 addr' port' => simpa [known, Sa.cmp, SaFlag.hasAddr, SaFlag.hasPort] using same
      | _ => simp [known, Sa.cmp] at same
  rw [← equal]
  exact List.mem_map_of_mem held

theorem findPeer_none (inv : Inv c) (missing : c.findPeer peer = none) : peer ∉ c.names.map Prod.snd := by
  intro mem
  rcases List.mem_map.mp mem with ⟨p, held, rfl⟩
  rcases List.mem_map.mp held with ⟨chan, here, rfl⟩
  have differ := List.find?_eq_none.mp missing chan here
  exact differ (Sa.cmp_self (inv.known _ held) .all)

theorem keygen_some {d : Channels} {msg : Reply} (keyed : c.keygen md5 msg = some d) :
    ∃ turnc, d = { c with turnc := turnc } := by
  unfold Channels.keygen at keyed
  split at keyed
  · injection keyed with same
    exact ⟨_, same.symm⟩
  · contradiction

theorem Inv.chanbindRespHandler (inv : Inv c) (held : (chan.nr.toNat, chan.peer) ∈ c.names) (err : Option Errno)
    (scode : Nat) (msg : Reply) (sent : Option Errno) : Inv (c.chanbindRespHandler md5 chan err scode msg sent) := by
  have counted : Inv (c.change chan.nr fun other => { other with ls := (requestLoops chan.ls scode).2 }) :=
    inv.change (fun _ => ⟨rfl, rfl⟩) fun _ _ set => set
  have names : (c.change chan.nr fun other => { other with ls := (requestLoops chan.ls scode).2 }).names = c.names :=
    change_names fun _ => ⟨rfl, rfl⟩
  rw [← names] at held
  unfold Channels.chanbindRespHandler
  dsimp only
  generalize (c.change chan.nr fun other => { other with ls := (requestLoops chan.ls scode).2 }) = d at *
  by_cases failed : err.isSome = true
  · rw [if_pos failed]
    exact inv.handler _ _
  rw [if_neg failed]
  by_cases loops : (requestLoops chan.ls scode).1 = true
  · rw [if_pos loops]
    exact counted.handler _ _
  rw [if_neg loops]
  by_cases success : scode = 0
  · rw [if_pos success]
    have confirmed := counted.confirm chan.nr chan.peer
    by_cases told : chan.ch = true
    · rw [if_pos told]
      exact confirmed.log (fun _ => Iff.rfl) (fun _ => rfl) confirmed.framed
    · rw [if_neg told]
      exact confirmed
  rw [if_neg success]
  by_cases auth : scode = 401 ∨ scode = 438
  · rw [if_pos auth]
    cases keyed : d.keygen md5 msg with
    | none => exact counted.handler _ _
    | some e =>
      rcases keygen_some keyed with ⟨turnc, rfl⟩
      have again := (counted.turnc turnc).chanbindRequest held false (requestErr chan.peer sent)
      dsimp only
      by_cases refused : (requestErr chan.peer sent).isSome = true
      · rw [if_pos refused]
        exact again.handler _ _
      · rw [if_neg refused]
        exact again
  · rw [if_neg auth]
    exact counted.handler _ _

theorem Inv.timeout (inv : Inv c) (held : (chan.nr.toNat, chan.peer) ∈ c.names) (sent : Option Errno) :
    Inv (c.timeout chan sent) := by
  have again := inv.chanbindRequest held true (requestErr chan.peer sent)
  unfold Channels.timeout
  dsimp only
  by_cases refused : (requestErr chan.peer sent).isSome = true
  · rw [if_pos refused]
    exact again.handler _ _
  · rw [if_neg refused]
    exact again

theorem Inv.sending (inv : Inv c) (dst : Sa) (pos : Nat) : Frames (bindings c.events) dst (c.sending dst pos) := by
  unfold Channels.sending
  cases found : c.findPeer dst with
  | none =>
    dsimp only
    split_ifs with short
    · trivial
    · intro mem
      rcases List.mem_map.mp mem with ⟨p, bound, same⟩
      exact findPeer_none inv found (List.mem_map.mpr ⟨p, (inv.bound p).mp bound, same⟩)
  | some chan =>
    dsimp only
    split_ifs with short
    · trivial
    · exact (inv.bound _).mpr (findPeer_some inv found)

/-- A channel whose request has been sent is in the tables. -/
theorem Inv.added (inv : Inv c) (known : peer ≠ .unspec)
    (counter : CHAN_NUMB_MIN.toNat ≤ (c.nr + 1).toNat ∧ (c.nr + 1).toNat ≤ CHAN_NUMB_MAX.toNat)
    (next : (c.nr + 1).toNat = c.nr.toNat + 1) (fresh : peer ∉ c.names.map Prod.snd) (ch : Bool) :
    Inv (Channels.chanbindRequest
      { c with nr := c.nr + 1, chans := c.chans ++ [⟨LoopState.reset, c.nr, peer, none, false, ch⟩] } c.nr peer true
      none) := by
  generalize new : ({ c with nr := c.nr + 1, chans := c.chans ++ [⟨LoopState.reset, c.nr, peer, none, false, ch⟩] } :
    Channels) = d
  have names : (d.chanbindRequest c.nr peer true none).names = c.names ++ [(c.nr.toNat, peer)] := by
    subst new
    have kept : names (Channels.chanbindRequest _ c.nr peer true none) =
        names { c with nr := c.nr + 1, chans := c.chans ++ [⟨LoopState.reset, c.nr, peer, none, false, ch⟩] } :=
      change_names fun _ => ⟨rfl, rfl⟩
    rw [kept]
    exact List.map_append
  have bound : bindings (d.chanbindRequest c.nr peer true none).events =
      (c.nr.toNat, peer) :: bindings c.events := by
    subst new
    rfl
  have timers : ∀ chan ∈ d.chans, Refreshes c.events chan := by
    subst new
    intro chan mem
    rcases List.mem_append.mp mem with old | last
    · exact inv.refreshed chan old
    · rw [List.mem_singleton.mp last]
      exact fun _ set => by contradiction
  have counter' : (d.chanbindRequest c.nr peer true none).nr = c.nr + 1 := by
    subst new
    rfl
  constructor
  · rw [names, counter', next]
    exact inv.numbered.push inv.counter.1 fresh
  · rw [counter']
    exact counter
  · rw [names]
    intro p mem
    rcases List.mem_append.mp mem with old | last
    · exact inv.known p old
    · rw [List.mem_singleton.mp last]
      exact known
  · intro p
    rw [bound, names, List.mem_cons, List.mem_append, List.mem_singleton, inv.bound, or_comm]
  · subst new
    exact inv.framed
  · subst new
    intro changed mem due set
    rcases List.mem_map.mp mem with ⟨chan, held, rfl⟩
    have refreshes := timers chan held
    by_cases here : chan.nr = c.nr
    · rw [if_pos here] at set ⊢
      exact refreshes due set
    · rw [if_neg here] at set ⊢
      exact refreshes due set

theorem Inv.addChan (inv : Inv c) (peer : Sa) (ch : Bool) (sent : Option Errno) : Inv (c.addChan peer ch sent).2 := by
  unfold Channels.addChan
  by_cases last : c.nr ≥ CHAN_NUMB_MAX
  · rw [if_pos last]
    exact inv
  rw [if_neg last]
  by_cases there : (c.findPeer peer).isSome = true
  · rw [if_pos there]
    exact inv
  rw [if_neg there]
  dsimp only
  have room : c.nr.toNat < CHAN_NUMB_MAX.toNat := Nat.lt_of_not_le last
  have next : (c.nr + 1).toNat = c.nr.toNat + 1 := by
    have small : c.nr.toNat + 1 < 2 ^ 16 := Nat.lt_of_le_of_lt room (by decide)
    rw [BitVec.toNat_add]
    exact Nat.mod_eq_of_lt small
  have counter : CHAN_NUMB_MIN.toNat ≤ (c.nr + 1).toNat ∧ (c.nr + 1).toNat ≤ CHAN_NUMB_MAX.toNat := by
    rw [next]
    exact ⟨Nat.le_succ_of_le inv.counter.1, room⟩
  cases err : requestErr peer sent with
  | some e =>
    exact {
      numbered := by
        show Numbered _ (c.nr + 1).toNat c.names
        rw [next]
        exact inv.numbered.skip
      counter := counter
      known := inv.known
      bound := inv.bound
      framed := inv.framed
      refreshed := inv.refreshed }
  | none =>
    have known : peer ≠ .unspec := by
      rintro rfl
      cases err
    have fresh : peer ∉ c.names.map Prod.snd := findPeer_none inv (Option.not_isSome_iff_eq_none.mp there)
    exact inv.added known counter next fresh ch

theorem Inv.response (inv : Inv c) (nr : BitVec 16) (err : Option Errno) (scode : Nat) (msg : Reply)
    (sent : Option Errno) : Inv (c.response md5 nr err scode msg sent) := by
  unfold Channels.response
  cases found : c.findNumb nr with
  | none => exact inv
  | some chan =>
    have held := findNumb_some found
    by_cases pending : chan.ct = true
    · simp only [pending, if_true]
      apply Inv.chanbindRespHandler
      · exact inv.change (fun _ => ⟨rfl, rfl⟩) fun _ _ set => set
      · apply change_held
        · exact fun _ => ⟨rfl, rfl⟩
        · exact List.mem_map_of_mem held.1
    · simp only [pending]
      exact inv

theorem Inv.expiry (inv : Inv c) (nr : BitVec 16) (sent : Option Errno) : Inv (c.expiry nr sent) := by
  unfold Channels.expiry
  cases found : c.findNumb nr with
  | none => exact inv
  | some chan =>
    have held := findNumb_some found
    by_cases due : chan.tmr.any (· ≤ c.now) = true
    · simp only [due, if_true]
      apply Inv.timeout
      · exact inv.change (fun _ => ⟨rfl, rfl⟩) fun _ _ set => by contradiction
      · apply change_held
        · exact fun _ => ⟨rfl, rfl⟩
        · exact List.mem_map_of_mem held.1
    · simp only [due]
      exact inv

theorem Inv.step (md5 : List Byte → List Byte) (c : Channels) (a : ChanAction) (inv : Inv c) : Inv (c.step md5 a) := by
  cases a with
  | addChan peer ch sent => exact inv.addChan peer ch sent
  | response nr err scode msg sent => exact inv.response nr err scode msg sent
  | expiry nr sent => exact inv.expiry nr sent
  | send peer pos => exact inv.log (fun _ => Iff.rfl) (fun _ => rfl) ⟨inv.sending peer pos, inv.framed⟩
  | elapse ms => exact inv.elapse ms
  | client turnc => exact inv.turnc turnc

theorem Inv.alloc (turnc : Turnc) : Inv (alloc turnc) where
  numbered := Numbered.nil _ _
  counter := by
    show 0x4000 ≤ 0x4000 ∧ 0x4000 ≤ 0x7fff
    omega
  known := by simp [names, Channels.alloc]
  bound := by simp [bindings, names, Channels.alloc]
  framed := trivial
  refreshed := by simp [Channels.alloc]

end

/-- Numbers and peers correspond one to one, and a payload is framed by what has been asked of the server. -/
theorem channels_sound (md5 : List Byte → List Byte) (turnc : Turnc) (actions : List ChanAction) :
    Throughout (step md5) Sound (alloc turnc) actions :=
  (throughout_of_invariant (Inv.step md5) (Inv.alloc turnc)).mono fun _ inv => inv.sound

/-- A server that grants nothing but the first binding. -/
def silent : Reply := ⟨none, none, none, none, none, none⟩

def peer : Sa := .inet 0xc0000201 5004

def client : Turnc := (Turn.alloc .udp (.inet 0x0a000003 3478) [117#8] [112#8] 600).turnc

/-- ChannelData is sent before the first response, and after the lifetime of a binding whose refresh has failed. -/
theorem sent_outside_lifetime :
    ¬ Throughout (step id) (fun c => WithinLifetime c.events) (alloc client)
      [.addChan peer true none, .send peer 36] ∧
    ¬ Throughout (step id) (fun c => WithinLifetime c.events) (alloc client)
      [.addChan peer true none, .response CHAN_NUMB_MIN none 0 silent none, .elapse 250000, .expiry CHAN_NUMB_MIN none,
        .response CHAN_NUMB_MIN (some .ETIMEDOUT) 0 silent none, .elapse 400000, .send peer 36] := by
  constructor
  · intro all
    rcases all.last with ⟨⟨confirmed, known, _⟩, _⟩
    cases known
  · intro all
    rcases all.last with ⟨⟨confirmed, known, within⟩, _⟩
    cases known
    exact absurd within (by decide)

end Channels

end Baresip.Turn
