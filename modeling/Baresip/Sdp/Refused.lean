import Baresip.Sdp.Lines

set_option linter.dupNamespace false

namespace Baresip.Sdp

open Re

variable {δ : Type} {pton : InetPton}

/-- The local side of a session is as it was, where that of a media line is what `sdp_media_rreset` leaves of it.
    Local media lines may have been put behind the others, among new ones without formats that are disabled. -/
structure LocalKept (before after : SdpSession δ) : Prop where
  laddr : after.laddr = before.laddr
  lattrl : after.lattrl = before.lattrl
  lbwv : after.lbwv = before.lbwv
  ident : after.id = before.id ∧ after.ver = before.ver
  media : ∃ added new, after.medial.map sdpMediaRreset = before.medial.map sdpMediaRreset ++ added ∧
    (added ++ after.lmedial.map sdpMediaRreset).Perm (before.lmedial.map sdpMediaRreset ++ new) ∧
    ∀ m ∈ new, m.disabled = true ∧ m.lfmtl = []

theorem LocalKept.trans {a b c : SdpSession δ} (first : LocalKept a b) (second : LocalKept b c) : LocalKept a c := by
  obtain ⟨added₁, new₁, medial₁, lmedial₁, off₁⟩ := first.media
  obtain ⟨added₂, new₂, medial₂, lmedial₂, off₂⟩ := second.media
  refine ⟨second.laddr.trans first.laddr, second.lattrl.trans first.lattrl, second.lbwv.trans first.lbwv,
    ⟨second.ident.1.trans first.ident.1, second.ident.2.trans first.ident.2⟩, added₁ ++ added₂, new₁ ++ new₂, ?_, ?_,
    ?_⟩
  · rw [medial₂, medial₁, List.append_assoc]
  · calc
      (added₁ ++ added₂ ++ c.lmedial.map sdpMediaRreset).Perm (added₁ ++ (b.lmedial.map sdpMediaRreset ++ new₂)) := by
        rw [List.append_assoc]
        exact lmedial₂.append_left added₁
      List.Perm _ (a.lmedial.map sdpMediaRreset ++ new₁ ++ new₂) := by
        rw [← List.append_assoc]
        exact lmedial₁.append_right new₂
      _ = _ := List.append_assoc _ _ _
  · intro m member
    rcases List.mem_append.mp member with old | new
    · exact off₁ m old
    · exact off₂ m new

theorem LocalKept.of_remote {a b : SdpSession δ} (laddr : b.laddr = a.laddr) (lattrl : b.lattrl = a.lattrl)
    (lbwv : b.lbwv = a.lbwv) (ident : b.id = a.id ∧ b.ver = a.ver) (lmedial : b.lmedial = a.lmedial)
    (medial : b.medial.map sdpMediaRreset = a.medial.map sdpMediaRreset) : LocalKept a b := by
  refine ⟨laddr, lattrl, lbwv, ident, [], [], ?_, ?_, ?_⟩
  · rw [medial, List.append_nil]
  · rw [lmedial, List.nil_append, List.append_nil]
  · intro m member
    exact absurd member List.not_mem_nil

theorem LocalKept.of_same {s s' : SdpReader δ} (same : SameLines s s') : LocalKept s.sess s'.sess := by
  refine .of_remote same.laddr same.lattrl same.lbwv same.ident same.lmedial ?_
  have local_ := congrArg (List.map Prod.fst) same.medial
  rw [List.map_map, List.map_map] at local_
  exact local_

theorem mediaFormats_local (calls : Nat) (m : SdpMline δ) (fmtv : List Byte) :
    sdpMediaRreset (mediaFormats calls m fmtv) = sdpMediaRreset m := by
  induction calls generalizing m fmtv with
  | zero => rfl
  | succ calls ih =>
    rw [mediaFormats]
    split
    · exact ih _ _
    · rfl

theorem mediaRemote_local (sess : SdpSession δ) (m : SdpMline δ) (port fmtv : Pl) :
    sdpMediaRreset (mediaRemote sess m port fmtv) = sdpMediaRreset m :=
  mediaFormats_local _ m fmtv.val

theorem mediaDecode_local {s s' : SdpReader δ} {offer : Bool} {pl : Pl} (done : mediaDecode s offer pl = .ok s') :
    LocalKept s.sess s'.sess := by
  unfold mediaDecode at done
  split at done
  · rename_i name port proto fmtv _
    dsimp only at done
    split at done
    · split_ifs at done
      rw [← Except.ok.inj done]
      unfold mediaTake
      cases found : sdpMediaFind s.sess name proto with
      | none =>
        refine ⟨rfl, rfl, rfl, ⟨rfl, rfl⟩, [sdpMediaRadd name proto], [sdpMediaRadd name proto], ?_, ?_, ?_⟩
        · rw [List.map_append, List.map_singleton, mediaRemote_local]
          rfl
        · exact List.perm_append_comm
        · rw [List.forall_mem_singleton]
          exact ⟨rfl, rfl⟩
      | some m =>
        refine ⟨rfl, rfl, rfl, ⟨rfl, rfl⟩, [sdpMediaRreset m], [], ?_, ?_, ?_⟩
        · rw [List.map_append, List.map_singleton, mediaRemote_local]
        · rw [List.append_nil]
          exact (perm_eraseP found).map sdpMediaRreset
        · intro m member
          exact absurd member List.not_mem_nil
    · rename_i m at_
      split_ifs at done
      rw [← Except.ok.inj done]
      exact .of_remote rfl rfl rfl ⟨rfl, rfl⟩ rfl (map_set_same _ at_ (mediaRemote_local _ _ _ _))
  · contradiction

theorem lineDecode_local {s s' : SdpReader δ} {offer : Bool} {type : Byte} {val : List Byte}
    (done : lineDecode pton offer s type val = .ok s') : LocalKept s.sess s'.sess := by
  rcases lineDecode_cases done with ⟨-, media⟩ | ⟨-, same⟩
  · exact mediaDecode_local media
  · exact .of_same same

theorem map_rreset_twice (medial : List (SdpMline δ)) :
    (medial.map sdpMediaRreset).map sdpMediaRreset = medial.map sdpMediaRreset := by
  rw [List.map_map]
  rfl

theorem forget_local (sess : SdpSession δ) : LocalKept sess sess.forget :=
  .of_remote rfl rfl rfl ⟨rfl, rfl⟩ rfl (map_rreset_twice sess.medial)

theorem forget_forget (sess : SdpSession δ) : sess.forget.forget = sess.forget := by
  simp only [SdpSession.forget, sdpSessionRreset, map_rreset_twice]

/-- A message that is refused leaves the local side of the session as it was. What the session knew of the peer
    is lost. -/
theorem refused_keeps_local (sess : SdpSession δ) (mb : List Byte) (offer : Bool) (err : Errno)
    (refused : (sdpDecode pton sess mb offer).1 = some err) :
    LocalKept sess (sdpDecode pton sess mb offer).2 ∧
      sdpDecode pton sess.forget mb offer = sdpDecode pton sess mb offer := by
  have kept : LocalKept sess (decodeLoop (lineDecode pton offer) ⟨sess.forget, none⟩ 0 [] mb).2.sess := by
    apply decodeLoop_keeps (P := fun s : SdpReader δ => LocalKept sess s.sess)
    · intro s type val s' before done
      exact before.trans (lineDecode_local done)
    · exact forget_local sess
  constructor
  · unfold sdpDecode at refused ⊢
    generalize decodeLoop _ _ _ _ _ = looped at kept refused ⊢
    obtain ⟨outcome, s⟩ := looped
    cases outcome with
    | none => contradiction
    | some err' => exact kept
  · unfold sdpDecode
    rw [forget_forget]

/-- A session in a call with one audio line. -/
def inCall : SdpSession Unit where
  lmedial := []
  medial := [{ (mediaAlloc (ascii "audio") (ascii "RTP/AVP") : SdpMline Unit) with
    lfmtl := [⟨some "0", none, none, some "PCMU", none, none, false, true, 0, 8000, 1⟩]
    raddr := .inet 0xc0000201 4000
    known := nofun }]
  lattrl := []
  rattrl := []
  laddr := .inet 0xc0000202 0
  raddr := .init
  lbwv := noBandwidth
  rbwv := noBandwidth
  id := 1
  ver := 1
  rdir := .sendrecv
  known := Sa.init_known

theorem refused_keeps_local_call : LocalKept inCall (sdpDecode noPton inCall (ascii "x") true).2 ∧
    sdpDecode noPton inCall.forget (ascii "x") true = sdpDecode noPton inCall (ascii "x") true :=
  refused_keeps_local inCall (ascii "x") true .EBADMSG (by decide +kernel)

theorem refused_loses_remote :
    (sdpDecode noPton inCall (ascii "m=audio 5000 RTP/AVP 8\r\nx") true).1 = some .EBADMSG ∧
      (sdpDecode noPton inCall (ascii "m=audio 5000 RTP/AVP 8\r\nx") true).2.medial.map (·.raddr) ≠
        inCall.medial.map (·.raddr) := by
  rw [ascii_ofList]
  decide +kernel

end Baresip.Sdp
