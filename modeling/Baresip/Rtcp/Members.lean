import Baresip.Library.Runs
import Baresip.Rtcp.RoundTrip
import Baresip.Rtcp.Sess

set_option linter.dupNamespace false

namespace Baresip.Rtcp

open Re Library

variable {sess : RtcpSess} {src : BitVec 32} {clock : Clock} {mbr : RtpMember} {mb mb' : Mbuf}

namespace RtcpSess

/-- How many members have a source. -/
def senders (sess : RtcpSess) : Nat := sess.members.entries.countP fun mbr => mbr.s.isSome

/-- The counters say how many members and how many senders there are, and there are never too many. -/
structure Counted (sess : RtcpSess) : Prop where
  size : sess.members.buckets.length = MAX_MEMBERS
  members : sess.memberc.toNat = sess.members.entries.length
  senders : sess.senderc.toNat = sess.senders
  most : sess.members.entries.length ≤ MAX_MEMBERS

end RtcpSess

/-- A sender report whose count field says how many report blocks there are behind the sender's own part of six words.
    Nothing follows them. -/
def SaysBlocks (report : List Byte) : Prop :=
  ∃ (hdr : RtcpHdr) (head : List Byte) (info : List (BitVec 32)) (rrv : List RtcpRr),
    header report = some hdr ∧ hdr.pt = RtcpType.SR.code ∧ hdr.count.toNat = rrv.length ∧ rrv.length ≤ 31 ∧
      report = head ++ info.flatMap be32 ++ rrv.flatMap RtcpRr.bytes ∧ head.length = RTCP_HDR_SIZE ∧ info.length = 6

namespace RtcpSess

theorem Counted.slot (counted : sess.Counted) (src : BitVec 32) : sess.slot src < sess.members.buckets.length := by
  have size := counted.size
  have less : (BitVec.ofNat 32 (MAX_MEMBERS - 1)).toNat < MAX_MEMBERS := by decide
  unfold RtcpSess.slot
  rw [size, BitVec.toNat_and]
  exact Nat.lt_of_le_of_lt Nat.and_le_right less

theorem Counted.senders_le (counted : sess.Counted) : sess.senders ≤ MAX_MEMBERS :=
  Nat.le_trans List.countP_le_length counted.most

/-- A table in which one entry has been replaced, and a count of senders that follows. -/
theorem Counted.replace (counted : sess.Counted) {others : List RtpMember} {old new : RtpMember} {table : Buckets RtpMember}
    {senderc : BitVec 32} (before : sess.members.entries.Perm (old :: others)) (behind : table.entries.Perm (new :: others))
    (size : table.buckets.length = sess.members.buckets.length)
    (counts : senderc.toNat + (if old.s.isSome then 1 else 0) = sess.senderc.toNat + if new.s.isSome then 1 else 0) :
    ({ sess with members := table, senderc := senderc } : RtcpSess).Counted := by
  have length := before.length_eq
  have length_ := behind.length_eq
  have senders_ := before.countP_eq fun mbr => mbr.s.isSome
  have senders' := behind.countP_eq fun mbr => mbr.s.isSome
  have most := counted.most
  have members := counted.members
  have senders := counted.senders
  unfold RtcpSess.senders at senders
  rw [List.length_cons] at length length_
  rw [List.countP_cons] at senders_ senders'
  refine ⟨size.trans counted.size, ?_, ?_, ?_⟩
  · show sess.memberc.toNat = table.entries.length
    omega
  · show senderc.toNat = table.entries.countP fun mbr => mbr.s.isSome
    omega
  · show table.entries.length ≤ MAX_MEMBERS
    omega

/-- Where a member is, and what the table has otherwise. -/
theorem Counted.found (counted : sess.Counted) (found : sess.memberFind src = some mbr) :
    ∃ others, sess.members.entries.Perm (mbr :: others) ∧
      (sess.members.unlink (sess.slot src) (isMember src)).entries.Perm others ∧
      ∀ f, (sess.members.change (sess.slot src) (isMember src) f).entries.Perm (f mbr :: others) :=
  Buckets.lookup_entries (counted.slot src) found

/-- A change of a member that leaves it what it is. -/
theorem Counted.change (counted : sess.Counted) (found : sess.memberFind src = some mbr) {f : RtpMember → RtpMember}
    (keeps : (f mbr).s.isSome = mbr.s.isSome) : (sess.changeMember src f).Counted := by
  rcases counted.found found with ⟨others, before, _, behind⟩
  apply counted.replace before (behind f) (Buckets.change_size f)
  rw [keeps]

/-- The member that is returned is in the table of a session that counts it. -/
theorem Counted.getMember (counted : sess.Counted) {sess' : RtcpSess} (got : sess.getMember src = some (mbr, sess')) :
    sess'.Counted ∧ sess'.memberFind src = some mbr ∧ sess'.reports = sess.reports := by
  unfold RtcpSess.getMember at got
  cases found : sess.memberFind src with
  | some old =>
    rw [found] at got
    cases got
    exact ⟨counted, found, rfl⟩
  | none =>
    rw [found] at got
    dsimp only at got
    by_cases full : sess.memberc.toNat ≥ MAX_MEMBERS
    · rw [if_pos full] at got
      cases got
    · rw [if_neg full] at got
      cases got
      have inside := counted.slot src
      have entries := Buckets.append_entries inside (⟨none, src, 0, 0, 0⟩ : RtpMember)
      have length := entries.length_eq
      have members := counted.members
      have senders_ := entries.countP_eq fun mbr => mbr.s.isSome
      have small : sess.memberc.toNat < 8 := Nat.not_le.mp full
      have next : (sess.memberc + 1).toNat = sess.memberc.toNat + 1 := by
        rw [BitVec.toNat_add]
        show (sess.memberc.toNat + 1) % 2 ^ 32 = _
        omega
      rw [List.length_cons] at length
      rw [List.countP_cons] at senders_
      have size : (sess.members.append (sess.slot src) (⟨none, src, 0, 0, 0⟩ : RtpMember)).buckets.length = MAX_MEMBERS := by
        rw [Buckets.append_size, counted.size]
      refine ⟨⟨size, ?_, ?_, ?_⟩, ?_, rfl⟩
      · exact next.trans ((congrArg Nat.succ members).trans length.symm)
      · exact counted.senders.trans senders_.symm
      · exact Nat.le_trans (Nat.le_of_eq length) (members ▸ small)
      · unfold RtcpSess.memberFind RtcpSess.slot RtcpSess.memberAdd
        dsimp only
        rw [Buckets.append_size]
        exact Buckets.lookup_append inside found (decide_eq_true rfl)

theorem handleRrBlock_s (mbr : RtpMember) (rr : RtcpRr) : (sess.handleRrBlock clock mbr rr).s = mbr.s := by
  unfold handleRrBlock
  split <;> split <;> rfl

theorem handleRrBlocks_s (mbr : RtpMember) (rrv : List RtcpRr) : (rrv.foldl (sess.handleRrBlock clock) mbr).s = mbr.s := by
  induction rrv generalizing mbr with
  | nil => rfl
  | cons rr rrv ih => rw [List.foldl_cons, ih, handleRrBlock_s]

theorem Counted.handleIncomingRr (counted : sess.Counted) (rrv : List RtcpRr) :
    (sess.handleIncomingRr src clock rrv).Counted ∧ (sess.handleIncomingRr src clock rrv).reports = sess.reports := by
  unfold RtcpSess.handleIncomingRr
  cases got : sess.getMember src with
  | none => exact ⟨counted, rfl⟩
  | some result =>
    rcases result with ⟨mbr, sess'⟩
    rcases counted.getMember got with ⟨counted', found, reports⟩
    refine ⟨counted'.change found ?_, reports⟩
    rw [handleRrBlocks_s]

theorem Counted.handleIncomingSr (counted : sess.Counted) (ntp : NtpTime) (rtpTs psent osent : BitVec 32) (rrv : List RtcpRr) :
    (sess.handleIncomingSr src clock ntp rtpTs psent osent rrv).Counted ∧
      (sess.handleIncomingSr src clock ntp rtpTs psent osent rrv).reports = sess.reports := by
  unfold RtcpSess.handleIncomingSr
  cases got : sess.getMember src with
  | none => exact ⟨counted, rfl⟩
  | some result =>
    rcases result with ⟨mbr, sess'⟩
    rcases counted.getMember got with ⟨counted', found, reports⟩
    refine ⟨counted'.change found ?_, reports⟩
    dsimp only
    rw [handleRrBlocks_s, Option.isSome_map]

theorem Counted.leave (counted : sess.Counted) : (sess.leave src).Counted ∧ (sess.leave src).reports = sess.reports := by
  unfold RtcpSess.leave
  cases found : sess.memberFind src with
  | none => exact ⟨counted, rfl⟩
  | some mbr =>
    rcases counted.found found with ⟨others, before, behind, _⟩
    have length := before.length_eq
    have length_ := behind.length_eq
    have senders_ := before.countP_eq fun mbr => mbr.s.isSome
    have senders' := behind.countP_eq fun mbr => mbr.s.isSome
    have members := counted.members
    have senders := counted.senders
    have most := counted.most
    have size : (sess.members.unlink (sess.slot src) (isMember src)).buckets.length = MAX_MEMBERS := by
      rw [Buckets.unlink_size, counted.size]
    have less : ∀ v : BitVec 32, 0 < v.toNat → (v - 1).toNat = v.toNat - 1 := by
      intro v positive
      have lt := v.isLt
      have one : (1 : BitVec 32).toNat = 1 := rfl
      rw [BitVec.toNat_sub, one]
      omega
    unfold RtcpSess.senders at senders
    rw [List.length_cons] at length
    rw [List.countP_cons] at senders_
    have fewer : (sess.memberc - 1).toNat = (sess.members.unlink (sess.slot src) (isMember src)).entries.length := by
      rw [less _ (by omega)]
      omega
    have most_ : (sess.members.unlink (sess.slot src) (isMember src)).entries.length ≤ MAX_MEMBERS := by omega
    dsimp only
    cases sends : mbr.s.isSome with
    | true =>
      rw [sends, if_pos rfl] at senders_
      refine ⟨⟨size, fewer, ?_, most_⟩, rfl⟩
      show (sess.senderc - 1).toNat = (sess.members.unlink (sess.slot src) (isMember src)).entries.countP _
      rw [less _ (by omega)]
      omega
    | false =>
      rw [sends, if_neg Bool.false_ne_true] at senders_
      refine ⟨⟨size, fewer, ?_, most_⟩, rfl⟩
      show sess.senderc.toNat = (sess.members.unlink (sess.slot src) (isMember src)).entries.countP _
      omega

theorem Counted.handleIncomingBye (counted : sess.Counted) (srcv : List (BitVec 32)) :
    (sess.handleIncomingBye srcv).Counted ∧ (sess.handleIncomingBye srcv).reports = sess.reports := by
  induction srcv generalizing sess with
  | nil => exact ⟨counted, rfl⟩
  | cons src srcv ih =>
    rcases @Counted.leave _ src counted with ⟨counted', reports⟩
    rcases ih counted' with ⟨later, reports'⟩
    exact ⟨later, reports'.trans reports⟩

theorem Counted.rtcpHandler (counted : sess.Counted) (msg : RtcpMsg) :
    (sess.rtcpHandler clock msg).Counted ∧ (sess.rtcpHandler clock msg).reports = sess.reports := by
  unfold RtcpSess.rtcpHandler
  cases msg.r with
  | sr ssrc ntpSec ntpFrac rtpTs psent osent rrv => exact counted.handleIncomingSr _ _ _ _ _
  | rr ssrc rrv => exact counted.handleIncomingRr rrv
  | bye srcv reason => exact counted.handleIncomingBye srcv
  | _ => exact ⟨counted, rfl⟩

theorem Counted.sessRxRtp (counted : sess.Counted) (seq : BitVec 16) (ts payloadSize : BitVec 32) (peer : Sa) :
    (sess.sessRxRtp src clock seq ts payloadSize peer).Counted ∧
      (sess.sessRxRtp src clock seq ts payloadSize peer).reports = sess.reports := by
  unfold RtcpSess.sessRxRtp
  cases got : sess.getMember src with
  | none => exact ⟨counted, rfl⟩
  | some result =>
    rcases result with ⟨mbr, sess'⟩
    rcases counted.getMember got with ⟨counted', found, reports⟩
    rcases counted'.found found with ⟨others, before, _, behind⟩
    dsimp only
    cases sends : mbr.s with
    | some s =>
      refine ⟨counted'.replace before (behind _) (Buckets.change_size _) ?_, reports⟩
      rw [sends]
      rfl
    | none =>
      refine ⟨counted'.replace before (behind _) (Buckets.change_size _) ?_, reports⟩
      have senders := counted'.senders
      have most := counted'.senders_le
      have one : (1 : BitVec 32).toNat = 1 := rfl
      unfold MAX_MEMBERS at most
      have next : (sess'.senderc + 1).toNat = sess'.senderc.toNat + 1 := by
        rw [BitVec.toNat_add, one]
        omega
      rw [sends]
      exact next

/-- The blocks that are written are those of the members that send. -/
theorem senderApply_writes (members : List RtpMember) :
    Writes (fun mb => members.foldl (senderApply clock) mb) ((members.filterMap (reportBlock clock)).flatMap RtcpRr.bytes) := by
  induction members with
  | nil => exact Writes.none_
  | cons mbr members ih =>
    cases block : reportBlock clock mbr with
    | none =>
      have same : ∀ mb, senderApply clock mb mbr = mb := by
        intro mb
        unfold senderApply
        rw [block]
      rw [List.filterMap_cons_none block]
      intro mb start data held
      show (members.foldl (senderApply clock) (senderApply clock mb mbr)).Holds start _
      rw [same]
      exact ih mb start data held
    | some rr =>
      have written : ∀ mb, senderApply clock mb mbr = rtcpRrEncode mb rr := by
        intro mb
        unfold senderApply
        rw [block]
      rw [List.filterMap_cons_some block, List.flatMap_cons]
      intro mb start data held
      show (members.foldl (senderApply clock) (senderApply clock mb mbr)).Holds start _
      rw [written, ← List.append_assoc]
      exact ih _ start _ (rtcpRrEncode_writes rr mb start data held)

theorem blocks_length (members : List RtpMember) :
    (members.filterMap (reportBlock clock)).length = members.countP fun mbr => mbr.s.isSome := by
  rw [List.length_filterMap_eq_countP]
  apply List.countP_congr
  intro mbr _
  unfold reportBlock
  rw [Option.isSome_map]

theorem reported_counts (members : List RtpMember) :
    (members.map reported).countP (fun mbr => mbr.s.isSome) = members.countP fun mbr => mbr.s.isSome := by
  rw [List.countP_map]
  apply List.countP_congr
  intro mbr _
  unfold reported
  rw [Function.comp_apply, Option.isSome_map]

theorem Counted.reported (counted : sess.Counted) : ({ sess with members := sess.members.map reported } : RtcpSess).Counted := by
  have entries : (sess.members.map RtcpSess.reported).entries = sess.members.entries.map RtcpSess.reported :=
    Buckets.map_entries _
  have length : (sess.members.map RtcpSess.reported).entries.length = sess.members.entries.length := by
    rw [entries, List.length_map]
  refine ⟨(Buckets.map_size _).trans counted.size, counted.members.trans length.symm, ?_, Nat.le_trans (Nat.le_of_eq length) counted.most⟩
  refine counted.senders.trans ?_
  unfold RtcpSess.senders
  dsimp only
  rw [entries, reported_counts]

/-- A packet that is written with a count of its blocks says how many there are. -/
theorem saysBlocks_wire (info : List (BitVec 32)) (rrv : List RtcpRr) (six : info.length = 6) (most : rrv.length ≤ 31) :
    SaysBlocks (wire ((BitVec.ofNat 5 rrv.length).setWidth 8) .SR (info.flatMap be32 ++ rrv.flatMap RtcpRr.bytes)) := by
  have size : (info.flatMap be32 ++ rrv.flatMap RtcpRr.bytes).length = 24 + rrv.length * 24 := by
    rw [List.length_append, flatMap_be32_length, six, flatMap_length rtcpRr_length]
    rfl
  have whole : padding (info.flatMap be32 ++ rrv.flatMap RtcpRr.bytes).length = [] := by
    have none_ : pad4 (24 + rrv.length * 24) - (24 + rrv.length * 24) = 0 := by
      unfold pad4
      omega
    unfold padding
    rw [size, none_]
    rfl
  have reads := rtcpHdrDecode_reads (.ofNat 5 rrv.length) .SR (words (info.flatMap be32 ++ rrv.flatMap RtcpRr.bytes).length)
    (info.flatMap be32 ++ rrv.flatMap RtcpRr.bytes)
  unfold wire
  rw [whole, List.append_nil]
  refine ⟨⟨RTCP_VERSION, 0, .ofNat 5 rrv.length, RtcpType.SR.code,
    words (info.flatMap be32 ++ rrv.flatMap RtcpRr.bytes).length⟩, _, info, rrv, ?_, rfl, ?_, most,
    (List.append_assoc _ _ _).symm, hdrBytes_length _ _ _, six⟩
  · unfold header
    rw [reads]
  · show (BitVec.ofNat 5 rrv.length).toNat = rrv.length
    rw [BitVec.toNat_ofNat]
    omega

/-- What a report of a session says. -/
theorem Counted.mkSr (counted : sess.Counted) {sess' : RtcpSess} (made : sess.mkSr clock mb = (none, mb', sess')) :
    sess'.Counted ∧ sess'.reports = sess.reports ∧ SaysBlocks (mb'.setPos mb.pos).left := by
  unfold RtcpSess.mkSr at made
  cases now : clock.ntp with
  | error e =>
    rw [now] at made
    cases made
  | ok ntp =>
    rw [now] at made
    dsimp only at made
    have length : (sess.members.entries.filterMap (reportBlock clock)).length = sess.senders := blocks_length _
    have few : sess.senders ≤ 8 := counted.senders_le
    have handler : EncodeWrites (sess.encodeHandler clock)
        ((sess.members.entries.filterMap (reportBlock clock)).flatMap RtcpRr.bytes) := (senderApply_writes _).encode
    have count : sess.senderc.setWidth 8 =
        (BitVec.ofNat 5 (sess.members.entries.filterMap (reportBlock clock)).length).setWidth 8 := by
      have same : sess.senderc = .ofNat 32 sess.senders := by
        rw [← counted.senders, BitVec.ofNat_toNat, BitVec.setWidth_eq]
      rw [length, same]
      exact narrow_count (by omega)
    generalize (if sess.txstat.start ≠ 0 then _ else (0 : BitVec 32)) = rtpTs at made
    have writes : EncodeWrites (bodyEncode sess.senderc.toNat (.sr sess.ssrc ntp.hi ntp.lo rtpTs sess.txstat.psent
        sess.txstat.osent (some (sess.encodeHandler clock))))
          ([sess.ssrc, ntp.hi, ntp.lo, rtpTs, sess.txstat.psent, sess.txstat.osent].flatMap be32 ++
            (sess.members.entries.filterMap (reportBlock clock)).flatMap RtcpRr.bytes) :=
      (Writes.all (f := writeU32) Writes.u32 _).ench handler
    rcases rtcpVencode_writes writes mb with ⟨written, encoded, held⟩
    rw [encoded] at made
    dsimp only at made
    cases made
    refine ⟨counted.reported, rfl, ?_⟩
    rw [held.left, count]
    exact saysBlocks_wire _ _ rfl (by omega)

theorem Counted.mkSr_fails (counted : sess.Counted) {sess' : RtcpSess} {e : Errno}
    (made : sess.mkSr clock mb = (some e, mb', sess')) : sess'.Counted ∧ sess'.reports = sess.reports := by
  unfold RtcpSess.mkSr at made
  cases now : clock.ntp with
  | error e =>
    rw [now] at made
    cases made
    exact ⟨counted, rfl⟩
  | ok ntp =>
    rw [now] at made
    cases made

theorem Counted.timeout (counted : sess.Counted) (reports : ∀ report ∈ sess.reports, SaysBlocks report) :
    (sess.timeout clock).Counted ∧ ∀ report ∈ (sess.timeout clock).reports, SaysBlocks report := by
  unfold RtcpSess.timeout
  by_cases armed : sess.armed = true
  · rw [if_pos armed]
    unfold RtcpSess.sendRtcpReport
    rcases made : sess.mkSr clock { Mbuf.alloc 512 with pos := RTCP_HEADROOM } with ⟨err, mb', sess'⟩
    cases err with
    | some e =>
      rcases counted.mkSr_fails made with ⟨counted', same⟩
      exact ⟨counted', same ▸ reports⟩
    | none =>
      rcases counted.mkSr made with ⟨counted', same, last_⟩
      refine ⟨⟨counted'.size, counted'.members, counted'.senders, counted'.most⟩, ?_⟩
      intro report member
      rcases List.mem_append.mp member with earlier | last
      · exact reports report (same ▸ earlier)
      · rw [List.mem_singleton.mp last]
        exact last_
  · rw [if_neg armed]
    exact ⟨counted, reports⟩

end RtcpSess

/-- What holds in every state of a session. -/
structure Kept (sess : RtcpSess) : Prop where
  counted : sess.Counted
  reports : ∀ report ∈ sess.reports, SaysBlocks report

theorem Kept.step (kept : Kept sess) (event : SessEvent) : Kept (sessStep sess event) := by
  rcases kept with ⟨counted, reports⟩
  cases event with
  | rxRtp seq ts ssrc payloadSize peer clock =>
    rcases @RtcpSess.Counted.sessRxRtp _ ssrc clock counted seq ts payloadSize peer with ⟨counted', same⟩
    exact ⟨counted', same ▸ reports⟩
  | rtcp msg clock =>
    rcases @RtcpSess.Counted.rtcpHandler _ clock counted msg with ⟨counted', same⟩
    exact ⟨counted', same ▸ reports⟩
  | txRtp ts payloadSize clock => exact ⟨⟨counted.size, counted.members, counted.senders, counted.most⟩, reports⟩
  | timeout clock =>
    rcases @RtcpSess.Counted.timeout _ clock counted reports with ⟨counted', all⟩
    exact ⟨counted', all⟩
  | setSrate srateTx srateRx => exact ⟨⟨counted.size, counted.members, counted.senders, counted.most⟩, reports⟩
  | enable enabled cname =>
    cases cname with
    | none => exact ⟨⟨counted.size, counted.members, counted.senders, counted.most⟩, reports⟩
    | some cname => exact ⟨⟨counted.size, counted.members, counted.senders, counted.most⟩, reports⟩

theorem kept_alloc (ssrc : BitVec 32) : Kept (RtcpSess.alloc ssrc) := by
  have none_ : (RtcpSess.alloc ssrc).members.entries = [] := Buckets.empty_entries _
  have members : (RtcpSess.alloc ssrc).members.entries.length = 0 := congrArg List.length none_
  refine ⟨⟨Buckets.empty_size _, members.symm, ?_, members ▸ Nat.zero_le _⟩, nofun⟩
  unfold RtcpSess.senders
  rw [none_]
  rfl

/-- Through every history of received packets and sent reports the counters of a session count its members and its
    senders, and every report says how many blocks it has. -/
theorem session_counts (ssrc : BitVec 32) (history : List SessEvent) :
    let sess := history.foldl sessStep (RtcpSess.alloc ssrc)
    sess.memberc.toNat = sess.members.entries.length ∧
      sess.senderc.toNat = (sess.members.entries.filter fun mbr => mbr.s.isSome).length ∧
      ∀ report ∈ sess.reports, SaysBlocks report := by
  have run : Throughout sessStep Kept (RtcpSess.alloc ssrc) history :=
    throughout_of_invariant (fun _ event kept => Kept.step kept event) (kept_alloc ssrc)
  have kept := run.last
  refine ⟨kept.counted.members, ?_, kept.reports⟩
  rw [← List.countP_eq_length_filter]
  exact kept.counted.senders

end Baresip.Rtcp
