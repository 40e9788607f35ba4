import Baresip.Video.Vidcodec
import Baresip.Library.Cuts

set_option linter.dupNamespace false

namespace Baresip.Vpx

open Re Video Library

def maxRtpSize : Nat := 1024
def rtpPresz : Nat := 4 + rtpHeaderSize

structure VidcodecSt (ω : Type) where
  mb : Mbuf
  picid : BitVec 64
  sendh : VidcodecSendH ω
  arg : ω

def accepting : VidcodecSt Unit := ⟨Mbuf.alloc 512, 0, fun _ mb _ => (none, mb, ()), ()⟩

inductive Fi
  | none | first | middle | last
  deriving DecidableEq, Repr

def Fi.bits : Fi → BitVec 2
  | none => 0
  | first => 1
  | middle => 2
  | last => 3

structure Vp8Desc where
  i : BitVec 1
  n : BitVec 1
  fi : BitVec 2
  b : BitVec 1
  picid : BitVec 64
  deriving DecidableEq, Repr

/-- The do-while loop of `picid_enc`, which fills its buffer from the end; `written` is what stands in
    front of the end already. Beyond 2^56 this is more than the eight bytes the buffer has. -/
def picidBytes (picid : BitVec 64) (written : List Byte) : List Byte :=
  let b : Byte := picid.setWidth 8 &&& 0x7f
  let b := if written = [] then b else b ||| 0x80
  let rest := picid >>> 7
  if _h : rest = 0 then b :: written else picidBytes rest (b :: written)
termination_by picid.toNat
decreasing_by
  have shifted : rest.toNat = picid.toNat / 128 := by
    simp only [rest, BitVec.toNat_ushiftRight, Nat.shiftRight_eq_div_pow, Nat.reducePow]
  have positive : rest.toNat ≠ 0 := fun zero => _h (BitVec.eq_of_toNat_eq zero)
  show rest.toNat < picid.toNat
  omega

def picidEnc (mb : Mbuf) (picid : BitVec 64) : Mbuf := mb.writeMem (picidBytes picid [])

def picidDec (mb : Mbuf) (v : BitVec 64) : Except Errno (BitVec 64 × Mbuf) :=
  if _h : mb.getLeft < 1 then .error .EBADMSG
  else
    let b := (mb.left.headD 0)
    let v := v <<< 7 ||| (b &&& 0x7f).setWidth 64
    if b &&& 0x80 = 0 then .ok (v, mb.advance 1) else picidDec (mb.advance 1) v
termination_by mb.getLeft
decreasing_by
  simp only [Mbuf.getLeft, Mbuf.advance] at _h ⊢
  omega

def vp8descByte (i n : Bool) (fi : Fi) (b : Bool) : Byte :=
  (BitVec.ofBool i).setWidth 8 <<< 4 ||| (BitVec.ofBool n).setWidth 8 <<< 3 |||
    fi.bits.setWidth 8 <<< 1 ||| (BitVec.ofBool b).setWidth 8

def vp8descEnc (mb : Mbuf) (i n : Bool) (fi : Fi) (b : Bool) (picid : BitVec 64) : Mbuf :=
  let mb := mb.writeU8 (vp8descByte i n fi b)
  if i then picidEnc mb picid else mb

def vp8descDec (mb : Mbuf) (desc : Vp8Desc) : Except Errno (Vp8Desc × Mbuf) :=
  if mb.getLeft < 1 then .error .EBADMSG
  else
    let (u8, mb) := mb.readU8
    let desc := { desc with
      i := (u8 >>> 4).extractLsb' 0 1, n := (u8 >>> 3).extractLsb' 0 1
      fi := (u8 >>> 1).extractLsb' 0 2, b := u8.extractLsb' 0 1 }
    if desc.i = 1#1 then
      match picidDec mb 0 with
      | .error err => .error err
      | .ok (picid, mb) => .ok ({ desc with picid := picid }, mb)
    else .ok (desc, mb)

variable {ω : Type}

def fragmentInfo (fragmented begin_ last : Bool) : Fi :=
  if fragmented then if begin_ then .first else if last then .last else .middle else .none

/-- The loop of `vpx_packetize` with its local buffer. The send handler's result is not looked at. -/
def packetizeLoop (fragmented keyframe : Bool) (st : VidcodecSt ω) (mb : Mbuf) (begin_ : Bool)
    (buf : List Byte) : Packetized (VidcodecSt ω) :=
  if _h : buf = [] then ⟨none, st, []⟩
  else
    let chunk := min buf.length maxRtpSize
    let last := decide (buf.length < maxRtpSize)
    let fi := fragmentInfo fragmented begin_ last
    let desc := vp8descEnc (mb.restart rtpPresz) true (!keyframe) fi begin_ st.picid
    let frag := (desc.writeMem (buf.take chunk)).setPos rtpPresz
    let result := st.sendh last frag st.arg
    let rest := packetizeLoop fragmented keyframe { st with arg := result.2.2 } result.2.1 false
      (buf.drop chunk)
    { rest with sent := ⟨last, frag.left⟩ :: rest.sent }
termination_by buf.length
decreasing_by
  have positive := List.length_pos_iff.mpr _h
  rw [List.length_drop]
  simp only [maxRtpSize]
  omega

def vpxPacketize (st : VidcodecSt ω) (buf : List Byte) (keyframe : Bool) :
    Packetized (VidcodecSt ω) :=
  packetizeLoop (decide (buf.length > maxRtpSize)) keyframe st (Mbuf.alloc 512) true buf

def descBytes (n : Bool) (fi : Fi) (b : Bool) (picid : BitVec 64) : List Byte :=
  vp8descByte true n fi b :: picidBytes picid []

def descSize (picid : BitVec 64) : Nat := 1 + (picidBytes picid []).length

theorem descBytes_length (n : Bool) (fi : Fi) (b : Bool) (picid : BitVec 64) :
    (descBytes n fi b picid).length = descSize picid := by
  simp only [descBytes, descSize, List.length_cons]
  omega

theorem vp8descEnc_holds (mb : Mbuf) (start : Nat) (n : Bool) (fi : Fi) (b : Bool)
    (picid : BitVec 64) (data : List Byte) :
    ((vp8descEnc (mb.restart start) true n fi b picid).writeMem data).Holds start
      (descBytes n fi b picid ++ data) := by
  have first := (mb.holds_restart start).write [vp8descByte true n fi b]
  have held := (first.write (picidBytes picid [])).write data
  exact held

theorem packetizeLoop_sent (fragmented keyframe : Bool) (st : VidcodecSt ω) (mb : Mbuf)
    (begin_ : Bool) (buf : List Byte) :
    (packetizeLoop fragmented keyframe st mb begin_ buf).err = none ∧
    (packetizeLoop fragmented keyframe st mb begin_ buf).sent.map
      (fun p => (p.marker, p.payload.drop (descSize st.picid))) = cuts maxRtpSize buf ∧
    ∀ p ∈ (packetizeLoop fragmented keyframe st mb begin_ buf).sent,
      descSize st.picid ≤ p.payload.length := by
  induction st, mb, begin_, buf using packetizeLoop.induct fragmented keyframe with
  | case1 st mb begin_ =>
    rw [packetizeLoop]
    simp
  | case2 st mb begin_ buf more chunk last fi desc frag result ih =>
    obtain ⟨noError, pieces, sizes⟩ := ih
    have held := (vp8descEnc_holds mb rtpPresz (!keyframe) fi begin_ st.picid (buf.take chunk)).left
    have payload : frag.left = descBytes (!keyframe) fi begin_ st.picid ++ buf.take chunk := held
    have piece : buf.take chunk = buf.take maxRtpSize := take_min maxRtpSize buf
    have later : buf.drop chunk = buf.drop maxRtpSize := drop_min maxRtpSize buf
    rw [packetizeLoop, dif_neg more, cuts_cons more (by simp [maxRtpSize]), ← later]
    rw [later, ← later] at pieces
    have size := descBytes_length (!keyframe) fi begin_ st.picid
    refine ⟨noError, ?_, ?_⟩
    · simp only [List.map_cons]
      refine congrArg₂ List.cons ?_ pieces
      show (last, frag.left.drop (descSize st.picid)) = _
      rw [payload, ← size, List.drop_left, piece]
    · intro p member
      rcases List.mem_cons.mp member with rfl | member
      · show descSize st.picid ≤ frag.left.length
        rw [payload, List.length_append, size]
        exact Nat.le_add_right _ _
      · exact sizes p member

structure VpxDecode where
  fails : Bool
  gotImage : Bool
  deriving DecidableEq, Repr

structure Decoded (ω : Type) where
  err : Option Errno
  st : VidcodecSt ω
  handed : Option (List Byte)
  picture : Bool

/-- `desc` is the uninitialised descriptor on the stack. -/
def dec (st : VidcodecSt ω) (eof : Bool) (src : Option Mbuf) (desc : Vp8Desc) (res : VpxDecode) :
    Decoded ω :=
  match src with
  | none => ⟨none, st, none, false⟩
  | some src =>
    if src.getLeft = 0 then ⟨none, st, none, false⟩
    else
      match vp8descDec src desc with
      | .error err => ⟨some err, st, none, false⟩
      | .ok (_, src) =>
        let st := { st with mb := st.mb.writeMem src.left }
        if !eof then ⟨none, st, none, false⟩
        else
          let handed := st.mb.buf.take st.mb.endPos
          let out := { st with mb := st.mb.rewind }
          if res.fails then ⟨some .EBADMSG, out, handed, false⟩
          else ⟨none, out, handed, res.gotImage⟩

def initDecoder (st : VidcodecSt ω) : VidcodecSt ω := { st with mb := Mbuf.alloc 512 }

def picidBody : List Byte → Option (List Byte)
  | [] => none
  | b :: rest => if b &&& 0x80 = 0 then some rest else picidBody rest

def vp8Body : List Byte → Option (List Byte)
  | [] => none
  | u8 :: rest => if (u8 >>> 4).extractLsb' 0 1 = 1#1 then picidBody rest else some rest

theorem picidBody_none_iff (rest : List Byte) : picidBody rest = none ↔ ∀ b ∈ rest, b &&& 0x80 ≠ 0 := by
  induction rest with
  | nil => simp [picidBody]
  | cons b rest ih =>
    rw [List.forall_mem_cons, ← ih, picidBody]
    by_cases ends : b &&& 0x80 = 0
    · rw [if_pos ends]
      simp only [ends, ne_eq, not_true_eq_false, false_and, reduceCtorEq]
    · rw [if_neg ends]
      simp only [ends, ne_eq, not_false_eq_true, true_and]

theorem picidDec_eq (mb : Mbuf) (v : BitVec 64) (inside : mb.endPos ≤ mb.buf.length) :
    picidDec mb v =
      match mb.left with
      | [] => .error .EBADMSG
      | b :: _ =>
        if b &&& 0x80 = 0 then .ok (v <<< 7 ||| (b &&& 0x7f).setWidth 64, mb.advance 1)
        else picidDec (mb.advance 1) (v <<< 7 ||| (b &&& 0x7f).setWidth 64) := by
  have length := Mbuf.left_length inside
  rw [picidDec]
  cases read : mb.left with
  | nil =>
    rw [read, List.length_nil] at length
    rw [dif_pos (by omega)]
  | cons b rest =>
    rw [read, List.length_cons] at length
    rw [dif_neg (by omega), List.headD_cons]

theorem picidDec_body (mb : Mbuf) (v : BitVec 64) (inside : mb.endPos ≤ mb.buf.length) :
    (picidBody mb.left = none → picidDec mb v = .error .EBADMSG) ∧
    ∀ body, picidBody mb.left = some body →
      ∃ picid rest, picidDec mb v = .ok (picid, rest) ∧ rest.left = body := by
  induction read : mb.left generalizing mb v with
  | nil =>
    rw [picidDec_eq mb v inside, read]
    simp [picidBody]
  | cons b rest ih =>
    have tail : (mb.advance 1).left = rest := by
      rw [Mbuf.advance_left, read]
      rfl
    rw [picidDec_eq mb v inside, read]
    simp only [picidBody]
    by_cases ends : b &&& 0x80 = 0
    · simp only [ends, ite_true]
      refine ⟨fun refused => by contradiction, ?_⟩
      intro body accepted
      cases accepted
      exact ⟨_, _, rfl, tail⟩
    · simp only [ends, ite_false]
      exact ih (mb.advance 1) _ inside tail

theorem vp8descDec_body (src : Unread) (desc : Vp8Desc) :
    (vp8Body src.bytes = none → vp8descDec src.mb desc = .error .EBADMSG) ∧
    ∀ body, vp8Body src.bytes = some body →
      ∃ desc' rest, vp8descDec src.mb desc = .ok (desc', rest) ∧ rest.left = body := by
  have length := Mbuf.left_length src.inside
  unfold vp8descDec Mbuf.readU8 Unread.bytes
  cases read : src.mb.left with
  | nil =>
    rw [read, List.length_nil] at length
    rw [if_pos (by omega)]
    simp [vp8Body]
  | cons u8 rest =>
    rw [read, List.length_cons] at length
    have tail : (src.mb.advance 1).left = rest := by
      rw [Mbuf.advance_left, read]
      rfl
    rw [if_neg (by omega)]
    simp only [vp8Body]
    by_cases withPicid : (u8 >>> 4).extractLsb' 0 1 = 1#1
    · have picid := picidDec_body (src.mb.advance 1) 0 src.inside
      rw [tail] at picid
      simp only [withPicid, ite_true]
      refine ⟨fun refused => by rw [picid.1 refused], ?_⟩
      intro body accepted
      obtain ⟨value, next, decoded, left⟩ := picid.2 body accepted
      rw [decoded]
      exact ⟨_, next, rfl, left⟩
    · simp only [withPicid, ite_false]
      refine ⟨fun refused => by contradiction, ?_⟩
      intro body accepted
      cases accepted
      exact ⟨_, _, rfl, tail⟩

theorem initDecoder_holds (st : VidcodecSt ω) : (initDecoder st).mb.Holds 0 [] :=
  (Mbuf.alloc 512).holds_restart 0

theorem dec_refused (st : VidcodecSt ω) (eof : Bool) (src : Unread) (desc : Vp8Desc) (res : VpxDecode)
    (refused : vp8Body src.bytes = none) :
    (dec st eof src.mb desc res).st = st ∧ (dec st eof src.mb desc res).handed = none := by
  unfold dec
  simp only [(vp8descDec_body src desc).1 refused]
  split_ifs <;> exact ⟨rfl, rfl⟩

theorem dec_handed_eof {st : VidcodecSt ω} {eof : Bool} {src : Mbuf} {desc : Vp8Desc} {res : VpxDecode}
    {frame : List Byte} (handed : (dec st eof src desc res).handed = some frame) : eof = true := by
  cases eof with
  | true => rfl
  | false =>
    unfold dec at handed
    simp only [Bool.not_false, ite_true] at handed
    by_cases none_ : src.getLeft = 0
    · rw [if_pos none_] at handed
      contradiction
    · rw [if_neg none_] at handed
      cases decoded : vp8descDec src desc <;> simp [decoded] at handed

theorem vp8Body_some_left {src : Unread} {body : List Byte} (accepted : vp8Body src.bytes = some body) :
    src.mb.getLeft ≠ 0 := by
  intro none_
  have empty : src.bytes = [] :=
    List.eq_nil_of_length_eq_zero ((Mbuf.left_length src.inside).trans none_)
  rw [empty] at accepted
  contradiction

theorem dec_accepted {st : VidcodecSt ω} {held body : List Byte} (holds : st.mb.Holds 0 held)
    (eof : Bool) (src : Unread) (desc : Vp8Desc) (res : VpxDecode)
    (accepted : vp8Body src.bytes = some body) :
    (dec st eof src.mb desc res).st.mb.Holds 0 (if eof then [] else held ++ body) ∧
    ∀ frame, (dec st eof src.mb desc res).handed = some frame → frame = held ++ body := by
  obtain ⟨desc', rest, decoded, left⟩ := (vp8descDec_body src desc).2 body accepted
  have written := holds.write rest.left
  rw [left] at written
  unfold dec
  simp only [vp8Body_some_left accepted, ite_false, decoded, left]
  cases eof with
  | false => exact ⟨written, fun frame handed => by contradiction⟩
  | true =>
    have rewound : ((st.mb.writeMem body).rewind).Holds 0 [] := Mbuf.holds_restart _ 0
    have all : (st.mb.writeMem body).buf.take (st.mb.writeMem body).endPos = held ++ body := by
      have content := written.content
      have ends := written.ends
      rw [List.drop_zero] at content
      rw [ends, Nat.zero_add]
      exact content
    simp only [Bool.not_true, Bool.false_eq_true, ite_false, ite_true]
    refine ⟨by split_ifs <;> exact rewound, ?_⟩
    intro frame handed
    split_ifs at handed <;> exact (Option.some.inj handed).symm.trans all

end Baresip.Vpx
