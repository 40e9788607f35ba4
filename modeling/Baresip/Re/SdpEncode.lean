import Baresip.Re.SdpSession

set_option linter.dupNamespace false

namespace Baresip.Re

structure SdpLine where
  type : Byte
  value : List Byte
  deriving DecidableEq, Repr

def SdpLine.attr (value : List Byte) : SdpLine := ⟨chr 'a', value⟩

/-- How an address is printed, and the attributes that the encode handlers of a format and of a media line add. -/
structure SdpPrinter (δ : Type) where
  addr : Sa → List Byte
  format : SdpFormat δ → Bool → List (List Byte)
  media : SdpMline δ → Bool → List (List Byte)

def decimal (n : Nat) : List Byte := ascii (toString n)

def SdpDir.send : SdpDir → Bool
  | sendonly => true
  | sendrecv => true
  | _ => false

def SdpDir.ofBits (recv send : Bool) : SdpDir :=
  match recv, send with
  | false, false => inactive
  | true, false => recvonly
  | false, true => sendonly
  | true, true => sendrecv

def SdpDir.and (a b : SdpDir) : SdpDir := ofBits (a.recv && b.recv) (a.send && b.send)

def sdpDirName : SdpDir → List Byte
  | .inactive => ascii "inactive"
  | .recvonly => ascii "recvonly"
  | .sendonly => ascii "sendonly"
  | .sendrecv => ascii "sendrecv"

def ipver : Sa → Nat
  | .inet _ _ => 4
  | _ => 6

def sdpAttrPrint (attr : String × List Byte) : SdpLine :=
  .attr (ascii attr.1 ++ if attr.2 = [] then [] else chr ':' :: attr.2)

def bandwidthLines (bwv : SdpBandwidth → BitVec 32) : List SdpLine :=
  (sdpBandwidths.filter fun i => !(bwv i).slt 0).map fun i =>
    ⟨chr 'b', sdpBandwidthName i ++ chr ':' :: ascii (toString (bwv i).toInt)⟩

variable {δ : Type} (print : SdpPrinter δ)

def connLine (sa : Sa) : SdpLine := ⟨chr 'c', ascii "IN IP" ++ decimal (ipver sa) ++ chr ' ' :: print.addr sa⟩

def formatLines (fmt : SdpFormat δ) (offer : Bool) : List SdpLine :=
  let id := ascii (fmt.id.getD "")
  match fmt.name with
  | none => []
  | some name =>
    if name = "" then []
    else
      [.attr (ascii "rtpmap:" ++ id ++ chr ' ' :: ascii name ++ chr '/' :: decimal fmt.srate.toNat ++
        if fmt.ch > 1 then chr '/' :: decimal fmt.ch.toNat else [])] ++
      (match fmt.params with
        | none => []
        | some params => if params = "" then [] else [.attr (ascii "fmtp:" ++ id ++ chr ' ' :: ascii params)]) ++
      (print.format fmt offer).map .attr

def rtcpLines (laddrRtcp : Sa) : List SdpLine :=
  if laddrRtcp.isset .all then
    [.attr (ascii "rtcp:" ++ decimal laddrRtcp.port.toNat ++ ascii " IN IP" ++ decimal (ipver laddrRtcp) ++
      chr ' ' :: print.addr laddrRtcp)]
  else if laddrRtcp.isset .port then [.attr (ascii "rtcp:" ++ decimal laddrRtcp.port.toNat)]
  else []

def SdpMline.off (m : SdpMline δ) (offer : Bool) : Bool :=
  m.disabled || (m.lfmtl.filter (·.sup)).length == 0 || (!offer && m.raddr.port == 0)

def mediaLine (m : SdpMline δ) (offer : Bool) : SdpLine :=
  if m.off offer then ⟨chr 'm', m.name ++ ascii " 0 " ++ m.proto ++ ascii " 0"⟩
  else
    ⟨chr 'm', m.name ++ chr ' ' :: decimal m.laddr.port.toNat ++ chr ' ' :: m.proto ++
      (m.lfmtl.filter (·.sup)).flatMap fun fmt => chr ' ' :: ascii (fmt.id.getD "")⟩

def mediaEncode (m : SdpMline δ) (offer : Bool) : List SdpLine :=
  if m.off offer then [mediaLine m offer]
  else
    mediaLine m offer :: (if m.laddr.isset .addr then [connLine print m.laddr] else []) ++
      bandwidthLines m.lbwv ++ (m.lfmtl.filter (·.sup)).flatMap (formatLines print · offer) ++
      rtcpLines print m.laddrRtcp ++
      [.attr (sdpDirName (if offer then m.ldir else m.ldir.and m.rdir))] ++ m.lattrl.map sdpAttrPrint ++
      (print.media m offer).map .attr

/-- The lines of the message and the session behind it. An offer takes in the local media lines that are not
    disabled. -/
def sdpEncode (sess : SdpSession δ) (offer : Bool) : List SdpLine × SdpSession δ :=
  let added := if offer then sess.lmedial.filter (!·.disabled) else []
  let lmedial := if offer then sess.lmedial.filter (·.disabled) else sess.lmedial
  let medial := sess.medial ++ added
  ([⟨chr 'v', ascii "0"⟩,
      ⟨chr 'o', ascii "- " ++ decimal sess.id.toNat ++ chr ' ' :: decimal sess.ver.toNat ++ ascii " IN IP" ++
        decimal (ipver sess.laddr) ++ chr ' ' :: print.addr sess.laddr⟩,
      ⟨chr 's', ascii "-"⟩, connLine print sess.laddr] ++
    bandwidthLines sess.lbwv ++ [⟨chr 't', ascii "0 0"⟩] ++ sess.lattrl.map sdpAttrPrint ++
    medial.flatMap (mediaEncode print · offer),
    { sess with lmedial := lmedial, medial := medial, ver := sess.ver + 1 })

/-- The values of the media lines of a message. -/
def mediaValues (message : List SdpLine) : List (List Byte) :=
  (message.filter fun line => line.type == chr 'm').map (·.value)

section
variable {print}

@[simp] theorem mediaValues_nil : mediaValues [] = [] := rfl

@[simp] theorem mediaValues_append (front back : List SdpLine) :
    mediaValues (front ++ back) = mediaValues front ++ mediaValues back := by
  simp [mediaValues]

@[simp] theorem mediaValues_cons (line : SdpLine) (lines : List SdpLine) :
    mediaValues (line :: lines) = (if line.type = chr 'm' then [line.value] else []) ++ mediaValues lines := by
  unfold mediaValues
  by_cases media : line.type = chr 'm'
  · simp [media]
  · simp [media]

theorem mediaValues_map {α : Type*} (f : α → SdpLine) (other : ∀ a, (f a).type ≠ chr 'm') (l : List α) :
    mediaValues (l.map f) = [] := by
  induction l with
  | nil => rfl
  | cons a l ih => rw [List.map_cons, mediaValues_cons, if_neg (other a), ih, List.nil_append]

@[simp] theorem attr_other (value : List Byte) : (SdpLine.attr value).type ≠ chr 'm' := by
  show chr 'a' ≠ chr 'm'
  decide

@[simp] theorem conn_other (sa : Sa) : (connLine print sa).type ≠ chr 'm' := by
  show chr 'c' ≠ chr 'm'
  decide

@[simp] theorem mediaValues_attrs (values : List (List Byte)) : mediaValues (values.map .attr) = [] :=
  mediaValues_map SdpLine.attr attr_other values

@[simp] theorem mediaValues_lattrs (lattrl : List (String × List Byte)) :
    mediaValues (lattrl.map sdpAttrPrint) = [] :=
  mediaValues_map sdpAttrPrint (fun _ => attr_other _) lattrl

@[simp] theorem mediaValues_bandwidth (bwv : SdpBandwidth → BitVec 32) : mediaValues (bandwidthLines bwv) = [] := by
  apply mediaValues_map
  intro i
  show chr 'b' ≠ chr 'm'
  decide

@[simp] theorem mediaValues_format (fmt : SdpFormat δ) (offer : Bool) :
    mediaValues (formatLines print fmt offer) = [] := by
  unfold formatLines
  dsimp only
  split
  · rfl
  · rename_i name named
    by_cases empty : name = ""
    · rw [if_pos empty]
      rfl
    · rw [if_neg empty]
      cases fmt.params with
      | none => simp
      | some params =>
        by_cases plain : params = ""
        · simp [plain]
        · simp [plain]

@[simp] theorem mediaValues_formats (lfmtl : List (SdpFormat δ)) (offer : Bool) :
    mediaValues (lfmtl.flatMap (formatLines print · offer)) = [] := by
  induction lfmtl with
  | nil => rfl
  | cons fmt lfmtl ih => rw [List.flatMap_cons, mediaValues_append, mediaValues_format, ih, List.nil_append]

@[simp] theorem mediaValues_rtcp (laddrRtcp : Sa) : mediaValues (rtcpLines print laddrRtcp) = [] := by
  unfold rtcpLines
  split_ifs
  all_goals simp

@[simp] theorem mediaLine_type (m : SdpMline δ) (offer : Bool) : (mediaLine m offer).type = chr 'm' := by
  unfold mediaLine
  split_ifs
  all_goals rfl

@[simp] theorem mediaValues_media (m : SdpMline δ) (offer : Bool) :
    mediaValues (mediaEncode print m offer) = [(mediaLine m offer).value] := by
  unfold mediaEncode
  split_ifs
  all_goals simp

theorem mediaValues_medial (medial : List (SdpMline δ)) (offer : Bool) :
    mediaValues (medial.flatMap (mediaEncode print · offer)) = medial.map fun m => (mediaLine m offer).value := by
  induction medial with
  | nil => rfl
  | cons m medial ih =>
    rw [List.flatMap_cons, mediaValues_append, mediaValues_media, ih]
    rfl

/-- There is one line for each media line, in their order. -/
theorem mediaValues_encode (sess : SdpSession δ) (offer : Bool) :
    mediaValues (sdpEncode print sess offer).1 =
      (sdpEncode print sess offer).2.medial.map fun m => (mediaLine m offer).value := by
  have head : chr 'v' ≠ chr 'm' ∧ chr 'o' ≠ chr 'm' ∧ chr 's' ≠ chr 'm' ∧ chr 't' ≠ chr 'm' := by decide
  unfold sdpEncode
  dsimp only
  rw [mediaValues_append, mediaValues_medial]
  simp [head]

end

end Baresip.Re
