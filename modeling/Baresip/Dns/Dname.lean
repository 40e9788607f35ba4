import Baresip.Library.BigEndian
import Baresip.Library.Loops
import Baresip.Re.Mbuf
import Baresip.Re.Regex
import Baresip.Re.Written

set_option linter.dupNamespace false

namespace Baresip.Dns

open Re Library

def COMP_MASK : Byte := 0xc0
def OFFSET_MASK : BitVec 16 := 0x3fff
def COMP_LOOP : Nat := 255
def bufSize : Nat := 256

/-- How many values `size_t` has. -/
def sizeValues : Nat := 4294967296

/-- `i` is the length of what has been written to `buf`. `comp` is the position to go back to, once a pointer has
    been followed. -/
structure DnameSt where
  pos : Nat
  buf : List Byte
  loopc : Nat
  comp : Option Nat
  deriving DecidableEq, Repr

inductive DnameEnd
  | name (name : List Byte) (pos : Nat)
  | einval (pos : Nat)
  | outsideRead
  | outsideWrite
  deriving DecidableEq, Repr

def readAt (mb : Mbuf) (pos : Nat) : Option Byte := if pos < mb.endPos then mb.buf[pos]? else none

def putChar (buf : List Byte) (c : Byte) : Except DnameEnd (List Byte) :=
  if buf.length < bufSize then .ok (buf ++ [c]) else .error .outsideWrite

/-- `ntohs(mbuf_read_u16(mb))`, which is 0 when fewer than two bytes are left. -/
def readNtohs (mb : Mbuf) : BitVec 16 × Mbuf :=
  match mb.left with
  | a :: b :: _ => (a ++ b, mb.advance 2)
  | _ => (0, mb)

def copyLabel (mb : Mbuf) : Nat → Nat → List Byte → Except DnameEnd (List Byte)
  | 0, _, buf => .ok buf
  | len + 1, pos, buf =>
    match readAt mb pos with
    | none => .error .outsideRead
    | some c =>
      match putChar buf c with
      | .error e => .error e
      | .ok buf => copyLabel mb len (pos + 1) buf

def putLabel (mb : Mbuf) (len pos : Nat) (buf : List Byte) : Except DnameEnd (List Byte) :=
  if buf.length > 0 then
    match putChar buf 0x2e with
    | .error e => .error e
    | .ok buf => copyLabel mb len pos buf
  else copyLabel mb len pos buf

def dnameBody (mb : Mbuf) (start : Nat) (s : DnameSt) : DnameSt ⊕ DnameEnd :=
  if s.pos < mb.endPos then
    match readAt mb s.pos with
    | none => .inr .outsideRead
    | some len =>
      let pos := s.pos + 1
      if len = 0 then
        match putChar s.buf 0 with
        | .error e => .inr e
        | .ok buf => .inr (.name (buf.takeWhile (· != 0)) (s.comp.getD pos))
      else if len &&& COMP_MASK = COMP_MASK then
        if s.loopc > COMP_LOOP then .inr (.einval pos)
        else
          let (offset, mb) := readNtohs (mb.setPos (pos - 1))
          .inl ⟨((offset &&& OFFSET_MASK).toNat + start) % sizeValues, s.buf, s.loopc + 1, some (s.comp.getD mb.pos)⟩
      else if len.toNat > mb.endPos - pos then .inr (.einval pos)
      else if len.toNat > (bufSize + sizeValues - (s.buf.length + 2)) % sizeValues then .inr (.einval pos)
      else
        match putLabel mb len.toNat pos s.buf with
        | .error e => .inr e
        | .ok buf => .inl ⟨pos + len.toNat, buf, s.loopc, s.comp⟩
  else .inr (.einval s.pos)

def dnameInit (mb : Mbuf) : DnameSt := ⟨mb.pos, [], 0, none⟩

def dnameDecode (mb : Mbuf) (start : Nat) : DnameEnd → Prop := Returns (dnameBody mb start) (dnameInit mb)

/-- The label at a position, all of whose bytes are in the packet. -/
def labelAt (mb : Mbuf) (pos : Nat) : Option (List Byte) :=
  match readAt mb pos with
  | none => none
  | some len =>
    if len = 0 ∨ len &&& COMP_MASK = COMP_MASK ∨ len.toNat > mb.endPos - (pos + 1) then none
    else some ((mb.buf.drop (pos + 1)).take len.toNat)

/-- Where the compression pointer at a position leads to. -/
def pointerAt (mb : Mbuf) (start pos : Nat) : Option Nat :=
  match readAt mb pos with
  | none => none
  | some len =>
    if len &&& COMP_MASK = COMP_MASK then
      some ((((readNtohs (mb.setPos pos)).1 &&& OFFSET_MASK).toNat + start) % sizeValues)
    else none

def joined (text label : List Byte) : List Byte := if text.length > 0 then text ++ 0x2e :: label else label

/-- Following labels and pointers from the start of a name: the text so far, how many pointers it took and where
    the first one stood, and how far it has come. -/
inductive Leads (mb : Mbuf) (start : Nat) : List Byte → Nat → Option Nat → Nat → Prop
  | here : Leads mb start [] 0 none mb.pos
  | label {text hops first pos label} : Leads mb start text hops first pos → labelAt mb pos = some label →
      Leads mb start (joined text label) hops first (pos + 1 + label.length)
  | pointer {text hops first pos target} : Leads mb start text hops first pos → pointerAt mb start pos = some target →
      Leads mb start text (hops + 1) (some (first.getD pos)) target

/-- Where the bytes of the name itself end: behind its first pointer, or else behind its zero byte. -/
inductive OwnEnd (mb : Mbuf) : Nat → Nat → Prop
  | zero {pos} : readAt mb pos = some 0 → OwnEnd mb pos (pos + 1)
  | pointer {pos len} : readAt mb pos = some len → len &&& COMP_MASK = COMP_MASK → OwnEnd mb pos (pos + 2)
  | label {pos label behind} : labelAt mb pos = some label → OwnEnd mb (pos + 1 + label.length) behind →
      OwnEnd mb pos behind

/-- The decoder returns, without an access outside of the packet or of its buffer, and with success the position is
    behind the name. -/
def DecodesSafely (mb : Mbuf) (start : Nat) : Prop :=
  ∃ r, dnameDecode mb start r ∧ r ≠ .outsideRead ∧ r ≠ .outsideWrite ∧
    ∀ name pos, r = .name name pos → OwnEnd mb mb.pos pos

/-- One byte less than the buffer has been filled with whole labels when another one follows. -/
def Overlong (mb : Mbuf) (start : Nat) : Prop :=
  ∃ text hops first pos label, Leads mb start text hops first pos ∧ hops ≤ COMP_LOOP + 1 ∧
    text.length = bufSize - 1 ∧ labelAt mb pos = some label

/-- The first pointer is cut off after its first byte by the end of the packet, and the name goes on to an end. -/
def CutShort (mb : Mbuf) (start : Nat) : Prop :=
  ∃ text hops first pos, Leads mb start text hops (some first) pos ∧ hops ≤ COMP_LOOP + 1 ∧
    text.length ≤ bufSize - 1 ∧ readAt mb pos = some 0 ∧ first + 1 = mb.endPos

structure Dname where
  name : List Byte
  pos : Nat
  deriving DecidableEq, Repr

/-- The buffer, and the names that have been written to it. There may be no table. Names that are equal but for case
    are in one list of the hash table, in the order in which they were added. -/
structure EncodeSt where
  mb : Mbuf
  ht : Option (List Dname)
  deriving DecidableEq, Repr

def dot : Byte := 0x2e

def strCasecmp (a b : List Byte) : Bool := a.map tolower == b.map tolower

def dnameAppend (ht : Option (List Dname)) (name : List Byte) (pos : Nat) : Option (List Dname) :=
  ht.map fun dns => if pos > OFFSET_MASK.toNat ∨ name = [] then dns else dns ++ [⟨name, pos⟩]

def dnameLookup (ht : Option (List Dname)) (name : List Byte) : Option Dname :=
  ht.bind fun dns => dns.find? fun dn => strCasecmp dn.name name

def encodePointer (mb : Mbuf) (pos : Nat) : Mbuf :=
  mb.writeMem (putBe 2 (BitVec.ofNat 16 pos ||| COMP_MASK.setWidth 16 <<< 8).toNat)

/-- `pos - start`, as a `size_t`. -/
def offset (pos start : Nat) : Nat := (pos + sizeValues - start) % sizeValues

section
variable (start : Nat) (comp : Bool)

/-- `pos` is where the length of the current label goes. -/
def encodeLoop : List Byte → Nat → EncodeSt → Option Errno × EncodeSt
  | [], pos, s =>
    let lablen := s.mb.pos - pos - 1
    if lablen = 0 then (none, s) else (none, { s with mb := (s.mb.putAt pos (.ofNat 8 lablen)).writeU8 0 })
  | c :: name, pos, s =>
    if c = dot then
      let lablen := s.mb.pos - pos - 1
      if lablen = 0 then (some .EINVAL, s)
      else
        let mb := s.mb.putAt pos (.ofNat 8 lablen)
        match dnameLookup s.ht name with
        | some dn =>
          if comp then (none, { s with mb := encodePointer mb dn.pos })
          else encodeLoop name mb.pos { s with mb := mb.writeU8 0 }
        | none => encodeLoop name mb.pos ⟨mb.writeU8 0, dnameAppend s.ht name (offset mb.pos start)⟩
    else encodeLoop name pos { s with mb := s.mb.writeU8 c }

theorem encodeLoop_nil (pos : Nat) (s : EncodeSt) :
    encodeLoop start comp [] pos s =
      if s.mb.pos - pos - 1 = 0 then (none, s)
      else (none, { s with mb := (s.mb.putAt pos (.ofNat 8 (s.mb.pos - pos - 1))).writeU8 0 }) := rfl

theorem encodeLoop_char {c : Byte} (char : c ≠ dot) (name : List Byte) (pos : Nat) (s : EncodeSt) :
    encodeLoop start comp (c :: name) pos s = encodeLoop start comp name pos { s with mb := s.mb.writeU8 c } := if_neg char

theorem encodeLoop_dot (name : List Byte) (pos : Nat) (s : EncodeSt) :
    encodeLoop start comp (dot :: name) pos s =
      if s.mb.pos - pos - 1 = 0 then (some .EINVAL, s)
      else
        match dnameLookup s.ht name with
        | some dn =>
          if comp then (none, { s with mb := encodePointer (s.mb.putAt pos (.ofNat 8 (s.mb.pos - pos - 1))) dn.pos })
          else encodeLoop start comp name (s.mb.putAt pos (.ofNat 8 (s.mb.pos - pos - 1))).pos
            { s with mb := (s.mb.putAt pos (.ofNat 8 (s.mb.pos - pos - 1))).writeU8 0 }
        | none => encodeLoop start comp name (s.mb.putAt pos (.ofNat 8 (s.mb.pos - pos - 1))).pos
            ⟨(s.mb.putAt pos (.ofNat 8 (s.mb.pos - pos - 1))).writeU8 0,
              dnameAppend s.ht name (offset (s.mb.putAt pos (.ofNat 8 (s.mb.pos - pos - 1))).pos start)⟩ := if_pos rfl

/-- The loop is not entered for the name of the root. -/
def encodeLabels (name : List Byte) (s : EncodeSt) : Option Errno × EncodeSt :=
  let next := { s with mb := s.mb.writeU8 0 }
  if name = [dot] then (none, next) else encodeLoop start comp name s.mb.pos next

def dnameEncode (name : List Byte) (s : EncodeSt) : Option Errno × EncodeSt :=
  match dnameLookup s.ht name with
  | some dn =>
    if comp then (none, { s with mb := encodePointer s.mb dn.pos }) else encodeLabels start comp name s
  | none => encodeLabels start comp name { s with ht := dnameAppend s.ht name (offset s.mb.pos start) }

end

/-- The next name of a message, with its own choice of `comp`. -/
def encodeStep (start : Nat) (s : EncodeSt) (call : List Byte × Bool) : EncodeSt :=
  (dnameEncode start call.2 call.1 s).2

end Baresip.Dns
