import Baresip.Re.Mbuf

set_option linter.dupNamespace false

namespace Baresip.Video

open Re

def rtpHeaderSize : Nat := 12

structure Packet where
  marker : Bool
  payload : List Byte
  deriving DecidableEq, Repr

/-- `vidcodec_send_h`. The handler owns the buffer while it runs (RTP header, encryption in place) and
    hands back what it made of it; `ω` is whatever the handler argument points to. -/
abbrev VidcodecSendH (ω : Type) := Bool → Mbuf → ω → Option Errno × Mbuf × ω

abbrev VidcodecEnqH (ω : Type) := Bool → Byte → List Byte → ω → Option Errno × ω

structure Packetized (σ : Type) where
  err : Option Errno
  st : σ
  sent : List Packet

/-- The encoder's output buffer: the frame at its start, in memory that is larger than the frame. -/
def encoded (frame slack : List Byte) : Mbuf := ⟨frame ++ slack, 0, frame.length⟩

@[simp] theorem encoded_left (frame slack : List Byte) : (encoded frame slack).left = frame := by
  simp [encoded, Mbuf.left, Mbuf.getLeft]

@[simp] theorem encoded_getLeft (frame slack : List Byte) :
    (encoded frame slack).getLeft = frame.length := rfl

end Baresip.Video
