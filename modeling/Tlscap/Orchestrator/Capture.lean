import Tlscap.Connection.Session
import Tlscap.Orchestrator.Decoder

/-!
# Captured frames

Frames of an Ethernet capture, as the parser hands them over, and the frames of a
client that opens a TLS 1.3 session and sends a request.  A segment built here has
its payload at byte 54 of the packet and takes no time to process.
-/

namespace Tlscap

namespace Capture

/-- Readings of a keylog file that cannot be read. -/
def noReadings : KeylogReadings :=
  ⟨0, ⟨0, none, ⟨none, none⟩⟩, ⟨none, none⟩, ⟨0, none, ⟨none, none⟩⟩⟩

theorem steady_noReadings (hexDecode : Text → Option Bytes) (hasPath : Bool) (keylog : Keylog) :
    noReadings.Steady hexDecode hasPath keylog := by
  rintro - text (htext | htext) <;> cases htext

/-- Frames that are captured with the same readings of a keylog that does not change. -/
theorem steady_of_noReadings {α : Type} {parts : List α} {input : α → FrameInput}
    (h : parts.map (fun part => (input part).keylogReadings) =
      List.replicate parts.length fun _ => noReadings)
    (hexDecode : Text → Option Bytes) (hasPath : Bool) (keylog : Keylog) :
    ∀ part ∈ parts, ∀ index,
      ((input part).keylogReadings index).Steady hexDecode hasPath keylog := by
  intro part hpart index
  have hmem : (input part).keylogReadings ∈
      parts.map (fun part => (input part).keylogReadings) := List.mem_map_of_mem hpart
  rw [h] at hmem
  rw [List.eq_of_mem_replicate hmem]
  exact steady_noReadings hexDecode hasPath keylog

/-- A captured segment. -/
def segment (src dst : Endpoint) (packetIndex : ℕ) (seq : UInt32) (flags : TcpFlags)
    (payload : Bytes) (now : Instant) : FrameInput where
  frame := ⟨src.ip, dst.ip, src.port, dst.port, seq, 0, flags, ⟨54, 54 + payload.length⟩⟩
  packetIndex := packetIndex
  packetData := List.replicate 54 0 ++ payload
  timestamp := now
  clock := ⟨now, now, now, now, now, now, now, now⟩
  keylogReadings := fun _ => noReadings
  payload_valid := by
    refine ⟨Nat.le_add_right 54 _, ?_⟩
    rw [List.length_append, List.length_replicate]

@[simp] theorem payload_segment (src dst : Endpoint) (packetIndex : ℕ) (seq : UInt32)
    (flags : TcpFlags) (payload : Bytes) (now : Instant) :
    (segment src dst packetIndex seq flags payload now).payload = payload := by
  have hheaders : (List.replicate 54 (0 : UInt8)).length = 54 := List.length_replicate
  unfold FrameInput.payload segment slice
  simp only [Nat.add_sub_cancel_left]
  rw [List.drop_append_of_le_length hheaders.ge, List.drop_eq_nil_of_le hheaders.le,
    List.nil_append, List.take_length]

/-- The reader opened on the keylog of the recorded session. -/
def source : KeylogSource := KeylogSource.fromParsed RecordedSession.keylog 0

/-- The engine without any dissector loaded. -/
def plainVm : LuaVm Unit where
  hasDissectorForPort _ _ := false
  call heap _ _ := (heap, .error "no dissector".toList)
  gcCollect := id

/-- What an engine without dissectors computes. -/
def plainDissector : Dissector := fun _ _ => .ok none

theorem plainVm_isPure : plainVm.IsPure plainDissector := fun _ _ _ => rfl

/-! ## The frames of a session -/

/-- The client the captures are taken at. -/
def client : Endpoint := ⟨.v4 0x0a000001, 40000⟩

/-- A client whose connection goes on beside that one. -/
def otherClient : Endpoint := ⟨.v4 0x0a000002, 40000⟩

/-- The server of both. -/
def server : Endpoint := ⟨.v4 0x0a000063, 443⟩

/-- The flags of the segment that opens a connection. -/
def syn : TcpFlags := ⟨true, false, false, false, false⟩

/-- The flags of the answer to it. -/
def synAck : TcpFlags := ⟨true, false, false, true, false⟩

/-- The flags of a segment that only carries data. -/
def ack : TcpFlags := ⟨false, false, false, true, false⟩

/-- The flags of the last segment of a direction. -/
def finAck : TcpFlags := ⟨false, true, false, true, false⟩

/-- The record of a ClientHello with the client random of the recorded session. -/
def hello : Bytes :=
  [0x16, 0x03, 0x01, 0x00, 0x26, 0x01, 0x00, 0x00, 0x22, 0x03, 0x03] ++ List.replicate 32 0xaa

/-- The record of the client's request. -/
def request : Bytes := [0x17, 0x03, 0x03, 0x00, 0x17] ++ RecordedSession.request

/-- The record of the ServerHello with the server random of the recorded session. -/
def serverHello : Bytes :=
  [0x16, 0x03, 0x03, 0x00, 0x26, 0x02, 0x00, 0x00, 0x22, 0x03, 0x03] ++ List.replicate 32 0xbb

/-- The record of the server's response. -/
def response : Bytes := [0x17, 0x03, 0x03, 0x00, 0x13] ++ RecordedSession.response

/-- A ChangeCipherSpec record. -/
def changeCipherSpec : Bytes := [0x14, 0x03, 0x03, 0x00, 0x01, 0x01]

end Capture

end Tlscap
