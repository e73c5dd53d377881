import Tlscap.Orchestrator.Model

/-!
# The TCP segment of a packet

A packet begins with the header of its link type, which is of a fixed length for all but
Ethernet.  Behind it another crate slices the IP packet (`Etherparse`); what it hands out as
the payload lies within the bytes it was given, and that is all that is assumed of it.

So the payload range of a parsed frame lies within the packet (`parseTcpFrame_valid`): for
Ethernet and bare IP it is the crate's own range, and for the others that range moved by the
length of the header, which the packet has to be as long as.
-/

namespace Tlscap

/-- The link types that are told apart. -/
inductive DataLink
  | null
  | ethernet
  | raw
  | loop
  | linuxSll
  | linuxSll2
  | other (code : ℕ)
  deriving DecidableEq, Repr

/-! ## What the slicing crate yields -/

/-- What is looked at of a TCP header; the payload by its place in the sliced bytes. -/
structure TcpSlice where
  sourcePort : UInt16
  destinationPort : UInt16
  sequenceNumber : UInt32
  acknowledgmentNumber : UInt32
  flags : TcpFlags
  payload : ByteRange
  deriving DecidableEq, Repr

/-- The network layer, as far as it was sliced. -/
inductive LaxNetSlice
  | ipv4 (sourceAddr destinationAddr : UInt32)
  | ipv6 (sourceAddr destinationAddr : BitVec 128)
  | other
  deriving DecidableEq, Repr

/-- The transport layer; only TCP is looked into. -/
inductive TransportSlice
  | tcp (slice : TcpSlice)
  | other
  deriving DecidableEq, Repr

/-- The slices of some bytes; a payload is one of them. -/
structure LaxSlicedPacket (data : Bytes) where
  net : Option LaxNetSlice
  transport : Option TransportSlice
  payload_within : ∀ tcp ∈ transport, ∀ slice, tcp = .tcp slice →
    slice.payload.start ≤ slice.payload.stop ∧ slice.payload.stop ≤ data.length

/-- What the program uses of the slicing crate. -/
structure Etherparse where
  fromEthernet : (data : Bytes) → Option (LaxSlicedPacket data)
  fromIp : (data : Bytes) → Option (LaxSlicedPacket data)

/-! ## Parsing -/

/-- Why a packet gives no frame. -/
inductive ParseError
  | notTcp
  deriving DecidableEq, Repr

/-- The pseudo-header of a cooked capture. -/
def linuxSllHeaderLen : ℕ := 16

/-- That of the second version. -/
def linuxSll2HeaderLen : ℕ := 20

/-- The address family in front of a loopback packet. -/
def nullLoopHeaderLen : ℕ := 4

/-- The frame of a sliced packet; its payload starts behind `baseOffset` other bytes. -/
def LaxSlicedPacket.frame {data : Bytes} (sliced : LaxSlicedPacket data) (baseOffset : ℕ) :
    Except ParseError TcpFrame := do
  let (srcIp, dstIp) ← match sliced.net with
    | some (.ipv4 src dst) => .ok (IpAddr.v4 src, IpAddr.v4 dst)
    | some (.ipv6 src dst) => .ok (IpAddr.v6 src, IpAddr.v6 dst)
    | _ => .error .notTcp
  match sliced.transport with
  | some (.tcp tcp) =>
      .ok {
        srcIp, dstIp
        srcPort := tcp.sourcePort
        dstPort := tcp.destinationPort
        seq := tcp.sequenceNumber
        ackNumber := tcp.acknowledgmentNumber
        flags := tcp.flags
        payloadRange := ⟨baseOffset + tcp.payload.start, baseOffset + tcp.payload.stop⟩ }
  | _ => .error .notTcp

/-- The frame of an IP packet behind `baseOffset` other bytes. -/
def ipFrame (etherparse : Etherparse) (baseOffset : ℕ) (data : Bytes) :
    Except ParseError TcpFrame :=
  match etherparse.fromIp data with
  | none => .error .notTcp
  | some sliced => sliced.frame baseOffset

/-- The frame of an IP packet behind a header of fixed length. -/
def parseBehind (etherparse : Etherparse) (headerLen : ℕ) (data : Bytes) :
    Except ParseError TcpFrame :=
  if data.length < headerLen then .error .notTcp
  else ipFrame etherparse headerLen (data.drop headerLen)

/-- The TCP segment of a packet; anything else is not an error but skipped. -/
def parseTcpFrame (etherparse : Etherparse) (linkType : DataLink) (data : Bytes) :
    Except ParseError TcpFrame :=
  match linkType with
  | .ethernet =>
      match etherparse.fromEthernet data with
      | none => .error .notTcp
      | some sliced => sliced.frame 0
  | .linuxSll => parseBehind etherparse linuxSllHeaderLen data
  | .linuxSll2 => parseBehind etherparse linuxSll2HeaderLen data
  | .raw => ipFrame etherparse 0 data
  | .null | .loop => parseBehind etherparse nullLoopHeaderLen data
  | .other _ => .error .notTcp

/-! ## The payload lies within the packet -/

theorem LaxSlicedPacket.frame_valid {data : Bytes} {sliced : LaxSlicedPacket data}
    {baseOffset : ℕ} {frame : TcpFrame} (h : sliced.frame baseOffset = .ok frame) :
    frame.payloadRange.start ≤ frame.payloadRange.stop ∧
      frame.payloadRange.stop ≤ baseOffset + data.length := by
  obtain ⟨net, transport, hwithin⟩ := sliced
  unfold LaxSlicedPacket.frame at h
  cases transport with
  | none => rcases net with _ | ⟨_, _⟩ | ⟨_, _⟩ | _ <;> cases h
  | some slice =>
      cases slice with
      | other => rcases net with _ | ⟨_, _⟩ | ⟨_, _⟩ | _ <;> cases h
      | tcp tcp =>
          obtain ⟨hle, hstop⟩ := hwithin (.tcp tcp) rfl tcp rfl
          rcases net with _ | ⟨_, _⟩ | ⟨_, _⟩ | _
          · cases h
          · cases h
            exact ⟨Nat.add_le_add_left hle _, Nat.add_le_add_left hstop _⟩
          · cases h
            exact ⟨Nat.add_le_add_left hle _, Nat.add_le_add_left hstop _⟩
          · cases h

theorem ipFrame_valid {etherparse : Etherparse} {baseOffset : ℕ} {data : Bytes}
    {frame : TcpFrame} (h : ipFrame etherparse baseOffset data = .ok frame) :
    frame.payloadRange.start ≤ frame.payloadRange.stop ∧
      frame.payloadRange.stop ≤ baseOffset + data.length := by
  unfold ipFrame at h
  split at h
  · cases h
  · exact LaxSlicedPacket.frame_valid h

theorem parseBehind_valid {etherparse : Etherparse} {headerLen : ℕ} {data : Bytes}
    {frame : TcpFrame} (h : parseBehind etherparse headerLen data = .ok frame) :
    frame.payloadRange.start ≤ frame.payloadRange.stop ∧
      frame.payloadRange.stop ≤ data.length := by
  unfold parseBehind at h
  split_ifs at h with hshort
  obtain ⟨hle, hstop⟩ := ipFrame_valid h
  rw [List.length_drop] at hstop
  exact ⟨hle, by omega⟩

/-- The payload range of a frame is one of its packet. -/
theorem parseTcpFrame_valid {etherparse : Etherparse} {linkType : DataLink} {data : Bytes}
    {frame : TcpFrame} (h : parseTcpFrame etherparse linkType data = .ok frame) :
    frame.payloadRange.start ≤ frame.payloadRange.stop ∧
      frame.payloadRange.stop ≤ data.length := by
  cases linkType with
  | ethernet =>
      unfold parseTcpFrame at h
      dsimp only at h
      split at h
      · cases h
      · have hvalid := LaxSlicedPacket.frame_valid h
        rw [Nat.zero_add] at hvalid
        exact hvalid
  | raw =>
      have hvalid := ipFrame_valid h
      rw [Nat.zero_add] at hvalid
      exact hvalid
  | linuxSll => exact parseBehind_valid h
  | linuxSll2 => exact parseBehind_valid h
  | null => exact parseBehind_valid h
  | loop => exact parseBehind_valid h
  | other code => cases h

end Tlscap
