import Tlscap.Pcap.Frame
import Tlscap.Pcap.Timestamp

/-!
# The capture stream

The format of a capture is told by its first four bytes, which are then put back in front of
the rest.  A read hands over as many bytes as there are at the moment: how the stream is cut
into reads decides nothing (`openCapture_eq`).

The blocks behind are read by another crate: a source is what that crate yields next, each
block of a pcapng stream with the interfaces declared by then.  `nextPacket` hands out the
packets one by one, with the link type and the time of their own interface, up to the end or
the first error (`PcapSource.nextPacket_cases`).
-/

namespace Tlscap

/-! ## Reads -/

/-- A stream as its reads find it: what has arrived when, none of it empty, and whether it
ends with an error. -/
structure ByteStream where
  arrivals : List Bytes
  fails : Bool
  nonempty : ∀ arrival ∈ arrivals, arrival ≠ []

namespace ByteStream

/-- The bytes that are still to come. -/
def bytes (stream : ByteStream) : Bytes := stream.arrivals.flatten

/-- The stream behind some bytes of its first arrival. -/
def rest (arrival : Bytes) (arrivals : List Bytes) (fails : Bool)
    (nonempty : ∀ other ∈ arrivals, other ≠ []) : ByteStream :=
  if h : arrival = [] then ⟨arrivals, fails, nonempty⟩
  else ⟨arrival :: arrivals, fails, List.forall_mem_cons.mpr ⟨h, nonempty⟩⟩

/-- One `read` into a buffer of `n` bytes: no more than have arrived, and none at the end. -/
def read (stream : ByteStream) (n : ℕ) : Except Unit (Bytes × ByteStream) :=
  match stream with
  | ⟨[], fails, nonempty⟩ => if fails then .error () else .ok ([], ⟨[], fails, nonempty⟩)
  | ⟨arrival :: arrivals, fails, nonempty⟩ =>
      .ok (arrival.take n,
        rest (arrival.drop n) arrivals fails (List.forall_mem_cons.mp nonempty).2)

theorem bytes_rest (arrival : Bytes) (arrivals : List Bytes) (fails : Bool)
    (nonempty : ∀ other ∈ arrivals, other ≠ []) :
    (rest arrival arrivals fails nonempty).bytes = arrival ++ arrivals.flatten ∧
      (rest arrival arrivals fails nonempty).fails = fails := by
  unfold rest
  split
  · subst_vars
    exact ⟨rfl, rfl⟩
  · exact ⟨rfl, rfl⟩

end ByteStream

/-! ## Opening -/

/-- What the capture crate reports. -/
abbrev PcapError := Text

/-- Why a capture cannot be opened. -/
inductive OpenError
  | tooShort
  | unknownMagic
  | pcap (error : PcapError)
  deriving DecidableEq, Repr

/-- The formats told apart by their first bytes. -/
inductive CaptureFormat
  | pcap
  | pcapNg
  deriving DecidableEq, Repr

/-- The format that begins with some bytes. -/
def formatOf (magic : Bytes) : Option CaptureFormat :=
  if magic = [0xA1, 0xB2, 0xC3, 0xD4] ∨ magic = [0xD4, 0xC3, 0xB2, 0xA1] ∨
      magic = [0xA1, 0xB2, 0x3C, 0x4D] ∨ magic = [0x4D, 0x3C, 0xB2, 0xA1] then some .pcap
  else if magic = [0x0A, 0x0D, 0x0D, 0x0A] then some .pcapNg
  else none

/-- Reads until there are four bytes.  Every read brings one, so what is missing bounds the
loop. -/
def readMagic : ℕ → Bytes → ByteStream → Except OpenError (Bytes × ByteStream)
  | 0, filled, input => .ok (filled, input)
  | fuel + 1, filled, input =>
      if filled.length < 4 then
        match input.read (4 - filled.length) with
        | .error () => .error .tooShort
        | .ok (arrived, input) =>
            if arrived.length = 0 then .error .tooShort
            else readMagic fuel (filled ++ arrived) input
      else .ok (filled, input)

/-- A stream behind bytes that were already read off it. -/
structure ChainedReader where
  first : Bytes
  second : ByteStream

/-- All bytes the reader yields. -/
def ChainedReader.bytes (reader : ChainedReader) : Bytes := reader.first ++ reader.second.bytes

/-- The format of a capture, and a reader from its first byte on. -/
def openCapture (input : ByteStream) : Except OpenError (CaptureFormat × ChainedReader) := do
  let (magic, input) ← readMagic 4 [] input
  match formatOf magic with
  | some format => .ok (format, ⟨magic, input⟩)
  | none => .error .unknownMagic

/-- Where the missing bytes are there, they are read, and otherwise the stream is too
short. -/
theorem readMagic_spec : ∀ (fuel : ℕ) (filled : Bytes) (input : ByteStream),
    filled.length ≤ 4 → 4 ≤ filled.length + fuel →
    if 4 ≤ (filled ++ input.bytes).length then
      ∃ rest : ByteStream,
        readMagic fuel filled input = .ok ((filled ++ input.bytes).take 4, rest) ∧
        rest.bytes = (filled ++ input.bytes).drop 4 ∧ rest.fails = input.fails
    else readMagic fuel filled input = .error .tooShort := by
  -- by induction on the fuel, which is at least what is missing
  intro fuel
  induction fuel with
  | zero =>
      intro filled input hle hfuel
      have hlength : filled.length = 4 := by omega
      rw [if_pos (by rw [List.length_append]; omega)]
      refine ⟨input, ?_, ?_, rfl⟩
      · rw [← hlength, List.take_left]
        rfl
      · rw [← hlength, List.drop_left]
  | succ fuel ih =>
      intro filled input hle hfuel
      unfold readMagic
      by_cases hlt : filled.length < 4
      · rw [if_pos hlt]
        obtain ⟨arrivals, fails, hnonempty⟩ := input
        cases arrivals with
        | nil =>
            have hshort : ¬ 4 ≤ (filled ++ ByteStream.bytes ⟨[], fails, hnonempty⟩).length := by
              simpa [ByteStream.bytes] using hlt
            rw [if_neg hshort]
            cases fails <;> rfl
        | cons arrival arrivals =>
            have harrival : arrival ≠ [] := hnonempty arrival List.mem_cons_self
            have hpos := List.length_pos_iff.mpr harrival
            have harrived : ¬ (arrival.take (4 - filled.length)).length = 0 := by
              rw [List.length_take]
              omega
            obtain ⟨hbytes, hfails⟩ := ByteStream.bytes_rest (arrival.drop (4 - filled.length))
              arrivals fails (List.forall_mem_cons.mp hnonempty).2
            -- what was read and what is left make up the same bytes, so the next reads are enough
            have hwhole : filled ++ arrival.take (4 - filled.length) ++
                  (ByteStream.rest (arrival.drop (4 - filled.length)) arrivals fails
                    (List.forall_mem_cons.mp hnonempty).2).bytes =
                filled ++ ByteStream.bytes ⟨arrival :: arrivals, fails, hnonempty⟩ := by
              rw [hbytes, ← List.append_assoc, List.append_assoc filled, List.take_append_drop,
                List.append_assoc]
              rfl
            have hnext := ih (filled ++ arrival.take (4 - filled.length))
              (ByteStream.rest (arrival.drop (4 - filled.length)) arrivals fails
                (List.forall_mem_cons.mp hnonempty).2)
              (by rw [List.length_append, List.length_take]; omega)
              (by rw [List.length_append, List.length_take]; omega)
            rw [hwhole, hfails] at hnext
            unfold ByteStream.read
            dsimp only
            rw [if_neg harrived]
            exact hnext
      · have hlength : filled.length = 4 := by omega
        rw [if_neg hlt, if_pos (by rw [List.length_append]; omega)]
        refine ⟨input, ?_, ?_, rfl⟩
        · rw [← hlength, List.take_left]
        · rw [← hlength, List.drop_left]

/-- What opening yields for some bytes. -/
def openedFormat (bytes : Bytes) : Except OpenError CaptureFormat :=
  if bytes.length < 4 then .error .tooShort
  else
    match formatOf (bytes.take 4) with
    | some format => .ok format
    | none => .error .unknownMagic

/-- Opening depends on the bytes of the stream alone, and the reader begins with the first of
them. -/
theorem openCapture_eq (input : ByteStream) :
    ∃ reader : ChainedReader, reader.bytes = input.bytes ∧ reader.second.fails = input.fails ∧
      openCapture input = (openedFormat input.bytes).map fun format => (format, reader) := by
  have hspec := readMagic_spec 4 [] input (by decide) (by decide)
  rw [List.nil_append] at hspec
  unfold openCapture openedFormat
  by_cases hlong : 4 ≤ input.bytes.length
  · rw [if_pos hlong] at hspec
    obtain ⟨rest, hread, hrest, hfails⟩ := hspec
    refine ⟨⟨input.bytes.take 4, rest⟩, ?_, hfails, ?_⟩
    · rw [ChainedReader.bytes, hrest, List.take_append_drop]
    · rw [hread, if_neg (by omega)]
      change (match formatOf (input.bytes.take 4) with
        | some format => _
        | none => _) = _
      cases formatOf (input.bytes.take 4) with
      | none => rfl
      | some format => rfl
  · rw [if_neg hlong] at hspec
    refine ⟨⟨[], input⟩, rfl, rfl, ?_⟩
    rw [hspec, if_pos (by omega)]
    rfl

/-! ## Packets -/

/-- The bytes of one packet, its number in the stream and its time. -/
structure RawPacket where
  index : ℕ
  data : Bytes
  timestamp : Duration
  deriving DecidableEq, Repr

/-- An interface of a pcapng stream. -/
structure Interface extends InterfaceDescription where
  linktype : DataLink
  deriving DecidableEq, Repr

/-- A packet of a pcapng stream; the capture crate takes its tick count for nanoseconds. -/
structure EnhancedPacketBlock where
  interfaceId : ℕ
  data : Bytes
  timestamp : Duration
  timestamp_lt : timestamp < 2 ^ 64

/-- A block of a pcapng stream; only packets are looked at. -/
inductive Block
  | enhancedPacket (epb : EnhancedPacketBlock)
  | other

/-- A capture stream: what the capture crate yields next, packet by packet or block by
block, each block with the interfaces declared by then. -/
inductive PcapSource
  | pcap (packets : List (Except PcapError (Bytes × Duration))) (linkType : DataLink)
  | pcapNg (blocks : List (Except PcapError (Block × List Interface)))

namespace EnhancedPacketBlock

variable (epb : EnhancedPacketBlock) (interfaces : List Interface)

/-- The link type of the packet's interface. -/
def linkType : DataLink :=
  (interfaces[epb.interfaceId]?.map Interface.linktype).getD .ethernet

/-- The resolution of the packet's interface, where it declares one. -/
def ifTsresol : Option UInt8 :=
  interfaceTsresol (interfaces.map Interface.toInterfaceDescription) epb.interfaceId

/-- The time of the packet by that resolution; rescaling does not fail. -/
def rescaled : Duration :=
  (correctEpbTimestamp epb.timestamp (epb.ifTsresol interfaces)).get
    (Option.isSome_of_eq_some (correctEpbTimestamp_eq epb.timestamp_lt _))

/-- The packet that is handed out for a block. -/
def packet (index : ℕ) : RawPacket × DataLink :=
  (⟨index, epb.data, epb.rescaled interfaces⟩, epb.linkType interfaces)

end EnhancedPacketBlock

namespace PcapSource

/-- The next packet among the blocks; other blocks are skipped. -/
def nextEnhanced (index : ℕ) : List (Except PcapError (Block × List Interface)) →
    Option (Except OpenError (RawPacket × DataLink)) ×
      List (Except PcapError (Block × List Interface))
  | [] => (none, [])
  | .error error :: blocks => (some (.error (.pcap error)), blocks)
  | .ok (.enhancedPacket epb, interfaces) :: blocks =>
      (some (.ok (epb.packet interfaces index)), blocks)
  | .ok (.other, _) :: blocks => nextEnhanced index blocks

/-- The next packet, `none` at the end of the stream. -/
def nextPacket (source : PcapSource) (index : ℕ) :
    Option (Except OpenError (RawPacket × DataLink)) × PcapSource :=
  match source with
  | pcap [] linkType => (none, pcap [] linkType)
  | pcap (.error error :: packets) linkType => (some (.error (.pcap error)), pcap packets linkType)
  | pcap (.ok (data, timestamp) :: packets) linkType =>
      (some (.ok (⟨index, data, timestamp⟩, linkType)), pcap packets linkType)
  | pcapNg blocks =>
      let (result, blocks) := nextEnhanced index blocks
      (result, pcapNg blocks)

/-- How much the capture crate has still to yield. -/
def remaining : PcapSource → ℕ
  | pcap packets _ => packets.length
  | pcapNg blocks => blocks.length

/-! ## What a capture holds -/

/-- The results before the first error. -/
def upToError {ε α : Type} : List (Except ε α) → List α
  | .ok value :: rest => value :: upToError rest
  | .error _ :: _ | [] => []

/-- The packet of a block, if it is one, without a number. -/
def packetOf? : Block × List Interface → Option (ℕ → RawPacket × DataLink)
  | (.enhancedPacket epb, interfaces) => some (epb.packet interfaces)
  | (.other, _) => none

/-- The packets of a capture before the first error, without their numbers. -/
def packets : PcapSource → List (ℕ → RawPacket × DataLink)
  | pcap results linkType =>
      (upToError results).map fun packet index => (⟨index, packet.1, packet.2⟩, linkType)
  | pcapNg blocks => (upToError blocks).filterMap packetOf?

/-- Packets numbered from `index` on. -/
def numbered (index : ℕ) (packets : List (ℕ → RawPacket × DataLink)) :
    List (RawPacket × DataLink) :=
  packets.zipIdx.map fun packet => packet.1 (index + packet.2)

theorem index_packets {source : PcapSource} {packet : ℕ → RawPacket × DataLink}
    (hpacket : packet ∈ source.packets) (index : ℕ) : (packet index).1.index = index := by
  cases source with
  | pcap results linkType =>
      obtain ⟨result, -, rfl⟩ := List.mem_map.mp hpacket
      rfl
  | pcapNg blocks =>
      obtain ⟨⟨block, interfaces⟩, -, hblock⟩ := List.mem_filterMap.mp hpacket
      cases block with
      | enhancedPacket epb =>
          obtain rfl := Option.some.inj hblock
          rfl
      | other => cases hblock

theorem numbered_cons (index : ℕ) (packet : ℕ → RawPacket × DataLink)
    (rest : List (ℕ → RawPacket × DataLink)) :
    numbered index (packet :: rest) = packet index :: numbered (index + 1) rest := by
  unfold numbered
  rw [List.zipIdx_cons', List.map_cons, List.map_map]
  refine congrArg _ (List.map_congr_left fun numberedPacket _ => ?_)
  rw [Function.comp_apply, Prod.map_fst, Prod.map_snd, id_eq, Nat.add_right_comm, Nat.add_assoc]

/-- The next packet is the first of the capture's, and the others are still to come. -/
theorem nextPacket_cases (source : PcapSource) (index : ℕ) :
    (∃ packet rest, source.packets = packet :: rest.packets ∧
        source.nextPacket index = (some (.ok (packet index)), rest) ∧
        rest.remaining < source.remaining) ∨
      (source.packets = [] ∧ ∃ rest, (source.nextPacket index = (none, rest) ∨
        ∃ error, source.nextPacket index = (some (.error error), rest))) := by
  cases source with
  | pcap packets linkType =>
      rcases packets with _ | ⟨error | ⟨data, timestamp⟩, packets⟩
      · exact .inr ⟨rfl, _, .inl rfl⟩
      · exact .inr ⟨rfl, _, .inr ⟨_, rfl⟩⟩
      · exact .inl ⟨_, pcap packets linkType, rfl, rfl, Nat.lt_succ_self _⟩
  | pcapNg blocks =>
      induction blocks with
      | nil => exact .inr ⟨rfl, _, .inl rfl⟩
      | cons block blocks ih =>
          rcases block with error | ⟨epb | _, interfaces⟩
          · exact .inr ⟨rfl, _, .inr ⟨_, rfl⟩⟩
          · exact .inl ⟨_, pcapNg blocks, rfl, rfl, Nat.lt_succ_self _⟩
          · -- a block that is no packet is skipped
            rcases ih with ⟨packet, rest, hpackets, hnext, hlt⟩ | ⟨hpackets, rest, hnext⟩
            · exact .inl ⟨packet, rest, hpackets, hnext, Nat.lt_succ_of_lt hlt⟩
            · exact .inr ⟨hpackets, rest, hnext⟩

end PcapSource

/-! ## From the first byte on -/

/-- The readers of the capture crate: what they yield for the bytes of a stream, and whether it
ends with an error. -/
structure PcapFile where
  pcap : Bytes → Bool → Except PcapError (List (Except PcapError (Bytes × Duration)) × DataLink)
  pcapNg : Bytes → Bool → Except PcapError (List (Except PcapError (Block × List Interface)))

/-- Opens a capture with the reader of its format. -/
def openSource (crate : PcapFile) (input : ByteStream) : Except OpenError PcapSource :=
  match openCapture input with
  | .error error => .error error
  | .ok (.pcap, reader) =>
      match crate.pcap reader.bytes reader.second.fails with
      | .error error => .error (.pcap error)
      | .ok (packets, linkType) => .ok (.pcap packets linkType)
  | .ok (.pcapNg, reader) =>
      match crate.pcapNg reader.bytes reader.second.fails with
      | .error error => .error (.pcap error)
      | .ok blocks => .ok (.pcapNg blocks)

/-- **The cuts decide nothing.**  Streams of the same bytes open alike, however their bytes
arrive. -/
theorem openSource_congr (crate : PcapFile) {input other : ByteStream}
    (hbytes : input.bytes = other.bytes) (hfails : input.fails = other.fails) :
    openSource crate input = openSource crate other := by
  obtain ⟨reader, hreader, hreaderFails, hopen⟩ := openCapture_eq input
  obtain ⟨otherReader, hother, hotherFails, hotherOpen⟩ := openCapture_eq other
  unfold openSource
  rw [hopen, hotherOpen, hbytes]
  rcases openedFormat other.bytes with error | format | _
  · rfl
  · change (match crate.pcap reader.bytes reader.second.fails with
      | .error error => _
      | .ok (packets, linkType) => _) = _
    rw [hreader, hreaderFails, hbytes, hfails, ← hother, ← hotherFails]
    rfl
  · change (match crate.pcapNg reader.bytes reader.second.fails with
      | .error error => _
      | .ok blocks => _) = _
    rw [hreader, hreaderFails, hbytes, hfails, ← hother, ← hotherFails]
    rfl

end Tlscap
