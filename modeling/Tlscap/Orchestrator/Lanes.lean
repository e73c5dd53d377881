import Tlscap.Orchestrator.Desync
import Tlscap.Reassembly.Unclocked

/-!
# The stream of one direction

A frame is fed to the stream of its own direction: what becomes of the stream, and
which records it yields, depends on nothing else of the connection (`handleFrame_lane`).
Nor does it depend on where in the capture the frame sits, or when, as long as the frame
gives up a gap at the one place if and only if it does at the other
(`Lane.feed_retimed`).

That last condition is what is left of the clock.  A stream remembers when its gap was
opened, and a push gives the gap up once it is too old; without that reading
(`Lane.unclock`) two streams stay the same.  The steps of `feed` are gone through one by
one: a SYN anchors the stream, the push adds the payload, and the complete records are
cut off.
-/

namespace Tlscap

/-- The stream of a direction, whatever its packets are numbered. -/
structure Lane where
  reassembler : StreamReassembler
  desynced : Bool

/-- The stream of a direction of the connection. -/
def Connection.lane (conn : Connection) (isClientToServer : Bool) : Lane :=
  ⟨(conn.reassemblerFor isClientToServer).renumber fun _ => 0, conn.isDesynced isClientToServer⟩

/-- The same segment at another place of the capture, at another time. -/
structure FrameInput.Retimed (input other : FrameInput) : Prop where
  frame : other.frame = input.frame
  payload : other.payload = input.payload

theorem FrameInput.Retimed.refl (input : FrameInput) : input.Retimed input := ⟨rfl, rfl⟩

namespace Lane

variable (config : OrchestratorConfig) (lane : Lane) (input : FrameInput)

/-- A SYN anchors the stream. -/
def anchor : Lane :=
  if input.frame.flags.syn then
    { lane with reassembler := lane.reassembler.setIsn (input.frame.seq + 1) }
  else lane

/-- Pushes the payload, unless bytes were lost before; a push that abandons a gap loses
bytes. -/
def push : Lane :=
  if input.payload = [] ∨ lane.desynced = true then lane
  else
    let pushed := lane.reassembler.push 0 input.frame.seq input.frame.payloadRange input.payload
      input.clock.gapOpened input.clock.gapChecked
    if pushed.1.isGapAbandoned then ⟨.withPendingLimits config.pendingLimits, true⟩
    else ⟨pushed.2, lane.desynced⟩

/-- Feeds a frame: the stream behind the records it completes, and these records. -/
def feed : Lane × List (UInt8 × Bytes) :=
  let received := (lane.anchor input).push config input
  let taken := takeRecords received.reassembler.contiguousLen received.reassembler
  (⟨taken.2, received.desynced⟩, taken.1)

/-- Pushing the payload of the frame gives up a gap. -/
def GivesUpGap : Prop :=
  input.payload ≠ [] ∧ lane.desynced = false ∧
    (lane.reassembler.push 0 input.frame.seq input.frame.payloadRange input.payload
      input.clock.gapOpened input.clock.gapChecked).1.isGapAbandoned = true

instance : Decidable (lane.GivesUpGap input) := inferInstanceAs (Decidable (_ ∧ _))

/-- The stream without the reading that opened its gap. -/
def unclock : Lane := ⟨lane.reassembler.unclock, lane.desynced⟩

end Lane

/-! ## Records do not show packet numbers -/

theorem takeRecords_renumber (number : ℕ → ℕ) (fuel : ℕ) (r : StreamReassembler) :
    takeRecords fuel (r.renumber number) =
      ((takeRecords fuel r).1, (takeRecords fuel r).2.renumber number) := by
  induction fuel generalizing r with
  | zero => rfl
  | succ fuel ih =>
      have hlength : (r.renumber number).contiguousLen = r.contiguousLen := rfl
      unfold takeRecords
      rw [hlength, StreamReassembler.peek_renumber, StreamReassembler.takeBytes_renumber]
      split_ifs
      · rfl
      · rfl
      · cases r.takeBytes (recordLength (r.peek 5)) with
        | none => rfl
        | some result =>
            obtain ⟨⟨record, pieces⟩, rest⟩ := result
            simp only [Option.map_some, ih]

/-! ## Nor do they show the time -/

theorem takeRecords_unclock (fuel : ℕ) (r : StreamReassembler) :
    takeRecords fuel r.unclock = ((takeRecords fuel r).1, (takeRecords fuel r).2.unclock) := by
  induction fuel generalizing r with
  | zero => rfl
  | succ fuel ih =>
      have hlength : r.unclock.contiguousLen = r.contiguousLen := rfl
      unfold takeRecords
      rw [hlength, StreamReassembler.peek_unclock, StreamReassembler.takeBytes_unclock]
      split_ifs
      · rfl
      · rfl
      · cases r.takeBytes (recordLength (r.peek 5)) with
        | none => rfl
        | some result =>
            obtain ⟨⟨record, pieces⟩, rest⟩ := result
            simp only [Option.map_some, onState, ih]

namespace Lane

variable {config : OrchestratorConfig} {lane lane' : Lane} {input other : FrameInput}

theorem anchor_unclock (hlane : lane.unclock = lane'.unclock) (h : input.Retimed other) :
    (lane.anchor input).unclock = (lane'.anchor other).unclock := by
  have hanchor : ∀ (lane : Lane) (input : FrameInput), (lane.anchor input).unclock =
      if input.frame.flags.syn then
        ⟨lane.unclock.reassembler.setIsn (input.frame.seq + 1), lane.unclock.desynced⟩
      else lane.unclock := by
    intro lane input
    unfold anchor
    split
    · exact congrArg (Lane.mk · _) (StreamReassembler.setIsn_unclock _ _)
    · rfl
  rw [hanchor, hanchor, h.frame, hlane]

theorem push_unclock (hlane : lane.unclock = lane'.unclock) (h : input.Retimed other)
    (hgap : lane.GivesUpGap input ↔ lane'.GivesUpGap other) :
    (lane.push config input).unclock = (lane'.push config other).unclock := by
  obtain ⟨hreassembler, hdesynced⟩ := Lane.mk.inj hlane
  unfold GivesUpGap at hgap
  unfold push
  rw [h.frame, h.payload, ← hdesynced] at hgap ⊢
  simp only
  split_ifs with hignored hgave hgave' hgave'
  · exact hlane
  · rfl
  · exact absurd (hgap.mp ⟨fun hnil => hignored (.inl hnil),
      Bool.eq_false_iff.mpr fun hlost => hignored (.inr hlost), hgave⟩).2.2 hgave'
  · exact absurd (hgap.mpr ⟨fun hnil => hignored (.inl hnil),
      Bool.eq_false_iff.mpr fun hlost => hignored (.inr hlost), hgave'⟩).2.2 hgave
  · exact congrArg (Lane.mk · _) (StreamReassembler.push_unclock hreassembler 0 _ _ _
      (Bool.eq_false_iff.mpr hgave) (Bool.eq_false_iff.mpr hgave'))

/-- **A frame at another time** completes the same records, if it gives up a gap at both
times or at neither. -/
theorem feed_retimed (hlane : lane.unclock = lane'.unclock) (h : input.Retimed other)
    (hgap : (lane.anchor input).GivesUpGap input ↔ (lane'.anchor other).GivesUpGap other) :
    (lane.feed config input).1.unclock = (lane'.feed config other).1.unclock ∧
      (lane.feed config input).2 = (lane'.feed config other).2 := by
  have hreceived : ((lane.anchor input).push config input).unclock =
      ((lane'.anchor other).push config other).unclock :=
    push_unclock (anchor_unclock hlane h) h hgap
  obtain ⟨hreassembler, hdesynced⟩ := Lane.mk.inj hreceived
  have hlength := congrArg StreamReassembler.contiguousLen hreassembler
  have htaken := congrArg
    (takeRecords ((lane.anchor input).push config input).reassembler.contiguousLen) hreassembler
  rw [takeRecords_unclock, takeRecords_unclock, Prod.mk.injEq] at htaken
  change ((lane.anchor input).push config input).reassembler.contiguousLen =
    ((lane'.anchor other).push config other).reassembler.contiguousLen at hlength
  simp only [feed, ← hlength]
  exact ⟨congrArg₂ Lane.mk htaken.2 hdesynced, htaken.1⟩

end Lane

/-- Receiving the payload of a frame abandons a gap where its stream gives one up. -/
theorem abandonsGap_iff (conn : Connection) (isClientToServer : Bool) (input : FrameInput) :
    AbandonsGap conn isClientToServer input ↔ (conn.lane isClientToServer).GivesUpGap input := by
  have hpushed := (conn.reassemblerFor isClientToServer).push_renumber (fun _ => 0)
    input.packetIndex input.frame.seq input.frame.payloadRange input.payload
    input.clock.gapOpened input.clock.gapChecked
  have houtcome : ((conn.lane isClientToServer).reassembler.push 0 input.frame.seq
      input.frame.payloadRange input.payload input.clock.gapOpened input.clock.gapChecked).1 =
        ((conn.reassemblerFor isClientToServer).push input.packetIndex input.frame.seq
          input.frame.payloadRange input.payload input.clock.gapOpened
          input.clock.gapChecked).1 := (congrArg Prod.fst hpushed).trans rfl
  unfold Lane.GivesUpGap AbandonsGap
  rw [houtcome]
  rfl

/-! ## A frame feeds its own direction -/

section Frame

variable {config : OrchestratorConfig}

theorem lane_noteFlags (conn : Connection) (direction : Bool) (input : FrameInput)
    (other : Bool) :
    (noteFlags conn direction input).lane other =
      if other = direction then (conn.lane other).anchor input else conn.lane other := by
  unfold Connection.lane Lane.anchor
  rw [reassemblerFor_noteFlags, isDesynced_noteFlags]
  by_cases hown : other = direction
  · rw [if_pos hown]
    cases hsyn : input.frame.flags.syn with
    | true =>
        rw [if_pos ⟨rfl, hown⟩, if_pos rfl]
        exact congrArg (Lane.mk · _) (StreamReassembler.setIsn_renumber _ _ _).symm
    | false => rw [if_neg fun h => Bool.false_ne_true h.1, if_neg Bool.false_ne_true]
  · rw [if_neg hown, if_neg fun h => hown h.2]

theorem lane_receivePayload (conn : Connection) (direction : Bool) (input : FrameInput)
    (other : Bool) :
    (receivePayload config conn 0 direction input).1.lane other =
      if other = direction then (conn.lane other).push config input else conn.lane other := by
  have hpushed := (conn.reassemblerFor direction).push_renumber (fun _ => 0) input.packetIndex
    input.frame.seq input.frame.payloadRange input.payload input.clock.gapOpened
    input.clock.gapChecked
  by_cases hown : other = direction
  · subst hown
    rw [if_pos rfl]
    have hlane : (conn.lane other).reassembler =
      (conn.reassemblerFor other).renumber fun _ => 0 := rfl
    unfold Lane.push
    rw [hlane, hpushed]
    rcases receivePayload_cases conn other input with
      ⟨hignored, hreceived⟩ | ⟨hpayload, hsynced, hkept, hreceived⟩ |
        ⟨⟨hpayload, hsynced, hgap⟩, hreceived⟩
    · rw [hreceived]
      exact (if_pos hignored).symm
    · rw [hreceived, if_neg (not_or.mpr ⟨hpayload, fun h => by cases hsynced.symm.trans h⟩)]
      simp only [onState, hkept, Bool.false_eq_true, if_false]
      cases other <;> rfl
    · rw [hreceived, if_neg (not_or.mpr ⟨hpayload, fun h => by cases hsynced.symm.trans h⟩)]
      simp only [onState, hgap, if_true]
      cases other <;> rfl
  · rw [if_neg hown]
    rcases receivePayload_cases conn direction input with
      ⟨-, hreceived⟩ | ⟨-, -, -, hreceived⟩ | ⟨-, hreceived⟩
    · rw [hreceived]
    · rw [hreceived]
      cases other <;> cases direction <;> first | rfl | exact absurd rfl hown
    · rw [hreceived]
      cases other <;> cases direction <;> first | rfl | exact absurd rfl hown

variable {σ : Type} (config) (crypto : Crypto) (vm : LuaVm σ)

/-- **A frame feeds its own direction** and leaves the other one alone; its records are
those its direction yields. -/
theorem handleFrame_lane (found : Option Connection) (shared : Shared σ) (input : FrameInput) :
    let opened := openConnection config found input
    let isClientToServer := direction config found input
    let fed := (opened.lane isClientToServer).feed config input
    (∀ other, (handleFrame crypto vm config found shared input).1.lane other =
        if other = isClientToServer then fed.1 else opened.lane other) ∧
      (frameSteps crypto vm config found shared input).map
        (fun step => (step.contentType, step.body)) = fed.2 := by
  intro opened isClientToServer fed
  set received := (receive config found input).1 with hreceived
  have hlane : ∀ other, received.lane other = if other = isClientToServer then
      ((opened.lane other).anchor input).push config input else opened.lane other := by
    intro other
    rw [hreceived, show receive config found input = receivePayload config
      (noteFlags opened isClientToServer input) 0 isClientToServer input from rfl,
      lane_receivePayload, lane_noteFlags]
    split
    · rfl
    · rfl
  have hown := hlane isClientToServer
  rw [if_pos rfl] at hown
  have htaken := takeRecords_renumber (fun _ => 0)
    (received.reassemblerFor isClientToServer).contiguousLen
    (received.reassemblerFor isClientToServer)
  have hfed : fed = (⟨(takeRecords (received.reassemblerFor isClientToServer).contiguousLen
        (received.reassemblerFor isClientToServer)).2.renumber fun _ => 0,
          received.isDesynced isClientToServer⟩,
      (takeRecords (received.reassemblerFor isClientToServer).contiguousLen
        (received.reassemblerFor isClientToServer)).1) := by
    have hlength : (received.lane isClientToServer).reassembler.contiguousLen =
      (received.reassemblerFor isClientToServer).contiguousLen := rfl
    change Lane.feed config (opened.lane isClientToServer) input = _
    unfold Lane.feed
    rw [← hown]
    simp only [hlength]
    unfold Connection.lane
    simp only [htaken]
  obtain ⟨hdrains, -, -⟩ := handleFrame_drains crypto vm config found shared input
  refine ⟨fun other => ?_, ?_⟩
  · by_cases hother : other = isClientToServer
    · subst hother
      -- its own direction: what is received is cut into records, and no mark changes after that
      have hleft : (handleFrame crypto vm config found shared input).1.reassemblerFor
          (direction config found input) =
            (takeRecords (received.reassemblerFor (direction config found input)).contiguousLen
              (received.reassemblerFor (direction config found input))).2 := by
        unfold handleFrame drainRecords
        simp only
        rw [receivePayload_add]
        exact drainLoop_left crypto vm config (direction config found input) input.timestamp
          input.keylogReadings _ 0 _ _
      have hmark : (handleFrame crypto vm config found shared input).1.isDesynced
          (direction config found input) = received.isDesynced (direction config found input) := by
        apply (hdrains.invariant (P := fun conn _ =>
          conn.isDesynced (direction config found input) =
            received.isDesynced (direction config found input)) _ rfl).1
        intro conn shared step htakes hkept
        obtain ⟨rest, -, hconn⟩ := htakes.record
        rw [(step.sameStreams crypto vm config).desynced, hconn,
          Connection.isDesynced_setReassembler, hkept]
      rw [if_pos rfl, hfed]
      unfold Connection.lane
      rw [hleft, hmark]
    · rw [if_neg hother]
      -- the other direction: draining does not touch it either
      obtain ⟨hstream, hdesynced⟩ := hdrains.otherStream hother
      have hlast := hlane other
      rw [if_neg hother] at hlast
      rw [← hlast]
      unfold Connection.lane
      rw [hstream, hdesynced]
  · rw [hfed]
    exact drainSteps_records crypto vm config isClientToServer input.timestamp
      input.keylogReadings _ 0 _ _

end Frame

end Tlscap
