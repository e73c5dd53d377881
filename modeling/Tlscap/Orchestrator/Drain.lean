import Mathlib.Data.List.GetD
import Tlscap.Library.Framing
import Tlscap.Library.Run
import Tlscap.Orchestrator.Decoder
import Tlscap.Orchestrator.Entries

/-!
# Draining is framing, then decoding

The loop of `drain_records` cuts the stream of its direction into records and decodes them as
it goes.  Cutting depends on the stream alone (`takeRecords`), and it is the framing of the
contiguous bytes by the five-byte header (`Sized.takeRecords_eq`); decoding is the decoder's
(`drainLoop_decodes`).  What a whole frame does to its connection follows
(`handleFrame_decodes`).

## Strategy

* **The header** is read with `peek`, and it is the first five of the contiguous bytes
  (`recordLength_peek`); a record of a format with that header is complete exactly where the
  loop goes on.
* **The loop** alternates between the two: it takes a record off the reassembler and then
  changes the rest of the connection and what is shared.  Neither looks at what the other
  changes, so the records can be cut off first and decoded afterwards.
* **A frame** receives its payload, which completes some records (`completed`), and does
  nothing else but note its flags; one without a payload completes none
  (`handleFrame_of_nil`).
* **A steady program** has one configuration and one keylog, and every frame keeps it so
  (`Steady.run`): what the decoder does with a record then depends on the records before it
  and on nothing else.
-/

namespace Tlscap

/-! ## Cutting the stream into records -/

/-- TLS records, as a format. -/
def recordFormat : Framing.Format UInt8 where
  header := 5
  size := recordLength
  header_pos := by decide
  header_le_size := fun _ => Nat.le_add_right _ _
  size_append := by
    intro front rest hfront
    unfold recordLength
    rw [List.getD_append _ _ _ _ (by omega), List.getD_append _ _ _ _ (by omega)]

/-- The type and body of a record. -/
def recordOf (unit : Bytes) : UInt8 × Bytes := (unit.getD 0 0, unit.drop 5)

/-- The records the loop of `drain_records` takes off a stream, and what it leaves. -/
def takeRecords : ℕ → StreamReassembler → List (UInt8 × Bytes) × StreamReassembler
  | 0, r => ([], r)
  | fuel + 1, r =>
      if r.contiguousLen < 5 then ([], r)
      else if r.contiguousLen < recordLength (r.peek 5) then ([], r)
      else
        match r.takeBytes (recordLength (r.peek 5)) with
        | none => ([], r)
        | some ((record, _), rest) =>
            let (records, left) := takeRecords fuel rest
            (((r.peek 5).getD 0 0, record.drop 5) :: records, left)

/-- Nothing is taken off a stream that does not start with a record. -/
theorem takeRecords_of_drained {r : StreamReassembler} (h : r.Drained) (fuel : ℕ) :
    takeRecords fuel r = ([], r) := by
  cases fuel with
  | zero => rfl
  | succ fuel =>
      rw [takeRecords]
      split_ifs with hheader hrecord
      · rfl
      · rfl
      · exact absurd h (not_or.mpr ⟨hheader, hrecord⟩)

namespace StreamReassembler

variable {r : StreamReassembler}

/-- Taking bytes off leaves the counts in order. -/
theorem Sized.after_takeBytes {r' : StreamReassembler} (h : r.Sized) {n : ℕ} {out : Bytes}
    {pieces : List SourcePiece} (htake : r.takeBytes n = some ((out, pieces), r')) :
    r'.Sized := by
  obtain ⟨-, hleft, hframe⟩ := h.takeBytes_cases htake
  refine ⟨?_, ?_, ?_⟩
  · rw [hleft, List.length_drop, ← h.contiguousLen_eq, hframe]
  · rw [hframe]
    exact h.pendingLen_eq
  · rw [hframe]
    exact h.pending_pos

/-- The header shows the length of the first record. -/
theorem recordLength_peek (hheader : 5 ≤ r.contiguousBytes.length) :
    recordLength (r.peek 5) = recordLength r.contiguousBytes := by
  have happend := recordFormat.size_append (r.contiguousBytes.take 5)
    (r.contiguousBytes.drop 5) (by
      rw [List.length_take]
      exact le_min le_rfl hheader)
  rw [List.take_append_drop] at happend
  rw [peek_eq]
  exact happend.symm

theorem Sized.drained_iff (h : r.Sized) :
    r.Drained ↔ ¬ recordFormat.Complete r.contiguousBytes := by
  unfold Drained Framing.Format.Complete
  rw [not_and_or, not_le, not_le, h.contiguousLen_eq]
  by_cases hheader : 5 ≤ r.contiguousBytes.length
  · rw [recordLength_peek hheader]
    rfl
  · exact iff_of_true (.inl (not_le.mp hheader)) (.inl (not_le.mp hheader))

private theorem getD_zero_take {n : ℕ} (hn : 0 < n) (bytes : Bytes) :
    (bytes.take n).getD 0 0 = bytes.getD 0 0 := by
  cases n with
  | zero => omega
  | succ n => cases bytes <;> rfl

/-- The loop cuts the contiguous bytes as the format says. -/
theorem Sized.takeRecords_eq (h : r.Sized) {fuel : ℕ} (hfuel : r.contiguousLen ≤ fuel) :
    (takeRecords fuel r).1 = (recordFormat.parse r.contiguousBytes).1.map recordOf ∧
      (takeRecords fuel r).2.contiguousBytes = (recordFormat.parse r.contiguousBytes).2 ∧
      (takeRecords fuel r).2 =
        { r with
          contiguous := (takeRecords fuel r).2.contiguous
          contiguousLen := (takeRecords fuel r).2.contiguousLen } ∧
      (takeRecords fuel r).2.Sized := by
  induction fuel generalizing r with
  | zero =>
      -- no fuel only if there are no bytes, which are no complete record
      have hempty : ¬ recordFormat.Complete r.contiguousBytes := by
        rintro ⟨hheader, -⟩
        rw [← h.contiguousLen_eq] at hheader
        exact absurd (hheader.trans hfuel) (by decide)
      rw [takeRecords, Framing.Format.parse_of_not_complete hempty]
      exact ⟨rfl, rfl, rfl, h⟩
  | succ fuel ih =>
      by_cases hcomplete : recordFormat.Complete r.contiguousBytes
      · have hlength := recordLength_peek hcomplete.1
        have hheader : 5 ≤ r.contiguousLen := by
          rw [h.contiguousLen_eq]
          exact hcomplete.1
        have hrecord : recordLength (r.peek 5) ≤ r.contiguousLen := by
          rw [hlength, h.contiguousLen_eq]
          exact hcomplete.2
        obtain ⟨pieces, rest, htake, hleft, hframe⟩ := h.takeBytes hrecord
        -- a record has a header, so taking it off leaves fewer bytes than there was fuel for
        have hshorter : rest.contiguousLen ≤ fuel := by
          have hrest := congrArg StreamReassembler.contiguousLen hframe
          simp only [recordLength] at hrest hrecord
          omega
        obtain ⟨hrecords, hbytes, hkept, hsized⟩ := ih (h.after_takeBytes htake) hshorter
        rw [takeRecords, if_neg (by omega), if_neg (by omega), htake,
          Framing.Format.parse_of_complete hcomplete]
        simp only
        rw [hleft, hlength] at hrecords hbytes
        refine ⟨?_, hbytes, ?_, hsized⟩
        · have htype : (r.peek 5).getD 0 0 =
              (r.contiguousBytes.take (recordFormat.size r.contiguousBytes)).getD 0 0 := by
            rw [peek_eq, getD_zero_take (by omega), getD_zero_take]
            exact Nat.lt_of_lt_of_le (by decide) (recordFormat.header_le_size r.contiguousBytes)
          rw [hrecords, List.map_cons, recordOf, hlength, htype]
          rfl
        · rw [hkept, hframe]
      · -- no complete record is left, where the loop and the format both stop
        rw [takeRecords_of_drained (h.drained_iff.mpr hcomplete),
          Framing.Format.parse_of_not_complete hcomplete]
        exact ⟨rfl, rfl, rfl, h⟩

end StreamReassembler

/-! ## The loop -/

section Frame

variable {σ : Type} (crypto : Crypto) {vm : LuaVm σ} (config : OrchestratorConfig)
  {dissector : Dissector} {hasPath : Bool} {keylog : Keylog}

theorem shownBy_nil {shared : Shared σ} (hreads : shared.keylog.Reads hasPath keylog)
    (conn : Connection) (isClientToServer : Bool) (timestamp : Duration) :
    ((conn.decoder isClientToServer).records crypto dissector keylog config.maxTailBytes
      isClientToServer []).ShownBy hasPath keylog isClientToServer timestamp
      (conn.setReassembler isClientToServer (conn.reassemblerFor isClientToServer))
      shared.counters (conn, shared, []) := by
  refine ⟨?_, hreads, (add_zero _).symm, rfl⟩
  rw [Connection.setReassembler_reassemblerFor]
  exact (conn.withDecoder_decoder isClientToServer).symm

/-- A step after the reassembler was set to `rest`, then steps that leave `left`. -/
theorem Decoded.ShownBy.append {first second : Decoded} {isClientToServer : Bool}
    {timestamp : Duration} {conn : Connection} {rest left : StreamReassembler}
    {counters : Counters} {now later : Connection × Shared σ × List DecodedMessage}
    (hnow : first.ShownBy hasPath keylog isClientToServer timestamp
      (conn.setReassembler isClientToServer rest) counters now)
    (hlater : second.ShownBy hasPath keylog isClientToServer timestamp
      (now.1.setReassembler isClientToServer left) now.2.1.counters later) :
    Decoded.ShownBy ⟨second.decoder, first.counters + second.counters,
        first.messages ++ second.messages⟩ hasPath keylog isClientToServer timestamp
      (conn.setReassembler isClientToServer left) counters
      (later.1, later.2.1, now.2.2 ++ later.2.2) where
  conn := by
    simp only
    rw [hlater.conn, hnow.conn, Connection.setReassembler_withDecoder,
      Connection.setReassembler_setReassembler, Connection.withDecoder_withDecoder]
  keylog := hlater.keylog
  counters := by
    rw [← add_assoc, ← hnow.counters]
    exact hlater.counters
  messages := by
    rw [List.map_append, ← hnow.messages, ← hlater.messages]

/-- The loop cuts the stream and decodes the records. -/
theorem drainLoop_decodes (hpure : vm.IsPure dissector) {readings : ℕ → KeylogReadings}
    (hsteady : ∀ index, (readings index).Steady crypto.hexDecode hasPath keylog)
    (isClientToServer : Bool)
    (timestamp : Duration) (fuel index : ℕ) (conn : Connection) (shared : Shared σ)
    (hreads : shared.keylog.Reads hasPath keylog) :
    let taken := takeRecords fuel (conn.reassemblerFor isClientToServer)
    ((conn.decoder isClientToServer).records crypto dissector keylog config.maxTailBytes
      isClientToServer taken.1).ShownBy hasPath keylog isClientToServer timestamp
      (conn.setReassembler isClientToServer taken.2) shared.counters
      (drainLoop crypto vm config isClientToServer timestamp readings fuel index conn
        shared) := by
  induction fuel generalizing index conn shared with
  | zero => exact shownBy_nil crypto config hreads conn isClientToServer timestamp
  | succ fuel ih =>
      unfold takeRecords drainLoop drainStep
      simp only
      split
      · exact shownBy_nil crypto config hreads conn isClientToServer timestamp
      · split
        · exact shownBy_nil crypto config hreads conn isClientToServer timestamp
        · cases htake : (conn.reassemblerFor isClientToServer).takeBytes
            (recordLength ((conn.reassemblerFor isClientToServer).peek 5)) with
          | none => exact shownBy_nil crypto config hreads conn isClientToServer timestamp
          | some taken =>
              obtain ⟨⟨record, pieces⟩, rest⟩ := taken
              have hnow := processRecord_decodes crypto config hpure hreads (hsteady index)
                (conn.setReassembler isClientToServer rest) isClientToServer
                (((conn.reassemblerFor isClientToServer).peek 5).getD 0 0, record.drop 5) timestamp
              obtain ⟨hclient, hserver⟩ := Decoder.record_endpoints crypto dissector keylog
                config.maxTailBytes isClientToServer (conn.decoder isClientToServer)
                (((conn.reassemblerFor isClientToServer).peek 5).getD 0 0, record.drop 5)
              rw [Connection.decoder_setReassembler] at hnow
              simp only at hnow ⊢
              generalize processRecord crypto vm config _ _ _ _ _ _ _ = after at hnow ⊢
              have hlater := ih (index + 1) after.1 after.2.1 hnow.keylog
              -- the rest of the loop starts from the decoder this record leaves
              rw [hnow.conn, Connection.reassemblerFor_withDecoder,
                Connection.reassemblerFor_setReassembler, if_pos rfl,
                Connection.decoder_withDecoder, ← hnow.conn] at hlater
              · exact hnow.append hlater
              · rw [hclient, Connection.clientEndpoint_setReassembler]
                rfl
              · rw [hserver, Connection.serverEndpoint_setReassembler]
                rfl

/-! ## A whole frame -/

/-- The frame's connection with the payload received, and what that adds to the
counters. -/
def receive (config : OrchestratorConfig) (found : Option Connection) (input : FrameInput) :
    Connection × Counters :=
  receivePayload config
    (noteFlags (openConnection config found input) (direction config found input) input) 0
    (direction config found input) input

/-- A frame up to its records changes streams, marks and the lifecycle: what is seen of
none of these stays. -/
theorem receive_keeps {α : Type} (view : Connection → α)
    (hstream : ∀ conn c r, view (Connection.setReassembler conn c r) = view conn)
    (hmark : ∀ conn c limits, view (Connection.markDesynced conn c limits) = view conn)
    (hinfo : ∀ conn info, view { conn with info } = view conn) (found : Option Connection)
    (input : FrameInput) :
    view (receive config found input).1 = view (openConnection config found input) := by
  have hnoted : ∀ conn direction, view (noteFlags conn direction input) = view conn := by
    intro conn direction
    unfold noteFlags
    split
    · exact (hinfo _ _).trans (hstream _ _ _)
    · exact hinfo _ _
  unfold receive receivePayload
  split
  · split
    · exact (hmark _ _ _).trans (hnoted _ _)
    · exact (hstream _ _ _).trans (hnoted _ _)
  · exact hnoted _ _

theorem receivePayload_add (conn : Connection) (counters : Counters) (isClientToServer : Bool)
    (input : FrameInput) :
    receivePayload config conn counters isClientToServer input =
      ((receivePayload config conn 0 isClientToServer input).1,
        counters + (receivePayload config conn 0 isClientToServer input).2) := by
  have hzero : counters = counters + 0 := (add_zero counters).symm
  unfold receivePayload
  split
  · split
    · rename_i bytes _ _
      have hlost : (0 : Counters).gapAbandonedBytes + bytes = bytes := Nat.zero_add bytes
      rw [hlost]
      rfl
    · exact Prod.ext rfl hzero
  · exact Prod.ext rfl hzero

/-- The connection with another lifecycle. -/
def Connection.withInfo (conn : Connection) (info : ConnectionMeta) : Connection :=
  { conn with info }

/-- A frame that is no SYN and has no payload only leaves its flags. -/
theorem receive_of_nil {input : FrameInput} (hsyn : input.frame.flags.syn = false)
    (hpayload : input.payload = []) (found : Option Connection) :
    ∃ info, receive config found input =
      ((openConnection config found input).withInfo info, 0) := by
  unfold receive receivePayload
  rw [hpayload]
  simp only [List.isEmpty_nil, Bool.not_true, Bool.false_and, Bool.false_eq_true, if_false]
  unfold noteFlags
  rw [hsyn]
  exact ⟨_, rfl⟩

/-- A frame that is no SYN leaves its flags and what it pushes, unless that abandons a
gap. -/
theorem receive_of_kept {input : FrameInput} (hsyn : input.frame.flags.syn = false)
    (hpayload : input.payload ≠ []) (conn : Connection) {isClientToServer : Bool}
    (hdirection : decide (input.src = conn.clientEndpoint) = isClientToServer)
    (hsynced : conn.isDesynced isClientToServer = false)
    (hkept : ((conn.reassemblerFor isClientToServer).push input.packetIndex input.frame.seq
      input.frame.payloadRange input.payload input.clock.gapOpened
      input.clock.gapChecked).1.isGapAbandoned = false) :
    ∃ info, receive config (some conn) input =
      ((conn.withInfo info).setReassembler isClientToServer
        ((conn.reassemblerFor isClientToServer).push input.packetIndex input.frame.seq
          input.frame.payloadRange input.payload input.clock.gapOpened
          input.clock.gapChecked).2, 0) := by
  have hnoted : ∃ info, noteFlags conn isClientToServer input = conn.withInfo info := by
    unfold noteFlags
    rw [hsyn]
    exact ⟨_, rfl⟩
  obtain ⟨info, hnoted⟩ := hnoted
  have hreassembler : (conn.withInfo info).reassemblerFor isClientToServer =
      conn.reassemblerFor isClientToServer := by
    cases isClientToServer <;> rfl
  have hflag : (conn.withInfo info).isDesynced isClientToServer = false := by
    cases isClientToServer <;> exact hsynced
  have hempty : input.payload.isEmpty = false := by
    rw [List.isEmpty_eq_false_iff]
    exact hpayload
  refine ⟨info, ?_⟩
  unfold receive direction openConnection
  simp only
  rw [hdirection, hnoted]
  unfold receivePayload
  rw [hempty, hflag, hreassembler]
  simp only [Bool.not_false, Bool.and_self, if_true]
  -- the outcomes other than a gap given up are treated alike
  generalize (conn.reassemblerFor isClientToServer).push input.packetIndex input.frame.seq
    input.frame.payloadRange input.payload input.clock.gapOpened input.clock.gapChecked =
      pushed at hkept ⊢
  obtain ⟨outcome, r⟩ := pushed
  cases outcome with
  | gapAbandoned bytes => cases hkept
  | delivered => rfl
  | duplicateDiscarded => rfl
  | bufferedOutOfOrder => rfl

/-- The records a frame completes, and the stream it leaves. -/
def completed (config : OrchestratorConfig) (found : Option Connection) (input : FrameInput) :
    List (UInt8 × Bytes) × StreamReassembler :=
  let reassembler := (receive config found input).1.reassemblerFor (direction config found input)
  takeRecords reassembler.contiguousLen reassembler

/-- What the records a frame completes do. -/
def frameDecoded (dissector : Dissector) (keylog : Keylog) (found : Option Connection)
    (input : FrameInput) : Decoded :=
  ((receive config found input).1.decoder (direction config found input)).records crypto
    dissector keylog config.maxTailBytes (direction config found input)
    (completed config found input).1

/-- **One frame.**  Its payload is received, and the records it completes are decoded. -/
theorem handleFrame_decodes (hpure : vm.IsPure dissector) {shared : Shared σ}
    (hreads : shared.keylog.Reads hasPath keylog) {input : FrameInput}
    (hsteady : ∀ index, (input.keylogReadings index).Steady crypto.hexDecode hasPath keylog)
    (found : Option Connection) :
    (frameDecoded crypto config dissector keylog found input).ShownBy hasPath keylog
      (direction config found input) input.timestamp
      ((receive config found input).1.setReassembler (direction config found input)
        (completed config found input).2)
      (shared.counters + (receive config found input).2)
      (handleFrame crypto vm config found shared input) := by
  unfold handleFrame drainRecords
  simp only
  rw [receivePayload_add]
  exact drainLoop_decodes crypto config hpure hsteady (direction config found input)
    input.timestamp _ 0 (receive config found input).1
    { shared with counters := shared.counters + (receive config found input).2 } hreads

/-- A frame without a payload completes no record. -/
theorem handleFrame_of_nil (hpure : vm.IsPure dissector) {shared : Shared σ}
    (hreads : shared.keylog.Reads hasPath keylog) {input : FrameInput}
    (hsteady : ∀ index, (input.keylogReadings index).Steady crypto.hexDecode hasPath keylog)
    (hsyn : input.frame.flags.syn = false) (hpayload : input.payload = [])
    (found : Option Connection)
    (hdrained : ∀ isClientToServer,
      ((openConnection config found input).reassemblerFor isClientToServer).Drained) :
    (∃ info, (handleFrame crypto vm config found shared input).1 =
        (openConnection config found input).withInfo info) ∧
      (handleFrame crypto vm config found shared input).2.1.counters = shared.counters ∧
      (handleFrame crypto vm config found shared input).2.2 = [] := by
  obtain ⟨info, hreceive⟩ := receive_of_nil config hsyn hpayload found
  have hcompleted : completed config found input =
      ([], ((openConnection config found input).withInfo info).reassemblerFor
        (direction config found input)) := by
    unfold completed
    rw [hreceive]
    exact takeRecords_of_drained (hdrained _) _
  have hdecoded : frameDecoded crypto config dissector keylog found input =
      ⟨((openConnection config found input).withInfo info).decoder
        (direction config found input), 0, []⟩ := by
    unfold frameDecoded
    rw [hcompleted, hreceive]
    rfl
  have hshown := handleFrame_decodes crypto config hpure hreads hsteady found
  rw [hdecoded, hcompleted, hreceive] at hshown
  refine ⟨⟨info, ?_⟩, ?_, hshown.messages⟩
  · rw [hshown.conn, Connection.setReassembler_reassemblerFor, Connection.withDecoder_decoder]
  · rw [hshown.counters, add_zero, add_zero]

end Frame

theorem Counters.apartFromEvictions_add (a b : Counters) :
    (a + b).apartFromEvictions = a.apartFromEvictions + b.apartFromEvictions := rfl

/-! ## A steady program -/

namespace Orchestrator

variable {σ : Type} {crypto : Crypto} {vm : LuaVm σ} {dissector : Dissector} {hasPath : Bool}
  {keylog : Keylog} {config : OrchestratorConfig} {orchestrator : Orchestrator σ}
  {input : FrameInput}

/-- The program has this configuration, and its keylog reader shows this keylog. -/
structure Steady (config : OrchestratorConfig) (hasPath : Bool) (keylog : Keylog)
    (orchestrator : Orchestrator σ) : Prop where
  config_eq : orchestrator.config = config
  reads : orchestrator.shared.keylog.Reads hasPath keylog

theorem Steady.processFrame (h : orchestrator.Steady config hasPath keylog)
    (hpure : vm.IsPure dissector)
    (hsteady : ∀ index, (input.keylogReadings index).Steady crypto.hexDecode hasPath keylog) :
    (orchestrator.processFrame crypto vm input).1.Steady config hasPath keylog where
  config_eq := (config_processFrame crypto vm orchestrator input).trans h.config_eq
  reads := by
    rw [keylog_processFrame]
    exact (handleFrame_decodes crypto orchestrator.config hpure h.reads hsteady _).keylog

theorem steady_new (source : KeylogSource) (lua : σ) (config : OrchestratorConfig)
    (sweepNow gcNow : Instant) :
    (new source lua config sweepNow gcNow).Steady config source.hasPath source.current :=
  ⟨rfl, rfl, rfl⟩

/-- A run keeps the program steady. -/
theorem Steady.run (h : orchestrator.Steady config hasPath keylog) (hpure : vm.IsPure dissector)
    {inputs : List FrameInput}
    (hsteady : ∀ input ∈ inputs, ∀ index,
      (input.keylogReadings index).Steady crypto.hexDecode hasPath keylog) :
    (Machine.run (Orchestrator.processFrame crypto vm) orchestrator inputs).1.Steady config
      hasPath keylog := by
  apply Machine.run_preserves_on (P := Steady config hasPath keylog)
    (Q := fun input : FrameInput => ∀ index,
      (input.keylogReadings index).Steady crypto.hexDecode hasPath keylog)
  · exact fun state input hstate hinput => hstate.processFrame hpure hinput
  · exact h
  · exact hsteady

end Orchestrator

end Tlscap
