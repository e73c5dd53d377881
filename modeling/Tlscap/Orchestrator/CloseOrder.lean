import Tlscap.Orchestrator.Opening

/-!
# Reordering around the close

FIN is remembered when its frame comes, whatever its place in the stream is.  So the
connection can be evicted while data that precedes the FIN is still on its way, and that data
then meets a new connection.  As long as a FIN is missing whenever data comes, the order of
the frames makes no difference (`Delivery.reordered_alike`).

The run starts from any state the connection can reach, with its hellos processed or not, in
which the direction is in order and its FIN has not come.  It has the direction's remaining
frames, and of the other direction those without a payload, its FIN among them.

## Strategy

A run is looked at in two parts (`ClosesAfterData.split`):

* **Up to its last frame with a payload** the connection is tracked: no RST comes, and before
  each of these frames a FIN is missing (`entry_run`).  So this part carries the whole byte
  string, and yields what decoding its framing gives, in whatever order it was carried
  (`messages_of_closesAfterData`).
* **The rest** has no payload, and yields nothing in any state, also where it meets a new
  connection (`messages_run_of_nil`).

The order of the stream meets the same conditions: the direction's own FIN comes behind all
data (`InSequence.closesAfterData`), and as no data leaves a gap before it, no limit on
pending data is ever exceeded (`InSequence.offset_le`).  So this needs to be assumed of the
other order only.
-/

namespace Tlscap

namespace Delivery

variable {σ : Type} (d : Delivery)

/-! ## Orders of the frames -/

/-- A direction has sent FIN, once these frames have come. -/
def finished (parts : List (ℕ × FrameInput)) (isClientToServer : Bool) : Bool :=
  (if isClientToServer then d.conn.info.finSeenC2s else d.conn.info.finSeenS2c) ||
    parts.any fun part =>
      part.2.frame.flags.fin &&
        decide (part.2.src = d.conn.clientEndpoint) == isClientToServer

/-- Both directions have sent FIN. -/
def closed (parts : List (ℕ × FrameInput)) : Bool :=
  d.finished parts true && d.finished parts false

/-- Whenever data comes, a FIN is still missing. -/
def ClosesAfterData (parts : List (ℕ × FrameInput)) : Prop :=
  ∀ first part rest, parts = first ++ part :: rest → part.2.payload ≠ [] →
    d.closed first = false

theorem closesAfterData_of_take {parts : List (ℕ × FrameInput)}
    (h : ∀ index : Fin parts.length, (parts.get index).2.payload ≠ [] →
      d.closed (parts.take index) = false) : d.ClosesAfterData parts := by
  rintro first part rest rfl hpayload
  have hindex : first.length < (first ++ part :: rest).length := by simp
  have htake := h ⟨first.length, hindex⟩
  simp only [List.get_eq_getElem, List.getElem_append_right le_rfl, Nat.sub_self,
    List.getElem_cons_zero, List.take_left] at htake
  exact htake hpayload

/-- The frames come in the order of the stream, the FIN of the direction after all
data. -/
structure InSequence (parts : List (ℕ × FrameInput)) : Prop where
  sorted : parts.Pairwise fun a b => a.2.payload ≠ [] → b.2.payload ≠ [] → a.1 ≤ b.1
  finLast : parts.Pairwise fun a b => a.2.frame.flags.fin = true →
    decide (a.2.src = d.conn.clientEndpoint) = d.isClientToServer → b.2.payload = []

variable {d} {crypto : Crypto} {vm : LuaVm σ} {dissector : Dissector}
  {config : OrchestratorConfig} {hasPath : Bool} {keylog : Keylog} {start : Orchestrator σ}

/-! ## The lifecycle along a run -/

theorem finished_append (first second : List (ℕ × FrameInput)) (isClientToServer : Bool) :
    d.finished (first ++ second) isClientToServer =
      (d.finished first isClientToServer || second.any fun part =>
        part.2.frame.flags.fin &&
          decide (part.2.src = d.conn.clientEndpoint) == isClientToServer) := by
  unfold finished
  rw [List.any_append, Bool.or_assoc]

/-- A FIN that was seen stays seen. -/
theorem closed_eq_false_of_append {first second : List (ℕ × FrameInput)}
    (h : d.closed (first ++ second) = false) : d.closed first = false := by
  unfold closed at h ⊢
  rw [finished_append, finished_append] at h
  cases hc2s : d.finished first true <;> cases hs2c : d.finished first false <;>
    simp_all

/-- While a FIN is missing before each frame, the entry is the connection with the
FINs that came, and it goes when the last of them has. -/
theorem entry_run (crypto : Crypto) (vm : LuaVm σ) (hidle : start.config.idleTimeout = none)
    (hlive : start.Live)
    (htracked : start.connections.lookup d.key = some d.conn)
    {parts : List (ℕ × FrameInput)} (hcarries : ∀ part ∈ parts, d.Carries part)
    (hnoRst : ∀ part ∈ parts, part.2.frame.flags.rst = false)
    (hopen : ∀ first part rest, parts = first ++ part :: rest → d.closed first = false) :
    ∃ conn, conn.clientEndpoint = d.conn.clientEndpoint ∧
      conn.info.finSeenC2s = d.finished parts true ∧
      conn.info.finSeenS2c = d.finished parts false ∧ conn.info.rstSeen = false ∧
      (run crypto vm start parts).1.connections.lookup d.key =
        if d.closed parts then none else some conn := by
  induction parts using List.reverseRecOn with
  | nil =>
      have hopened := hlive d.key d.conn htracked
      unfold ConnectionMeta.isClosed at hopened
      rw [Bool.or_eq_false_iff] at hopened
      have hclosed : d.closed [] = false := by
        simpa [closed, finished] using hopened.2
      refine ⟨d.conn, rfl, ?_, ?_, hopened.1, ?_⟩
      · simp [finished]
      · simp [finished]
      · rw [hclosed]
        exact htracked
  | append_singleton parts part ih =>
      have hlast := List.mem_append_right parts (List.mem_singleton_self part)
      obtain ⟨conn, hclient, hc2s, hs2c, hrst, hentry⟩ := ih
        (fun other hother => hcarries other (List.mem_append_left _ hother))
        (fun other hother => hnoRst other (List.mem_append_left _ hother))
        (fun first other rest hsplit => hopen first other (rest ++ [part]) (by rw [hsplit]; simp))
      -- the entry is still there when the last frame comes, and the frame adds its own FIN
      rw [hopen parts part [] rfl] at hentry
      set before := (run crypto vm start parts).1
      have hidle' : before.config.idleTimeout = none := by
        rw [show before.config = start.config from Orchestrator.config_run crypto vm start _]
        exact hidle
      have hinfo := info_handleFrame crypto vm before.config (some conn) before.shared part.2
      have hdirection : direction before.config (some conn) part.2 =
          decide (part.2.src = d.conn.clientEndpoint) := by
        rw [← hclient]
        rfl
      rw [info_noteFlags, hdirection] at hinfo
      set handled := (handleFrame crypto vm before.config (some conn) before.shared part.2).1
      have hc2s' : handled.info.finSeenC2s = d.finished (parts ++ [part]) true := by
        rw [hinfo, finished_append, ← hc2s]
        simp [openConnection]
      have hs2c' : handled.info.finSeenS2c = d.finished (parts ++ [part]) false := by
        rw [hinfo, finished_append, ← hs2c]
        simp [openConnection]
      have hrst' : handled.info.rstSeen = false := by
        rw [hinfo, hnoRst part hlast]
        simp [openConnection, hrst]
      refine ⟨handled, ?_, hc2s', hs2c', hrst', ?_⟩
      · exact (clientEndpoint_handleFrame crypto vm before.config (some conn) before.shared
          part.2).trans hclient
      · rw [run_concat, Orchestrator.lookup_processFrame_of_no_idle hidle',
          if_pos (hcarries part hlast).key.symm, (hcarries part hlast).key, hentry]
        simp only [Bool.false_eq_true, if_false]
        change (if handled.info.isClosed then none else some handled) = _
        unfold ConnectionMeta.isClosed closed
        rw [hrst', hc2s', hs2c', Bool.false_or]

/-! ## Up to the last data, and after it -/

/-- A run in which a FIN is missing at its last data ends, but for frames without a
payload, before the connection is closed. -/
theorem ClosesAfterData.split {parts : List (ℕ × FrameInput)} (h : d.ClosesAfterData parts) :
    ∃ first second, parts = first ++ second ∧ (∀ part ∈ second, part.2.payload = []) ∧
      ∀ before part rest, first = before ++ part :: rest → d.closed before = false := by
  -- from the end: the silent frames are those behind the last one with data
  induction parts using List.reverseRecOn with
  | nil =>
      refine ⟨[], [], rfl, ?_, ?_⟩
      · intro part hpart
        exact absurd hpart List.not_mem_nil
      · intro before part rest hparts
        cases before with
        | nil => cases hparts
        | cons first before => cases hparts
  | append_singleton parts part ih =>
      by_cases hpayload : part.2.payload = []
      · -- a frame without data joins the silent ones
        obtain ⟨first, second, hsplit, hsilent, hopen⟩ := ih fun before other rest hparts =>
          h before other (rest ++ [part]) (by rw [hparts]; simp)
        refine ⟨first, second ++ [part], by rw [hsplit, List.append_assoc], ?_, hopen⟩
        intro other hother
        rcases List.mem_append.mp hother with hold | hnew
        · exact hsilent other hold
        · rw [List.mem_singleton.mp hnew]
          exact hpayload
      · -- this is the last data, and a FIN is missing before it and so before all others
        refine ⟨parts ++ [part], [], (List.append_nil _).symm, ?_, ?_⟩
        · intro other hother
          exact absurd hother List.not_mem_nil
        intro before other rest hparts
        have hlength : before.length ≤ parts.length := by
          have htotal := congrArg List.length hparts
          simp only [List.length_append, List.length_cons, List.length_nil] at htotal
          omega
        obtain ⟨tail, rfl⟩ := List.prefix_of_prefix_length_le ⟨other :: rest, hparts.symm⟩
          (List.prefix_append parts [part]) hlength
        exact closed_eq_false_of_append (h _ part [] rfl hpayload)

/-- Frames without a payload yield nothing, in any state. -/
theorem messages_run_of_nil (crypto : Crypto) (hpure : vm.IsPure dissector)
    {parts : List (ℕ × FrameInput)} {state : Orchestrator σ}
    (hsteady : state.Steady config hasPath keylog)
    (hbounded : state.Bounded) (hnoSyn : ∀ part ∈ parts, part.2.frame.flags.syn = false)
    (hreadings : ∀ part ∈ parts, ∀ index,
      (part.2.keylogReadings index).Steady crypto.hexDecode hasPath keylog)
    (hsilent : ∀ part ∈ parts, part.2.payload = []) :
    (run crypto vm state parts).2.flatMap Prod.snd = [] := by
  induction parts generalizing state with
  | nil => rfl
  | cons part rest ih =>
      have hhead : part ∈ part :: rest := List.mem_cons_self
      -- no complete record waits in a bounded connection, so nothing is cut off
      have hdrained : ∀ isClientToServer, ((openConnection config
          (state.connections.lookup part.2.key) part.2).reassemblerFor
            isClientToServer).Drained := by
        intro isClientToServer
        refine (bounded_openConnection ?_ part.2 isClientToServer).drained
        intro found hfound
        rw [← hsteady.config_eq]
        exact hbounded part.2.key found hfound
      have hnone := (handleFrame_of_nil crypto config hpure hsteady.reads
        (hreadings part hhead) (hnoSyn part hhead) (hsilent part hhead) _ hdrained).2.2
      have hnow : (state.processFrame crypto vm part.2).2.2 = [] := by
        simp only [Orchestrator.processFrame]
        rw [hsteady.config_eq]
        exact hnone
      have hnext : (state.processFrame crypto vm part.2).1.Steady config hasPath keylog :=
        hsteady.processFrame hpure (hreadings part hhead)
      have hlater := ih hnext (hbounded.processFrame part.2)
        (fun other hother => hnoSyn other (List.mem_cons_of_mem part hother))
        (fun other hother => hreadings other (List.mem_cons_of_mem part hother))
        (fun other hother => hsilent other (List.mem_cons_of_mem part hother))
      unfold run at hlater ⊢
      rw [List.map_cons, Machine.run_cons, List.flatMap_cons, hnow, List.nil_append]
      exact hlater

/-- A position of the byte string is covered by the frames that have a payload. -/
theorem covered_of_silent {first second : List (ℕ × FrameInput)} {position : ℕ}
    (hsilent : ∀ part ∈ second, part.2.payload = [])
    (hcovered : Coverage.Covered (slices (first ++ second)) position) :
    Coverage.Covered (slices first) position := by
  obtain ⟨slice, hslice, hfrom, hto⟩ := hcovered
  obtain ⟨part, hpart, rfl⟩ := List.mem_map.mp hslice
  rcases List.mem_append.mp hpart with hold | hnew
  · exact ⟨_, List.mem_map_of_mem hold, hfrom, hto⟩
  · rw [hsilent part hnew] at hto
    exact absurd hto (not_lt.mpr hfrom)

/-- What the frames of a run are, whatever their order is. -/
structure Sent (crypto : Crypto) (d : Delivery) (hasPath : Bool) (keylog : Keylog)
    (parts : List (ℕ × FrameInput)) : Prop where
  carries : ∀ part ∈ parts, d.Carries part
  steady : ∀ part ∈ parts, ∀ index,
    (part.2.keylogReadings index).Steady crypto.hexDecode hasPath keylog
  noRst : ∀ part ∈ parts, part.2.frame.flags.rst = false
  complete : ∀ position < d.bytes.length, Coverage.Covered (slices parts) position

/-- Where the program is before the frames. -/
structure Ready (d : Delivery) (config : OrchestratorConfig) (hasPath : Bool) (keylog : Keylog)
    (start : Orchestrator σ) : Prop where
  steady : start.Steady config hasPath keylog
  bounded : start.Bounded
  live : start.Live
  awaited : d.Awaited start
  idle : config.idleTimeout = none

/-- **A FIN is missing at the last data.**  Then the frames yield what decoding the
framing of the byte string gives. -/
theorem messages_of_closesAfterData (hpure : vm.IsPure dissector)
    (hready : d.Ready config hasPath keylog start) {parts : List (ℕ × FrameInput)}
    (hsent : d.Sent crypto hasPath keylog parts) (hlate : d.ClosesAfterData parts)
    (hgap : ∀ first part rest units conn, parts = first ++ part :: rest →
      part.2.payload ≠ [] →
      (run crypto vm start first).1.connections.lookup d.key = some conn →
      d.Receiving crypto dissector config hasPath keylog start first (run crypto vm start first)
        units conn →
      ((conn.reassemblerFor d.isClientToServer).push part.2.packetIndex part.2.frame.seq
        part.2.frame.payloadRange part.2.payload part.2.clock.gapOpened
        part.2.clock.gapChecked).1.isGapAbandoned = false) :
    ((run crypto vm start parts).2.flatMap Prod.snd).map (DecodedMessage.stamp 0) =
      (d.decoded crypto dissector keylog config
        (recordFormat.parse d.bytes).1).messages.map (DecodedMessage.stamp 0) := by
  obtain ⟨first, second, rfl, hsilent, hopen⟩ := hlate.split
  have hfirst : ∀ {part}, part ∈ first → part ∈ first ++ second := List.mem_append_left second
  have hsecond : ∀ {part}, part ∈ second → part ∈ first ++ second := List.mem_append_right first
  have hidle : start.config.idleTimeout = none := by
    rw [hready.steady.config_eq]
    exact hready.idle
  -- the entry is there for every frame that may still bring data
  have htracked : ∀ before part rest, first = before ++ part :: rest →
      ((run crypto vm start before).1.connections.lookup d.key).isSome = true := by
    intro before part rest hsplit
    have hbefore : ∀ {other}, other ∈ before → other ∈ first := by
      intro other hother
      rw [hsplit]
      exact List.mem_append_left _ hother
    obtain ⟨conn, -, -, -, -, hentry⟩ := entry_run crypto vm hidle
      hready.live hready.awaited.tracked
      (fun other hother => hsent.carries other (hfirst (hbefore hother)))
      (fun other hother => hsent.noRst other (hfirst (hbefore hother)))
      (fun earlier other rest' hparts => hopen earlier other (rest' ++ part :: rest)
        (by rw [hsplit, hparts]; simp))
    rw [hentry, hopen before part rest hsplit]
    rfl
  obtain ⟨units, conn, hreceiving⟩ := receiving_run hpure hready.steady hready.bounded
    hready.awaited (fun part hpart => hsent.carries part (hfirst hpart))
    (fun part hpart => hsent.steady part (hfirst hpart)) htracked
    (fun before part rest units conn hsplit =>
      hgap before part (rest ++ second) units conn (by rw [hsplit]; simp))
  have hparse := hreceiving.framing fun position hposition =>
    covered_of_silent hsilent (hsent.complete position hposition)
  -- what comes after the last data emits nothing, whether or not the entry is left
  have hlater := messages_run_of_nil crypto hpure hreceiving.steady
    (hready.bounded.run crypto vm (first.map Prod.snd))
    (fun part hpart => (hsent.carries part (hsecond hpart)).noSyn)
    (fun part hpart => hsent.steady part (hsecond hpart)) hsilent
  have happend : (run crypto vm start (first ++ second)).2 =
      (run crypto vm start first).2 ++ (run crypto vm (run crypto vm start first).1 second).2 := by
    unfold run
    rw [List.map_append, Machine.run_append]
  rw [happend, List.flatMap_append, hlater, List.append_nil, hreceiving.messages, hparse]

/-! ## The order of the stream -/

/-- In the order of the stream, a FIN is missing at the last data. -/
theorem InSequence.closesAfterData {parts : List (ℕ × FrameInput)} (h : d.InSequence parts)
    (hunfinished : d.finished [] d.isClientToServer = false) : d.ClosesAfterData parts := by
  rintro first part rest rfl hpayload
  have hdirection : d.finished first d.isClientToServer = false := by
    rw [← List.nil_append first, finished_append, hunfinished, Bool.false_or, List.any_eq_false]
    intro other hother hfin
    rw [Bool.and_eq_true, beq_iff_eq] at hfin
    have hlast := (List.pairwise_append.mp h.finLast).2.2 other hother part List.mem_cons_self
    exact hpayload (hlast hfin.1 hfin.2)
  unfold closed
  cases hc2s : d.isClientToServer with
  | true =>
      rw [hc2s] at hdirection
      rw [hdirection, Bool.false_and]
  | false =>
      rw [hc2s] at hdirection
      rw [hdirection, Bool.and_false]

/-- In the order of the stream, no data leaves a gap. -/
theorem InSequence.offset_le {first rest : List (ℕ × FrameInput)} {part : ℕ × FrameInput}
    {final : Orchestrator σ × List (PacketEvent × List DecodedMessage)} {units : List Bytes}
    {conn : Connection} (h : d.InSequence (first ++ part :: rest))
    (hcarries : d.Carries part) (hpayload : part.2.payload ≠ [])
    (hcomplete : ∀ position < d.bytes.length,
      Coverage.Covered (slices (first ++ part :: rest)) position)
    (hreceiving : d.Receiving crypto dissector config hasPath keylog start first final units
      conn) :
    d.base + part.1 ≤ (conn.reassemblerFor d.isClientToServer).nextExpectedRelative := by
  have hnot := (hreceiving.bounded d.isClientToServer).invariant.ahead.not_holds
  rw [hreceiving.holds] at hnot
  set next := (conn.reassemblerFor d.isClientToServer).nextExpectedRelative
  have hwithin := hcarries.within hpayload
  by_contra hgap
  have hbase : d.base ≤ next := by
    by_contra hbefore
    exact hnot (.inl (by omega))
  -- whatever covers the position at the cursor comes before this frame
  obtain ⟨slice, hslice, hfrom, hto⟩ := hcomplete (next - d.base) (by omega)
  obtain ⟨other, hother, rfl⟩ := List.mem_map.mp hslice
  have hdata : other.2.payload ≠ [] := by
    intro hnil
    rw [hnil] at hto
    exact absurd hto (not_lt.mpr hfrom)
  simp only at hfrom hto
  rcases List.mem_append.mp hother with hbefore | hafter
  · exact hnot (.inr ⟨hbase, _, List.mem_map_of_mem hbefore, hfrom, hto⟩)
  · rcases List.mem_cons.mp hafter with rfl | hrest
    · omega
    · have hpairs := (List.pairwise_append.mp h.sorted).2.1
      have hsorted := (List.pairwise_cons.mp hpairs).1 other hrest hpayload hdata
      omega

theorem Sent.perm {parts ordered : List (ℕ × FrameInput)} (h : d.Sent crypto hasPath keylog parts)
    (hperm : ordered.Perm parts) : d.Sent crypto hasPath keylog ordered where
  carries part hpart := h.carries part (hperm.mem_iff.mp hpart)
  steady part hpart := h.steady part (hperm.mem_iff.mp hpart)
  noRst part hpart := h.noRst part (hperm.mem_iff.mp hpart)
  complete position hposition := by
    obtain ⟨slice, hslice, hcovers⟩ := h.complete position hposition
    exact ⟨slice, (hperm.map _).mem_iff.mpr hslice, hcovers⟩

/-- A FIN still missing at the last data, any order yields what the order of the stream
does. -/
theorem alike_of_closesAfterData (hpure : vm.IsPure dissector)
    (hready : d.Ready config hasPath keylog start)
    (hunfinished : d.finished [] d.isClientToServer = false)
    {parts ordered : List (ℕ × FrameInput)} (hsent : d.Sent crypto hasPath keylog parts)
    (hgap : Machine.Throughout (Orchestrator.processFrame crypto vm) d.KeepsGap start
      (parts.map Prod.snd))
    (hperm : ordered.Perm parts) (hordered : d.InSequence ordered)
    (hlate : d.ClosesAfterData parts) :
    ((run crypto vm start parts).2.flatMap Prod.snd).map (DecodedMessage.stamp 0) =
      ((run crypto vm start ordered).2.flatMap Prod.snd).map (DecodedMessage.stamp 0) := by
  have hsent' := hsent.perm hperm
  rw [messages_of_closesAfterData hpure hready hsent hlate fun first part rest units conn hsplit
    _ hfound _ => holds_of_throughout hgap hsplit conn hfound]
  symm
  apply messages_of_closesAfterData hpure hready hsent'
    (hordered.closesAfterData hunfinished)
  intro first part rest units conn hsplit hpayload _ hreceiving
  have hpart : part ∈ ordered := by
    rw [hsplit]
    exact List.mem_append_right _ List.mem_cons_self
  have hcarries := hsent'.carries part hpart
  have hwithin := hcarries.within hpayload
  have hshort := hready.awaited.short
  rw [hcarries.seq hpayload]
  apply StreamReassembler.push_kept_of_le hreceiving.anchored (by omega)
  rw [hsplit] at hordered
  exact hordered.offset_le hcarries hpayload (hsplit ▸ hsent'.complete) hreceiving

/-- **Reordering around the close.**  Let the keylog be steady, the dissectors compute
a function, and a connection of some run without an idle timeout await what one direction
sends up to its FIN.  If a FIN is still missing whenever data of the direction comes, and
no gap is abandoned, the frames of the direction yield the same messages, timestamps
apart, as in the order of the stream. -/
theorem reordered_alike (crypto : Crypto) {vm : LuaVm σ} {dissector : Dissector}
    (hpure : vm.IsPure dissector) (source : KeylogSource) (lua : σ) (config : OrchestratorConfig)
    (hidle : config.idleTimeout = none) (sweepNow gcNow : Instant) (before : List FrameInput)
    (hbefore : ∀ input ∈ before, ∀ index,
      (input.keylogReadings index).Steady crypto.hexDecode source.hasPath source.current)
    {start : Orchestrator σ}
    (hstart : start = (Machine.run (Orchestrator.processFrame crypto vm)
      (Orchestrator.new source lua config sweepNow gcNow) before).1)
    {d : Delivery} (hawaited : d.Awaited start)
    (hunfinished : d.finished [] d.isClientToServer = false)
    {parts ordered : List (ℕ × FrameInput)}
    (hsent : d.Sent crypto source.hasPath source.current parts)
    (hgap : Machine.Throughout (Orchestrator.processFrame crypto vm) d.KeepsGap start
      (parts.map Prod.snd))
    (hperm : ordered.Perm parts) (hordered : d.InSequence ordered)
    (hlate : d.ClosesAfterData parts) :
    ((run crypto vm start parts).2.flatMap Prod.snd).map (DecodedMessage.stamp 0) =
      ((run crypto vm start ordered).2.flatMap Prod.snd).map (DecodedMessage.stamp 0) := by
  have hready : d.Ready config source.hasPath source.current start := by
    subst hstart
    exact ⟨(Orchestrator.steady_new source lua config sweepNow gcNow).run hpure hbefore,
      (Orchestrator.bounded_new source lua config sweepNow gcNow).run crypto vm _,
      (Orchestrator.live_new source lua config sweepNow gcNow).run crypto vm _, hawaited, hidle⟩
  exact alike_of_closesAfterData hpure hready hunfinished hsent hgap hperm hordered hlate

/-! ## A session closed too early -/

open Capture

/-- The client's SYN. -/
def clientSyn : FrameInput := segment client server 0 999 syn [] 0

/-- The server's SYN-ACK. -/
def serverSynAck : FrameInput := segment server client 1 4999 synAck [] 0

/-- The program before the first frame. -/
def initial : Orchestrator Unit := Orchestrator.new source () .default 0 0

/-- The program once SYN and SYN-ACK have come. -/
def established : Orchestrator Unit :=
  (Machine.run (Orchestrator.processFrame RecordedSession.recording.crypto plainVm) initial
    [clientSyn, serverSynAck]).1

theorem isTracked_established :
    (established.connections.lookup (connKey client server)).isSome = true := by
  decide +kernel

/-- What the client sends. -/
def session : Delivery :=
  ⟨connKey client server,
    (established.connections.lookup (connKey client server)).get isTracked_established, true,
    1000, helloAndRequest⟩

/-- The client's ClientHello. -/
def helloPart : ℕ × FrameInput := part helloAndRequest 2 0 43

/-- The client's request. -/
def requestPart : ℕ × FrameInput := part helloAndRequest 3 43 28

/-- The client's FIN. -/
def clientFin : ℕ × FrameInput := (71, segment client server 4 1071 finAck [] 1)

/-- The server's FIN. -/
def serverFin : ℕ × FrameInput := (0, segment server client 5 5000 finAck [] 1)

/-- The frames in the order of the stream. -/
def ordered : List (ℕ × FrameInput) := [helloPart, requestPart, clientFin, serverFin]

/-- The client's FIN before its data, the server's after it. -/
def finFirst : List (ℕ × FrameInput) := [clientFin, requestPart, helloPart, serverFin]

/-- Both FINs before the request. -/
def finsBeforeRequest : List (ℕ × FrameInput) := [helloPart, clientFin, serverFin, requestPart]

theorem sent_ordered : session.Sent RecordedSession.recording.crypto source.hasPath
    source.current ordered where
  carries := by decide +kernel
  steady := steady_of_noReadings rfl _ _ _
  noRst := by decide +kernel
  complete := by decide +kernel

theorem perm_finFirst : ordered.Perm finFirst :=
  (List.Perm.swap requestPart helloPart [clientFin, serverFin]).trans
    (((List.Perm.swap clientFin helloPart [serverFin]).cons requestPart).trans
      (List.Perm.swap clientFin requestPart [helloPart, serverFin]))

theorem perm_finsBeforeRequest : ordered.Perm finsBeforeRequest :=
  ((List.Perm.swap clientFin requestPart [serverFin]).trans
    ((List.Perm.swap serverFin requestPart []).cons clientFin)).cons helloPart

theorem inSequence_ordered : session.InSequence ordered :=
  ⟨by decide +kernel, by decide +kernel⟩

theorem opening : Opening initial clientSyn serverSynAck where
  untracked := by decide +kernel
  synSet := ⟨rfl, rfl⟩
  ackSet := ⟨rfl, rfl⟩
  finClear := ⟨rfl, rfl⟩
  rstClear := ⟨rfl, rfl⟩
  noPayload := ⟨payload_segment _ _ _ _ _ _ _, payload_segment _ _ _ _ _ _ _⟩
  answers := ⟨rfl, rfl⟩
  distinct := by decide

theorem followsOpening_session : session.FollowsOpening established clientSyn serverSynAck where
  key := by decide +kernel
  tracked := (Option.some_get isTracked_established).symm
  isn := by decide +kernel
  short := by decide +kernel

theorem steady_opening : ∀ input ∈ [] ++ [clientSyn, serverSynAck], ∀ index,
    (input.keylogReadings index).Steady Recording.hexDecode source.hasPath source.current :=
  steady_of_noReadings rfl _ _ _

/-! ### The server's response -/

/-- The program once both hellos have come, too. -/
def greeted : Orchestrator Unit :=
  (Machine.run (Orchestrator.processFrame RecordedSession.recording.crypto plainVm) initial
    [clientSyn, serverSynAck, helloPart.2, segment server client 6 5000 ack serverHello 1]).1

theorem isTracked_greeted :
    (greeted.connections.lookup (connKey client server)).isSome = true := by
  decide +kernel

/-- What the server sends after its hello. -/
def reply : Delivery :=
  ⟨connKey client server,
    (greeted.connections.lookup (connKey client server)).get isTracked_greeted, false, 5000,
    Capture.response⟩

/-- A slice of the response. -/
def replyPart (packetIndex offset length : ℕ) : ℕ × FrameInput :=
  (offset, segment server client packetIndex (5043 + UInt32.ofNat offset) ack
    (slice Capture.response offset length) 1)

/-- The server's FIN behind its response. -/
def replyFin : ℕ × FrameInput := (24, segment server client 9 5067 finAck [] 1)

/-- The client's FIN behind its hello. -/
def helloFin : ℕ × FrameInput := (0, segment client server 10 1043 finAck [] 1)

/-- The frames of the response in the order of the stream. -/
def replyOrdered : List (ℕ × FrameInput) :=
  [replyPart 7 0 10, replyPart 8 10 14, replyFin, helloFin]

/-- The server's FIN first, and its first bytes last but the client's FIN. -/
def replyFinFirst : List (ℕ × FrameInput) :=
  [replyFin, replyPart 8 10 14, replyPart 7 0 10, helloFin]

theorem sent_replyFinFirst : reply.Sent RecordedSession.recording.crypto source.hasPath
    source.current replyFinFirst where
  carries := by decide +kernel
  steady := steady_of_noReadings rfl _ _ _
  noRst := by decide +kernel
  complete := by decide +kernel

theorem perm_replyFinFirst : replyOrdered.Perm replyFinFirst :=
  (List.Perm.swap (replyPart 8 10 14) (replyPart 7 0 10) [replyFin, helloFin]).trans
    (((List.Perm.swap replyFin (replyPart 7 0 10) [helloFin]).cons (replyPart 8 10 14)).trans
      (List.Perm.swap replyFin (replyPart 8 10 14) [replyPart 7 0 10, helloFin]))

theorem awaited_reply : reply.Awaited greeted where
  tracked := (Option.some_get isTracked_greeted).symm
  anchored := by decide +kernel
  synced := by decide +kernel
  contiguous := by decide +kernel
  pending := by decide +kernel
  short := by decide +kernel

/-- A FIN captured before the data it follows costs nothing while the other is missing:
neither the client's request behind the SYN, nor the server's response behind both
hellos. -/
theorem reordered_alike_finFirst :
    let decode := run RecordedSession.recording.crypto plainVm
    let messages (state : Orchestrator Unit) (parts : List (ℕ × FrameInput)) :=
      ((decode state parts).2.flatMap Prod.snd).map (DecodedMessage.stamp 0)
    (messages established finFirst = messages established ordered ∧
        (messages established ordered).map DecodedMessage.tlsAppData = [[0x47, 0x45, 0x54]]) ∧
      messages greeted replyFinFirst = messages greeted replyOrdered ∧
        (messages greeted replyOrdered).map DecodedMessage.tlsAppData = [[0x6f, 0x6b]] := by
  refine ⟨⟨?_, by decide +kernel⟩, ?_, by decide +kernel⟩
  · have hawaited := (followsOpening_session.awaited opening rfl rfl).1
    exact reordered_alike RecordedSession.recording.crypto plainVm_isPure source () .default rfl 0
      0 [clientSyn, serverSynAck] steady_opening rfl hawaited (by decide +kernel)
      (sent_ordered.perm perm_finFirst.symm) (by decide +kernel) perm_finFirst inSequence_ordered
      (session.closesAfterData_of_take (by decide +kernel))
  · exact reordered_alike RecordedSession.recording.crypto plainVm_isPure source () .default rfl 0
      0 [clientSyn, serverSynAck, helloPart.2, segment server client 6 5000 ack serverHello 1]
      (steady_of_noReadings rfl _ _ _) rfl awaited_reply (by decide +kernel)
      sent_replyFinFirst (by decide +kernel) perm_replyFinFirst
      ⟨by decide +kernel, by decide +kernel⟩
      (reply.closesAfterData_of_take (by decide +kernel))

/-- Both FINs captured before the request lose it: the connection is evicted, and the
request meets a new one. -/
theorem request_lost_behind_fins :
    ¬ ∀ (crypto : Crypto) (vm : LuaVm Unit) (dissector : Dissector) (source : KeylogSource)
      (config : OrchestratorConfig) (sweepNow gcNow : Instant) (before : List FrameInput)
      (syn synAck : FrameInput) (d : Delivery) (parts ordered : List (ℕ × FrameInput)),
      vm.IsPure dissector → config.idleTimeout = none →
      (∀ input ∈ before ++ [syn, synAck], ∀ index,
        (input.keylogReadings index).Steady crypto.hexDecode source.hasPath source.current) →
      let state := (Machine.run (Orchestrator.processFrame crypto vm)
        (Orchestrator.new source () config sweepNow gcNow) before).1
      let start := (Machine.run (Orchestrator.processFrame crypto vm) state [syn, synAck]).1
      Opening state syn synAck → d.FollowsOpening start syn synAck →
      d.Sent crypto source.hasPath source.current parts →
      Machine.Throughout (Orchestrator.processFrame crypto vm) d.KeepsGap start
        (parts.map Prod.snd) →
      ordered.Perm parts → d.InSequence ordered →
      ((run crypto vm start parts).2.flatMap Prod.snd).map (DecodedMessage.stamp 0) =
        ((run crypto vm start ordered).2.flatMap Prod.snd).map (DecodedMessage.stamp 0) := by
  intro hclaim
  have halike := hclaim RecordedSession.recording.crypto plainVm plainDissector source .default 0 0
    [] clientSyn serverSynAck session finsBeforeRequest ordered plainVm_isPure rfl steady_opening
    opening followsOpening_session (sent_ordered.perm perm_finsBeforeRequest.symm)
    (by decide +kernel) perm_finsBeforeRequest inSequence_ordered
  have hlengths := congrArg List.length halike
  revert hlengths
  decide +kernel

end Delivery

end Tlscap
