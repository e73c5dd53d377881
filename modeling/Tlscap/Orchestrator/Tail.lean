import Tlscap.Library.CarryOver
import Tlscap.Orchestrator.Messages

/-!
# The plaintext carried over

A dissector is handed the tail of its direction and the new plaintext behind it.  What it does
not consume becomes the tail again, up to the cap.  From the opening of a connection on, the
tail is what carrying over leaves (`CarryOver.left`): a suffix of the direction's plaintext,
and no byte is gone that was neither consumed nor counted as discarded
(`Orchestrator.tail_carries_over`).

## Strategy

* **One dissection** is an instance of carrying over, with what the dissector consumed and the
  cap as its parameters (`RecordStep.carries`).  A dissector that fails consumes nothing; one
  that returns no number consumes everything.
* **From one to the next.**  `TailChain` says that each step of a list finds the tail that the
  one before left.  Steps in between that dissect nothing of the direction leave its tail
  alone (`RecordStep.tail_of_not_dissects`), so the dissections of a frame form a chain, and
  those of a run the concatenation of these (`Orchestrator.dissections_tailChain`).
* **From the opening on.**  A new connection has no tail, so nothing was carried before its
  first dissection, and the facts about carrying over apply to the whole chain
  (`TailChain.carriesOver`).

No assumption on the dissectors is needed but that there is one for the port: what they
consume may depend on anything, as each call is taken as it was.
-/

namespace Tlscap

/-- How many of the bytes handed over a dissector consumed; none if it failed. -/
def consumedBytes (result : Except Text (Option (FrameFields × ℕ))) (handed : ℕ) : ℕ :=
  match result with
  | .ok (some (_, consumed)) => min consumed handed
  | .ok none => 0
  | .error _ => 0

/-! ## One dissection -/

section Record

variable {σ : Type} (crypto : Crypto) (vm : LuaVm σ) (config : OrchestratorConfig)

theorem setTailCapped_discarded (conn : Connection) (counters : Counters)
    (isClientToServer : Bool) (bytes : Bytes) :
    (setTailCapped config conn counters isClientToServer bytes).2.tailBytesDiscarded =
      counters.tailBytesDiscarded + (bytes.length - config.maxTailBytes) := by
  unfold setTailCapped
  split
  · rfl
  · rename_i hfits
    rw [Nat.sub_eq_zero_of_le (by omega), Nat.add_zero]

/-- **One dissection.**  With a dissector for the port, it is handed the tail and the
new plaintext; what is neither consumed nor discarded is the new tail. -/
theorem dissectAndEmit_carries (conn : Connection) (shared : Shared σ) (isClientToServer : Bool)
    (plaintext : Bytes) (timestamp : Duration)
    (hregistered : vm.hasDissectorForPort shared.lua conn.serverEndpoint.port = true) :
    let handed := conn.tail isClientToServer ++ plaintext
    let called := vm.dissect shared.lua conn.serverEndpoint.port handed
    let after := dissectAndEmit vm config conn shared isClientToServer plaintext timestamp
    ∃ discarded,
      after.2.1.lua = called.1 ∧
      after.2.1.counters.tailBytesDiscarded = shared.counters.tailBytesDiscarded + discarded ∧
      consumedBytes called.2 handed.length + discarded ≤ handed.length ∧
      after.1.tail isClientToServer =
        handed.drop (consumedBytes called.2 handed.length + discarded) := by
  intro handed called after
  have hserver : (conn.setTail isClientToServer []).serverEndpoint = conn.serverEndpoint := by
    cases isClientToServer <;> rfl
  -- a dissector is registered, so it is called and cannot be missing
  have hcalled : called.2 ≠ .ok none := by
    simp only [called, LuaVm.dissect, hregistered, if_true]
    split
    · exact fun h => by cases h
    · exact fun h => by cases h
  have hafter : after = dissectAndEmit vm config conn shared isClientToServer plaintext timestamp :=
    rfl
  unfold dissectAndEmit at hafter
  simp only [hserver] at hafter
  rcases hresult : called with ⟨lua, message | (_ | ⟨fields, consumed⟩)⟩
  · -- the dissector failed, and all it was handed is kept
    have hdissect : vm.dissect shared.lua conn.serverEndpoint.port
        (conn.tail isClientToServer ++ plaintext) = (lua, .error message) := hresult
    rw [hdissect] at hafter
    refine ⟨handed.length - config.maxTailBytes, ?_, ?_, ?_, ?_⟩
    · rw [hafter]
    · rw [hafter]
      exact setTailCapped_discarded config _ _ isClientToServer handed
    · simp only [consumedBytes]
      omega
    · rw [hafter]
      simp only [consumedBytes, setTailCapped_fst, Connection.tail_setTail, if_true, Nat.zero_add]
      rfl
  · exact absurd (by rw [hresult]) hcalled
  · -- what it did not consume is kept
    have hdissect : vm.dissect shared.lua conn.serverEndpoint.port
        (conn.tail isClientToServer ++ plaintext) = (lua, .ok (some (fields, consumed))) := hresult
    rw [hdissect] at hafter
    set leftover := handed.drop (min consumed handed.length) with hleftover
    have hlength : leftover.length = handed.length - min consumed handed.length :=
      List.length_drop
    refine ⟨leftover.length - config.maxTailBytes, ?_, ?_, ?_, ?_⟩
    · rw [hafter]
    · rw [hafter]
      exact setTailCapped_discarded config _ _ isClientToServer leftover
    · simp only [consumedBytes]
      omega
    · rw [hafter]
      simp only [consumedBytes, setTailCapped_fst, Connection.tail_setTail, if_true]
      rw [← List.drop_drop]

namespace RecordStep

variable (step : RecordStep σ)

/-- The application data of the record; nothing if it has none. -/
def plaintext : Bytes := (step.applicationData crypto).getD []

/-- The tail of the direction with the application data of the record behind it. -/
def handed : Bytes := step.conn.tail step.isClientToServer ++ step.plaintext crypto

/-- What the dissector consumed. -/
def consumed : ℕ :=
  consumedBytes (vm.dissect step.shared.lua step.conn.serverEndpoint.port
    (step.handed crypto)).2 (step.handed crypto).length

/-- What the step adds to the bytes discarded. -/
def discarded : ℕ :=
  (step.after crypto vm config).2.1.counters.tailBytesDiscarded -
    step.shared.counters.tailBytesDiscarded

/-- The dissector of the server's port is called once in the step, with `handed`: the
heap it leaves and the fields of the message are those of the call. -/
structure Hands (handed : Bytes) : Prop where
  lua : (step.after crypto vm config).2.1.lua =
    (vm.dissect step.shared.lua step.conn.serverEndpoint.port handed).1
  fields : (step.after crypto vm config).2.2.map DecodedMessage.fields =
    [dissectedFields (vm.dissect step.shared.lua step.conn.serverEndpoint.port handed).2]

/-- **One application record.**  It is handed over behind the tail, and what is left
of both is the tail. -/
theorem carries {plaintext : Bytes} (hdata : step.applicationData crypto = some plaintext)
    (hregistered :
      vm.hasDissectorForPort step.shared.lua step.conn.serverEndpoint.port = true) :
    let dropped := step.consumed crypto vm + step.discarded crypto vm config
    step.Hands crypto vm config (step.handed crypto) ∧ dropped ≤ (step.handed crypto).length ∧
      (step.after crypto vm config).1.tail step.isClientToServer =
        (step.handed crypto).drop dropped := by
  cases step.fate crypto vm config with
  | changeCipherSpec _ _ hnone _ => cases hdata.symm.trans hnone
  | hello _ _ _ _ hnone _ => cases hdata.symm.trans hnone
  | noClientHello _ _ _ _ hnone _ => cases hdata.symm.trans hnone
  | attempted _ _ _ _ _ _ _ _ hnone _ => cases hdata.symm.trans hnone
  | application state keylog newState decrypted hstate hattempt hdecrypt happlication hsome
      hafter =>
      obtain rfl := Option.some.inj (hdata.symm.trans hsome)
      set shared : Shared σ :=
        { step.shared.count (attemptCounters (.ok decrypted)) with keylog } with hshared
      obtain ⟨discarded, hlua, hcounted, hwithin, htail⟩ := dissectAndEmit_carries vm config
        { step.conn with state := some newState } shared step.isClientToServer
        decrypted.plaintext step.timestamp hregistered
      -- what the counter of the discarded bytes gains is what the cap cut off
      have hdiscarded : step.discarded crypto vm config = discarded := by
        rw [RecordStep.discarded, hafter]
        exact (congrArg (· - step.shared.counters.tailBytesDiscarded) hcounted).trans
          (Nat.add_sub_cancel_left _ _)
      have hhanded : step.handed crypto =
          step.conn.tail step.isClientToServer ++ decrypted.plaintext := by
        rw [handed, plaintext, hdata]
        rfl
      intro dropped
      simp only [dropped, hdiscarded, consumed, hhanded]
      refine ⟨⟨?_, ?_⟩, hwithin, ?_⟩
      · rw [hafter]
        exact hlua
      · rw [hafter]
        simp only [dissectAndEmit_message, List.map_cons, List.map_nil]
        rfl
      · rw [hafter]
        exact htail

/-- A record without application data leaves the tails alone. -/
theorem tail_of_no_data (hdata : step.applicationData crypto = none) (isClientToServer : Bool) :
    (step.after crypto vm config).1.tail isClientToServer = step.conn.tail isClientToServer := by
  have hstate : ∀ state, ({ step.conn with state } : Connection).tail isClientToServer =
      step.conn.tail isClientToServer := fun _ => rfl
  cases step.fate crypto vm config with
  | changeCipherSpec _ _ _ hafter => rw [hafter]
  | hello state _ _ _ _ hafter =>
      rw [hafter]
      exact hstate _
  | noClientHello _ _ _ _ _ hafter => rw [hafter]
  | attempted _ _ newState _ _ _ _ _ _ hafter =>
      rw [hafter]
      exact hstate _
  | application _ _ _ _ _ _ _ _ hsome _ => cases hdata.symm.trans hsome

end RecordStep

end Record

/-! ## From one dissection to the next -/

section Chain

variable {σ : Type} (crypto : Crypto) (vm : LuaVm σ) (config : OrchestratorConfig)
  (isClientToServer : Bool)

/-- The step dissects application data of this direction. -/
def RecordStep.dissects (step : RecordStep σ) : Bool :=
  step.isClientToServer == isClientToServer && (step.applicationData crypto).isSome

/-- Each step finds the tail that the one before left; the last tail is `last`. -/
def TailChain : Bytes → List (RecordStep σ) → Bytes → Prop
  | tail, [], last => last = tail
  | tail, step :: rest, last =>
      step.conn.tail isClientToServer = tail ∧
        TailChain ((step.after crypto vm config).1.tail isClientToServer) rest last

variable {crypto vm config isClientToServer}

theorem tailChain_append {tail last : Bytes} {first second : List (RecordStep σ)} :
    TailChain crypto vm config isClientToServer tail (first ++ second) last ↔
      ∃ middle, TailChain crypto vm config isClientToServer tail first middle ∧
        TailChain crypto vm config isClientToServer middle second last := by
  induction first generalizing tail with
  | nil => exact ⟨fun h => ⟨tail, rfl, h⟩, by rintro ⟨_, rfl, h⟩; exact h⟩
  | cons step rest ih =>
      rw [List.cons_append, TailChain, ih]
      constructor
      · rintro ⟨htail, middle, hfirst, hsecond⟩
        exact ⟨middle, ⟨htail, hfirst⟩, hsecond⟩
      · rintro ⟨middle, ⟨htail, hfirst⟩, hsecond⟩
        exact ⟨htail, middle, hfirst, hsecond⟩

/-- A step that does not dissect data of the direction leaves its tail alone. -/
theorem RecordStep.tail_of_not_dissects (vm : LuaVm σ) (config : OrchestratorConfig)
    {step : RecordStep σ}
    (h : step.dissects crypto isClientToServer = false) :
    (step.after crypto vm config).1.tail isClientToServer = step.conn.tail isClientToServer := by
  rw [dissects, Bool.and_eq_false_iff] at h
  rcases h with hother | hnone
  · apply (step.sameStreams crypto vm config).otherTail
    intro heq
    rw [heq, beq_self_eq_true] at hother
    cases hother
  · rw [Option.isSome_eq_false_iff, Option.isNone_iff_eq_none] at hnone
    exact step.tail_of_no_data crypto vm config hnone isClientToServer

/-- The steps of one frame. -/
theorem Drains.tailChain (isClientToServer : Bool) {direction : Bool} {conn last : Connection}
    {shared lastShared : Shared σ} {steps : List (RecordStep σ)}
    (h : Drains crypto vm config direction conn shared steps last lastShared) :
    TailChain crypto vm config isClientToServer (conn.tail isClientToServer)
      (steps.filter fun step => step.dissects crypto isClientToServer)
      (last.tail isClientToServer) := by
  induction h with
  | stop conn shared => rfl
  | @take conn shared step steps last lastShared htakes hlater ih =>
      have hbefore : step.conn.tail isClientToServer = conn.tail isClientToServer := by
        obtain ⟨rest, -, hconn⟩ := htakes.record
        rw [hconn, Connection.tail_setReassembler]
      cases hdissects : step.dissects crypto isClientToServer with
      | true =>
          rw [List.filter_cons_of_pos hdissects]
          exact ⟨hbefore, ih⟩
      | false =>
          rw [List.filter_cons_of_neg (by rw [hdissects]; decide), ← hbefore,
            ← step.tail_of_not_dissects vm config hdissects]
          exact ih

/-- The tail a list of dissections leaves; none was kept before the first. -/
def tailLeft (crypto : Crypto) (vm : LuaVm σ) (config : OrchestratorConfig)
    (isClientToServer : Bool) (steps : List (RecordStep σ)) : Bytes :=
  steps.getLast?.elim [] fun step => (step.after crypto vm config).1.tail isClientToServer

theorem TailChain.eq_tailLeft {steps : List (RecordStep σ)} {last : Bytes}
    (h : TailChain crypto vm config isClientToServer [] steps last) :
    last = tailLeft crypto vm config isClientToServer steps := by
  induction steps using List.reverseRecOn with
  | nil => exact h
  | append_singleton steps step _ =>
      obtain ⟨middle, -, -, hlast⟩ := tailChain_append.mp h
      rw [tailLeft, List.getLast?_concat]
      exact hlast

/-- A dissection as a part of the stream, with what is dropped once it is appended. -/
def RecordStep.part (crypto : Crypto) (vm : LuaVm σ) (config : OrchestratorConfig)
    (step : RecordStep σ) : Bytes × ℕ :=
  (step.plaintext crypto, step.consumed crypto vm + step.discarded crypto vm config)

/-- The steps dissect data of this direction, with a dissector for the server's port. -/
def Registered (crypto : Crypto) (vm : LuaVm σ) (isClientToServer : Bool)
    (steps : List (RecordStep σ)) : Prop :=
  ∀ step ∈ steps, step.dissects crypto isClientToServer = true ∧
    vm.hasDissectorForPort step.shared.lua step.conn.serverEndpoint.port = true

theorem RecordStep.carries_of_dissects (config : OrchestratorConfig) {step : RecordStep σ}
    (hdissects : step.dissects crypto isClientToServer = true)
    (hregistered :
      vm.hasDissectorForPort step.shared.lua step.conn.serverEndpoint.port = true) :
    step.handed crypto = step.conn.tail isClientToServer ++ step.plaintext crypto ∧
      step.Hands crypto vm config (step.handed crypto) ∧
      (step.part crypto vm config).2 ≤ (step.handed crypto).length ∧
      (step.after crypto vm config).1.tail isClientToServer =
        (step.handed crypto).drop (step.part crypto vm config).2 := by
  rw [dissects, Bool.and_eq_true] at hdissects
  obtain ⟨hdirection, hsome⟩ := hdissects
  obtain ⟨plaintext, hdata⟩ := Option.isSome_iff_exists.mp hsome
  rw [← eq_of_beq hdirection]
  exact ⟨rfl, step.carries crypto vm config hdata hregistered⟩

/-- The tail is what carrying over leaves. -/
theorem TailChain.left {tail last : Bytes} {steps : List (RecordStep σ)}
    (h : TailChain crypto vm config isClientToServer tail steps last)
    (hregistered : Registered crypto vm isClientToServer steps) :
    last = CarryOver.left tail (steps.map (RecordStep.part crypto vm config)) ∧
      CarryOver.Within tail (steps.map (RecordStep.part crypto vm config)) := by
  induction steps generalizing tail with
  | nil => exact ⟨h, trivial⟩
  | cons step rest ih =>
      obtain ⟨htail, hrest⟩ := h
      obtain ⟨hdissects, hport⟩ := hregistered step List.mem_cons_self
      obtain ⟨hhanded, -, hwithin, hleft⟩ := step.carries_of_dissects config hdissects hport
      rw [hleft, hhanded, htail] at hrest
      rw [hhanded, htail] at hwithin
      obtain ⟨hlast, hlater⟩ := ih hrest
        fun other hother => hregistered other (List.mem_cons_of_mem step hother)
      exact ⟨hlast, hwithin, hlater⟩

/-- The last of some dissections is handed the tail that the others left and the new
plaintext behind it; the tail it leaves is a suffix of the plaintext so far, and every
byte of that was consumed, counted as discarded or is in the tail. -/
structure CarriesOver (crypto : Crypto) (vm : LuaVm σ) (config : OrchestratorConfig)
    (isClientToServer : Bool) (first : List (RecordStep σ)) (step : RecordStep σ) : Prop where
  handed : step.handed crypto =
    tailLeft crypto vm config isClientToServer first ++ step.plaintext crypto
  hands : step.Hands crypto vm config (step.handed crypto)
  suffix : (step.after crypto vm config).1.tail isClientToServer <:+
    (first ++ [step]).flatMap (RecordStep.plaintext crypto)
  balance : ((first ++ [step]).map fun step => (step.plaintext crypto).length).sum =
    ((first ++ [step]).map (RecordStep.consumed crypto vm)).sum +
      ((first ++ [step]).map (RecordStep.discarded crypto vm config)).sum +
      ((step.after crypto vm config).1.tail isClientToServer).length

/-- **A chain of dissections carries over**, from an empty tail on. -/
theorem TailChain.carriesOver {first rest : List (RecordStep σ)} {step : RecordStep σ}
    {last : Bytes}
    (h : TailChain crypto vm config isClientToServer [] (first ++ step :: rest) last)
    (hregistered : Registered crypto vm isClientToServer (first ++ step :: rest)) :
    CarriesOver crypto vm config isClientToServer first step := by
  obtain ⟨middle, hfirst, htail, -⟩ := tailChain_append.mp h
  obtain ⟨hdissects, hport⟩ := hregistered step
    (List.mem_append_right _ List.mem_cons_self)
  obtain ⟨hhanded, hhands, -, -⟩ := step.carries_of_dissects config hdissects hport
  have hprefix : TailChain crypto vm config isClientToServer [] (first ++ [step])
      ((step.after crypto vm config).1.tail isClientToServer) :=
    tailChain_append.mpr ⟨middle, hfirst, htail, rfl⟩
  obtain ⟨hleft, hwithin⟩ := hprefix.left fun other hother => hregistered other (by
    rcases List.mem_append.mp hother with hmem | hmem
    · exact List.mem_append_left _ hmem
    · rw [List.mem_singleton.mp hmem]
      exact List.mem_append_right _ List.mem_cons_self)
  refine ⟨?_, hhands, ?_, ?_⟩
  · rw [hhanded, htail, hfirst.eq_tailLeft]
  · -- what is left is a suffix of all the plaintext so far
    have hsuffix := CarryOver.left_suffix []
      ((first ++ [step]).map (RecordStep.part crypto vm config))
    rw [← hleft, List.flatMap_map, List.nil_append] at hsuffix
    exact hsuffix
  · -- what came in was consumed, discarded or is left
    have hbalance := CarryOver.length_left hwithin
    have hdropped : ((first ++ [step]).map (RecordStep.part crypto vm config)).map Prod.snd =
        (first ++ [step]).map fun step =>
          step.consumed crypto vm + step.discarded crypto vm config := by
      rw [List.map_map]
      rfl
    calc ((first ++ [step]).map fun step => (step.plaintext crypto).length).sum
        = ([] : Bytes).length + (((first ++ [step]).map
            (RecordStep.part crypto vm config)).map fun part => part.1.length).sum := by
          rw [List.map_map, List.length_nil, Nat.zero_add]
          rfl
      _ = ((first ++ [step]).map fun step =>
            step.consumed crypto vm + step.discarded crypto vm config).sum +
            ((step.after crypto vm config).1.tail isClientToServer).length := by
          rw [hbalance, hdropped, ← hleft]
      _ = _ := by rw [List.sum_map_add]

theorem tail_receive (found : Option Connection) (input : FrameInput) :
    (receive config found input).1.tail isClientToServer =
      (found.elim [] fun conn => conn.tail isClientToServer) := by
  have hopened : (openConnection config found input).tail isClientToServer =
      (found.elim [] fun conn => conn.tail isClientToServer) := by
    unfold openConnection
    cases found with
    | some conn => rfl
    | none =>
        simp only
        split <;> cases isClientToServer <;> rfl
  refine (receive_keeps config (fun conn => conn.tail isClientToServer) ?_ ?_ ?_ found
    input).trans hopened
  · exact fun conn direction r => conn.tail_setReassembler direction isClientToServer r
  · exact fun conn direction limits => conn.tail_markDesynced direction isClientToServer limits
  · exact fun _ _ => rfl

end Chain

/-! ## Runs -/

namespace Orchestrator

variable {σ : Type} (crypto : Crypto) (vm : LuaVm σ) (key : ConnKey) (isClientToServer : Bool)

/-- The dissections of a direction of a pair in one call. -/
def dissectionsOf (orchestrator : Orchestrator σ) (input : FrameInput) : List (RecordStep σ) :=
  if input.key = key then
    (orchestrator.recordSteps crypto vm input).filter fun step =>
      step.dissects crypto isClientToServer
  else []

/-- The dissections of a direction of a pair in a run. -/
def dissections (start : Orchestrator σ) (inputs : List FrameInput) : List (RecordStep σ) :=
  Machine.collect (processFrame crypto vm) (dissectionsOf crypto vm key isClientToServer) start
    inputs

/-- The tail of a direction of a pair; nothing where the pair is not tracked. -/
def tailOf (orchestrator : Orchestrator σ) : Bytes :=
  (orchestrator.connections.lookup key).elim [] fun conn => conn.tail isClientToServer

/-- **One call.** -/
theorem dissectionsOf_tailChain (orchestrator : Orchestrator σ) (input : FrameInput) :
    ∃ last, TailChain crypto vm orchestrator.config isClientToServer
        (orchestrator.tailOf key isClientToServer)
        (orchestrator.dissectionsOf crypto vm key isClientToServer input) last ∧
      ∀ conn, (orchestrator.processFrame crypto vm input).1.connections.lookup key = some conn →
        conn.tail isClientToServer = last := by
  unfold dissectionsOf tailOf
  split
  · rename_i hkey
    subst hkey
    obtain ⟨hdrains, -, -⟩ := handleFrame_drains crypto vm orchestrator.config
      (orchestrator.connections.lookup input.key) orchestrator.shared input
    have hchain := hdrains.tailChain isClientToServer
    rw [tail_receive] at hchain
    refine ⟨_, hchain, ?_⟩
    intro conn hlookup
    rcases lookup_processFrame hlookup with ⟨-, hother⟩ | ⟨-, -, hconn⟩
    · exact absurd rfl hother
    · rw [hconn]
  · rename_i hkey
    refine ⟨_, rfl, ?_⟩
    intro conn hlookup
    rcases lookup_processFrame hlookup with ⟨hold, -⟩ | ⟨hown, -, -⟩
    · rw [hold]
      rfl
    · exact absurd hown.symm hkey

/-- **A run.**  While the pair stays tracked, the tail goes from dissection to
dissection. -/
theorem dissections_tailChain (start : Orchestrator σ) (inputs : List FrameInput)
    (htracked : TrackedBetween crypto vm key start inputs) :
    ∃ last, TailChain crypto vm start.config isClientToServer
        (start.tailOf key isClientToServer)
        (dissections crypto vm key isClientToServer start inputs) last ∧
      ∀ conn, (after crypto vm start inputs).connections.lookup key = some conn →
        conn.tail isClientToServer = last := by
  induction inputs generalizing start with
  | nil =>
      refine ⟨_, rfl, ?_⟩
      intro conn hlookup
      rw [tailOf, show start.connections.lookup key = some conn from hlookup]
      rfl
  | cons input rest ih =>
      obtain ⟨middle, hnow, hleft⟩ := dissectionsOf_tailChain crypto vm key
        isClientToServer start input
      cases rest with
      | nil =>
          refine ⟨middle, ?_, hleft⟩
          rw [dissections, Machine.collect, Machine.collect, List.append_nil]
          exact hnow
      | cons other rest =>
          set next := (start.processFrame crypto vm input).1
          have hstays : TrackedBetween crypto vm key next (other :: rest) := by
            intro n hn _
            exact htracked (n + 1) (Nat.succ_lt_succ hn) (Nat.succ_pos n)
          obtain ⟨conn, hconn⟩ := Option.isSome_iff_exists.mp
            (htracked 1 (Nat.succ_lt_succ (Nat.succ_pos _)) Nat.one_pos)
          obtain ⟨last, hlater, hlast⟩ := ih next hstays
          refine ⟨last, tailChain_append.mpr ⟨middle, hnow, ?_⟩, hlast⟩
          have htail : next.tailOf key isClientToServer = middle := by
            rw [← hleft conn hconn, tailOf, show next.connections.lookup key = some conn from hconn]
            rfl
          rw [← htail, ← show next.config = start.config from config_processFrame crypto vm _ _]
          exact hlater

/-- **Nothing is lost or repeated between dissections.**  From the frame that opens a
connection on, as long as it is tracked: the dissector is handed the stored tail and
the new plaintext behind it, in every dissection of a direction, and whatever it does
the tail it leaves is a suffix of the direction's plaintext so far, every byte of which
was consumed, counted as discarded or is in the tail.  The tail of the tracked
connection is what the last dissection left. -/
theorem tail_carries_over (crypto : Crypto) (vm : LuaVm σ) (source : KeylogSource) (lua : σ)
    (config : OrchestratorConfig) (sweepNow gcNow : Instant) (earlier inputs : List FrameInput)
    (key : ConnKey) (isClientToServer : Bool)
    (huntracked : (after crypto vm (new source lua config sweepNow gcNow)
      earlier).connections.lookup key = none)
    (htracked : TrackedBetween crypto vm key
      (after crypto vm (new source lua config sweepNow gcNow) earlier) inputs)
    (hregistered : ∀ step ∈ dissections crypto vm key isClientToServer
        (after crypto vm (new source lua config sweepNow gcNow) earlier) inputs,
      vm.hasDissectorForPort step.shared.lua step.conn.serverEndpoint.port = true) :
    let start := after crypto vm (new source lua config sweepNow gcNow) earlier
    let steps := dissections crypto vm key isClientToServer start inputs
    (∀ first step rest, steps = first ++ step :: rest →
        CarriesOver crypto vm config isClientToServer first step) ∧
      ∀ conn, (after crypto vm start inputs).connections.lookup key = some conn →
        conn.tail isClientToServer = tailLeft crypto vm config isClientToServer steps := by
  intro start steps
  have hconfig : start.config = config := config_after _ earlier
  obtain ⟨last, hchain, hlast⟩ := dissections_tailChain crypto vm key
    isClientToServer start inputs htracked
  rw [hconfig, show start.tailOf key isClientToServer = [] by rw [tailOf, huntracked]; rfl]
    at hchain
  have hdissects : Registered crypto vm isClientToServer steps := by
    intro step hstep
    refine ⟨?_, hregistered step hstep⟩
    obtain ⟨before, input, rest, -, hmem⟩ := Machine.mem_collect hstep
    unfold dissectionsOf at hmem
    split at hmem
    · exact (List.mem_filter.mp hmem).2
    · exact absurd hmem List.not_mem_nil
  refine ⟨?_, fun conn hconn => (hlast conn hconn).trans hchain.eq_tailLeft⟩
  intro first step rest hsplit
  change TailChain crypto vm config isClientToServer [] steps last at hchain
  rw [hsplit] at hchain hdissects
  exact hchain.carriesOver hdissects

open Capture

/-- An engine with a dissector for one port, which consumes one byte at a time. -/
def frugalVm : LuaVm Unit where
  hasDissectorForPort _ port := port == 443
  call heap _ _ := (heap, .ok (.integer 1, .empty))
  gcCollect := id

/-- The request of the recorded session is dissected; two of its bytes stay. -/
theorem tail_carries_over_frugally :
    let start := new source () .default 0 0
    let inputs := [segment client server 0 999 syn [] 0, segment client server 1 1000 ack hello 1,
      segment client server 2 1043 ack Capture.request 2]
    let steps := dissections RecordedSession.recording.crypto frugalVm (connKey client server) true
      start inputs
    (∀ first step rest, steps = first ++ step :: rest →
        CarriesOver RecordedSession.recording.crypto frugalVm .default true first step) ∧
      steps.map (RecordStep.plaintext RecordedSession.recording.crypto) = [[0x47, 0x45, 0x54]] ∧
      ((after RecordedSession.recording.crypto frugalVm start inputs).connections.lookup
        (connKey client server)).map Connection.tailC2s = some [0x45, 0x54] := by
  refine ⟨(tail_carries_over RecordedSession.recording.crypto frugalVm source () .default 0 0 []
    _ (connKey client server) true rfl ?_ ?_).1, ?_, ?_⟩
  · unfold TrackedBetween
    decide +kernel
  · decide +kernel
  · decide +kernel
  · decide +kernel

end Orchestrator

end Tlscap
