import Tlscap.Reassembly.Limits

/-!
# The age of a gap

The clock starts when the first segment is buffered and stops when nothing is pending.  In
between one gap may close and the next one already be open: the clock then shows the age of
the first.  A segment that is buffered when the clock has run too long makes the reassembler
give up everything pending, however young the gap at the cursor is (`age_abandons_iff`).

## Strategy

`PushEffect` says once what a push does to the cursor, the pending data and the clock:

* **It discards** a duplicate, and nothing changes.
* **It delivers**: the cursor moves on, and the clock goes on or stops.
* **It buffers**: the cursor stays, and the clock starts if it was not running.  If it has run
  out, everything pending is given up.

A gap is as old as the last move of the cursor.  Along a run with a clock that does not run
backwards, the running clock was started after that move, or the move led to another gap that
was open already (`moved_before_clock`).  So a gap that is given up for its age is old enough
unless it is of the second kind, and the condition of the equivalence is about these only:
each segment buffered when the clock has run out comes late enough after the cursor moved to
another gap (`BuffersLate`).  That the clock has run out, and that the payload is buffered,
are facts about the state before the push.
-/

namespace Tlscap

namespace StreamReassembler

variable {r : StreamReassembler}

/-! ## What a push does to the clock -/

/-- The payload waits behind a gap: it starts past the cursor, and no segment that is at
least as long waits there already. -/
def Buffers (r : StreamReassembler) (seq : UInt32) (payload : Bytes) : Prop :=
  payload ≠ [] ∧ r.nextExpectedRelative < (r.relativeSeq seq).1 ∧
    ∀ existing, r.pending.find? (r.relativeSeq seq).1 = some existing →
      existing.data.length < payload.length

instance (r : StreamReassembler) (seq : UInt32) (payload : Bytes) :
    Decidable (r.Buffers seq payload) :=
  match hfind : r.pending.find? (r.relativeSeq seq).1 with
  | none =>
      decidable_of_iff (payload ≠ [] ∧ r.nextExpectedRelative < (r.relativeSeq seq).1) (by
        unfold Buffers
        rw [hfind]
        simp)
  | some existing =>
      decidable_of_iff (payload ≠ [] ∧ r.nextExpectedRelative < (r.relativeSeq seq).1 ∧
        existing.data.length < payload.length) (by
          unfold Buffers
          rw [hfind]
          simp)

/-- What a push does to the cursor, the pending data and the clock of a reassembler. -/
inductive PushEffect (r : StreamReassembler) (seq : UInt32) (payload : Bytes)
    (opened checked : Instant) : PushOutcome × StreamReassembler → Prop
  | discards {r' : StreamReassembler} (hbuffers : ¬r.Buffers seq payload)
      (hnext : r'.nextExpectedRelative = r.nextExpectedRelative)
      (hpending : r'.pending = r.pending) (hsince : r'.pendingSince = r.pendingSince) :
      PushEffect r seq payload opened checked (.duplicateDiscarded, r')
  | delivers {r' : StreamReassembler} (hbuffers : ¬r.Buffers seq payload)
      (hnext : r.nextExpectedRelative < r'.nextExpectedRelative)
      (hsince : r'.pendingSince = none ∨ r'.pendingSince = r.pendingSince) :
      PushEffect r seq payload opened checked (.delivered, r')
  | buffers {outcome : PushOutcome} {r' : StreamReassembler} (hbuffers : r.Buffers seq payload)
      (hnext : r'.nextExpectedRelative = r.nextExpectedRelative)
      (hexpired : r.gapExpired opened checked = true →
        outcome.isGapAbandoned = true ∧ r'.pending.entries = [])
      (hfresh : r'.pendingSince = none ∨ r'.pendingSince = some (r.pendingSince.getD opened)) :
      PushEffect r seq payload opened checked (outcome, r')

/-- A running clock was running before, or was started just now. -/
theorem PushEffect.since {seq : UInt32} {payload : Bytes} {opened checked since : Instant}
    {after : PushOutcome × StreamReassembler} (h : r.PushEffect seq payload opened checked after)
    (hsince : after.2.pendingSince = some since) :
    r.pendingSince = some since ∨ r.pendingSince = none ∧ since = opened := by
  have hfresh : after.2.pendingSince = none ∨ after.2.pendingSince = r.pendingSince ∨
      after.2.pendingSince = some (r.pendingSince.getD opened) := by
    cases h with
    | discards _ _ _ hsame => exact .inr (.inl hsame)
    | delivers _ _ hsame => exact hsame.imp_right .inl
    | buffers _ _ _ hfresh => exact hfresh.imp_right .inr
  rw [hsince] at hfresh
  rcases hfresh with hnone | hsame | hstarted
  · cases hnone
  · exact .inl hsame.symm
  · cases hr : r.pendingSince with
    | none =>
        rw [hr] at hstarted
        exact .inr ⟨rfl, Option.some.inj hstarted⟩
    | some earlier =>
        rw [hr] at hstarted
        exact .inl hstarted.symm

theorem stopClock_pendingSince (r : StreamReassembler) :
    r.stopClock.pendingSince = none ∨ r.stopClock.pendingSince = r.pendingSince := by
  unfold stopClock
  split_ifs
  · exact .inl rfl
  · exact .inr rfl

theorem drainPending_clock (r : StreamReassembler) :
    r.nextExpectedRelative ≤ r.drainPending.nextExpectedRelative ∧
      (r.drainPending.pendingSince = none ∨ r.drainPending.pendingSince = r.pendingSince) := by
  have hloop : r.nextExpectedRelative ≤ (drainLoop r.pending.length r).nextExpectedRelative ∧
      (drainLoop r.pending.length r).pendingSince = r.pendingSince := by
    refine drainLoop_induction (P := fun r' =>
      r.nextExpectedRelative ≤ r'.nextExpectedRelative ∧ r'.pendingSince = r.pendingSince)
      (fun _ _ _ _ _ _ h => h) ?_ _ _ ⟨le_rfl, rfl⟩
    rintro r' key seg rest - - - ⟨hnext, hsince⟩
    exact ⟨hnext.trans (Nat.le_add_right _ _), hsince⟩
  refine ⟨hloop.1.trans_eq (stopClock_nextExpectedRelative _).symm, ?_⟩
  have hstopped := stopClock_pendingSince (drainLoop r.pending.length r)
  rwa [hloop.2] at hstopped

theorem enforceLimits_clock (r : StreamReassembler) (checked : Instant) :
    (r.enforceLimits checked).2.nextExpectedRelative = r.nextExpectedRelative ∧
      (r.ageExceeded checked = true → (r.enforceLimits checked).1.isGapAbandoned = true ∧
        (r.enforceLimits checked).2.pending.entries = []) ∧
      ((r.enforceLimits checked).2.pendingSince = none ∨
        (r.enforceLimits checked).2.pendingSince = r.pendingSince) := by
  unfold enforceLimits
  split_ifs with hkeep hage
  · exact ⟨rfl, fun hold => absurd (hkeep.2.2.symm.trans hold) (by decide), .inr rfl⟩
  · exact ⟨rfl, fun _ => ⟨rfl, rfl⟩, .inl rfl⟩
  · have hframe := (evictLoop_evicts r.pending.length 0 r).frame
    have hsince := congrArg pendingSince hframe
    have hstopped := stopClock_pendingSince (evictLoop r.pending.length 0 r).2
    rw [hsince] at hstopped
    have hnext := congrArg nextExpectedRelative hframe
    exact ⟨(stopClock_nextExpectedRelative _).trans hnext, fun hold => absurd hold hage, hstopped⟩

/-- **What a push does.** -/
theorem Invariant.pushEffect (h : r.Invariant) (packetIndex : ℕ) (seq : UInt32)
    (range : ByteRange) (payload : Bytes) (opened checked : Instant) :
    r.PushEffect seq payload opened checked
      (r.push packetIndex seq range payload opened checked) := by
  -- a payload that is buffered leaves the cursor and meets the limits
  have hlimits : ∀ {stored : StreamReassembler}, r.Buffers seq payload →
      stored.nextExpectedRelative = r.nextExpectedRelative →
      stored.pendingSince = some (r.pendingSince.getD opened) → stored.limits = r.limits →
      r.PushEffect seq payload opened checked (stored.enforceLimits checked) := by
    intro stored hbuffers hnext hsince hlimits
    obtain ⟨hcursor, hexpired, hfresh⟩ := enforceLimits_clock stored checked
    rw [ageExceeded_eq hsince hlimits] at hexpired
    rw [hsince] at hfresh
    exact .buffers hbuffers (hcursor.trans hnext) hexpired hfresh
  -- a payload that reaches the cursor is delivered, with what waits behind it
  have hdelivered : ∀ {seg : Segment}, 0 < seg.data.length → ¬r.Buffers seq payload →
      r.PushEffect seq payload opened checked
        (.delivered, ((r.relativeSeq seq).2.deliver seg).drainPending) := by
    intro seg hseg hbuffers
    obtain ⟨hnext, hsince⟩ := drainPending_clock ((r.relativeSeq seq).2.deliver seg)
    refine .delivers hbuffers (lt_of_lt_of_le ?_ hnext) hsince
    exact Nat.lt_add_of_pos_right hseg
  by_cases hempty : payload = []
  · subst hempty
    exact .discards (fun hbuffers => hbuffers.1 rfl) rfl rfl rfl
  have hpos := List.length_pos_iff.mpr hempty
  have hcursor : (r.relativeSeq seq).2.nextExpectedRelative = r.nextExpectedRelative := rfl
  rw [push_of_ne_nil r packetIndex seq range hempty]
  unfold StreamReassembler.pushRelative
  rw [hcursor]
  dsimp only
  split_ifs with hduplicate hbehind hexact
  · exact .discards (fun hbuffers => absurd hbuffers.2.1 (by omega)) rfl rfl rfl
  · refine hdelivered ?_ fun hbuffers => absurd hbuffers.2.1 (by omega)
    simp only [Segment.trimmed, List.length_drop]
    omega
  · exact hdelivered hpos fun hbuffers => absurd hbuffers.2.1 (by omega)
  · have hahead : r.nextExpectedRelative < (r.relativeSeq seq).1 := by omega
    have hsame : (r.relativeSeq seq).2.pending = r.pending := rfl
    have hsince := pendingSince_store h.clock (r.relativeSeq seq).1
      ⟨packetIndex, range, payload⟩ opened
    unfold StreamReassembler.bufferPending
    rw [hsame]
    -- ahead of the cursor: a longer payload at its position keeps it out
    cases hfind : r.pending.find? (r.relativeSeq seq).1 with
    | some existing =>
        dsimp only
        split_ifs with hlonger
        · exact .discards (fun hbuffers => absurd (hbuffers.2.2 existing hfind)
            (not_lt.mpr hlonger)) rfl rfl rfl
        · refine hlimits ⟨hempty, hahead, ?_⟩ rfl hsince rfl
          intro other hother
          obtain rfl := Option.some.inj (hfind.symm.trans hother)
          exact not_le.mp hlonger
    | none =>
        refine hlimits ⟨hempty, hahead, ?_⟩ rfl hsince rfl
        intro other hother
        exact absurd (hfind.symm.trans hother) (by simp)

/-- The payload holds the byte at the cursor. -/
def Advances (r : StreamReassembler) (seq : UInt32) (payload : Bytes) : Prop :=
  (r.relativeSeq seq).1 ≤ r.nextExpectedRelative ∧
    r.nextExpectedRelative < (r.relativeSeq seq).1 + payload.length

instance (r : StreamReassembler) (seq : UInt32) (payload : Bytes) :
    Decidable (r.Advances seq payload) :=
  inferInstanceAs (Decidable (_ ∧ _))

/-- A push delivers exactly the payloads that hold the byte at the cursor. -/
theorem push_eq_delivered_iff (r : StreamReassembler) (packetIndex : ℕ) (seq : UInt32)
    (range : ByteRange) (payload : Bytes) (opened checked : Instant) :
    (r.push packetIndex seq range payload opened checked).1 = .delivered ↔
      r.Advances seq payload := by
  by_cases hempty : payload = []
  · subst hempty
    refine iff_of_false PushOutcome.noConfusion fun hadvances => ?_
    exact absurd (lt_of_le_of_lt hadvances.1 hadvances.2) (lt_irrefl _)
  have hcursor : (r.relativeSeq seq).2.nextExpectedRelative = r.nextExpectedRelative := rfl
  rw [push_of_ne_nil r packetIndex seq range hempty]
  unfold StreamReassembler.pushRelative Advances
  rw [hcursor]
  dsimp only
  split_ifs with hduplicate hbehind hexact
  · exact iff_of_false (by simp) (by omega)
  · exact iff_of_true rfl (by omega)
  · have hpos := List.length_pos_iff.mpr hempty
    exact iff_of_true rfl (by omega)
  · -- a segment behind a gap is not delivered
    refine iff_of_false (fun hdelivered => ?_) (by omega)
    have hlimits : ∀ stored : StreamReassembler, (stored.enforceLimits checked).1 ≠ .delivered := by
      intro stored
      unfold enforceLimits
      split_ifs <;> exact PushOutcome.noConfusion
    unfold StreamReassembler.bufferPending at hdelivered
    split at hdelivered
    · split at hdelivered
      · cases hdelivered
      · exact hlimits _ hdelivered
    · exact hlimits _ hdelivered

/-! ## Giving up for age -/

/-- The clock readings of a call. -/
def Operation.readings : Operation → List Instant
  | .push _ _ _ _ opened checked => [opened, checked]
  | _ => []

/-- When a call moved the cursor, if it did. -/
def moved (r : StreamReassembler) : Operation → List Instant
  | .push packetIndex seq range payload opened checked =>
      if (r.push packetIndex seq range payload opened checked).2.nextExpectedRelative =
          r.nextExpectedRelative then []
      else [opened]
  | _ => []

/-- When a call moved the cursor to the next gap, if it did. -/
def movedToGap (r : StreamReassembler) : Operation → List Instant
  | .push packetIndex seq range payload opened checked =>
      if (r.push packetIndex seq range payload opened checked).2.nextExpectedRelative =
            r.nextExpectedRelative ∨
          (r.push packetIndex seq range payload opened checked).2.pending.entries = [] then []
      else [opened]
  | _ => []

section Moved

variable {packetIndex : ℕ} {seq : UInt32} {range : ByteRange} {payload : Bytes}
  {opened checked time : Instant}

theorem mem_moved_push :
    time ∈ r.moved (.push packetIndex seq range payload opened checked) ↔
      (r.push packetIndex seq range payload opened checked).2.nextExpectedRelative ≠
        r.nextExpectedRelative ∧ time = opened := by
  dsimp only [moved]
  split_ifs with hsame
  · simp [hsame]
  · simp [hsame]

theorem mem_movedToGap_push :
    time ∈ r.movedToGap (.push packetIndex seq range payload opened checked) ↔
      ((r.push packetIndex seq range payload opened checked).2.nextExpectedRelative ≠
          r.nextExpectedRelative ∧
        (r.push packetIndex seq range payload opened checked).2.pending.entries ≠ []) ∧
          time = opened := by
  dsimp only [movedToGap]
  split_ifs with hsame
  · simp only [List.not_mem_nil, false_iff, not_and]
    exact fun hmoves => absurd hsame (not_or.mpr hmoves)
  · simp only [List.mem_singleton]
    exact (and_iff_right (not_or.mp hsame)).symm

end Moved

/-- In the run `P` holds of every push, with the state it meets and the calls before. -/
def AtPushes (limits : PendingLimits) (operations : List Operation)
    (P : (before : List Operation) → (r : StreamReassembler) → (packetIndex : ℕ) →
      (seq : UInt32) → (range : ByteRange) → (payload : Bytes) → (opened checked : Instant) →
        Prop) : Prop :=
  ∀ before packetIndex seq range payload opened checked rest,
    operations = before ++ .push packetIndex seq range payload opened checked :: rest →
      P before (Machine.run perform (withPendingLimits limits) before).1 packetIndex seq range
        payload opened checked

/-- A push that gives up a gap for its age does so more than `max_age` after the cursor
moved last. -/
def AbandonsOldGapsOnly (limits : PendingLimits) (operations : List Operation) : Prop :=
  AtPushes limits operations fun before r packetIndex seq range payload opened checked =>
    (r.push packetIndex seq range payload opened checked).1.isGapAbandoned = true →
      r.gapExpired opened checked = true →
        ∀ time ∈ Machine.collect perform moved (withPendingLimits limits) before,
          time + limits.maxAge < checked

/-- A segment that is buffered when the clock has run too long comes more than `max_age`
after the cursor moved to another gap last. -/
def BuffersLate (limits : PendingLimits) (operations : List Operation) : Prop :=
  AtPushes limits operations fun before r _ seq _ payload opened checked =>
    r.Buffers seq payload → r.gapExpired opened checked = true →
      ∀ time ∈ Machine.collect perform movedToGap (withPendingLimits limits) before,
        time + limits.maxAge < checked

/-- The cursor moves at a reading of the clock. -/
theorem moved_subset_readings {limits : PendingLimits} {operations : List Operation}
    {time : Instant}
    (h : time ∈ Machine.collect perform moved (withPendingLimits limits) operations) :
    time ∈ operations.flatMap Operation.readings := by
  obtain ⟨before, operation, rest, rfl, hmoved⟩ := Machine.mem_collect h
  refine List.mem_flatMap.mpr ⟨operation, by simp, ?_⟩
  cases operation with
  | setIsn firstByteSeq => exact absurd hmoved List.not_mem_nil
  | push packetIndex seq range payload opened checked =>
      rw [(mem_moved_push.mp hmoved).2]
      exact List.mem_cons_self
  | takeBytes n => exact absurd hmoved List.not_mem_nil

theorem pendingSince_perform_of_not_push {operation : Operation}
    (h : operation.readings = []) :
    (r.perform operation).1.pendingSince = r.pendingSince ∧ r.moved operation = [] := by
  cases operation with
  | setIsn firstByteSeq =>
      refine ⟨?_, rfl⟩
      simp only [perform, setIsn]
      split <;> rfl
  | push packetIndex seq range payload opened checked => cases h
  | takeBytes n =>
      refine ⟨?_, rfl⟩
      simp only [perform]
      split
      · rfl
      · rename_i out pieces r' htake
        unfold takeBytes at htake
        split_ifs at htake
        split at htake
        · cases htake
        · cases htake
          rfl

/-- The clock started after the cursor moved last, or else it moved to the next gap. -/
theorem moved_before_clock (limits : PendingLimits) (operations : List Operation)
    (hclock : (operations.flatMap Operation.readings).Pairwise (· ≤ ·)) {since : Instant}
    (hsince : (Machine.run perform (withPendingLimits limits) operations).1.pendingSince =
      some since) :
    ∀ time ∈ Machine.collect perform moved (withPendingLimits limits) operations,
      time ≤ since ∨
        time ∈ Machine.collect perform movedToGap (withPendingLimits limits) operations := by
  induction operations using List.reverseRecOn generalizing since with
  | nil => exact fun _ htime => absurd htime List.not_mem_nil
  | append_singleton operations operation ih =>
      rw [List.flatMap_append, List.pairwise_append] at hclock
      obtain ⟨hbefore, -, hlater⟩ := hclock
      rw [Machine.run_append] at hsince
      have hinvariant := invariant_run limits operations
      -- a clock that runs on keeps what was known of it
      have hkeeps : ∀ {since}, (Machine.run perform (withPendingLimits limits)
          operations).1.pendingSince = some since → ∀ time ∈ Machine.collect perform moved
            (withPendingLimits limits) operations, time ≤ since ∨
              time ∈ Machine.collect perform movedToGap (withPendingLimits limits)
                (operations ++ [operation]) := by
        intro since hsame time htime
        rw [Machine.collect_concat]
        exact (ih hbefore hsame time htime).imp_right (List.mem_append_left _)
      intro time htime
      rw [Machine.collect_concat] at htime
      set r := (Machine.run perform (withPendingLimits limits) operations).1 with hr
      change (r.perform operation).1.pendingSince = some since at hsince
      -- only a push reads the clock, so only a push can start it or move the cursor
      by_cases hpush : operation.readings = []
      · obtain ⟨hsame, hmoved⟩ := r.pendingSince_perform_of_not_push hpush
        rw [hmoved, List.append_nil] at htime
        exact hkeeps (hsame ▸ hsince) time htime
      cases operation with
      | setIsn firstByteSeq => exact absurd rfl hpush
      | takeBytes n => exact absurd rfl hpush
      | push packetIndex seq range payload opened checked =>
          have heffect := hinvariant.pushEffect packetIndex seq range payload opened checked
          have hafter := hinvariant.push packetIndex seq range payload opened checked
          rw [List.mem_append, mem_moved_push] at htime
          change (r.push packetIndex seq range payload opened checked).2.pendingSince = _ at hsince
          rcases htime with htime | ⟨hne, heq⟩
          · rcases heffect.since hsince with hsame | ⟨-, rfl⟩
            · exact hkeeps hsame time htime
            · -- the clock starts now, after all readings before
              refine .inl (hlater time (moved_subset_readings htime) since ?_)
              exact List.mem_flatMap.mpr ⟨_, List.mem_singleton_self _, List.mem_cons_self⟩
          · -- the cursor moved and the clock still runs, so it stands before the next gap
            have hpending :
                (r.push packetIndex seq range payload opened checked).2.pending.entries ≠ [] :=
              fun hnil => absurd (hafter.clock.mpr hnil) (by simp [hsince])
            rw [Machine.collect_concat]
            exact .inr (List.mem_append_right _ (mem_movedToGap_push.mpr ⟨⟨hne, hpending⟩, heq⟩))

theorem movedToGap_subset_moved {limits : PendingLimits} {operations : List Operation}
    {time : Instant}
    (h : time ∈ Machine.collect perform movedToGap (withPendingLimits limits) operations) :
    time ∈ Machine.collect perform moved (withPendingLimits limits) operations := by
  induction operations using List.reverseRecOn with
  | nil => exact h
  | append_singleton operations operation ih =>
      rw [Machine.collect_concat, List.mem_append] at h ⊢
      refine h.imp ih fun hmoved => ?_
      cases operation with
      | setIsn firstByteSeq => exact absurd hmoved List.not_mem_nil
      | push packetIndex seq range payload opened checked =>
          obtain ⟨⟨hne, -⟩, heq⟩ := mem_movedToGap_push.mp hmoved
          exact mem_moved_push.mpr ⟨hne, heq⟩
      | takeBytes n => exact absurd hmoved List.not_mem_nil

theorem gapExpired_iff {opened checked : Instant} :
    r.gapExpired opened checked = true ↔
      r.pendingSince.getD opened + r.limits.maxAge < checked := by
  rw [gapExpired, decide_eq_true_iff, elapsed, Nat.lt_sub_iff_add_lt, Nat.add_comm]

/-- With the clock run out, a push gives up the gap exactly if it buffers its payload. -/
theorem PushEffect.abandons_iff {seq : UInt32} {payload : Bytes} {opened checked : Instant}
    {after : PushOutcome × StreamReassembler} (h : r.PushEffect seq payload opened checked after)
    (hexpired : r.gapExpired opened checked = true) :
    after.1.isGapAbandoned = true ↔ r.Buffers seq payload := by
  cases h with
  | discards hbuffers _ _ _ => exact iff_of_false (by simp [PushOutcome.isGapAbandoned]) hbuffers
  | delivers hbuffers _ _ => exact iff_of_false (by simp [PushOutcome.isGapAbandoned]) hbuffers
  | buffers hbuffers _ hold _ => exact iff_of_true (hold hexpired).1 hbuffers

/-- A cursor that never moves from one gap to another leaves the clock right. -/
theorem buffersLate_of_never {limits : PendingLimits} {operations : List Operation}
    (h : Machine.collect perform movedToGap (withPendingLimits limits) operations = []) :
    BuffersLate limits operations := by
  intro before packetIndex seq range payload opened checked rest hsplit _ _ time htime
  rw [hsplit, Machine.collect_append] at h
  rw [(List.append_eq_nil_iff.mp h).1] at htime
  exact absurd htime List.not_mem_nil

/-- Only gaps that are older than `max_age` are given up for their age, exactly if no
segment is buffered too soon after the cursor moved to another gap: the clock does not
start again then. -/
theorem age_abandons_iff (limits : PendingLimits) (operations : List Operation)
    (hclock : (operations.flatMap Operation.readings).Pairwise (· ≤ ·)) :
    AbandonsOldGapsOnly limits operations ↔ BuffersLate limits operations := by
  constructor
  · intro h before packetIndex seq range payload opened checked rest hsplit hbuffers hexpired
      time htime
    have heffect := (invariant_run limits before).pushEffect packetIndex seq range payload opened
      checked
    exact h before packetIndex seq range payload opened checked rest hsplit
      ((heffect.abandons_iff hexpired).mpr hbuffers) hexpired time (movedToGap_subset_moved htime)
  · intro h before packetIndex seq range payload opened checked rest hsplit hgap hexpired
      time htime
    have heffect := (invariant_run limits before).pushEffect packetIndex seq range payload opened
      checked
    have hlate := h before packetIndex seq range payload opened checked rest hsplit
      ((heffect.abandons_iff hexpired).mp hgap) hexpired
    have hold := (limits_run limits before) ▸ gapExpired_iff.mp hexpired
    rw [hsplit, List.flatMap_append, List.pairwise_append] at hclock
    obtain ⟨hbefore, -, hlater⟩ := hclock
    cases hsince : (Machine.run perform (withPendingLimits limits) before).1.pendingSince with
    | some since =>
        rw [hsince, Option.getD_some] at hold
        rcases moved_before_clock limits before hbefore hsince time htime with hle | hgapTime
        · calc time + limits.maxAge ≤ since + limits.maxAge := Nat.add_le_add_right hle _
            _ < checked := hold
        · exact hlate time hgapTime
    | none =>
        -- the gap was opened by this push
        rw [hsince, Option.getD_none] at hold
        have hle : time ≤ opened := by
          refine hlater time (moved_subset_readings htime) opened ?_
          rw [List.flatMap_cons]
          exact List.mem_append_left _ List.mem_cons_self
        calc time + limits.maxAge ≤ opened + limits.maxAge := Nat.add_le_add_right hle _
          _ < checked := hold

/-- Two gaps that overlap in time: the first is closed, and the second is given up for
the age of the first. -/
theorem young_gap_abandoned : ¬AbandonsOldGapsOnly ⟨4194304, 50, 30⟩
    [.setIsn 0, .push 0 10 ⟨0, 1⟩ [0xaa] 0 0, .push 1 20 ⟨0, 1⟩ [0xbb] 25 25,
      .push 2 0 ⟨0, 10⟩ [0, 1, 2, 3, 4, 5, 6, 7, 8, 9] 29 29, .push 3 30 ⟨0, 1⟩ [0xcc] 31 31] := by
  intro h
  have hold := h [.setIsn 0, .push 0 10 ⟨0, 1⟩ [0xaa] 0 0, .push 1 20 ⟨0, 1⟩ [0xbb] 25 25,
    .push 2 0 ⟨0, 10⟩ [0, 1, 2, 3, 4, 5, 6, 7, 8, 9] 29 29] 3 30 ⟨0, 1⟩ [0xcc] 31 31 [] rfl
    (by decide) (by decide) 29 (by decide)
  exact absurd hold (by decide)

/-- The first gap is closed before the second one opens. -/
theorem separate_gaps_kept : AbandonsOldGapsOnly ⟨4194304, 50, 30⟩
    [.setIsn 0, .push 0 10 ⟨0, 1⟩ [0xaa] 0 0,
      .push 1 0 ⟨0, 10⟩ [0, 1, 2, 3, 4, 5, 6, 7, 8, 9] 29 29, .push 2 30 ⟨0, 1⟩ [0xcc] 31 31,
      .push 3 40 ⟨0, 1⟩ [0xdd] 62 62] := by
  exact (age_abandons_iff _ _ (by decide)).mpr (buffersLate_of_never (by decide))

end StreamReassembler

end Tlscap
