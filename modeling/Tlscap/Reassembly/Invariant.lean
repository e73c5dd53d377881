import Tlscap.Reassembly.Model
import Mathlib.Tactic.Common

/-!
# The invariant of the reassembler

`Invariant` holds of every reassembler that `push`, `peek` and `takeBytes` can produce.  Its
parts are the two redundant counters (`Sized`), the position of the pending segments
(`Ahead`), the caps (`WithinLimits`) and the clock of the open gap, which runs exactly while
something is pending.

## Strategy

Each loop is unfolded once, and what is known of it afterwards is one lemma:

* **`drainLoop`.**  An iteration discards a segment that the cursor has overtaken, or
  delivers the part of it past the cursor; what survives both holds after the loop
  (`drainLoop_induction`).  With one unit of fuel for each pending segment the loop stops at
  a gap (`drainLoop_ahead`).
* **`evictLoop`** only removes pending segments (`evictLoop_evicts`) and stops within the caps
  (`evictLoop_within`).
* **The loop of `take_bytes`** hands out the front of the queued bytes and leaves the rest
  (`takeLoop_spec`); the one of `peek` shows the same front (`peek_eq`).

The parts do not all hold in the middle of a push.  Once a segment is stored the caps may be
exceeded, and once the last one is delivered the clock still runs; `enforceLimits` restores
the first (`enforceLimits_invariant`) and `stopClock` the second (`invariant_stopClock`).

No push changes the caps, and none moves the base of an anchored reassembler
(`sameAnchor_push`), so that offsets keep their meaning over a run.
-/

namespace Tlscap

@[simp] theorem Segment.trimmed_zero (seg : Segment) : seg.trimmed 0 = seg := rfl

namespace StreamReassembler

/-- The delivered bytes that were not consumed yet. -/
def contiguousBytes (r : StreamReassembler) : Bytes := r.contiguous.flatMap Segment.data

/-- The counters agree with what they count, and no pending segment is empty. -/
structure Sized (r : StreamReassembler) : Prop where
  contiguousLen_eq : r.contiguousLen = r.contiguousBytes.length
  pendingLen_eq : r.pendingLen = r.pending.total fun seg => seg.data.length
  pending_pos : ∀ entry ∈ r.pending.entries, 0 < entry.2.data.length

/-- Every pending segment starts behind a gap. -/
def Ahead (r : StreamReassembler) : Prop :=
  ∀ entry ∈ r.pending.entries, r.nextExpectedRelative < entry.1

/-- The byte cap and the packet cap hold. -/
def WithinLimits (r : StreamReassembler) : Prop :=
  r.pendingLen ≤ r.limits.maxBytes ∧ r.pending.length ≤ r.limits.maxPackets

/-- What holds of a reassembler between two calls. -/
structure Invariant (r : StreamReassembler) : Prop extends Sized r where
  ahead : r.Ahead
  within : r.WithinLimits
  clock : r.pendingSince = none ↔ r.pending.entries = []

@[simp] theorem contiguousBytes_deliver (r : StreamReassembler) (seg : Segment) :
    (r.deliver seg).contiguousBytes = r.contiguousBytes ++ seg.data := by
  simp [contiguousBytes, deliver]

/-- With nothing counted as pending, nothing is pending. -/
theorem Sized.pending_eq_empty {r : StreamReassembler} (h : r.Sized) (hlen : r.pendingLen = 0) :
    r.pending = OrderedMap.empty :=
  OrderedMap.eq_empty_of_entries_eq_nil
    (OrderedMap.entries_eq_nil_of_total_eq_zero h.pending_pos (h.pendingLen_eq.symm.trans hlen))

theorem Sized.contiguousBytes_eq_nil {r : StreamReassembler} (h : r.Sized)
    (hlen : r.contiguousLen = 0) : r.contiguousBytes = [] :=
  List.eq_nil_of_length_eq_zero (h.contiguousLen_eq.symm.trans hlen)

theorem Sized.deliver {r : StreamReassembler} (h : r.Sized) (seg : Segment) :
    (r.deliver seg).Sized where
  contiguousLen_eq := by
    rw [contiguousBytes_deliver, List.length_append, ← h.contiguousLen_eq]
    rfl
  pendingLen_eq := h.pendingLen_eq
  pending_pos := h.pending_pos

theorem Sized.removeFirst {r : StreamReassembler} (h : r.Sized) {key : ℕ} {seg : Segment}
    {rest : OrderedMap ℕ Segment} (hpop : r.pending.popFirst? = some ((key, seg), rest)) :
    (r.removeFirst seg rest).Sized where
  contiguousLen_eq := h.contiguousLen_eq
  pendingLen_eq := by
    have htotal := OrderedMap.popFirst?_total (fun seg : Segment => seg.data.length) hpop
    have hlen := h.pendingLen_eq
    simp only at htotal
    simp only [StreamReassembler.removeFirst]
    omega
  pending_pos := fun entry hentry =>
    h.pending_pos entry (OrderedMap.popFirst?_subset hpop hentry)

/-! ## The drain loop -/

/-- What holds before `drainLoop` and survives each of its iterations holds after it. -/
theorem drainLoop_induction {P : StreamReassembler → Prop}
    (discard : ∀ r key seg rest, r.pending.popFirst? = some ((key, seg), rest) →
      key + seg.data.length ≤ r.nextExpectedRelative → P r → P (r.removeFirst seg rest))
    (advance : ∀ r key seg rest, r.pending.popFirst? = some ((key, seg), rest) →
      key ≤ r.nextExpectedRelative →
      (key = r.nextExpectedRelative ∨ r.nextExpectedRelative < key + seg.data.length) → P r →
      P ((r.removeFirst seg rest).deliver (seg.trimmed (r.nextExpectedRelative - key)))) :
    ∀ fuel r, P r → P (drainLoop fuel r) := by
  intro fuel
  induction fuel with
  | zero => intro r h; exact h
  | succ fuel ih =>
      intro r h
      unfold drainLoop
      split
      · exact h
      · rename_i key seg rest hpop
        split_ifs with hbehind hredundant hgap
        · exact ih _ (discard r key seg rest hpop hredundant h)
        · exact ih _ (advance r key seg rest hpop (by omega) (by omega) h)
        · exact h
        · have hkey : key = r.nextExpectedRelative := not_not.mp hgap
          have hdeliver := advance r key seg rest hpop (by omega) (by omega) h
          rw [hkey, Nat.sub_self, Segment.trimmed_zero] at hdeliver
          exact ih _ hdeliver

/-- With one unit of fuel per pending segment, `drainLoop` stops at a gap. -/
theorem drainLoop_ahead : ∀ fuel (r : StreamReassembler), r.pending.length ≤ fuel →
    (drainLoop fuel r).Ahead := by
  intro fuel
  induction fuel with
  | zero =>
      intro r hfuel entry hentry
      have hnil : r.pending.entries = [] := List.eq_nil_of_length_eq_zero (Nat.le_zero.mp hfuel)
      simp [drainLoop, hnil] at hentry
  | succ fuel ih =>
      intro r hfuel
      unfold drainLoop
      split
      · rename_i hpop
        intro entry hentry
        simp [OrderedMap.popFirst?_eq_none_iff.mp hpop] at hentry
      · rename_i key seg rest hpop
        have hlength := OrderedMap.popFirst?_length hpop
        have hrest : rest.length ≤ fuel := by omega
        split_ifs with hbehind hredundant hgap
        · exact ih _ hrest
        · exact ih _ hrest
        · intro entry hentry
          obtain ⟨hentries, hkeys⟩ := OrderedMap.popFirst?_spec hpop
          rw [hentries] at hentry
          rcases List.mem_cons.mp hentry with rfl | hentry
          · change r.nextExpectedRelative < key
            omega
          · have := hkeys entry hentry
            omega
        · exact ih _ hrest

theorem Sized.drainLoop {r : StreamReassembler} (h : r.Sized) (fuel : ℕ) :
    (drainLoop fuel r).Sized :=
  drainLoop_induction (fun _ _ _ _ hpop _ h => h.removeFirst hpop)
    (fun _ _ _ _ hpop _ _ h => (h.removeFirst hpop).deliver _) fuel r h

theorem WithinLimits.removeFirst {r : StreamReassembler} (h : r.WithinLimits) {key : ℕ}
    {seg : Segment} {rest : OrderedMap ℕ Segment}
    (hpop : r.pending.popFirst? = some ((key, seg), rest)) :
    (r.removeFirst seg rest).WithinLimits := by
  have hlength := OrderedMap.popFirst?_length hpop
  obtain ⟨hbytes, hpackets⟩ := h
  refine ⟨?_, ?_⟩ <;> simp only [StreamReassembler.removeFirst] <;> omega

theorem WithinLimits.drainLoop {r : StreamReassembler} (h : r.WithinLimits) (fuel : ℕ) :
    (drainLoop fuel r).WithinLimits :=
  drainLoop_induction (P := WithinLimits) (fun _ _ _ _ hpop _ h => h.removeFirst hpop)
    (fun _ _ _ _ hpop _ _ h => h.removeFirst hpop) fuel r h

/-- A clock that is stopped only when nothing is pending stays so in the drain loop. -/
theorem drainLoop_clock {r : StreamReassembler} (fuel : ℕ)
    (h : r.pendingSince = none → r.pending.entries = []) :
    (drainLoop fuel r).pendingSince = none → (drainLoop fuel r).pending.entries = [] := by
  refine drainLoop_induction (P := fun r => r.pendingSince = none → r.pending.entries = [])
    ?_ ?_ fuel r h
  · intro r key seg rest hpop _ h hnone
    exact absurd (h hnone) (by simp [(OrderedMap.popFirst?_spec hpop).1])
  · intro r key seg rest hpop _ _ h hnone
    exact absurd (h hnone) (by simp [(OrderedMap.popFirst?_spec hpop).1])

/-! ## Stopping the clock -/

@[simp] theorem stopClock_baseSeq (r : StreamReassembler) : r.stopClock.baseSeq = r.baseSeq := by
  unfold stopClock
  split_ifs <;> rfl

@[simp] theorem stopClock_nextExpectedRelative (r : StreamReassembler) :
    r.stopClock.nextExpectedRelative = r.nextExpectedRelative := by
  unfold stopClock
  split_ifs <;> rfl

@[simp] theorem stopClock_contiguous (r : StreamReassembler) :
    r.stopClock.contiguous = r.contiguous := by
  unfold stopClock
  split_ifs <;> rfl

@[simp] theorem stopClock_contiguousLen (r : StreamReassembler) :
    r.stopClock.contiguousLen = r.contiguousLen := by
  unfold stopClock
  split_ifs <;> rfl

@[simp] theorem stopClock_pending (r : StreamReassembler) : r.stopClock.pending = r.pending := by
  unfold stopClock
  split_ifs <;> rfl

@[simp] theorem stopClock_pendingLen (r : StreamReassembler) :
    r.stopClock.pendingLen = r.pendingLen := by
  unfold stopClock
  split_ifs <;> rfl

@[simp] theorem stopClock_limits (r : StreamReassembler) : r.stopClock.limits = r.limits := by
  unfold stopClock
  split_ifs <;> rfl

theorem Sized.stopClock {r : StreamReassembler} (h : r.Sized) : r.stopClock.Sized where
  contiguousLen_eq := by simpa [contiguousBytes] using h.contiguousLen_eq
  pendingLen_eq := by simpa using h.pendingLen_eq
  pending_pos := by simpa using h.pending_pos

/-- Stopping the clock establishes the clock condition, and touches nothing else. -/
theorem invariant_stopClock {r : StreamReassembler} (hsized : r.Sized) (hahead : r.Ahead)
    (hwithin : r.WithinLimits) (hclock : r.pendingSince = none → r.pending.entries = []) :
    r.stopClock.Invariant where
  toSized := hsized.stopClock
  ahead := by simpa [Ahead] using hahead
  within := by simpa [WithinLimits] using hwithin
  clock := by
    unfold stopClock
    split_ifs with hempty
    · simp [OrderedMap.isEmpty_iff.mp hempty]
    · exact ⟨hclock, fun hnil => absurd (OrderedMap.isEmpty_iff.mpr hnil) hempty⟩

theorem Invariant.deliver_drainPending {r : StreamReassembler} (h : r.Invariant)
    (seg : Segment) : (r.deliver seg).drainPending.Invariant :=
  invariant_stopClock ((h.toSized.deliver seg).drainLoop _) (drainLoop_ahead _ _ le_rfl)
    (WithinLimits.drainLoop (r := r.deliver seg) h.within _)
    (drainLoop_clock (r := r.deliver seg) _ h.clock.mp)

/-! ## The eviction loop -/

/-- `evictLoop` keeps the counters true and only removes pending segments. -/
structure Evicts (r r' : StreamReassembler) : Prop where
  frame : r' = { r with pending := r'.pending, pendingLen := r'.pendingLen }
  suffix : r'.pending.entries <:+ r.pending.entries
  sized : r.Sized → r'.Sized

theorem evictLoop_evicts : ∀ fuel evictedBytes (r : StreamReassembler),
    Evicts r (evictLoop fuel evictedBytes r).2 := by
  intro fuel
  induction fuel with
  | zero => intro evictedBytes r; exact ⟨rfl, List.suffix_rfl, id⟩
  | succ fuel ih =>
      intro evictedBytes r
      unfold evictLoop
      split_ifs with hover
      · split
        · exact ⟨rfl, List.suffix_rfl, id⟩
        · rename_i key removed rest hpop
          obtain ⟨hframe, hsuffix, hsized⟩ :=
            ih (evictedBytes + removed.data.length) (r.removeFirst removed rest)
          refine ⟨hframe, hsuffix.trans ?_, fun h => hsized (h.removeFirst hpop)⟩
          rw [(OrderedMap.popFirst?_spec hpop).1]
          exact List.suffix_cons _ _
      · exact ⟨rfl, List.suffix_rfl, id⟩

/-- With one unit of fuel per pending segment, `evictLoop` stops within the caps. -/
theorem evictLoop_within : ∀ fuel evictedBytes (r : StreamReassembler), r.Sized →
    r.pending.length ≤ fuel → (evictLoop fuel evictedBytes r).2.WithinLimits := by
  intro fuel
  induction fuel with
  | zero =>
      intro evictedBytes r hsized hfuel
      have hnil : r.pending.entries = [] := List.eq_nil_of_length_eq_zero (Nat.le_zero.mp hfuel)
      have hlen := hsized.pendingLen_eq
      simp only [OrderedMap.total, hnil, List.map_nil, List.sum_nil] at hlen
      refine ⟨?_, ?_⟩ <;> simp only [evictLoop] <;> omega
  | succ fuel ih =>
      intro evictedBytes r hsized hfuel
      unfold evictLoop
      split_ifs with hover
      · split
        · rename_i hpop
          have hnil := OrderedMap.popFirst?_eq_none_iff.mp hpop
          have hlen := hsized.pendingLen_eq
          simp only [OrderedMap.total, hnil, List.map_nil, List.sum_nil] at hlen
          simp only [OrderedMap.length, hnil, List.length_nil] at hover
          omega
        · rename_i key removed rest hpop
          have hlength := OrderedMap.popFirst?_length hpop
          exact ih _ _ (hsized.removeFirst hpop)
            (by simp only [StreamReassembler.removeFirst]; omega)
      · exact ⟨not_lt.mp fun h => hover (Or.inl h), not_lt.mp fun h => hover (Or.inr h)⟩

/-! ## Buffering behind a gap -/

theorem sized_store {r : StreamReassembler} {rel : ℕ} {seg : Segment} {opened : Instant}
    (hcontiguous : r.contiguousLen = r.contiguousBytes.length)
    (hpos : ∀ entry ∈ r.pending.entries, 0 < entry.2.data.length)
    (hseg : 0 < seg.data.length)
    (hlen : r.pendingLen + ((r.pending.find? rel).map fun seg => seg.data.length).getD 0 =
      r.pending.total fun seg => seg.data.length) :
    (r.store rel seg opened).Sized where
  contiguousLen_eq := hcontiguous
  pendingLen_eq := by
    have htotal := OrderedMap.total_insert (fun seg : Segment => seg.data.length) r.pending rel seg
    simp only [store]
    omega
  pending_pos := by
    intro entry hentry
    rcases OrderedMap.mem_insert.mp hentry with rfl | ⟨hentry, _⟩
    · exact hseg
    · exact hpos entry hentry

/-- Storing a segment at an offset that is free. -/
theorem Sized.store {r : StreamReassembler} (h : r.Sized) {rel : ℕ} {seg : Segment}
    (hseg : 0 < seg.data.length) (hfind : r.pending.find? rel = none) (opened : Instant) :
    (r.store rel seg opened).Sized := by
  refine sized_store h.contiguousLen_eq h.pending_pos hseg ?_
  rw [hfind]
  exact h.pendingLen_eq

/-- Storing a segment in the place of another, which is no longer counted. -/
theorem Sized.replace {r : StreamReassembler} (h : r.Sized) {rel : ℕ} {seg existing : Segment}
    (hseg : 0 < seg.data.length) (hfind : r.pending.find? rel = some existing)
    (opened : Instant) :
    (({ r with pendingLen := r.pendingLen - existing.data.length } : StreamReassembler).store
      rel seg opened).Sized := by
  have hle : existing.data.length ≤ r.pending.total fun seg => seg.data.length :=
    OrderedMap.le_total (fun seg : Segment => seg.data.length)
      (OrderedMap.find?_eq_some_iff.mp hfind)
  have hlen := h.pendingLen_eq
  refine sized_store h.contiguousLen_eq h.pending_pos hseg ?_
  simp only [hfind, Option.map_some, Option.getD_some]
  omega

theorem store_ahead {r : StreamReassembler} (h : r.Ahead) {rel : ℕ} (seg : Segment)
    (opened : Instant) (hrel : r.nextExpectedRelative < rel) : (r.store rel seg opened).Ahead := by
  intro entry hentry
  rcases OrderedMap.mem_insert.mp hentry with rfl | ⟨hentry, _⟩
  · exact hrel
  · exact h entry hentry

/-- Storing a segment leaves the clock running. -/
theorem store_pendingSince_ne_none {r : StreamReassembler}
    (h : r.pendingSince = none → r.pending.entries = []) (rel : ℕ) (seg : Segment)
    (opened : Instant) : (r.store rel seg opened).pendingSince ≠ none := by
  simp only [store]
  split_ifs with hempty
  · simp
  · exact fun hnone => hempty (OrderedMap.isEmpty_iff.mpr (h hnone))

/-- What `enforceLimits` can do to a state with a running clock: keep it, drop
everything pending, or evict the oldest segments. -/
theorem enforceLimits_invariant {r : StreamReassembler} (hsized : r.Sized) (hahead : r.Ahead)
    (hclock : r.pendingSince ≠ none) (hentries : r.pending.entries ≠ []) (checked : Instant) :
    (r.enforceLimits checked).2.Invariant := by
  unfold enforceLimits
  split_ifs with hkeep hage
  · exact ⟨hsized, hahead, ⟨hkeep.1, hkeep.2.1⟩,
      ⟨fun h => absurd h hclock, fun h => absurd h hentries⟩⟩
  · refine ⟨⟨hsized.contiguousLen_eq, rfl, by simp⟩, ?_, ⟨Nat.zero_le _, Nat.zero_le _⟩, by simp⟩
    intro entry hentry
    simp at hentry
  · obtain ⟨hframe, hsuffix, hsized'⟩ := evictLoop_evicts r.pending.length 0 r
    have hwithin := evictLoop_within r.pending.length 0 r hsized le_rfl
    refine invariant_stopClock (hsized' hsized) ?_ hwithin ?_
    · intro entry hentry
      rw [hframe]
      exact hahead entry (hsuffix.subset hentry)
    · intro hnone
      rw [hframe] at hnone
      exact absurd hnone hclock

theorem Invariant.bufferPending {r : StreamReassembler} (h : r.Invariant) {rel : ℕ}
    {seg : Segment} (hseg : 0 < seg.data.length) (hrel : r.nextExpectedRelative < rel)
    (opened checked : Instant) : (r.bufferPending rel seg opened checked).2.Invariant := by
  unfold StreamReassembler.bufferPending
  split
  · rename_i existing hfind
    split_ifs
    · exact h
    · exact enforceLimits_invariant (h.toSized.replace hseg hfind opened)
        (store_ahead h.ahead seg opened hrel)
        (store_pendingSince_ne_none h.clock.mp rel seg opened)
        (OrderedMap.insert_entries_ne_nil _ _ _) checked
  · rename_i hfind
    exact enforceLimits_invariant (h.toSized.store hseg hfind opened)
      (store_ahead h.ahead seg opened hrel)
      (store_pendingSince_ne_none h.clock.mp rel seg opened)
      (OrderedMap.insert_entries_ne_nil _ _ _) checked

/-! ## The operations keep the invariant -/

theorem invariant_withPendingLimits (limits : PendingLimits) :
    (withPendingLimits limits).Invariant where
  contiguousLen_eq := rfl
  pendingLen_eq := rfl
  pending_pos := by simp [withPendingLimits]
  ahead := by simp [Ahead, withPendingLimits]
  within := ⟨Nat.zero_le _, Nat.zero_le _⟩
  clock := by simp [withPendingLimits]

/-- The invariant does not look at the base. -/
theorem Invariant.rebase {r : StreamReassembler} (h : r.Invariant) (base : Option UInt32) :
    ({ r with baseSeq := base } : StreamReassembler).Invariant :=
  ⟨⟨h.contiguousLen_eq, h.pendingLen_eq, h.pending_pos⟩, h.ahead, h.within, h.clock⟩

theorem Invariant.setIsn {r : StreamReassembler} (h : r.Invariant) (firstByteSeq : UInt32) :
    (r.setIsn firstByteSeq).Invariant := by
  unfold StreamReassembler.setIsn
  split
  · exact h.rebase _
  · exact h

theorem Invariant.pushRelative {r : StreamReassembler} (h : r.Invariant) (packetIndex : ℕ)
    (range : ByteRange) {payload : Bytes} (hpayload : 0 < payload.length) (rel : ℕ)
    (opened checked : Instant) :
    (r.pushRelative packetIndex range payload rel opened checked).2.Invariant := by
  unfold StreamReassembler.pushRelative
  simp only
  split_ifs with hduplicate hbehind hexact
  · exact h
  · exact h.deliver_drainPending _
  · exact h.deliver_drainPending _
  · have hrel : r.nextExpectedRelative < rel := by omega
    exact h.bufferPending hpayload hrel opened checked

theorem Invariant.push {r : StreamReassembler} (h : r.Invariant) (packetIndex : ℕ)
    (seq : UInt32) (range : ByteRange) (payload : Bytes) (opened checked : Instant) :
    (r.push packetIndex seq range payload opened checked).2.Invariant := by
  unfold StreamReassembler.push
  split_ifs with hempty
  · exact h
  · have hpayload : 0 < payload.length :=
      List.length_pos_iff.mpr fun hnil => hempty (List.isEmpty_iff.mpr hnil)
    exact (h.rebase _).pushRelative packetIndex range hpayload _ opened checked

/-! ## What a push leaves alone -/

/-- The two states have the same base and the same caps. -/
def SameAnchor (r r' : StreamReassembler) : Prop :=
  r'.baseSeq = r.baseSeq ∧ r'.limits = r.limits

theorem sameAnchor_deliver_drainPending (r : StreamReassembler) (seg : Segment) :
    SameAnchor r (r.deliver seg).drainPending := by
  have hloop : SameAnchor r (drainLoop (r.deliver seg).pending.length (r.deliver seg)) :=
    drainLoop_induction (P := SameAnchor r) (fun _ _ _ _ _ _ h => h) (fun _ _ _ _ _ _ _ h => h)
      _ _ ⟨rfl, rfl⟩
  exact ⟨by simpa [drainPending] using hloop.1, by simpa [drainPending] using hloop.2⟩

theorem sameAnchor_enforceLimits (r : StreamReassembler) (checked : Instant) :
    SameAnchor r (r.enforceLimits checked).2 := by
  unfold enforceLimits
  split_ifs
  · exact ⟨rfl, rfl⟩
  · exact ⟨rfl, rfl⟩
  · have hframe := (evictLoop_evicts r.pending.length 0 r).frame
    exact ⟨by simp [congrArg baseSeq hframe], by simp [congrArg limits hframe]⟩

theorem sameAnchor_bufferPending (r : StreamReassembler) (rel : ℕ) (seg : Segment)
    (opened checked : Instant) : SameAnchor r (r.bufferPending rel seg opened checked).2 := by
  unfold StreamReassembler.bufferPending
  split
  · split_ifs
    · exact ⟨rfl, rfl⟩
    · exact sameAnchor_enforceLimits _ checked
  · exact sameAnchor_enforceLimits _ checked

theorem sameAnchor_pushRelative (r : StreamReassembler) (packetIndex : ℕ) (range : ByteRange)
    (payload : Bytes) (rel : ℕ) (opened checked : Instant) :
    SameAnchor r (r.pushRelative packetIndex range payload rel opened checked).2 := by
  unfold StreamReassembler.pushRelative
  simp only
  split_ifs
  · exact ⟨rfl, rfl⟩
  · exact sameAnchor_deliver_drainPending r _
  · exact sameAnchor_deliver_drainPending r _
  · exact sameAnchor_bufferPending r _ _ opened checked

/-- A push on an anchored reassembler changes neither its base nor its caps. -/
theorem sameAnchor_push {r : StreamReassembler} {isn : UInt32} (hbase : r.baseSeq = some isn)
    (packetIndex : ℕ) (seq : UInt32) (range : ByteRange) (payload : Bytes)
    (opened checked : Instant) :
    SameAnchor r (r.push packetIndex seq range payload opened checked).2 := by
  have hrebase : ({ r with baseSeq := some (r.baseSeq.getD seq) } : StreamReassembler) = r := by
    cases r
    simp_all
  unfold StreamReassembler.push relativeSeq
  simp only [hrebase]
  split_ifs
  · exact ⟨rfl, rfl⟩
  · exact sameAnchor_pushRelative r packetIndex range payload _ opened checked

/-- No push changes the caps. -/
theorem limits_push (r : StreamReassembler) (packetIndex : ℕ) (seq : UInt32) (range : ByteRange)
    (payload : Bytes) (opened checked : Instant) :
    (r.push packetIndex seq range payload opened checked).2.limits = r.limits := by
  unfold StreamReassembler.push relativeSeq
  simp only
  split_ifs
  · rfl
  · exact (sameAnchor_pushRelative _ packetIndex range payload _ opened checked).2

theorem limits_setIsn (r : StreamReassembler) (firstByteSeq : UInt32) :
    (r.setIsn firstByteSeq).limits = r.limits := by
  unfold StreamReassembler.setIsn
  split <;> rfl

/-! ## Consuming -/

private theorem take_min_append (front rest : Bytes) (n : ℕ) :
    front.take (min n front.length) ++ rest.take (n - min n front.length) =
      (front ++ rest).take n := by
  rw [List.take_append]
  rcases Nat.le_total n front.length with hle | hle
  · rw [Nat.min_eq_left hle, Nat.sub_self, Nat.sub_eq_zero_of_le hle]
  · rw [Nat.min_eq_right hle, List.take_of_length_le le_rfl, List.take_of_length_le hle]

theorem peekLoop_eq (segs : List Segment) (n : ℕ) :
    peekLoop segs n = (segs.flatMap Segment.data).take n := by
  induction segs generalizing n with
  | nil => simp [peekLoop]
  | cons seg rest ih =>
      unfold peekLoop
      split_ifs with hzero
      · simp [hzero]
      · simp only
        rw [ih, List.flatMap_cons, take_min_append]

/-- `peek` shows the front of the delivered bytes. -/
theorem peek_eq (r : StreamReassembler) (n : ℕ) : r.peek n = r.contiguousBytes.take n :=
  peekLoop_eq r.contiguous n

/-- The loop of `take_bytes` hands out the front of the queued bytes and leaves
the rest; it meets an empty queue only when it asks for more than there is. -/
theorem takeLoop_spec (segs : List Segment) (n : ℕ)
    (hn : n ≤ (segs.flatMap Segment.data).length) :
    ∃ pieces left, takeLoop segs n = some ((segs.flatMap Segment.data).take n, pieces, left) ∧
      left.flatMap Segment.data = (segs.flatMap Segment.data).drop n := by
  induction segs generalizing n with
  | nil =>
      have hzero : n = 0 := by simpa using hn
      subst hzero
      exact ⟨[], [], rfl, rfl⟩
  | cons seg rest ih =>
      cases n with
      | zero => exact ⟨[], seg :: rest, rfl, rfl⟩
      | succ n =>
          simp only [List.flatMap_cons, List.length_append] at hn ⊢
          unfold takeLoop
          simp only
          split_ifs with hwhole
          · obtain ⟨pieces, left, htake, hleft⟩ :=
              ih (n + 1 - min (n + 1) seg.data.length) (by omega)
            have hlong : seg.data.length ≤ n + 1 := by omega
            rw [htake, ← take_min_append]
            refine ⟨_, left, rfl, ?_⟩
            rw [hleft, hwhole, List.drop_append, List.drop_eq_nil_of_le hlong, List.nil_append]
          · have hshort : min (n + 1) seg.data.length = n + 1 := by omega
            have hle : n + 1 ≤ seg.data.length := by omega
            rw [hshort, List.take_append_of_le_length hle]
            refine ⟨_, _, rfl, ?_⟩
            rw [List.flatMap_cons, List.drop_append_of_le_length hle]
            rfl

/-- Taking what is there succeeds, returns the front and leaves the rest. -/
theorem Sized.takeBytes {r : StreamReassembler} (h : r.Sized) {n : ℕ}
    (hn : n ≤ r.contiguousLen) :
    ∃ pieces r', r.takeBytes n = some ((r.contiguousBytes.take n, pieces), r') ∧
      r'.contiguousBytes = r.contiguousBytes.drop n ∧
      r' = { r with contiguous := r'.contiguous, contiguousLen := r.contiguousLen - n } := by
  obtain ⟨pieces, left, htake, hleft⟩ := takeLoop_spec r.contiguous n (h.contiguousLen_eq ▸ hn)
  refine ⟨pieces, { r with contiguous := left, contiguousLen := r.contiguousLen - n }, ?_,
    hleft, rfl⟩
  simp only [StreamReassembler.takeBytes, if_pos hn, htake]
  rfl

/-- What a successful `takeBytes` did. -/
theorem Sized.takeBytes_cases {r r' : StreamReassembler} (h : r.Sized) {n : ℕ} {out : Bytes}
    {pieces : List SourcePiece} (htake : r.takeBytes n = some ((out, pieces), r')) :
    out = r.contiguousBytes.take n ∧ r'.contiguousBytes = r.contiguousBytes.drop n ∧
      r' = { r with contiguous := r'.contiguous, contiguousLen := r.contiguousLen - n } := by
  have hn : n ≤ r.contiguousLen := by
    by_contra hlt
    simp [StreamReassembler.takeBytes, hlt] at htake
  obtain ⟨pieces', r'', htake', hleft, hframe⟩ := h.takeBytes hn
  rw [htake'] at htake
  cases htake
  exact ⟨rfl, hleft, hframe⟩

theorem Invariant.takeBytes {r r' : StreamReassembler} (h : r.Invariant) {n : ℕ} {out : Bytes}
    {pieces : List SourcePiece} (htake : r.takeBytes n = some ((out, pieces), r')) :
    r'.Invariant := by
  obtain ⟨-, hleft, hframe⟩ := h.toSized.takeBytes_cases htake
  have hlength : r'.contiguousLen = r'.contiguousBytes.length := by
    rw [hleft, List.length_drop, ← h.contiguousLen_eq, hframe]
  rw [hframe] at hlength ⊢
  exact ⟨⟨hlength, h.pendingLen_eq, h.pending_pos⟩, h.ahead, h.within, h.clock⟩

end StreamReassembler

end Tlscap
