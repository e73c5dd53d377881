import Tlscap.Reassembly.Checked
import Tlscap.Reassembly.Disjoint

/-!
# The caps on pending data

What a push that abandons a gap leaves behind, and what it reports.  Eviction drops segments
from the front of the map until both caps hold, so that the longest end of the map that fits
survives (`evictLoop_largest`); the age limit drops everything (`push_abandons`).

Where the pushed ranges do not overlap, every byte is either before the cursor, pending or
reported (`accounted_run`).  All of this holds in every state of every run (`limits_exact`).

## Strategy

* **Only a buffered segment** can make a reassembler give up a gap
  (`pushRelative_of_gapAbandoned`).  It is stored first, so the limits are looked at with it
  among the pending ones, and it may be dropped itself.
* **The caps.**  Segments are dropped from the front, and dropping stops at the first end of
  the map that is within both caps, so no longer end is (`LargestFitting`).
* **The age limit** is looked at only where the caps hold, and leaves nothing pending.
* **The bytes.**  `Accounted` counts those of some ranges: before the cursor, pending or lost.
  A push whose range overlaps none of those before adds its length to the sum
  (`Accounted.push`).  Overlapping bytes would be held once and pushed twice, so the
  balance is stated for disjoint ranges.
-/

namespace Tlscap

namespace StreamReassembler

/-! ## What survives -/

/-- Bytes in some entries of a map. -/
def bytesIn (entries : List (ℕ × Segment)) : ℕ :=
  (entries.map fun entry => entry.2.data.length).sum

/-- Some entries are within both caps. -/
def Fits (limits : PendingLimits) (entries : List (ℕ × Segment)) : Prop :=
  bytesIn entries ≤ limits.maxBytes ∧ entries.length ≤ limits.maxPackets

/-- The longest end of `entries` that is within both caps. -/
structure LargestFitting (limits : PendingLimits) (entries survivors : List (ℕ × Segment)) :
    Prop where
  suffix : survivors <:+ entries
  fits : Fits limits survivors
  largest : ∀ other, other <:+ entries → Fits limits other → other <:+ survivors

variable {r : StreamReassembler}

theorem Sized.bytesIn_pending (h : r.Sized) : bytesIn r.pending.entries = r.pendingLen :=
  h.pendingLen_eq.symm

theorem Sized.fits_iff (h : r.Sized) : Fits r.limits r.pending.entries ↔ r.WithinLimits := by
  unfold Fits WithinLimits
  rw [h.bytesIn_pending]
  rfl

/-- Eviction keeps the longest end that fits. -/
theorem evictLoop_largest (h : r.Sized) (fuel evictedBytes : ℕ) {other : List (ℕ × Segment)}
    (hsuffix : other <:+ r.pending.entries) (hfits : Fits r.limits other) :
    other <:+ (evictLoop fuel evictedBytes r).2.pending.entries := by
  induction fuel generalizing evictedBytes r with
  | zero => exact hsuffix
  | succ fuel ih =>
      unfold evictLoop
      split_ifs with hover
      · cases hpop : r.pending.popFirst? with
        | none => exact hsuffix
        | some popped =>
            obtain ⟨⟨key, removed⟩, rest⟩ := popped
            obtain ⟨hentries, -⟩ := OrderedMap.popFirst?_spec hpop
            refine ih (h.removeFirst hpop) _ ?_ hfits
            rw [hentries] at hsuffix
            rcases List.suffix_cons_iff.mp hsuffix with rfl | hsuffix
            · -- all of it does not fit
              rw [← hentries] at hfits
              have hwithin := h.fits_iff.mp hfits
              exact absurd hover (not_or.mpr ⟨not_lt.mpr hwithin.1, not_lt.mpr hwithin.2⟩)
            · exact hsuffix
      · exact hsuffix

/-- What is left of `entries`, and reported, when a gap is given up. -/
structure Abandons (limits : PendingLimits) (entries survivors : List (ℕ × Segment))
    (expired : Bool) (bytes : ℕ) : Prop where
  reported : bytesIn survivors + bytes = bytesIn entries
  dropped : expired = true → survivors = []
  evicted : expired = false → LargestFitting limits entries survivors

theorem enforceLimits_abandons (h : r.Sized) {checked : Instant} {bytes : ℕ}
    (hgap : (r.enforceLimits checked).1 = .gapAbandoned bytes) :
    Abandons r.limits r.pending.entries (r.enforceLimits checked).2.pending.entries
      (r.ageExceeded checked) bytes := by
  unfold enforceLimits at hgap ⊢
  split_ifs at hgap ⊢ with hkeep hage
  · cases hgap
    refine ⟨?_, fun _ => rfl, fun hfresh => absurd (hage.symm.trans hfresh) (by decide)⟩
    exact (Nat.zero_add _).trans h.pendingLen_eq
  · obtain ⟨hframe, hsuffix, hsized⟩ := evictLoop_evicts r.pending.length 0 r
    have hheld := evictLoop_heldLen r.pending.length 0 h
    have hwithin := evictLoop_within r.pending.length 0 r h le_rfl
    have hcontiguous := congrArg contiguousLen hframe
    have hlimits := congrArg limits hframe
    obtain rfl := PushOutcome.gapAbandoned.inj hgap
    simp only [stopClock_pending]
    refine ⟨?_, fun hold => absurd hold hage, fun _ => ⟨hsuffix, ?_, ?_⟩⟩
    · have hkept := (hsized h).bytesIn_pending
      have hall := h.bytesIn_pending
      simp only [heldLen] at hheld hcontiguous
      omega
    · have hfits := (hsized h).fits_iff.mpr hwithin
      rwa [hlimits] at hfits
    · exact fun other hother hfits => evictLoop_largest h _ _ hother hfits

/-- Whether the gap that a buffered segment leaves open is too old. -/
def gapExpired (r : StreamReassembler) (opened checked : Instant) : Bool :=
  decide (r.limits.maxAge < elapsed (r.pendingSince.getD opened) checked)

/-- The clock of a gap starts with its first segment. -/
theorem pendingSince_store (hclock : r.pendingSince = none ↔ r.pending.entries = []) (rel : ℕ)
    (seg : Segment) (opened : Instant) :
    (r.store rel seg opened).pendingSince = some (r.pendingSince.getD opened) := by
  unfold store
  dsimp only
  cases hsince : r.pendingSince with
  | none => exact if_pos (OrderedMap.isEmpty_iff.mpr (hclock.mp hsince))
  | some since =>
      have hpending : ¬r.pending.isEmpty = true := fun hempty =>
        absurd (hclock.mpr (OrderedMap.isEmpty_iff.mp hempty)) (by simp [hsince])
      rw [if_neg hpending]
      rfl

theorem ageExceeded_eq {stored : StreamReassembler} {opened : Instant}
    (hsince : stored.pendingSince = some (r.pendingSince.getD opened))
    (hlimits : stored.limits = r.limits) (checked : Instant) :
    stored.ageExceeded checked = r.gapExpired opened checked := by
  rw [ageExceeded, hsince, gapExpired, hlimits]

theorem ageExceeded_store (hclock : r.pendingSince = none ↔ r.pending.entries = []) (rel : ℕ)
    (seg : Segment) (opened checked : Instant) :
    (r.store rel seg opened).ageExceeded checked = r.gapExpired opened checked :=
  ageExceeded_eq (pendingSince_store hclock rel seg opened) rfl checked

/-- Only a buffered segment can make a reassembler give up a gap. -/
theorem pushRelative_of_gapAbandoned {packetIndex : ℕ} {range : ByteRange} {payload : Bytes}
    {rel : ℕ} {opened checked : Instant} {bytes : ℕ}
    (hgap : (r.pushRelative packetIndex range payload rel opened checked).1 =
      .gapAbandoned bytes) :
    r.pushRelative packetIndex range payload rel opened checked =
      r.bufferPending rel ⟨packetIndex, range, payload⟩ opened checked := by
  unfold pushRelative at hgap ⊢
  dsimp only at hgap ⊢
  split_ifs at hgap ⊢
  rfl

theorem Invariant.bufferPending_abandons (h : r.Invariant) {rel : ℕ} {seg : Segment}
    (hseg : 0 < seg.data.length) {opened checked : Instant} {bytes : ℕ}
    (hgap : (r.bufferPending rel seg opened checked).1 = .gapAbandoned bytes) :
    Abandons r.limits (r.pending.insert rel seg).entries
      (r.bufferPending rel seg opened checked).2.pending.entries (r.gapExpired opened checked)
      bytes := by
  rw [← ageExceeded_store h.clock rel seg]
  unfold StreamReassembler.bufferPending at hgap ⊢
  cases hfind : r.pending.find? rel with
  | some existing =>
      simp only [hfind] at hgap ⊢
      split_ifs at hgap ⊢
      exact enforceLimits_abandons (h.toSized.replace hseg hfind opened) hgap
  | none =>
      simp only [hfind] at hgap ⊢
      exact enforceLimits_abandons (h.toSized.store hseg hfind opened) hgap

/-- A push that abandons a gap stores its segment first. -/
theorem push_abandons (h : r.Invariant) {packetIndex : ℕ} {seq : UInt32} {range : ByteRange}
    {payload : Bytes} {opened checked : Instant} {bytes : ℕ}
    (hgap : (r.push packetIndex seq range payload opened checked).1 = .gapAbandoned bytes) :
    Abandons r.limits
      (r.pending.insert (r.relativeSeq seq).1 ⟨packetIndex, range, payload⟩).entries
      (r.push packetIndex seq range payload opened checked).2.pending.entries
      (r.gapExpired opened checked) bytes := by
  have hpayload : payload ≠ [] := by
    rintro rfl
    cases hgap
  rw [push_of_ne_nil r packetIndex seq range hpayload] at hgap ⊢
  have hanchored : (r.relativeSeq seq).2.Invariant := h.rebase _
  have hbuffered := pushRelative_of_gapAbandoned hgap
  rw [hbuffered] at hgap ⊢
  exact hanchored.bufferPending_abandons (List.length_pos_iff.mpr hpayload) hgap

/-! ## Ranges that do not overlap -/

/-- The offsets a call pushes: where they start and how many they are. -/
def pushedRange (r : StreamReassembler) : Operation → List (ℕ × ℕ)
  | .push _ seq _ payload _ _ =>
      if payload = [] then [] else [((r.relativeSeq seq).1, payload.length)]
  | _ => []

/-- The bytes a reply reports as lost. -/
def Reply.abandonedBytes : Reply → ℕ
  | .pushed outcome => outcome.abandonedBytes
  | _ => 0

/-- No offset belongs to both ranges. -/
def RangesDisjoint (range other : ℕ × ℕ) : Prop :=
  ∀ position, ¬(range.1 ≤ position ∧ position < range.1 + range.2 ∧
    other.1 ≤ position ∧ position < other.1 + other.2)

/-- The bytes of ranges that do not overlap are before the cursor, pending or lost. -/
structure Accounted (ranges : List (ℕ × ℕ)) (abandoned : ℕ) (r : StreamReassembler) : Prop where
  invariant : r.Invariant
  apart : r.Apart
  covered : ∀ position, r.Holds position → Coverage.Covered ranges position
  balance : r.nextExpectedRelative + r.pendingLen + abandoned = (ranges.map Prod.snd).sum

/-- The bytes that were delivered and taken by now. -/
def SameTaken (r r' : StreamReassembler) : Prop :=
  r'.nextExpectedRelative + r.contiguousLen = r.nextExpectedRelative + r'.contiguousLen

theorem sameTaken_deliver_drainPending (r : StreamReassembler) (seg : Segment) :
    SameTaken r (r.deliver seg).drainPending := by
  have hloop : SameTaken r (drainLoop (r.deliver seg).pending.length (r.deliver seg)) := by
    refine drainLoop_induction (P := SameTaken r) (fun _ _ _ _ _ _ h => h) ?_ _ _ ?_
    · intro r' key seg rest _ _ _ h
      unfold SameTaken at h ⊢
      simp only [deliver, removeFirst]
      omega
    · unfold SameTaken
      simp only [deliver]
      omega
  unfold SameTaken at hloop ⊢
  simpa [drainPending] using hloop

theorem sameTaken_enforceLimits (r : StreamReassembler) (checked : Instant) :
    SameTaken r (r.enforceLimits checked).2 := by
  unfold enforceLimits SameTaken
  split_ifs
  · rfl
  · rfl
  · have hframe := (evictLoop_evicts r.pending.length 0 r).frame
    have hnext := congrArg nextExpectedRelative hframe
    have hcontiguous := congrArg contiguousLen hframe
    simp only [stopClock_nextExpectedRelative, stopClock_contiguousLen]
    rw [hnext, hcontiguous]

/-- A push takes nothing. -/
theorem sameTaken_push (r : StreamReassembler) (packetIndex : ℕ) (seq : UInt32)
    (range : ByteRange) (payload : Bytes) (opened checked : Instant) :
    SameTaken r (r.push packetIndex seq range payload opened checked).2 := by
  have hbuffer : ∀ (r : StreamReassembler) rel seg,
      SameTaken r (r.bufferPending rel seg opened checked).2 := by
    intro r rel seg
    unfold bufferPending
    cases r.pending.find? rel with
    | some existing =>
        dsimp only
        split_ifs
        · rfl
        · exact sameTaken_enforceLimits (({ r with
            pendingLen := r.pendingLen - existing.data.length } : StreamReassembler).store rel seg
              opened) checked
    | none => exact sameTaken_enforceLimits (r.store rel seg opened) checked
  unfold push
  split_ifs
  · rfl
  · change SameTaken (r.relativeSeq seq).2 _
    unfold pushRelative
    dsimp only
    split_ifs
    · rfl
    · exact sameTaken_deliver_drainPending _ _
    · exact sameTaken_deliver_drainPending _ _
    · exact hbuffer _ _ _

variable {ranges : List (ℕ × ℕ)} {abandoned : ℕ}

/-- One more range, which overlaps none of those before. -/
theorem Accounted.push (h : Accounted ranges abandoned r) (packetIndex : ℕ) {seq : UInt32}
    (range : ByteRange) {payload : Bytes} (hpayload : payload ≠ [])
    (hdisjoint : ∀ other ∈ ranges,
      RangesDisjoint other ((r.relativeSeq seq).1, payload.length)) (opened checked : Instant) :
    Accounted (ranges ++ [((r.relativeSeq seq).1, payload.length)])
      (abandoned + (r.push packetIndex seq range payload opened checked).1.abandonedBytes)
      (r.push packetIndex seq range payload opened checked).2 := by
  have hfree : ∀ i < payload.length, ¬ r.Holds ((r.relativeSeq seq).1 + i) := by
    intro i hi hholds
    obtain ⟨other, hother, hfrom, hto⟩ := h.covered _ hholds
    exact hdisjoint other hother _ ⟨hfrom, hto, by omega, by simp only; omega⟩
  have htakes := push_takes packetIndex range opened checked h.invariant h.apart hpayload hfree
  have htaken := sameTaken_push r packetIndex seq range payload opened checked
  refine ⟨h.invariant.push _ _ _ _ _ _, htakes.apart, ?_, ?_⟩
  · intro position hposition
    rw [Coverage.covered_append_singleton]
    exact (htakes.holds position hposition).imp_left (h.covered position)
  · have hheld := htakes.held
    have hbalance := h.balance
    unfold SameTaken at htaken
    simp only [heldLen] at hheld
    simp only [List.map_append, List.map_singleton, List.sum_append, List.sum_singleton]
    omega

/-- What is neither pushed nor lost stays accounted for. -/
theorem Accounted.frame (h : Accounted ranges abandoned r) {r' : StreamReassembler}
    (hinvariant : r'.Invariant) (hnext : r'.nextExpectedRelative = r.nextExpectedRelative)
    (hpending : r'.pending = r.pending) (hlen : r'.pendingLen = r.pendingLen) :
    Accounted (ranges ++ []) (abandoned + 0) r' := by
  rw [List.append_nil, Nat.add_zero]
  refine ⟨hinvariant, h.apart.of_subset hnext (by rw [hpending]; exact List.Subset.refl _), ?_, ?_⟩
  · intro position hposition
    exact h.covered position (hposition.of_subset hnext (by
      rw [hpending]
      exact List.Subset.refl _))
  · rw [hnext, hlen]
    exact h.balance

theorem Accounted.perform (h : Accounted ranges abandoned r) (operation : Operation)
    (hdisjoint : ∀ other ∈ ranges, ∀ range ∈ r.pushedRange operation,
      RangesDisjoint other range) :
    Accounted (ranges ++ r.pushedRange operation)
      (abandoned + (r.perform operation).2.abandonedBytes) (r.perform operation).1 := by
  have hinvariant := h.invariant.perform operation
  cases operation with
  | setIsn firstByteSeq =>
      refine h.frame hinvariant ?_ ?_ ?_
      all_goals
        simp only [StreamReassembler.perform, StreamReassembler.setIsn]
        split <;> rfl
  | push packetIndex seq range payload opened checked =>
      -- an empty payload is no range, and changes nothing
      by_cases hpayload : payload = []
      · subst hpayload
        exact h.frame hinvariant rfl rfl rfl
      · have hpushed : r.pushedRange (.push packetIndex seq range payload opened checked) =
            [((r.relativeSeq seq).1, payload.length)] := if_neg hpayload
        rw [hpushed] at hdisjoint ⊢
        exact h.push packetIndex range hpayload
          (fun other hother => hdisjoint other hother _ (List.mem_singleton_self _)) opened checked
  | takeBytes n =>
      cases htake : r.takeBytes n with
      | none =>
          have hperform : r.perform (.takeBytes n) = (r, .panicked) := by
            simp only [StreamReassembler.perform, htake]
          rw [hperform] at hinvariant ⊢
          exact h.frame hinvariant rfl rfl rfl
      | some taken =>
          obtain ⟨⟨out, pieces⟩, r'⟩ := taken
          have hperform : r.perform (.takeBytes n) = (r', .taken out pieces) := by
            simp only [StreamReassembler.perform, htake]
          obtain ⟨-, -, hframe⟩ := h.invariant.takeBytes_cases htake
          rw [hperform] at hinvariant ⊢
          refine h.frame hinvariant ?_ ?_ ?_ <;> rw [hframe]

/-- The ranges pushed in a run. -/
def pushedRanges (r : StreamReassembler) (operations : List Operation) : List (ℕ × ℕ) :=
  Machine.collect perform pushedRange r operations

/-- The bytes the replies of a run report as lost. -/
def abandonedTotal (replies : List Reply) : ℕ := (replies.map Reply.abandonedBytes).sum

theorem accounted_withPendingLimits (limits : PendingLimits) :
    Accounted [] 0 (withPendingLimits limits) := by
  refine ⟨invariant_withPendingLimits limits, ⟨?_, ?_⟩, ?_, rfl⟩
  · simp [withPendingLimits]
  · simp [withPendingLimits]
  · simp [withPendingLimits, Holds]

/-- **Nothing gets lost unreported** in a run whose pushes do not overlap. -/
theorem accounted_run (limits : PendingLimits) (operations : List Operation)
    (hdisjoint : (pushedRanges (withPendingLimits limits) operations).Pairwise RangesDisjoint) :
    Accounted (pushedRanges (withPendingLimits limits) operations)
      (abandonedTotal (Machine.run perform (withPendingLimits limits) operations).2)
      (Machine.run perform (withPendingLimits limits) operations).1 := by
  induction operations using List.reverseRecOn with
  | nil => exact accounted_withPendingLimits limits
  | append_singleton operations operation ih =>
      rw [pushedRanges, Machine.collect_concat] at hdisjoint ⊢
      obtain ⟨hbefore, -, hacross⟩ := List.pairwise_append.mp hdisjoint
      have hstep := (ih hbefore).perform operation fun other hother range hrange =>
        hacross other hother range hrange
      rw [Machine.run_append, abandonedTotal, List.map_append, List.sum_append]
      exact hstep

/-! ## Every reachable state -/

/-- The counters are the sums they stand for, and the clock runs while data is pending. -/
structure Counted (r : StreamReassembler) : Prop where
  contiguous : r.contiguousLen = (r.contiguous.map fun seg => seg.data.length).sum
  pending : r.pendingLen = bytesIn r.pending.entries
  clock : r.pendingSince = none ↔ r.pending.entries = []

theorem Invariant.counted (h : r.Invariant) : r.Counted where
  contiguous := h.contiguousLen_eq.trans List.length_flatMap
  pending := h.pendingLen_eq
  clock := h.clock

/-- What a push does under the caps: no counter fails, the caps hold after it, and a gap
is given up as `Abandons` says. -/
structure PushesWithin (limits : PendingLimits) (r : StreamReassembler) (packetIndex : ℕ)
    (seq : UInt32) (range : ByteRange) (payload : Bytes) (opened checked : Instant) : Prop where
  counters : r.pushChecked packetIndex seq range payload opened checked =
    some (r.push packetIndex seq range payload opened checked)
  maxBytes : (r.push packetIndex seq range payload opened checked).2.pendingLen ≤ limits.maxBytes
  maxPackets : (r.push packetIndex seq range payload opened checked).2.pending.length ≤
    limits.maxPackets
  abandons : ∀ bytes,
    (r.push packetIndex seq range payload opened checked).1 = .gapAbandoned bytes →
      Abandons limits
        (r.pending.insert (r.relativeSeq seq).1 ⟨packetIndex, range, payload⟩).entries
        (r.push packetIndex seq range payload opened checked).2.pending.entries
        (r.gapExpired opened checked) bytes

theorem Invariant.pushesWithin (h : r.Invariant) (packetIndex : ℕ) (seq : UInt32)
    (range : ByteRange) (payload : Bytes) (opened checked : Instant) :
    PushesWithin r.limits r packetIndex seq range payload opened checked := by
  have hwithin := (h.push packetIndex seq range payload opened checked).within
  unfold WithinLimits at hwithin
  rw [limits_push] at hwithin
  exact ⟨h.toSized.pushChecked _ _ _ _ _ _, hwithin.1, hwithin.2, fun _ => push_abandons h⟩

/-- In every state of every run the counters are right, every push keeps to the caps and
reports what it drops, and `take_bytes` finds what was counted; over a run whose pushes do
not overlap, the bytes pushed are before the cursor, pending or reported. -/
theorem limits_exact (limits : PendingLimits) (operations : List Operation) :
    let run := Machine.run perform (withPendingLimits limits) operations
    let ranges := pushedRanges (withPendingLimits limits) operations
    Counted run.1 ∧
      (∀ packetIndex seq range payload opened checked,
        PushesWithin limits run.1 packetIndex seq range payload opened checked) ∧
      (∀ n ≤ run.1.contiguousLen,
        run.1.takeBytesChecked n = run.1.takeBytes n ∧ (run.1.takeBytes n).isSome) ∧
      (ranges.Pairwise RangesDisjoint →
        (ranges.map Prod.snd).sum =
          run.1.nextExpectedRelative + run.1.pendingLen + abandonedTotal run.2) := by
  intro run ranges
  have hinvariant : run.1.Invariant := invariant_run limits operations
  refine ⟨hinvariant.counted, ?_, fun n hn => hinvariant.toSized.takeBytesChecked hn,
    fun hdisjoint => (accounted_run limits operations hdisjoint).balance.symm⟩
  intro packetIndex seq range payload opened checked
  have hpushes := hinvariant.pushesWithin packetIndex seq range payload opened checked
  rwa [limits_run] at hpushes

/-- One segment is pending and one may be: the next one evicts it. -/
theorem limits_exact_eviction :
    let limits : PendingLimits := ⟨100, 1, 1000⟩
    let r := (Machine.run perform (withPendingLimits limits)
      [.setIsn 0, .push 0 10 ⟨0, 2⟩ [1, 2] 0 0]).1
    Abandons limits (r.pending.insert 20 ⟨1, ⟨0, 1⟩, [3]⟩).entries
      (r.push 1 20 ⟨0, 1⟩ [3] 5 5).2.pending.entries false 2 := by
  exact ((limits_exact ⟨100, 1, 1000⟩
    [.setIsn 0, .push 0 10 ⟨0, 2⟩ [1, 2] 0 0]).2.1 1 20 ⟨0, 1⟩ [3] 5 5).abandons 2 (by decide)

end StreamReassembler

end Tlscap
