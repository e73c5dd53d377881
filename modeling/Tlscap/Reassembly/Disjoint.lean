import Tlscap.Reassembly.Lossless

/-!
# Segments that do not overlap

Where no two segments of a direction overlap, a push discards nothing as a duplicate and trims
nothing: what the reassembler holds grows by the payload, less the bytes the push reports as
abandoned (`push_takes`).

The bytes a reassembler holds may be dropped with it.  `push_empties_iff` says when a push
that abandons a gap leaves nothing behind, and `push_settles_iff` when one that abandons
nothing leaves nothing out of order.

## Strategy

`Apart` says of a state that no two pending segments overlap, and none overlaps what was
delivered.  A push goes through three loops, and each is taken by itself:

* **Draining** delivers a pending segment that starts at the cursor; where segments lie apart
  none starts before it, so bytes move and none is lost (`Apart.drainLoop`).  Nothing is left
  pending exactly if the segments follow one another from the cursor on (`Chained`).
* **Evicting** drops segments from the front and counts what it drops (`evictLoop_heldLen`).
  It goes on to the end exactly if the last segment exceeds the caps all by itself
  (`LastExceeds`), as it stops as soon as what is left is within them.
* **Buffering** stores the payload at an offset that is free, and enforces the limits then
  (`enforceLimits_takes`).

For a run the segments are given by their sequence numbers (`Fed`).  Offsets are recovered
from these as long as no sequence number belongs to two segments, so one more segment that
overlaps none of those fed before keeps it (`Fed.push`).
-/

namespace Tlscap

/-- The bytes a push reports as lost. -/
def PushOutcome.abandonedBytes : PushOutcome → ℕ
  | .gapAbandoned bytes => bytes
  | _ => 0

namespace StreamReassembler

/-- The bytes a reassembler holds. -/
def heldLen (r : StreamReassembler) : ℕ := r.contiguousLen + r.pendingLen

/-- No two pending segments overlap, and none overlaps what was delivered. -/
structure Apart (r : StreamReassembler) : Prop where
  ahead : ∀ entry ∈ r.pending.entries, r.nextExpectedRelative ≤ entry.1
  apart : ∀ entry ∈ r.pending.entries, ∀ other ∈ r.pending.entries,
    entry.1 < other.1 → entry.1 + entry.2.data.length ≤ other.1

/-- The segments follow one another without a gap. -/
def Chained : ℕ → List (ℕ × Segment) → Prop
  | _, [] => True
  | next, (key, seg) :: rest => key = next ∧ Chained (next + seg.data.length) rest

instance decidableChained : ∀ next entries, Decidable (Chained next entries)
  | _, [] => .isTrue trivial
  | next, (_, seg) :: rest =>
      have := decidableChained (next + seg.data.length) rest
      inferInstanceAs (Decidable (_ ∧ _))

/-- The last pending segment exceeds the caps all by itself. -/
def LastExceeds (r : StreamReassembler) : Prop :=
  ∀ last ∈ r.pending.entries.getLast?,
    r.limits.maxPackets = 0 ∨ r.limits.maxBytes < last.2.data.length

instance (r : StreamReassembler) : Decidable r.LastExceeds :=
  match h : r.pending.entries.getLast? with
  | none => .isTrue (by rw [LastExceeds, h]; exact nofun)
  | some last =>
      decidable_of_iff (r.limits.maxPackets = 0 ∨ r.limits.maxBytes < last.2.data.length)
        (by rw [LastExceeds, h]; exact ⟨fun hlast other hother => by cases hother; exact hlast,
          fun hall => hall last rfl⟩)

/-! ## Draining -/

/-- Fewer pending segments behind the same cursor lie apart, too. -/
theorem Apart.of_subset {r r' : StreamReassembler} (h : r.Apart)
    (hnext : r'.nextExpectedRelative = r.nextExpectedRelative)
    (hsubset : r'.pending.entries ⊆ r.pending.entries) : r'.Apart where
  ahead := fun entry hentry => hnext ▸ h.ahead entry (hsubset hentry)
  apart := fun entry hentry other hother =>
    h.apart entry (hsubset hentry) other (hsubset hother)

theorem Apart.removeFirst {r : StreamReassembler} (h : r.Apart) {key : ℕ} {seg : Segment}
    {rest : OrderedMap ℕ Segment} (hpop : r.pending.popFirst? = some ((key, seg), rest)) :
    (r.removeFirst seg rest).Apart := by
  refine h.of_subset rfl ?_
  rw [(OrderedMap.popFirst?_spec hpop).1]
  exact List.subset_cons_self _ _

/-- Delivering the first pending segment, where it starts at the cursor. -/
theorem Apart.deliver_removeFirst {r : StreamReassembler} (h : r.Apart) {seg : Segment}
    {rest : OrderedMap ℕ Segment}
    (hpop : r.pending.popFirst? = some ((r.nextExpectedRelative, seg), rest)) :
    ((r.removeFirst seg rest).deliver seg).Apart := by
  obtain ⟨hentries, hkeys⟩ := OrderedMap.popFirst?_spec hpop
  refine ⟨?_, (h.removeFirst hpop).apart⟩
  intro entry hentry
  exact h.apart _ (hentries ▸ List.mem_cons_self) entry
    (hentries ▸ List.mem_cons_of_mem _ hentry) (hkeys entry hentry)

theorem heldLen_deliver_removeFirst {r : StreamReassembler} (h : r.Sized) {key : ℕ}
    {seg : Segment} {rest : OrderedMap ℕ Segment}
    (hpop : r.pending.popFirst? = some ((key, seg), rest)) :
    ((r.removeFirst seg rest).deliver seg).heldLen = r.heldLen := by
  have htotal := OrderedMap.popFirst?_total (fun seg : Segment => seg.data.length) hpop
  have hlen := h.pendingLen_eq
  simp only at htotal
  simp only [heldLen, deliver, StreamReassembler.removeFirst]
  omega

/-- Draining segments that lie apart moves bytes and loses none. -/
theorem Apart.drainLoop {r : StreamReassembler} (h : r.Apart) (hsized : r.Sized) (fuel : ℕ) :
    (drainLoop fuel r).Apart ∧ (drainLoop fuel r).heldLen = r.heldLen := by
  have hkept : (StreamReassembler.drainLoop fuel r).Sized ∧
      (StreamReassembler.drainLoop fuel r).Apart ∧
        (StreamReassembler.drainLoop fuel r).heldLen = r.heldLen := by
    refine drainLoop_induction (P := fun r' => r'.Sized ∧ r'.Apart ∧ r'.heldLen = r.heldLen)
      ?_ ?_ fuel r ⟨hsized, h, rfl⟩
    · -- no segment was overtaken
      rintro r' key seg rest hpop hend ⟨hsized, hapart, -⟩
      have hmem := OrderedMap.popFirst?_mem hpop
      have hpos := hsized.pending_pos _ hmem
      have hahead := hapart.ahead _ hmem
      simp only at hpos hahead
      omega
    · rintro r' key seg rest hpop hkey - ⟨hsized, hapart, hheld⟩
      have hmem := OrderedMap.popFirst?_mem hpop
      obtain rfl : key = r'.nextExpectedRelative := le_antisymm hkey (hapart.ahead _ hmem)
      rw [Nat.sub_self, Segment.trimmed_zero]
      exact ⟨(hsized.removeFirst hpop).deliver seg, hapart.deliver_removeFirst hpop,
        (heldLen_deliver_removeFirst hsized hpop).trans hheld⟩
  exact hkept.2

/-- Draining leaves nothing pending where the segments follow one another from the
cursor on, and delivers them then. -/
theorem Apart.drainLoop_empties {r : StreamReassembler} (h : r.Apart) (hsized : r.Sized)
    {fuel : ℕ} (hfuel : r.pending.length ≤ fuel) :
    ((StreamReassembler.drainLoop fuel r).pending.entries = [] ↔
        Chained r.nextExpectedRelative r.pending.entries) ∧
      (Chained r.nextExpectedRelative r.pending.entries →
        (StreamReassembler.drainLoop fuel r).contiguousBytes =
          r.contiguousBytes ++ r.pending.entries.flatMap fun entry => entry.2.data) := by
  induction fuel generalizing r with
  | zero =>
      have hnil : r.pending.entries = [] := List.eq_nil_of_length_eq_zero (Nat.le_zero.mp hfuel)
      simp [StreamReassembler.drainLoop, hnil, Chained]
  | succ fuel ih =>
      unfold StreamReassembler.drainLoop
      split
      · rename_i hpop
        simp [OrderedMap.popFirst?_eq_none_iff.mp hpop, Chained]
      · rename_i key seg rest hpop
        obtain ⟨hentries, -⟩ := OrderedMap.popFirst?_spec hpop
        have hlength := OrderedMap.popFirst?_length hpop
        have hahead : r.nextExpectedRelative ≤ key :=
          h.ahead (key, seg) (by rw [hentries]; exact List.mem_cons_self)
        rw [if_neg (not_lt.mpr hahead)]
        by_cases hkey : key = r.nextExpectedRelative
        · -- the segment is delivered, and the others follow it
          subst hkey
          obtain ⟨hempty, hbytes⟩ := ih (h.deliver_removeFirst hpop)
            ((hsized.removeFirst hpop).deliver seg) (by
              change rest.length ≤ fuel
              omega)
          rw [if_neg (not_not.mpr rfl), hentries]
          refine ⟨hempty.trans (and_iff_right rfl).symm, ?_⟩
          · rintro ⟨-, hchained⟩
            rw [hbytes hchained, contiguousBytes_deliver, List.flatMap_cons, List.append_assoc]
            rfl
        · -- a gap is left in front of it
          rw [if_pos hkey, hentries]
          refine ⟨iff_of_false (List.cons_ne_nil _ _) fun hchained => hkey hchained.1, ?_⟩
          exact fun hchained => absurd hchained.1 hkey

/-- A segment delivered at the cursor, where no pending segment overlaps it. -/
theorem Apart.deliver {r : StreamReassembler} (h : r.Apart) (hahead : r.Ahead)
    (hsized : r.Sized) {seg : Segment}
    (hfree : ∀ i < seg.data.length, ¬ r.Holds (r.nextExpectedRelative + i)) :
    (r.deliver seg).Apart := by
  refine ⟨?_, h.apart⟩
  intro entry hentry
  have hbehind := hahead entry hentry
  have hpos := hsized.pending_pos entry hentry
  change r.nextExpectedRelative + seg.data.length ≤ entry.1
  by_contra hinside
  apply hfree (entry.1 - r.nextExpectedRelative) (by omega)
  exact Or.inr ⟨entry, hentry, by omega, by omega⟩

/-! ## Evicting -/

/-- What the eviction loop drops, it counts. -/
theorem evictLoop_heldLen (fuel evictedBytes : ℕ) {r : StreamReassembler} (hsized : r.Sized) :
    (evictLoop fuel evictedBytes r).2.heldLen + (evictLoop fuel evictedBytes r).1 =
      r.heldLen + evictedBytes := by
  induction fuel generalizing evictedBytes r with
  | zero => rfl
  | succ fuel ih =>
      unfold evictLoop
      split
      · split
        · rfl
        · rename_i key removed rest hpop
          have htotal := OrderedMap.popFirst?_total (fun seg : Segment => seg.data.length) hpop
          have hlen := hsized.pendingLen_eq
          simp only at htotal
          rw [ih _ (hsized.removeFirst hpop)]
          simp only [heldLen, StreamReassembler.removeFirst]
          omega
      · rfl

/-- The eviction loop drops everything where the last segment alone exceeds the caps. -/
theorem evictLoop_empties (fuel evictedBytes : ℕ) {r : StreamReassembler} (hsized : r.Sized)
    (hfuel : r.pending.length ≤ fuel) :
    (evictLoop fuel evictedBytes r).2.pending.entries = [] ↔ r.LastExceeds := by
  induction fuel generalizing evictedBytes r with
  | zero =>
      have hnil : r.pending.entries = [] := List.eq_nil_of_length_eq_zero (Nat.le_zero.mp hfuel)
      simp [evictLoop, LastExceeds, hnil]
  | succ fuel ih =>
      unfold evictLoop
      split
      · rename_i hover
        split
        · rename_i hpop
          simp [LastExceeds, OrderedMap.popFirst?_eq_none_iff.mp hpop]
        · rename_i key removed rest hpop
          obtain ⟨hentries, -⟩ := OrderedMap.popFirst?_spec hpop
          have hlength := OrderedMap.popFirst?_length hpop
          rw [ih _ (hsized.removeFirst hpop) (by change rest.length ≤ fuel; omega)]
          unfold LastExceeds
          rw [hentries]
          change (∀ last ∈ rest.entries.getLast?, _) ↔ _
          cases hrest : rest.entries with
          | nil =>
              -- the last segment was evicted, so it exceeded the caps
              have hlen := hsized.pendingLen_eq
              simp only [OrderedMap.total, hentries, hrest, List.map_cons, List.map_nil,
                List.sum_cons, List.sum_nil, Nat.add_zero] at hlen
              simp only [OrderedMap.length, hentries, hrest, List.length_cons,
                List.length_nil] at hover
              refine iff_of_true (by simp) ?_
              intro last hlast
              obtain rfl : (key, removed) = last := by simpa using hlast
              simp only
              omega
          | cons entry others =>
              rw [List.getLast?_cons_cons]
              rfl
      · rename_i hfits
        obtain ⟨hbytes, hpackets⟩ := not_or.mp hfits
        rcases List.eq_nil_or_concat r.pending.entries with hnil | ⟨front, last, hlast⟩
        · simp [LastExceeds, hnil]
        · -- the last segment fits with the others, so it fits alone
          have hmem : last ∈ r.pending.entries := by
            rw [hlast]
            simp
          have hle := OrderedMap.le_total (fun seg : Segment => seg.data.length) hmem
          have hlen := hsized.pendingLen_eq
          have hlength : r.pending.length = front.length + 1 := by
            rw [OrderedMap.length, hlast, List.concat_eq_append, List.length_append]
            rfl
          refine iff_of_false (by rw [hlast]; simp) ?_
          intro hexceeds
          have := hexceeds last (by rw [hlast]; simp)
          omega

@[simp] theorem heldLen_stopClock (r : StreamReassembler) : r.stopClock.heldLen = r.heldLen := by
  simp [heldLen]

theorem Apart.stopClock {r : StreamReassembler} (h : r.Apart) : r.stopClock.Apart :=
  h.of_subset (stopClock_nextExpectedRelative r) (by
    rw [stopClock_pending]
    exact List.Subset.refl _)

theorem Holds.of_subset {r r' : StreamReassembler} {position : ℕ} (h : r'.Holds position)
    (hnext : r'.nextExpectedRelative = r.nextExpectedRelative)
    (hsubset : r'.pending.entries ⊆ r.pending.entries) : r.Holds position := by
  rcases h with hlt | ⟨entry, hentry, hposition⟩
  · exact .inl (hnext ▸ hlt)
  · exact .inr ⟨entry, hsubset hentry, hposition⟩

/-! ## Buffering behind a gap -/

/-- What a step makes of a reassembler when it reports `outcome` and `length` bytes from
`offset` on come in. -/
structure Takes (r : StreamReassembler) (offset length : ℕ)
    (after : PushOutcome × StreamReassembler) : Prop where
  held : after.2.heldLen + after.1.abandonedBytes = r.heldLen + length
  apart : after.2.Apart
  holds : ∀ position, after.2.Holds position →
    r.Holds position ∨ offset ≤ position ∧ position < offset + length

/-- The caps drop pending segments, and what they drop is reported. -/
theorem enforceLimits_takes {r : StreamReassembler} (hsized : r.Sized) (hapart : r.Apart)
    (checked : Instant) : r.Takes 0 0 (r.enforceLimits checked) := by
  unfold enforceLimits
  split_ifs with hkeep hage
  · exact ⟨rfl, hapart, fun _ => .inl⟩
  · refine ⟨?_, ?_, ?_⟩
    · simp only [heldLen, PushOutcome.abandonedBytes]
      omega
    · exact hapart.of_subset rfl (List.nil_subset _)
    · exact fun position h => .inl (h.of_subset rfl (List.nil_subset _))
  · obtain ⟨hframe, hsuffix, -⟩ := evictLoop_evicts r.pending.length 0 r
    have hnext := congrArg StreamReassembler.nextExpectedRelative hframe
    refine ⟨?_, ?_, ?_⟩
    · simp only [heldLen_stopClock, PushOutcome.abandonedBytes]
      exact evictLoop_heldLen _ 0 hsized
    · exact (hapart.of_subset hnext hsuffix.subset).stopClock
    · intro position h
      rw [holds_stopClock] at h
      exact .inl (h.of_subset hnext hsuffix.subset)

/-- When the caps leave nothing pending. -/
theorem enforceLimits_empties {r : StreamReassembler} (hsized : r.Sized) {checked : Instant}
    (hgap : (r.enforceLimits checked).1.isGapAbandoned = true) :
    (r.enforceLimits checked).2.contiguousLen = r.contiguousLen ∧
      ((r.enforceLimits checked).2.pendingLen = 0 ↔
        r.ageExceeded checked = true ∨ r.LastExceeds) := by
  unfold enforceLimits at hgap ⊢
  split_ifs at hgap ⊢ with hkeep hage
  · cases hgap
  · exact ⟨rfl, iff_of_true rfl (.inl hage)⟩
  · obtain ⟨hframe, -, hsized'⟩ := evictLoop_evicts r.pending.length 0 r
    have hcounted := (hsized' hsized).pendingLen_eq
    simp only [stopClock_contiguousLen, stopClock_pendingLen]
    have hcontiguous := congrArg StreamReassembler.contiguousLen hframe
    refine ⟨hcontiguous, ?_⟩
    rw [or_iff_right hage, ← evictLoop_empties _ 0 hsized le_rfl]
    constructor
    · intro hzero
      rw [(hsized' hsized).pending_eq_empty hzero]
      rfl
    · intro hnil
      rw [hcounted, OrderedMap.total, hnil]
      rfl

theorem find?_eq_none_of_free {r : StreamReassembler} (hsized : r.Sized) {rel : ℕ}
    (hfree : ¬ r.Holds rel) : r.pending.find? rel = none := by
  rcases hfind : r.pending.find? rel with _ | existing
  · rfl
  · have hmem := OrderedMap.find?_eq_some_iff.mp hfind
    have hpos := hsized.pending_pos _ hmem
    exact absurd (Or.inr ⟨_, hmem, le_rfl, Nat.lt_add_of_pos_right hpos⟩) hfree

/-- A segment stored where nothing overlaps it. -/
theorem apart_store {r : StreamReassembler} (h : r.Apart) (hsized : r.Sized) {rel : ℕ}
    {seg : Segment} (opened : Instant) (hrel : r.nextExpectedRelative ≤ rel)
    (hfree : ∀ i < seg.data.length, ¬ r.Holds (rel + i)) (hseg : 0 < seg.data.length) :
    (r.store rel seg opened).Apart := by
  refine ⟨?_, ?_⟩
  · intro entry hentry
    rcases OrderedMap.mem_insert.mp hentry with rfl | ⟨hentry, -⟩
    · exact hrel
    · exact h.ahead entry hentry
  · intro entry hentry other hother hlt
    rcases OrderedMap.mem_insert.mp hentry with rfl | ⟨hentry, -⟩
    · rcases OrderedMap.mem_insert.mp hother with rfl | ⟨hother, -⟩
      · exact absurd hlt (lt_irrefl _)
      · -- the other one starts inside the new one otherwise
        have hpos := hsized.pending_pos other hother
        by_contra hinside
        simp only at hlt hinside
        exact hfree (other.1 - rel) (by omega) (.inr ⟨other, hother, by omega, by omega⟩)
    · rcases OrderedMap.mem_insert.mp hother with rfl | ⟨hother, -⟩
      · -- the new one starts inside this one otherwise
        by_contra hinside
        simp only at hlt hinside
        exact hfree 0 hseg (.inr ⟨entry, hentry, by omega, by omega⟩)
      · exact h.apart entry hentry other hother hlt

/-! ## One push -/

/-- A payload that overlaps nothing is taken in whole, or what is lost is reported. -/
theorem pushRelative_takes {r : StreamReassembler} (h : r.Invariant) (hapart : r.Apart)
    (packetIndex : ℕ) (range : ByteRange) {payload : Bytes} (hpayload : 0 < payload.length)
    {rel : ℕ} (hfree : ∀ i < payload.length, ¬ r.Holds (rel + i)) (opened checked : Instant) :
    r.Takes rel payload.length
      (r.pushRelative packetIndex range payload rel opened checked) := by
  have hrel : r.nextExpectedRelative ≤ rel := by
    by_contra hlt
    exact hfree 0 hpayload (.inl (not_le.mp hlt))
  have hfind : r.pending.find? rel = none :=
    find?_eq_none_of_free h.toSized (hfree 0 hpayload)
  unfold pushRelative
  simp only
  rw [if_neg (by omega), if_neg (not_lt.mpr hrel)]
  split
  · -- at the cursor it is delivered, with what is pending behind it
    rename_i hcursor
    subst hcursor
    set seg : Segment := ⟨packetIndex, range, payload⟩ with hseg
    have hdelivered : (r.deliver seg).Apart := hapart.deliver h.ahead h.toSized hfree
    obtain ⟨hdrained, hheld⟩ := hdelivered.drainLoop (h.toSized.deliver seg)
      (r.deliver seg).pending.length
    refine ⟨?_, hdrained.stopClock, ?_⟩
    · rw [drainPending, heldLen_stopClock, hheld]
      simp only [heldLen, StreamReassembler.deliver, PushOutcome.abandonedBytes, hseg]
      omega
    · intro position
      rw [drainPending, holds_stopClock, holds_drainLoop, holds_deliver]
      exact id
  · -- ahead of the cursor it is stored, unless the limits drop everything
    rename_i hgap
    unfold bufferPending
    simp only [hfind]
    set stored := r.store rel ⟨packetIndex, range, payload⟩ opened with hstored
    have hsized : stored.Sized := h.toSized.store hpayload hfind opened
    obtain ⟨hheld, hapart', hholds⟩ := enforceLimits_takes hsized
      (apart_store hapart h.toSized opened hrel hfree hpayload) checked
    refine ⟨?_, hapart', ?_⟩
    · rw [hheld]
      simp only [heldLen, hstored, store]
      omega
    · intro position hposition
      rcases hholds position hposition with hold | hnone
      · refine (holds_store opened ?_ position).mp hold
        intro existing hexisting
        cases hfind.symm.trans hexisting
      · omega

/-- A push that abandons a gap leaves the delivered bytes, and what the caps spare. -/
theorem pushRelative_empties {r : StreamReassembler} (h : r.Invariant) (packetIndex : ℕ)
    (range : ByteRange) {payload : Bytes} (hpayload : 0 < payload.length) {rel : ℕ}
    (hfree : ∀ i < payload.length, ¬ r.Holds (rel + i)) {opened checked : Instant}
    (hgap : (r.pushRelative packetIndex range payload rel opened checked).1.isGapAbandoned =
      true) :
    let stored := r.store rel ⟨packetIndex, range, payload⟩ opened
    (r.pushRelative packetIndex range payload rel opened checked).2.heldLen = 0 ↔
      r.contiguousLen = 0 ∧ (stored.ageExceeded checked = true ∨ stored.LastExceeds) := by
  intro stored
  have hfind : r.pending.find? rel = none :=
    find?_eq_none_of_free h.toSized (hfree 0 hpayload)
  have hsized : stored.Sized := h.toSized.store hpayload hfind opened
  unfold pushRelative bufferPending at hgap ⊢
  simp only [hfind] at hgap ⊢
  -- the other branches report no gap
  split_ifs at hgap ⊢
  · cases hgap
  · cases hgap
  · cases hgap
  · obtain ⟨hcontiguous, hpending⟩ := enforceLimits_empties hsized hgap
    unfold heldLen
    rw [Nat.add_eq_zero_iff, hcontiguous, hpending]
    rfl

/-- A push that abandons nothing leaves nothing pending where it closes every gap, and
delivers all bytes then. -/
theorem pushRelative_settles {r : StreamReassembler} (h : r.Invariant) (hapart : r.Apart)
    (packetIndex : ℕ) (range : ByteRange) {payload : Bytes} (hpayload : 0 < payload.length)
    {rel : ℕ} (hfree : ∀ i < payload.length, ¬ r.Holds (rel + i)) {opened checked : Instant}
    (hkept : (r.pushRelative packetIndex range payload rel opened checked).1.isGapAbandoned =
      false) :
    let after := (r.pushRelative packetIndex range payload rel opened checked).2
    let closed := rel = r.nextExpectedRelative ∧
      Chained (r.nextExpectedRelative + payload.length) r.pending.entries
    (after.pending.entries = [] ↔ closed) ∧
      (closed → after.contiguousBytes =
        r.contiguousBytes ++ payload ++ r.pending.entries.flatMap fun entry => entry.2.data) := by
  intro after closed
  have hrel : r.nextExpectedRelative ≤ rel := by
    by_contra hlt
    exact hfree 0 hpayload (.inl (not_le.mp hlt))
  have hfind : r.pending.find? rel = none :=
    find?_eq_none_of_free h.toSized (hfree 0 hpayload)
  by_cases hcursor : rel = r.nextExpectedRelative
  · -- at the cursor everything that is chained to it is delivered with it
    subst hcursor
    set seg : Segment := ⟨packetIndex, range, payload⟩ with hseg
    have hafter : after = (r.deliver seg).drainPending := by
      change (r.pushRelative _ _ _ _ _ _).2 = _
      unfold pushRelative
      simp only
      rw [if_neg (by omega), if_neg (lt_irrefl _)]
      exact congrArg Prod.snd (if_pos trivial)
    obtain ⟨hempty, hbytes⟩ := (hapart.deliver h.ahead h.toSized hfree).drainLoop_empties
      (h.toSized.deliver seg) (le_refl (r.deliver seg).pending.length)
    rw [hafter, drainPending, stopClock_pending]
    -- draining empties the pending segments exactly if each begins where the last one ended
    refine ⟨hempty.trans (and_iff_right rfl).symm, fun hclosed => ?_⟩
    have hdelivered := hbytes hclosed.2
    rw [contiguousBytes_deliver] at hdelivered
    rw [contiguousBytes, stopClock_contiguous]
    exact hdelivered
  · -- the payload waits behind the gap
    refine ⟨iff_of_false ?_ fun hclosed => hcursor hclosed.1,
      fun hclosed => absurd hclosed.1 hcursor⟩
    have hafter : after = r.store rel ⟨packetIndex, range, payload⟩ opened := by
      change (r.pushRelative _ _ _ _ _ _).2 = _
      unfold pushRelative bufferPending at hkept ⊢
      simp only [hfind] at hkept ⊢
      rw [if_neg (by omega), if_neg (not_lt.mpr hrel), if_neg hcursor] at hkept ⊢
      exact enforceLimits_kept hkept
    rw [hafter]
    exact OrderedMap.insert_entries_ne_nil _ _ _

theorem push_of_ne_nil (r : StreamReassembler) (packetIndex : ℕ) (seq : UInt32)
    (range : ByteRange) {payload : Bytes} (hpayload : payload ≠ []) (opened checked : Instant) :
    r.push packetIndex seq range payload opened checked =
      (r.relativeSeq seq).2.pushRelative packetIndex range payload (r.relativeSeq seq).1 opened
        checked := by
  unfold push
  rw [if_neg (by simpa using hpayload)]

/-- Everything pending is dropped where the gap is too old, or where the last pending
segment exceeds the caps; the payload pushed is pending by then. -/
def DropsAllPending (r : StreamReassembler) (packetIndex : ℕ) (seq : UInt32)
    (range : ByteRange) (payload : Bytes) (opened checked : Instant) : Prop :=
  let stored := r.store (r.relativeSeq seq).1 ⟨packetIndex, range, payload⟩ opened
  stored.ageExceeded checked = true ∨ stored.LastExceeds

instance (r : StreamReassembler) (packetIndex : ℕ) (seq : UInt32) (range : ByteRange)
    (payload : Bytes) (opened checked : Instant) :
    Decidable (r.DropsAllPending packetIndex seq range payload opened checked) :=
  inferInstanceAs (Decidable (_ ∨ _))

/-- The payload, if there is one, starts at the cursor, and the pending segments follow
it. -/
def ClosesGaps (r : StreamReassembler) (seq : UInt32) (payload : Bytes) : Prop :=
  (payload ≠ [] → (r.relativeSeq seq).1 = r.nextExpectedRelative) ∧
    Chained (r.nextExpectedRelative + payload.length) r.pending.entries

instance (r : StreamReassembler) (seq : UInt32) (payload : Bytes) :
    Decidable (r.ClosesGaps seq payload) :=
  inferInstanceAs (Decidable (_ ∧ _))

/-- The bytes in order once no gap is left. -/
def bytesInOrder (r : StreamReassembler) (payload : Bytes) : Bytes :=
  r.contiguousBytes ++ payload ++ r.pending.entries.flatMap fun entry => entry.2.data

section Push

variable {r : StreamReassembler} (packetIndex : ℕ) {seq : UInt32} (range : ByteRange)
  {payload : Bytes} (opened checked : Instant)

/-- **A push that overlaps nothing.** -/
theorem push_takes (h : r.Invariant) (hapart : r.Apart) (hpayload : payload ≠ [])
    (hfree : ∀ i < payload.length, ¬ r.Holds ((r.relativeSeq seq).1 + i)) :
    r.Takes (r.relativeSeq seq).1 payload.length
      (r.push packetIndex seq range payload opened checked) := by
  rw [push_of_ne_nil r packetIndex seq range hpayload]
  have htakes := pushRelative_takes (r := (r.relativeSeq seq).2) (h.rebase _)
    (hapart.of_subset rfl (List.Subset.refl _)) packetIndex range
    (List.length_pos_iff.mpr hpayload) hfree opened checked
  exact ⟨htakes.held, htakes.apart, htakes.holds⟩

/-- **A push that abandons a gap** leaves nothing where nothing was waiting for its
record, and everything pending is dropped. -/
theorem push_empties_iff (h : r.Invariant) (hpayload : payload ≠ [])
    (hfree : ∀ i < payload.length, ¬ r.Holds ((r.relativeSeq seq).1 + i))
    (hgap : (r.push packetIndex seq range payload opened checked).1.isGapAbandoned = true) :
    (r.push packetIndex seq range payload opened checked).2.heldLen = 0 ↔
      r.contiguousLen = 0 ∧ r.DropsAllPending packetIndex seq range payload opened checked := by
  rw [push_of_ne_nil r packetIndex seq range hpayload] at hgap ⊢
  exact pushRelative_empties (r := (r.relativeSeq seq).2) (h.rebase _) packetIndex range
    (List.length_pos_iff.mpr hpayload) hfree hgap

/-- **A push that abandons nothing** leaves nothing pending where it closes every gap. -/
theorem push_settles_iff (h : r.Invariant) (hapart : r.Apart) (hpayload : payload ≠ [])
    (hfree : ∀ i < payload.length, ¬ r.Holds ((r.relativeSeq seq).1 + i))
    (hkept : (r.push packetIndex seq range payload opened checked).1.isGapAbandoned = false) :
    ((r.push packetIndex seq range payload opened checked).2.pending.entries = [] ↔
        r.ClosesGaps seq payload) ∧
      (r.ClosesGaps seq payload →
        (r.push packetIndex seq range payload opened checked).2.contiguousBytes =
          r.bytesInOrder payload) := by
  rw [push_of_ne_nil r packetIndex seq range hpayload] at hkept ⊢
  obtain ⟨hempty, hbytes⟩ := pushRelative_settles (r := (r.relativeSeq seq).2) (h.rebase _)
    (hapart.of_subset rfl (List.Subset.refl _)) packetIndex range
    (List.length_pos_iff.mpr hpayload) hfree hkept
  refine ⟨hempty.trans (and_congr_left' ?_), fun hcloses => hbytes ⟨hcloses.1 hpayload, hcloses.2⟩⟩
  exact ⟨fun hcursor _ => hcursor, fun hcursor => hcursor hpayload⟩

end Push

/-! ## Sequence numbers -/

/-- A position behind the base lies in one of the segments, given by their sequence
numbers and lengths. -/
def InSegments (base : UInt32) (segments : List (UInt32 × ℕ)) (position : ℕ) : Prop :=
  ∃ segment ∈ segments, ∃ i < segment.2,
    segment.1 + UInt32.ofNat i = base + UInt32.ofNat position

/-- No sequence number belongs to both segments. -/
def SeqDisjoint (segment other : UInt32 × ℕ) : Prop :=
  ∀ i < segment.2, ∀ j < other.2,
    segment.1 + UInt32.ofNat i ≠ other.1 + UInt32.ofNat j

instance (segment other : UInt32 × ℕ) : Decidable (SeqDisjoint segment other) :=
  inferInstanceAs (Decidable (∀ i < segment.2, ∀ j < other.2, _ ≠ _))

/-- The reassembler was fed segments that do not overlap, and holds nothing else. -/
structure Fed (segments : List (UInt32 × ℕ)) (r : StreamReassembler) : Prop where
  invariant : r.Invariant
  apart : r.Apart
  held : ∀ base, r.baseSeq = some base → ∀ position, r.Holds position →
    InSegments base segments position
  unanchored : r.baseSeq = none → ∀ position, ¬ r.Holds position

theorem fed_withPendingLimits (limits : PendingLimits) : (withPendingLimits limits).Fed [] := by
  refine ⟨invariant_withPendingLimits limits, ⟨?_, ?_⟩, nofun, ?_⟩
  · simp [withPendingLimits]
  · simp [withPendingLimits]
  · simp [withPendingLimits, Holds]

variable {r : StreamReassembler} {segments : List (UInt32 × ℕ)}

theorem Fed.mono (h : r.Fed segments) {more : List (UInt32 × ℕ)} (hsubset : segments ⊆ more) :
    r.Fed more := by
  refine ⟨h.invariant, h.apart, ?_, h.unanchored⟩
  intro base hbase position hposition
  obtain ⟨segment, hmem, hin⟩ := h.held base hbase position hposition
  exact ⟨segment, hsubset hmem, hin⟩

theorem Fed.setIsn (h : r.Fed segments) (firstByteSeq : UInt32) :
    (r.setIsn firstByteSeq).Fed segments := by
  have hinvariant := h.invariant.setIsn firstByteSeq
  unfold StreamReassembler.setIsn at hinvariant ⊢
  split at hinvariant
  · rename_i hbase
    exact ⟨hinvariant, ⟨h.apart.ahead, h.apart.apart⟩, fun _ _ position hposition =>
      absurd hposition (h.unanchored hbase position), nofun⟩
  · exact h

theorem seq_add_offset (base seq : UInt32) (i : ℕ) :
    base + UInt32.ofNat ((seq - base).toNat + i) = seq + UInt32.ofNat i := by
  rw [UInt32.ofNat_add, UInt32.ofNat_toNat]
  grind

/-- A segment that overlaps none of those fed before overlaps nothing that is held. -/
theorem Fed.free (h : r.Fed segments) {seq : UInt32} {length : ℕ}
    (hdisjoint : ∀ segment ∈ segments, SeqDisjoint segment (seq, length)) :
    ∀ i < length, ¬ r.Holds ((r.relativeSeq seq).1 + i) := by
  intro i hi hholds
  cases hbase : r.baseSeq with
  | none => exact h.unanchored hbase _ hholds
  | some base =>
      obtain ⟨segment, hmem, j, hj, hsame⟩ := h.held base hbase _ hholds
      have hrel : (r.relativeSeq seq).1 = (seq - base).toNat := by
        rw [relativeSeq, hbase]
        rfl
      rw [hrel, seq_add_offset] at hsame
      exact hdisjoint segment hmem j hj i hi hsame

/-- **One more segment**, which overlaps none of those fed before. -/
theorem Fed.push (h : r.Fed segments) (packetIndex : ℕ) {seq : UInt32} (range : ByteRange)
    {payload : Bytes} (hpayload : payload ≠ [])
    (hdisjoint : ∀ segment ∈ segments, SeqDisjoint segment (seq, payload.length))
    (opened checked : Instant) :
    (r.push packetIndex seq range payload opened checked).2.Fed
      (segments ++ [(seq, payload.length)]) := by
  have htakes := push_takes packetIndex range opened checked h.invariant h.apart hpayload
    (h.free hdisjoint)
  have hanchor : (r.push packetIndex seq range payload opened checked).2.baseSeq =
      some (r.baseSeq.getD seq) := by
    rw [push_of_ne_nil r packetIndex seq range hpayload]
    exact sameAnchor_pushRelative _ _ _ _ _ _ _ |>.1
  refine ⟨h.invariant.push _ _ _ _ _ _, htakes.apart, ?_, ?_⟩
  · intro base hbase position hposition
    obtain rfl := Option.some.inj (hanchor.symm.trans hbase)
    rcases htakes.holds position hposition with hold | ⟨hfrom, hto⟩
    · cases hanchored : r.baseSeq with
      | none => exact absurd hold (h.unanchored hanchored position)
      | some base =>
          obtain ⟨segment, hmem, hin⟩ := h.held base hanchored position hold
          exact ⟨segment, List.mem_append_left _ hmem, hin⟩
    · obtain ⟨i, rfl⟩ := Nat.exists_eq_add_of_le hfrom
      refine ⟨(seq, payload.length), by simp, i, by simpa using hto, ?_⟩
      exact (seq_add_offset _ seq i).symm
  · intro hnone
    cases hanchor.symm.trans hnone

end StreamReassembler

end Tlscap
