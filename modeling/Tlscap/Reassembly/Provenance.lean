import Tlscap.Reassembly.Operations
import Tlscap.Reassembly.Renumber

/-!
# Where taken bytes come from

Every segment holds the bytes of a range of the packet it came from, a part of the range it
was pushed with.  Ranges are advanced where a segment is trimmed and where it is taken in
part, always together with the data.  So the pieces of a reply spell its bytes, and no byte of
a packet is handed out twice (`provenance_exact`).

## Strategy

Two pushes may carry the same range of the same packet.  To tell them apart, packets are
numbered by the calls that push them (`numberedFrom`); as packet numbers decide nothing, this
is the same run (`run_renumber`), and there no two segments have one number.

The invariant is `Held`: the pieces handed out and the segments that wait are parts of what
was pushed under their numbers, and no two of them share a byte.  It is kept because an
operation can do no more to a segment than

* **drop it**, or move it between the queues, which only removes from the list or permutes
  it (`Held.subperm`);
* **trim it** at its front, where data and range lose the same number of bytes
  (`Held.trimmed`);
* **hand it out**, whole or only its front; then piece and rest are the two parts of what
  the segment was (`Held.hand`, `Held.hand_part`);
* **push it**, under a number that no other segment has (`Held.push`).

A run then is the composition of these (`Held.run`), and the numbers lead back to the packets
that the calls really named (`numberedFrom_renumber`).
-/

namespace Tlscap

namespace StreamReassembler

/-! ## Calls that carry packets -/

/-- The bytes of a packet in a range. -/
def packetBytes (packets : ℕ → Bytes) (packetIndex : ℕ) (range : ByteRange) : Bytes :=
  slice (packets packetIndex) range.start (range.stop - range.start)

/-- What a push carries is the range of the packet it names. -/
def Operation.Carries (packets : ℕ → Bytes) : Operation → Prop
  | .push packetIndex _ range payload _ _ =>
      range.start ≤ range.stop ∧ range.stop ≤ (packets packetIndex).length ∧
        payload = packetBytes packets packetIndex range
  | _ => True

/-- The packet and the range that a call pushes. -/
def Operation.source : Operation → Option (ℕ × ByteRange)
  | .push packetIndex _ range _ _ _ => some (packetIndex, range)
  | _ => none

/-- The packet and the range pushed by the call with this number. -/
def sourceOf (operations : List Operation) (call : ℕ) : Option (ℕ × ByteRange) :=
  operations[call]?.bind Operation.source

/-- The same call, for a packet with another number. -/
def Operation.renumber (number : ℕ → ℕ) : Operation → Operation
  | .push packetIndex seq range payload opened checked =>
      .push (number packetIndex) seq range payload opened checked
  | operation => operation

/-- The pieces handed out by a reply. -/
def Reply.pieces : Reply → List SourcePiece
  | .taken _ pieces => pieces
  | _ => []

/-! ## Held segments -/

/-- Everything that waits in a reassembler. -/
def segments (r : StreamReassembler) : List Segment :=
  r.contiguous ++ r.pending.entries.map Prod.snd

/-- A segment with bytes of the packet and the range of the call that has its number. -/
structure Sourced (packets : ℕ → Bytes) (operations : List Operation) (seg : Segment) : Prop where
  source : ∃ packetIndex range, sourceOf operations seg.packetIndex = some (packetIndex, range) ∧
    range.start ≤ seg.range.start ∧ seg.range.stop ≤ range.stop ∧
      seg.data = packetBytes packets packetIndex seg.range
  length : seg.range.start + seg.data.length = seg.range.stop
  nonempty : 0 < seg.data.length

/-- A piece of the range of the call that has its number. -/
def SourcedPiece (operations : List Operation) (piece : SourcePiece) : Prop :=
  ∃ packetIndex range, sourceOf operations piece.packetIndex = some (packetIndex, range) ∧
    range.start ≤ piece.range.start ∧ piece.range.start < piece.range.stop ∧
      piece.range.stop ≤ range.stop

/-- After some calls, the pieces handed out and the segments that wait are parts of what
was pushed, and no two of them share a byte. -/
structure Held (packets : ℕ → Bytes) (operations : List Operation) (calls : ℕ)
    (handed : List SourcePiece) (segs : List Segment) : Prop where
  sourced : ∀ seg ∈ segs, Sourced packets operations seg
  early : ∀ seg ∈ segs, seg.packetIndex < calls
  distinct : (segs.map Segment.packetIndex).Nodup
  pieces : ∀ piece ∈ handed, SourcedPiece operations piece
  earlyPieces : ∀ piece ∈ handed, piece.packetIndex < calls
  apart : handed.Pairwise fun earlier later =>
    earlier.packetIndex = later.packetIndex → earlier.range.stop ≤ later.range.start
  behind : ∀ piece ∈ handed, ∀ seg ∈ segs,
    piece.packetIndex = seg.packetIndex → piece.range.stop ≤ seg.range.start

variable {packets : ℕ → Bytes} {operations : List Operation} {calls : ℕ}
  {handed : List SourcePiece} {segs : List Segment}

/-- Fewer segments, in any order. -/
theorem Held.subperm (h : Held packets operations calls handed segs) {fewer : List Segment}
    (hsubperm : fewer.Subperm segs) : Held packets operations calls handed fewer where
  sourced seg hseg := h.sourced seg (hsubperm.subset hseg)
  early seg hseg := h.early seg (hsubperm.subset hseg)
  distinct := by
    obtain ⟨same, hperm, hsublist⟩ := hsubperm
    exact (hperm.map Segment.packetIndex).nodup_iff.mp
      (h.distinct.sublist (hsublist.map Segment.packetIndex))
  pieces := h.pieces
  earlyPieces := h.earlyPieces
  apart := h.apart
  behind piece hpiece seg hseg := h.behind piece hpiece seg (hsubperm.subset hseg)

/-- A segment without bytes from its front. -/
theorem Sourced.trimmed {seg : Segment} (h : Sourced packets operations seg) {trim : ℕ}
    (htrim : trim < seg.data.length) : Sourced packets operations (seg.trimmed trim) := by
  obtain ⟨⟨packetIndex, range, hsource, hstart, hstop, hdata⟩, hlength, -⟩ := h
  refine ⟨⟨packetIndex, range, hsource, ?_, hstop, ?_⟩, ?_, ?_⟩
  · exact hstart.trans (Nat.le_add_right _ _)
  · simp only [Segment.trimmed, packetBytes] at hdata ⊢
    rw [hdata, drop_slice, Nat.sub_sub]
  · simp only [Segment.trimmed, List.length_drop]
    omega
  · simp only [Segment.trimmed, List.length_drop]
    omega

theorem Held.trimmed {seg : Segment} (h : Held packets operations calls handed (seg :: segs))
    {trim : ℕ} (htrim : trim < seg.data.length) :
    Held packets operations calls handed (seg.trimmed trim :: segs) where
  sourced := by
    rw [List.forall_mem_cons]
    exact ⟨(h.sourced seg List.mem_cons_self).trimmed htrim,
      fun other hother => h.sourced other (List.mem_cons_of_mem _ hother)⟩
  early := by
    rw [List.forall_mem_cons]
    exact ⟨h.early seg List.mem_cons_self,
      fun other hother => h.early other (List.mem_cons_of_mem _ hother)⟩
  distinct := h.distinct
  pieces := h.pieces
  earlyPieces := h.earlyPieces
  apart := h.apart
  behind piece hpiece := by
    rw [List.forall_mem_cons]
    refine ⟨fun hsame => ?_, fun other hother =>
      h.behind piece hpiece other (List.mem_cons_of_mem _ hother)⟩
    exact (h.behind piece hpiece seg List.mem_cons_self hsame).trans (Nat.le_add_right _ _)

/-- The segment that the next call pushes. -/
theorem Held.push {seg : Segment} (h : Held packets operations calls handed segs)
    (hseg : Sourced packets operations seg) (hcall : seg.packetIndex = calls) :
    Held packets operations (calls + 1) handed (seg :: segs) where
  sourced := List.forall_mem_cons.mpr ⟨hseg, h.sourced⟩
  early := by
    rw [List.forall_mem_cons]
    exact ⟨by omega, fun other hother => (h.early other hother).trans (Nat.lt_succ_self calls)⟩
  distinct := by
    rw [List.map_cons, List.nodup_cons]
    refine ⟨fun hmem => ?_, h.distinct⟩
    obtain ⟨other, hother, hsame⟩ := List.mem_map.mp hmem
    have := h.early other hother
    omega
  pieces := h.pieces
  earlyPieces piece hpiece := (h.earlyPieces piece hpiece).trans (Nat.lt_succ_self calls)
  apart := h.apart
  behind piece hpiece := by
    rw [List.forall_mem_cons]
    refine ⟨fun hsame => ?_, h.behind piece hpiece⟩
    have := h.earlyPieces piece hpiece
    omega

/-- A call that pushes nothing. -/
theorem Held.idle (h : Held packets operations calls handed segs) :
    Held packets operations (calls + 1) handed segs where
  sourced := h.sourced
  early seg hseg := (h.early seg hseg).trans (Nat.lt_succ_self calls)
  distinct := h.distinct
  pieces := h.pieces
  earlyPieces piece hpiece := (h.earlyPieces piece hpiece).trans (Nat.lt_succ_self calls)
  apart := h.apart
  behind := h.behind

/-! ## Taking -/

/-- The first bytes of a segment, as a piece of its packet. -/
def frontPiece (seg : Segment) (take : ℕ) : SourcePiece :=
  ⟨seg.packetIndex, ⟨seg.range.start, seg.range.start + take⟩⟩

/-- A piece handed out of the first segment. -/
theorem Held.hand {seg : Segment} (h : Held packets operations calls handed (seg :: segs))
    {take : ℕ} (hpos : 0 < take) (htake : take ≤ seg.data.length) :
    Held packets operations calls (handed ++ [frontPiece seg take]) segs := by
  have hseg := h.sourced seg List.mem_cons_self
  have hfewer := h.subperm (List.sublist_cons_self seg segs).subperm
  have hdistinct := List.nodup_cons.mp h.distinct
  refine ⟨hfewer.sourced, hfewer.early, hfewer.distinct, ?_, ?_, ?_, ?_⟩
  · intro piece hpiece
    rcases List.mem_append.mp hpiece with hpiece | hpiece
    · exact h.pieces piece hpiece
    · obtain rfl := List.mem_singleton.mp hpiece
      obtain ⟨⟨packetIndex, range, hsource, hstart, hstop, -⟩, hlength, -⟩ := hseg
      refine ⟨packetIndex, range, hsource, hstart, ?_, ?_⟩ <;> simp only [frontPiece] <;> omega
  · intro piece hpiece
    rcases List.mem_append.mp hpiece with hpiece | hpiece
    · exact h.earlyPieces piece hpiece
    · obtain rfl := List.mem_singleton.mp hpiece
      exact h.early seg List.mem_cons_self
  · refine List.pairwise_append.mpr ⟨h.apart, List.pairwise_singleton _ _, ?_⟩
    intro piece hpiece other hother hsame
    obtain rfl := List.mem_singleton.mp hother
    exact h.behind piece hpiece seg List.mem_cons_self hsame
  · intro piece hpiece other hother hsame
    rcases List.mem_append.mp hpiece with hpiece | hpiece
    · exact h.behind piece hpiece other (List.mem_cons_of_mem _ hother) hsame
    · -- no other segment has the number of this one
      obtain rfl := List.mem_singleton.mp hpiece
      exact absurd (List.mem_map.mpr ⟨other, hother, hsame.symm⟩) hdistinct.1

/-- A piece handed out of the first segment, which keeps its end. -/
theorem Held.hand_part {seg : Segment}
    (h : Held packets operations calls handed (seg :: segs)) {take : ℕ} (hpos : 0 < take)
    (htake : take < seg.data.length) :
    Held packets operations calls (handed ++ [frontPiece seg take])
      (seg.trimmed take :: segs) := by
  have hhanded := h.hand hpos htake.le
  have htrimmed := h.trimmed htake
  refine ⟨htrimmed.sourced, htrimmed.early, h.distinct, hhanded.pieces, hhanded.earlyPieces,
    hhanded.apart, ?_⟩
  intro piece hpiece
  rw [List.forall_mem_cons]
  refine ⟨fun hsame => ?_, hhanded.behind piece hpiece⟩
  rcases List.mem_append.mp hpiece with hpiece | hpiece
  · exact htrimmed.behind piece hpiece _ List.mem_cons_self hsame
  · obtain rfl := List.mem_singleton.mp hpiece
    exact le_rfl

/-- The number of the packet that a call pushes. -/
def packetNumber (operations : List Operation) (call : ℕ) : ℕ :=
  ((sourceOf operations call).map Prod.fst).getD 0

/-- The bytes of a piece. -/
def pieceBytes (packets : ℕ → Bytes) (operations : List Operation) (piece : SourcePiece) : Bytes :=
  packetBytes packets (packetNumber operations piece.packetIndex) piece.range

theorem Sourced.pieceBytes {seg : Segment} (h : Sourced packets operations seg) {take : ℕ}
    (htake : take ≤ seg.data.length) :
    pieceBytes packets operations (frontPiece seg take) = seg.data.take take := by
  obtain ⟨⟨packetIndex, range, hsource, -, -, hdata⟩, hlength, -⟩ := h
  have hnumber : packetNumber operations seg.packetIndex = packetIndex := by
    rw [packetNumber, hsource]
    rfl
  have hshort : min take (seg.range.stop - seg.range.start) = take := by omega
  simp only [StreamReassembler.pieceBytes, frontPiece, hnumber, packetBytes] at hdata ⊢
  rw [hdata, slice, slice, List.take_take, hshort, Nat.add_sub_cancel_left]

/-- What `take_bytes` hands out are pieces of the segments it takes from. -/
theorem Held.takeLoop {others : List Segment} {n : ℕ} {out : Bytes} {pieces : List SourcePiece}
    {left : List Segment} (h : Held packets operations calls handed (segs ++ others))
    (htake : takeLoop segs n = some (out, pieces, left)) :
    Held packets operations calls (handed ++ pieces) (left ++ others) ∧
      pieces.flatMap (StreamReassembler.pieceBytes packets operations) = out := by
  induction segs generalizing n handed out pieces left with
  | nil =>
      cases n with
      | zero =>
          cases htake
          exact ⟨by rwa [List.append_nil], rfl⟩
      | succ n => cases htake
  | cons seg rest ih =>
      cases n with
      | zero =>
          cases htake
          exact ⟨by rwa [List.append_nil], rfl⟩
      | succ remaining =>
          have hseg := h.sourced seg List.mem_cons_self
          have hpos : 0 < min (remaining + 1) seg.data.length :=
            lt_min (Nat.succ_pos _) hseg.nonempty
          have hle : min (remaining + 1) seg.data.length ≤ seg.data.length := min_le_right _ _
          have hbytes := hseg.pieceBytes hle
          unfold StreamReassembler.takeLoop at htake
          dsimp only at htake
          split_ifs at htake with hwhole
          · cases hrest : StreamReassembler.takeLoop rest
                (remaining + 1 - min (remaining + 1) seg.data.length) with
            | none =>
                rw [hrest] at htake
                cases htake
            | some taken =>
                rw [hrest] at htake
                cases htake
                -- the segment is handed out whole, and the loop goes on with what is asked for
                obtain ⟨hheld, hout⟩ := ih (h.hand hpos hle) hrest
                rw [List.append_assoc] at hheld
                refine ⟨hheld, ?_⟩
                rw [List.flatMap_cons, hout]
                exact congrArg (· ++ _) hbytes
          · cases htake
            -- only its front is handed out, and the loop ends
            refine ⟨h.hand_part hpos (lt_of_le_of_ne hle hwhole), ?_⟩
            rw [List.flatMap_cons, List.flatMap_nil, List.append_nil]
            exact hbytes

/-! ## Pushing -/

theorem segments_deliver (r : StreamReassembler) (seg : Segment) :
    (r.deliver seg).segments.Perm (seg :: r.segments) := by
  unfold segments deliver
  rw [List.append_assoc]
  exact List.perm_middle

theorem segments_popFirst {r : StreamReassembler} {key : ℕ} {seg : Segment}
    {rest : OrderedMap ℕ Segment} (hpop : r.pending.popFirst? = some ((key, seg), rest)) :
    r.segments.Perm (seg :: (r.removeFirst seg rest).segments) := by
  unfold segments removeFirst
  rw [(OrderedMap.popFirst?_spec hpop).1]
  exact List.perm_middle

theorem Held.drainLoop {r : StreamReassembler}
    (h : Held packets operations calls handed r.segments) (fuel : ℕ) :
    Held packets operations calls handed (StreamReassembler.drainLoop fuel r).segments := by
  refine drainLoop_induction (P := fun r => Held packets operations calls handed r.segments)
    ?_ ?_ fuel r h
  · intro r key seg rest hpop _ h
    exact (h.subperm (segments_popFirst hpop).symm.subperm).subperm
      (List.sublist_cons_self _ _).subperm
  · intro r key seg rest hpop hkey hend h
    have hfirst := h.subperm (segments_popFirst hpop).symm.subperm
    have hpos := (hfirst.sourced seg List.mem_cons_self).nonempty
    exact (hfirst.trimmed (by omega)).subperm (segments_deliver _ _).subperm

theorem segments_stopClock (r : StreamReassembler) : r.stopClock.segments = r.segments := by
  simp [segments]

/-- A segment delivered by the next call. -/
theorem Held.deliver_drainPending {r : StreamReassembler} {seg : Segment}
    (h : Held packets operations calls handed r.segments)
    (hseg : Sourced packets operations seg) (hcall : seg.packetIndex = calls) :
    Held packets operations (calls + 1) handed (r.deliver seg).drainPending.segments := by
  have hdelivered := (h.push hseg hcall).subperm (segments_deliver r seg).subperm
  rw [drainPending, segments_stopClock]
  exact hdelivered.drainLoop _

theorem segments_store (r : StreamReassembler) (rel : ℕ) (seg : Segment) (opened : Instant) :
    (r.store rel seg opened).segments.Subperm (seg :: r.segments) := by
  obtain ⟨others, hperm, hsublist⟩ := OrderedMap.insert_perm r.pending rel seg
  have hstored : (r.store rel seg opened).segments.Perm
      (seg :: (r.contiguous ++ others.map Prod.snd)) := by
    unfold segments store
    exact ((hperm.map Prod.snd).append_left r.contiguous).trans List.perm_middle
  have hkept : (r.contiguous ++ others.map Prod.snd).Sublist r.segments :=
    (hsublist.map Prod.snd).append_left r.contiguous
  exact hstored.subperm.trans (hkept.cons_cons seg).subperm

theorem segments_enforceLimits (r : StreamReassembler) (checked : Instant) :
    (r.enforceLimits checked).2.segments.Subperm r.segments := by
  unfold enforceLimits
  split_ifs
  · exact .refl _
  · exact ((List.nil_sublist _).append_left r.contiguous).subperm
  · obtain ⟨hframe, hsuffix, -⟩ := evictLoop_evicts r.pending.length 0 r
    have hcontiguous := congrArg contiguous hframe
    dsimp only
    rw [segments_stopClock]
    unfold segments
    rw [hcontiguous]
    exact ((hsuffix.sublist.map Prod.snd).append_left r.contiguous).subperm

theorem Held.bufferPending {r : StreamReassembler} {seg : Segment}
    (h : Held packets operations calls handed r.segments)
    (hseg : Sourced packets operations seg) (hcall : seg.packetIndex = calls) (rel : ℕ)
    (opened checked : Instant) :
    Held packets operations (calls + 1) handed
      (r.bufferPending rel seg opened checked).2.segments := by
  have hpushed := h.push hseg hcall
  unfold StreamReassembler.bufferPending
  cases r.pending.find? rel with
  | some existing =>
      dsimp only
      split_ifs
      · exact h.idle
      · exact hpushed.subperm ((segments_enforceLimits _ checked).trans (segments_store _ rel seg
          opened))
  | none =>
      exact hpushed.subperm ((segments_enforceLimits _ checked).trans (segments_store _ rel seg
        opened))

theorem Held.pushRelative {r : StreamReassembler} {range : ByteRange} {payload : Bytes}
    (h : Held packets operations calls handed r.segments)
    (hseg : Sourced packets operations ⟨calls, range, payload⟩) (rel : ℕ)
    (opened checked : Instant) :
    Held packets operations (calls + 1) handed
      (r.pushRelative calls range payload rel opened checked).2.segments := by
  unfold StreamReassembler.pushRelative
  dsimp only
  split_ifs with hduplicate hbehind
  · exact h.idle
  · exact h.deliver_drainPending (hseg.trimmed (by simp only; omega)) rfl
  · exact h.deliver_drainPending hseg rfl
  · exact h.bufferPending hseg rfl rel opened checked

/-- A push by the next call. -/
theorem Held.pushCall {r : StreamReassembler}
    (h : Held packets operations calls handed r.segments) {packetIndex : ℕ} {range : ByteRange}
    {payload : Bytes} (hsource : sourceOf operations calls = some (packetIndex, range))
    (hstart : range.start ≤ range.stop) (hstop : range.stop ≤ (packets packetIndex).length)
    (hpayload : payload = packetBytes packets packetIndex range) (seq : UInt32)
    (opened checked : Instant) :
    Held packets operations (calls + 1) handed
      (r.push calls seq range payload opened checked).2.segments := by
  have hlength : payload.length = range.stop - range.start := by
    rw [hpayload, packetBytes, length_slice (by omega)]
  unfold StreamReassembler.push
  split_ifs with hempty
  · exact h.idle
  · have hpos : 0 < payload.length :=
      List.length_pos_iff.mpr fun hnil => hempty (List.isEmpty_iff.mpr hnil)
    have hseg : Sourced packets operations ⟨calls, range, payload⟩ :=
      ⟨⟨packetIndex, range, hsource, le_rfl, le_rfl, hpayload⟩, by simp only; omega, hpos⟩
    change Held packets operations calls handed (r.relativeSeq seq).2.segments at h
    exact h.pushRelative hseg _ opened checked

/-! ## Runs -/

/-- What is handed out by replies. -/
def handedOut (replies : List Reply) : List SourcePiece := replies.flatMap Reply.pieces

/-- The bytes of a reply are those of its pieces. -/
def Reply.Exact (bytesOf : SourcePiece → Bytes) : Reply → Prop
  | .taken out pieces => pieces.flatMap bytesOf = out
  | _ => True

/-- One call of a run whose packets have the numbers of the calls. -/
theorem Held.perform {r : StreamReassembler}
    (h : Held packets operations calls handed r.segments) {operation : Operation}
    (hcall : operations[calls]? = some operation) (hcarries : operation.Carries packets) :
    Held packets operations (calls + 1)
        (handed ++ (r.perform (operation.renumber fun _ => calls)).2.pieces)
        (r.perform (operation.renumber fun _ => calls)).1.segments ∧
      (r.perform (operation.renumber fun _ => calls)).2.Exact (pieceBytes packets operations) := by
  cases operation with
  | setIsn firstByteSeq =>
      refine ⟨?_, trivial⟩
      have hsegments : (r.setIsn firstByteSeq).segments = r.segments := by
        unfold setIsn
        split <;> rfl
      change Held _ _ _ (handed ++ []) (r.setIsn firstByteSeq).segments
      rw [List.append_nil, hsegments]
      exact h.idle
  | push packetIndex seq range payload opened checked =>
      obtain ⟨hstart, hstop, hpayload⟩ := hcarries
      refine ⟨?_, trivial⟩
      change Held _ _ _ (handed ++ []) (r.push calls seq range payload opened checked).2.segments
      rw [List.append_nil]
      -- the call number stands for the packet, so it leads back to what was pushed
      have hsource : sourceOf operations calls = some (packetIndex, range) := by
        rw [sourceOf, hcall]
        rfl
      exact h.pushCall hsource hstart hstop hpayload seq opened checked
  | takeBytes n =>
      change Held _ _ _ (handed ++ (r.perform (.takeBytes n)).2.pieces)
        (r.perform (.takeBytes n)).1.segments ∧
          (r.perform (.takeBytes n)).2.Exact (pieceBytes packets operations)
      cases htake : r.takeBytes n with
      | none =>
          simp only [StreamReassembler.perform, htake]
          refine ⟨?_, trivial⟩
          change Held _ _ _ (handed ++ []) r.segments
          rw [List.append_nil]
          exact h.idle
      | some taken =>
          obtain ⟨⟨out, pieces⟩, r'⟩ := taken
          simp only [StreamReassembler.perform, htake]
          unfold StreamReassembler.takeBytes at htake
          split_ifs at htake
          cases hloop : StreamReassembler.takeLoop r.contiguous n with
          | none =>
              rw [hloop] at htake
              cases htake
          | some taken =>
              rw [hloop] at htake
              cases htake
              obtain ⟨hheld, hout⟩ := h.takeLoop hloop
              exact ⟨hheld.idle, hout⟩

/-- The calls of the end of a run, with their own numbers for those of the packets. -/
def numberedFrom (calls : ℕ) (rest : List Operation) : List Operation :=
  (rest.zipIdx calls).map fun entry => entry.1.renumber fun _ => entry.2

theorem Held.run {r : StreamReassembler}
    (h : Held packets operations calls handed r.segments) {rest : List Operation}
    (hrest : operations.drop calls = rest)
    (hcarries : ∀ operation ∈ operations, operation.Carries packets) :
    (∃ last, Held packets operations last
        (handed ++ handedOut (Machine.run StreamReassembler.perform r (numberedFrom calls rest)).2)
        (Machine.run StreamReassembler.perform r (numberedFrom calls rest)).1.segments) ∧
      ∀ reply ∈ (Machine.run StreamReassembler.perform r (numberedFrom calls rest)).2,
        reply.Exact (pieceBytes packets operations) := by
  induction rest generalizing calls handed r with
  | nil =>
      refine ⟨⟨calls, ?_⟩, fun reply hreply => absurd hreply List.not_mem_nil⟩
      change Held _ _ _ (handed ++ []) r.segments
      rwa [List.append_nil]
  | cons operation rest ih =>
      have hcall : operations[calls]? = some operation := by
        rw [← List.head?_drop, hrest]
        rfl
      have hnext : operations.drop (calls + 1) = rest := by
        rw [← List.tail_drop, hrest]
        rfl
      obtain ⟨hheld, hexact⟩ := h.perform hcall (hcarries _ (List.mem_of_getElem? hcall))
      obtain ⟨⟨last, hlast⟩, hall⟩ := ih hheld hnext
      have hnumbered : numberedFrom calls (operation :: rest) =
          (operation.renumber fun _ => calls) :: numberedFrom (calls + 1) rest := by
        rw [numberedFrom, List.zipIdx_cons, List.map_cons]
        rfl
      rw [hnumbered, Machine.run_cons]
      refine ⟨⟨last, ?_⟩, List.forall_mem_cons.mpr ⟨hexact, hall⟩⟩
      rwa [handedOut, List.flatMap_cons, ← List.append_assoc]

/-! ## The same run with other packet numbers -/

/-- The same reply, about packets with other numbers. -/
def Reply.renumber (number : ℕ → ℕ) : Reply → Reply
  | .taken out pieces => .taken out (pieces.map (SourcePiece.renumber number))
  | reply => reply

theorem perform_renumber (number : ℕ → ℕ) (r : StreamReassembler) (operation : Operation) :
    (r.renumber number).perform (operation.renumber number) =
      ((r.perform operation).1.renumber number, (r.perform operation).2.renumber number) := by
  cases operation with
  | setIsn firstByteSeq => exact congrArg (·, Reply.done) (setIsn_renumber number r firstByteSeq)
  | push packetIndex seq range payload opened checked =>
      have hpush := push_renumber number r packetIndex seq range payload opened checked
      simp only [perform, Operation.renumber, hpush]
      rfl
  | takeBytes n =>
      simp only [perform, Operation.renumber, takeBytes_renumber]
      cases r.takeBytes n with
      | none => rfl
      | some taken => rfl

theorem run_renumber (number : ℕ → ℕ) (r : StreamReassembler) (calls : List Operation) :
    Machine.run perform (r.renumber number) (calls.map (Operation.renumber number)) =
      ((Machine.run perform r calls).1.renumber number,
        (Machine.run perform r calls).2.map (Reply.renumber number)) := by
  induction calls generalizing r with
  | nil => rfl
  | cons call rest ih =>
      rw [List.map_cons, Machine.run_cons, perform_renumber, ih, Machine.run_cons]
      rfl

/-- The numbers of the calls stand for the packets that the calls push. -/
theorem numberedFrom_renumber (operations : List Operation) :
    (numberedFrom 0 operations).map (Operation.renumber (packetNumber operations)) =
      operations := by
  have hsame : ∀ entry ∈ operations.zipIdx,
      (entry.1.renumber fun _ => entry.2).renumber (packetNumber operations) = entry.1 := by
    rintro ⟨operation, call⟩ hentry
    have hcall : operations[call]? = some operation := List.mem_zipIdx_iff_getElem?.mp hentry
    cases operation with
    | setIsn firstByteSeq => rfl
    | push packetIndex seq range payload opened checked =>
        have hnumber : packetNumber operations call = packetIndex := by
          rw [packetNumber, sourceOf, hcall]
          rfl
        simp only [Operation.renumber, hnumber]
    | takeBytes n => rfl
  calc (numberedFrom 0 operations).map (Operation.renumber (packetNumber operations))
      = operations.zipIdx.map fun entry =>
          (entry.1.renumber fun _ => entry.2).renumber (packetNumber operations) :=
        List.map_map
    _ = operations.zipIdx.map Prod.fst := List.map_congr_left hsame
    _ = operations := List.zipIdx_map_fst 0 operations

theorem handedOut_renumber (number : ℕ → ℕ) (replies : List Reply) :
    handedOut (replies.map (Reply.renumber number)) =
      (handedOut replies).map (SourcePiece.renumber number) := by
  rw [handedOut, handedOut, List.flatMap_map, List.map_flatMap]
  refine List.flatMap_congr fun reply _ => ?_
  cases reply <;> rfl

/-- Taking returns what `peek` shows. -/
theorem Sized.peek_takeBytes {r : StreamReassembler} (h : r.Sized) {n : ℕ}
    (hn : n ≤ r.contiguousLen) :
    ∃ out pieces r', r.takeBytes n = some ((out, pieces), r') ∧ r.peek n = out := by
  obtain ⟨pieces, r', htake, -⟩ := h.takeBytes hn
  exact ⟨_, pieces, r', htake, peek_eq r n⟩

theorem held_withPendingLimits (packets : ℕ → Bytes) (operations : List Operation)
    (limits : PendingLimits) :
    Held packets operations 0 [] (withPendingLimits limits).segments where
  sourced _ hseg := absurd hseg List.not_mem_nil
  early _ hseg := absurd hseg List.not_mem_nil
  distinct := List.nodup_nil
  pieces _ hpiece := absurd hpiece List.not_mem_nil
  earlyPieces _ hpiece := absurd hpiece List.not_mem_nil
  apart := List.Pairwise.nil
  behind _ hpiece := absurd hpiece List.not_mem_nil

/-- **Provenance is exact.**  In a run whose pushes carry ranges of packets, `peek` shows
what taking returns, the pieces of every reply spell its bytes, and each piece belongs to
the push it came from: it is a part of the pushed range, apart from all other pieces of
this push. -/
theorem provenance_exact (packets : ℕ → Bytes) (limits : PendingLimits)
    (operations : List Operation)
    (hcarries : ∀ operation ∈ operations, operation.Carries packets) :
    let run := Machine.run perform (withPendingLimits limits) operations
    (∀ n ≤ run.1.contiguousLen,
      ∃ out pieces r', run.1.takeBytes n = some ((out, pieces), r') ∧ run.1.peek n = out) ∧
    (∀ reply ∈ run.2,
      reply.Exact fun piece => packetBytes packets piece.packetIndex piece.range) ∧
    ∃ owned : List (ℕ × SourcePiece), owned.map Prod.snd = handedOut run.2 ∧
      (∀ piece ∈ owned, ∃ range, sourceOf operations piece.1 = some (piece.2.packetIndex, range) ∧
        range.start ≤ piece.2.range.start ∧ piece.2.range.start < piece.2.range.stop ∧
          piece.2.range.stop ≤ range.stop) ∧
      owned.Pairwise fun earlier later =>
        earlier.1 = later.1 → earlier.2.range.stop ≤ later.2.range.start := by
  intro run
  set number := packetNumber operations with hnumber
  set original := Machine.run perform (withPendingLimits limits) (numberedFrom 0 operations)
    with horiginal
  -- the run is one over pushes numbered by their position, with the packets put back
  have hrun : run = (original.1.renumber number, original.2.map (Reply.renumber number)) := by
    have hrenumbered := run_renumber number (withPendingLimits limits) (numberedFrom 0 operations)
    rw [numberedFrom_renumber] at hrenumbered
    exact hrenumbered
  obtain ⟨⟨last, hheld⟩, hexact⟩ := (held_withPendingLimits packets operations limits).run
    (List.drop_zero) hcarries
  rw [List.nil_append] at hheld
  have hsized : run.1.Sized := (invariant_run limits operations).toSized
  refine ⟨fun n hn => hsized.peek_takeBytes hn, ?_, ?_⟩
  · intro reply hreply
    rw [hrun, List.mem_map] at hreply
    obtain ⟨numberedReply, hmem, rfl⟩ := hreply
    have hpieces := hexact numberedReply hmem
    cases numberedReply with
    | taken out pieces =>
        simp only [Reply.Exact, Reply.renumber, List.flatMap_map] at hpieces ⊢
        exact hpieces
    | done => trivial
    | pushed outcome => trivial
    | panicked => trivial
  · refine ⟨(handedOut original.2).map fun piece => (piece.packetIndex, piece.renumber number),
      ?_, ?_, ?_⟩
    · rw [hrun, handedOut_renumber, List.map_map]
      rfl
    · rw [List.forall_mem_map]
      intro piece hpiece
      obtain ⟨packetIndex, range, hsource, hbounds⟩ := hheld.pieces piece hpiece
      have hpacket : number piece.packetIndex = packetIndex := by
        rw [hnumber, packetNumber, hsource]
        rfl
      refine ⟨range, ?_, hbounds⟩
      rw [hsource]
      exact congrArg (fun index => some (index, range)) hpacket.symm
    · rw [List.pairwise_map]
      exact hheld.apart

/-- Two packets that overlap in the stream, taken in two calls. -/
theorem provenance_exact_overlap :
    let packets : ℕ → Bytes := fun _ => [1, 2, 3, 4]
    let operations : List Operation :=
      [.setIsn 100, .push 7 100 ⟨0, 3⟩ [1, 2, 3] 0 0, .push 8 102 ⟨2, 4⟩ [3, 4] 0 0,
        .takeBytes 2, .takeBytes 2]
    ∀ reply ∈ (Machine.run perform (withPendingLimits ⟨100, 10, 1000⟩) operations).2,
      reply.Exact fun piece => packetBytes packets piece.packetIndex piece.range :=
  (provenance_exact (fun _ => [1, 2, 3, 4]) ⟨100, 10, 1000⟩
    [.setIsn 100, .push 7 100 ⟨0, 3⟩ [1, 2, 3] 0 0, .push 8 102 ⟨2, 4⟩ [3, 4] 0 0,
      .takeBytes 2, .takeBytes 2] (by simp [Operation.Carries, packetBytes, slice])).2.1

end StreamReassembler

end Tlscap
