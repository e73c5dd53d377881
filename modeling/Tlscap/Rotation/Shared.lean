import Tlscap.Rotation.Partition
import Mathlib.Data.List.DropRight
import Mathlib.Logic.Function.Basic

/-!
# Writers that share a disk

The program may have two rotating outputs, which write their chunks to one disk under one
clock.  A chunk's path begins with the directory and the file name of its prefix
(`PathPrefix.front`), and what follows can be told apart from that.  So writers whose prefixes
differ there never touch each other's files: each of them, and its files, is as if it were
alone with its own calls (`SharedDisk.run_alone`).

## Strategy

* **Whose path it is.**  A path ends in an underscore, a counter, an underscore and a stamp.
  Stamps have no underscore, so the front is what is left in front of the last two
  (`front_of_chunkPath`), and two prefixes name a path in common exactly where their fronts
  are equal (`names_both_iff`).
* **What a call changes.**  It writes and creates paths of its own prefix only, as the chunk a
  writer has open is its own (`rotationStep_own`).
* **What a call depends on.**  On a disk that is alike at the writer's own paths it does the
  same (`alike_rotationStep`).

A call of the writer itself is then one it would make alone, and a call of another does not
show (`Isolated.step`).
-/

namespace Tlscap

/-! ## Whose chunk a path is -/

/-- What the paths of a prefix begin with: its directory and its file name. -/
def PathPrefix.front (pathPrefix : PathPrefix) : Text :=
  (match pathPrefix.parent with
    | some dir => if dir.isEmpty then [] else joinPath dir []
    | none => []) ++ pathPrefix.fileName.getD []

/-- A time stamp has no separator in it. -/
def IsStamp (stamp : Text) : Prop := '_' ∉ stamp

instance (stamp : Text) : Decidable (IsStamp stamp) := inferInstanceAs (Decidable ('_' ∉ stamp))

/-- A path the prefix may give one of its chunks. -/
def PathPrefix.Names (pathPrefix : PathPrefix) (path : Text) : Prop :=
  ∃ counter stamp, IsStamp stamp ∧ path = chunkPath pathPrefix counter stamp

theorem joinPath_append (dir name : Text) : joinPath dir name = joinPath dir [] ++ name := by
  unfold joinPath
  split
  · rw [List.append_nil]
  · rw [List.append_assoc]
    rfl

theorem chunkPath_eq (pathPrefix : PathPrefix) (counter : ℕ) (stamp : Text) :
    chunkPath pathPrefix counter stamp =
      pathPrefix.front ++
        '_' :: ((decimal counter).leftpad 6 '0' ++ '_' :: (stamp ++ ".gz".toList)) := by
  unfold chunkPath PathPrefix.front
  cases pathPrefix.parent with
  | none => simp
  | some dir =>
      dsimp only
      split_ifs
      · simp
      · rw [joinPath_append]
        simp

/-- The text up to the last separator. -/
theorem rdropWhile_separator (before : Text) {after : Text} (hafter : '_' ∉ after) :
    (before ++ '_' :: after).rdropWhile (· ≠ '_') = before ++ ['_'] := by
  have hall : ∀ c ∈ after.reverse, decide (c ≠ '_') = true := by
    intro c hc
    refine decide_eq_true fun heq => hafter ?_
    rw [← heq]
    exact List.mem_reverse.mp hc
  unfold List.rdropWhile
  rw [List.reverse_append, List.reverse_cons, List.append_assoc, List.singleton_append,
    List.dropWhile_append_of_pos hall, List.dropWhile_cons_of_neg (by decide), List.reverse_cons,
    List.reverse_reverse]

/-- The front can be read off a path. -/
theorem front_of_chunkPath (pathPrefix : PathPrefix) (counter : ℕ) {stamp : Text}
    (hstamp : IsStamp stamp) :
    ((chunkPath pathPrefix counter stamp).rdropWhile (· ≠ '_')).dropLast.rdropWhile (· ≠ '_') =
      pathPrefix.front ++ ['_'] := by
  have htail : '_' ∉ stamp ++ ".gz".toList := by
    rw [List.mem_append, not_or]
    exact ⟨hstamp, by decide⟩
  rw [chunkPath_eq, ← List.cons_append, ← List.append_assoc, rdropWhile_separator _ htail,
    List.dropLast_concat, rdropWhile_separator _ (underscore_not_mem_digits counter)]

/-- Two prefixes name a path in common exactly where their paths begin alike. -/
theorem names_both_iff (first second : PathPrefix) :
    (∃ path, first.Names path ∧ second.Names path) ↔ first.front = second.front := by
  constructor
  · rintro ⟨path, ⟨counter, stamp, hstamp, rfl⟩, other, otherStamp, hother, heq⟩
    have hfront := front_of_chunkPath first counter hstamp
    rw [heq, front_of_chunkPath second other hother] at hfront
    exact (List.append_cancel_right hfront).symm
  · intro heq
    refine ⟨chunkPath first 1 [], ⟨1, [], List.not_mem_nil, rfl⟩,
      1, [], List.not_mem_nil, ?_⟩
    rw [chunkPath_eq, chunkPath_eq, heq]

/-! ## The disk under one writer -/

section Writer

variable {gzip : Gzip} {writer : RotatingGzWriter gzip}

/-- The chunk a writer has open is its own. -/
def RotatingGzWriter.OpensOwn (writer : RotatingGzWriter gzip) : Prop :=
  ∀ chunk ∈ writer.current, writer.pathPrefix.Names chunk.path

/-- The stamp of a call is one. -/
def RotationCall.Stamped : RotationCall → Prop
  | .writeMessage _ readings => IsStamp readings.stamp
  | .finishCurrent => True

/-- From one disk to another, some paths were written and created, and no others. -/
structure Disk.ChangesOnly (own : Text → Prop) (disk next : Disk) : Prop where
  files : ∀ path, ¬ own path → next.files.lookup path = disk.files.lookup path
  created : ∃ paths, next.created = disk.created ++ paths ∧ ∀ path ∈ paths, own path

theorem Disk.changesOnly_refl (own : Text → Prop) (disk : Disk) : disk.ChangesOnly own disk :=
  ⟨fun _ _ => rfl, [], (List.append_nil _).symm, fun _ hpath => absurd hpath List.not_mem_nil⟩

theorem Disk.ChangesOnly.trans {own : Text → Prop} {disk next last : Disk}
    (hfirst : disk.ChangesOnly own next) (hsecond : next.ChangesOnly own last) :
    disk.ChangesOnly own last := by
  obtain ⟨first, hnext, hfirstOwn⟩ := hfirst.created
  obtain ⟨second, hlast, hsecondOwn⟩ := hsecond.created
  refine ⟨fun path hpath => (hsecond.files path hpath).trans (hfirst.files path hpath),
    first ++ second, ?_, ?_⟩
  · rw [hlast, hnext, List.append_assoc]
  · intro path hpath
    rcases List.mem_append.mp hpath with hmem | hmem
    · exact hfirstOwn path hmem
    · exact hsecondOwn path hmem

theorem changesOnly_finishCurrent (hopens : writer.OpensOwn) (disk : Disk) :
    disk.ChangesOnly writer.pathPrefix.Names (writer.finishCurrent disk).2 := by
  unfold RotatingGzWriter.finishCurrent
  cases hcurrent : writer.current with
  | none => exact disk.changesOnly_refl _
  | some chunk =>
      have hown : writer.pathPrefix.Names chunk.path := hopens chunk hcurrent
      refine ⟨fun path hpath => ?_, [], (List.append_nil _).symm,
        fun _ hpath => absurd hpath List.not_mem_nil⟩
      exact AList.lookup_insert_ne fun heq => hpath (heq ▸ hown)

theorem changesOnly_openNew (writer : RotatingGzWriter gzip) (disk : Disk)
    {readings : WriteReadings}
    (hstamp : IsStamp readings.stamp) :
    disk.ChangesOnly writer.pathPrefix.Names (writer.openNew disk readings).2 := by
  have hown : writer.pathPrefix.Names
      (chunkPath writer.pathPrefix (writer.chunkCounter + 1) readings.stamp) :=
    ⟨_, _, hstamp, rfl⟩
  refine ⟨fun path hpath => ?_, [_], rfl, ?_⟩
  · exact AList.lookup_insert_ne fun heq => hpath (heq ▸ hown)
  · intro path hpath
    rw [List.mem_singleton.mp hpath]
    exact hown

theorem opensOwn_openNew (disk : Disk) {readings : WriteReadings}
    (hstamp : IsStamp readings.stamp) : (writer.openNew disk readings).1.OpensOwn := by
  rintro chunk ⟨⟩
  exact ⟨_, _, hstamp, rfl⟩

/-- A call leaves the files of other prefixes alone. -/
theorem rotationStep_own (hopens : writer.OpensOwn) (disk : Disk) {call : RotationCall}
    (hstamped : call.Stamped) :
    (rotationStep (writer, disk) call).1.OpensOwn ∧
      disk.ChangesOnly writer.pathPrefix.Names (rotationStep (writer, disk) call).2 := by
  have hclosed : (writer.finishCurrent disk).1.OpensOwn := by
    intro chunk hchunk
    rw [current_finishCurrent] at hchunk
    cases hchunk
  have hfinished := changesOnly_finishCurrent hopens disk
  cases call with
  | finishCurrent => exact ⟨hclosed, hfinished⟩
  | writeMessage data readings =>
      have hwrites : ∀ {other : RotatingGzWriter gzip}, other.OpensOwn →
          (other.writeAll data).OpensOwn := by
        intro other hother chunk hchunk
        obtain ⟨before, hbefore, rfl⟩ := Option.map_eq_some_iff.mp hchunk
        exact hother before hbefore
      change (writer.writeMessage disk data readings).1.OpensOwn ∧ _
      change _ ∧ Disk.ChangesOnly _ _ (writer.writeMessage disk data readings).2
      unfold RotatingGzWriter.writeMessage RotatingGzWriter.rotateIfNeeded
      by_cases hrotate : writer.shouldRotate readings.checkedAt = true
      · rw [if_pos hrotate]
        have hpath := (setup_finishCurrent writer disk).1
        have hopened := changesOnly_openNew (writer.finishCurrent disk).1
          (writer.finishCurrent disk).2 hstamped
        rw [hpath] at hopened
        exact ⟨hwrites (opensOwn_openNew _ hstamped), hfinished.trans hopened⟩
      · rw [if_neg hrotate]
        exact ⟨hwrites hopens, disk.changesOnly_refl _⟩

theorem pathPrefix_rotationStep (state : RotatingGzWriter gzip × Disk) (call : RotationCall) :
    (rotationStep state call).1.pathPrefix = state.1.pathPrefix :=
  pathPrefix_rotationRun state [call]

theorem rotationRun_own {state : RotatingGzWriter gzip × Disk} (hopens : state.1.OpensOwn)
    {calls : List RotationCall} (hstamped : ∀ call ∈ calls, call.Stamped) :
    state.2.ChangesOnly state.1.pathPrefix.Names (rotationRun state calls).2 := by
  induction calls generalizing state with
  | nil => exact state.2.changesOnly_refl _
  | cons call rest ih =>
      obtain ⟨hnow, hlater⟩ := List.forall_mem_cons.mp hstamped
      obtain ⟨hnext, hchanges⟩ := rotationStep_own hopens state.2 hnow
      have hrest := ih hnext hlater
      rw [pathPrefix_rotationStep] at hrest
      exact hchanges.trans hrest

/-! ## The same writer on another disk -/

/-- Two disks hold the same at some paths, and have created the same of them. -/
structure Disk.Alike (own : Text → Prop) [DecidablePred own] (disk other : Disk) : Prop where
  files : ∀ path, own path → disk.files.lookup path = other.files.lookup path
  created : disk.created.filter own = other.created.filter own

variable {own : Text → Prop} [DecidablePred own] {disk other : Disk}

theorem Disk.Alike.insert (halike : disk.Alike own other) (path : Text) (contents : Bytes)
    (paths : List Text) :
    Disk.Alike own ⟨disk.files.insert path contents, disk.created ++ paths⟩
      ⟨other.files.insert path contents, other.created ++ paths⟩ := by
  refine ⟨fun asked hasked => ?_, ?_⟩
  · by_cases heq : asked = path
    · rw [heq, AList.lookup_insert, AList.lookup_insert]
    · rw [AList.lookup_insert_ne heq, AList.lookup_insert_ne heq, halike.files asked hasked]
  · rw [List.filter_append, List.filter_append, halike.created]

/-- What others write does not show. -/
theorem Disk.Alike.changed {foreign : Text → Prop} {next : Disk} (halike : disk.Alike own other)
    (hchanges : disk.ChangesOnly foreign next) (hapart : ∀ path, own path → ¬ foreign path) :
    next.Alike own other := by
  refine ⟨fun path hpath => ?_, ?_⟩
  · rw [hchanges.files path (hapart path hpath), halike.files path hpath]
  · obtain ⟨paths, hcreated, hforeign⟩ := hchanges.created
    have hnone : paths.filter own = [] := by
      rw [List.filter_eq_nil_iff]
      intro path hpath hown
      exact hapart path (of_decide_eq_true hown) (hforeign path hpath)
    rw [hcreated, List.filter_append, hnone, List.append_nil, halike.created]

theorem alike_finishCurrent (writer : RotatingGzWriter gzip) (halike : disk.Alike own other) :
    (writer.finishCurrent disk).1 = (writer.finishCurrent other).1 ∧
      (writer.finishCurrent disk).2.Alike own (writer.finishCurrent other).2 := by
  unfold RotatingGzWriter.finishCurrent
  cases writer.current with
  | none => exact ⟨rfl, halike⟩
  | some chunk =>
      refine ⟨rfl, ?_⟩
      have hwritten := halike.insert chunk.path
        (gzip.compress writer.compression chunk.encoder) []
      rw [List.append_nil, List.append_nil] at hwritten
      exact hwritten

variable (writer) in
/-- A call does the same on both disks. -/
theorem alike_rotationStep (halike : disk.Alike own other) (call : RotationCall) :
    (rotationStep (writer, disk) call).1 = (rotationStep (writer, other) call).1 ∧
      (rotationStep (writer, disk) call).2.Alike own (rotationStep (writer, other) call).2 := by
  obtain ⟨hwriter, hfinished⟩ := alike_finishCurrent writer halike
  cases call with
  | finishCurrent => exact ⟨hwriter, hfinished⟩
  | writeMessage data readings =>
      unfold rotationStep RotatingGzWriter.writeMessage RotatingGzWriter.rotateIfNeeded
      dsimp only
      by_cases hrotate : writer.shouldRotate readings.checkedAt = true
      · rw [if_pos hrotate, if_pos hrotate]
        unfold RotatingGzWriter.openNew
        dsimp only
        rw [hwriter]
        exact ⟨rfl, hfinished.insert _ _ _⟩
      · rw [if_neg hrotate, if_neg hrotate]
        exact ⟨rfl, halike⟩

end Writer

/-! ## Many writers -/

/-- Writers by name, and the disk they share. -/
structure SharedDisk (ι : Type) (gzip : Gzip) where
  writers : ι → RotatingGzWriter gzip
  disk : Disk

namespace SharedDisk

variable {ι : Type} [DecidableEq ι] {gzip : Gzip}

/-- One call of one of the writers. -/
def step (shared : SharedDisk ι gzip) (call : ι × RotationCall) : SharedDisk ι gzip :=
  let next := rotationStep (shared.writers call.1, shared.disk) call.2
  ⟨Function.update shared.writers call.1 next.1, next.2⟩

/-- The writers and the disk after some calls. -/
def run (shared : SharedDisk ι gzip) (calls : List (ι × RotationCall)) : SharedDisk ι gzip :=
  calls.foldl step shared

/-- The calls of one writer. -/
def callsOf (name : ι) (calls : List (ι × RotationCall)) : List RotationCall :=
  (calls.filter fun call => call.1 = name).map Prod.snd

/-- Every writer has its prefix, and has only chunks of its own open. -/
def Owned (prefixes : ι → PathPrefix) (shared : SharedDisk ι gzip) : Prop :=
  ∀ name, (shared.writers name).pathPrefix = prefixes name ∧ (shared.writers name).OpensOwn

open scoped Classical in
/-- A writer and its files are as in a state where it is alone. -/
structure Isolated (prefixes : ι → PathPrefix) (name : ι) (shared : SharedDisk ι gzip)
    (alone : RotatingGzWriter gzip × Disk) : Prop where
  writer : shared.writers name = alone.1
  disk : shared.disk.Alike (prefixes name).Names alone.2

variable {prefixes : ι → PathPrefix} {shared : SharedDisk ι gzip}

theorem Owned.step (howned : shared.Owned prefixes) {call : ι × RotationCall}
    (hstamped : call.2.Stamped) : (shared.step call).Owned prefixes := by
  intro name
  unfold SharedDisk.step
  dsimp only
  by_cases hname : name = call.1
  · subst hname
    rw [Function.update_self, pathPrefix_rotationStep]
    exact ⟨(howned call.1).1, (rotationStep_own (howned call.1).2 _ hstamped).1⟩
  · rw [Function.update_of_ne hname]
    exact howned name

open scoped Classical in
/-- A call of the writer itself is one it would make alone; a call of another does not
show. -/
theorem Isolated.step {name : ι} {alone : RotatingGzWriter gzip × Disk}
    {call : ι × RotationCall}
    (hapart : call.1 ≠ name → (prefixes call.1).front ≠ (prefixes name).front)
    (howned : shared.Owned prefixes) (h : Isolated prefixes name shared alone)
    (hstamped : call.2.Stamped) :
    Isolated prefixes name (shared.step call)
      (rotationRun alone (callsOf name [call])) := by
  by_cases hname : call.1 = name
  · have hcalls : callsOf name [call] = [call.2] := by
      simp [callsOf, hname]
    rw [hcalls]
    obtain ⟨hwriter, hdisk⟩ := alike_rotationStep alone.1 h.disk call.2
    refine ⟨?_, ?_⟩
    · change Function.update _ _ _ _ = _
      rw [hname, Function.update_self, h.writer, hwriter]
      rfl
    · change Disk.Alike _ (rotationStep (shared.writers call.1, shared.disk) call.2).2 _
      rw [hname, h.writer]
      exact hdisk
  · have hcalls : callsOf name [call] = [] := by
      simp [callsOf, hname]
    rw [hcalls]
    -- another writer opens paths with its own prefix only, which are none of this one's
    obtain ⟨hpath, hopens⟩ := howned call.1
    have hchanges := (rotationStep_own hopens shared.disk hstamped).2
    refine ⟨?_, ?_⟩
    · change Function.update _ _ _ _ = _
      rw [Function.update_of_ne (Ne.symm hname)]
      exact h.writer
    · apply h.disk.changed hchanges
      intro path hown hforeign
      rw [hpath] at hforeign
      exact hapart hname ((names_both_iff _ _).mp ⟨path, hforeign, hown⟩)

theorem callsOf_cons (name : ι) (call : ι × RotationCall) (rest : List (ι × RotationCall)) :
    callsOf name (call :: rest) = callsOf name [call] ++ callsOf name rest := by
  unfold callsOf
  rw [← List.map_append, ← List.filter_append]
  rfl

open scoped Classical in
/-- **Writers do not meet.**  Where the prefixes of the others differ in what their paths
begin with, a writer and its files are after any calls as if it had made its own calls
alone. -/
theorem run_alone {name : ι} {calls : List (ι × RotationCall)}
    (hapart : ∀ call ∈ calls, call.1 ≠ name → (prefixes call.1).front ≠ (prefixes name).front)
    (hstamped : ∀ call ∈ calls, call.2.Stamped) (howned : shared.Owned prefixes)
    {alone : RotatingGzWriter gzip × Disk} (h : Isolated prefixes name shared alone) :
    Isolated prefixes name (shared.run calls) (rotationRun alone (callsOf name calls)) := by
  induction calls generalizing shared alone with
  | nil => exact h
  | cons call rest ih =>
      obtain ⟨hnow, hlater⟩ := List.forall_mem_cons.mp hstamped
      obtain ⟨hapartNow, hapartLater⟩ := List.forall_mem_cons.mp hapart
      rw [callsOf_cons, rotationRun, List.foldl_append]
      exact ih hapartLater hlater (howned.step hnow) (h.step hapartNow howned hnow)

end SharedDisk

end Tlscap
