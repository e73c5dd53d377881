import Tlscap.Keylog.Model
import Tlscap.Tls.Recording
import Tlscap.Library.Run

/-!
# The reader and the writer of a keylog file

The writer appends to the file whenever it likes, the reader reads it and stats it in separate
operations.  The state is the file and how far the reader is; an input is one operation of
either side.  Every interleaving is a run (`KeylogWatch.step`), and the operations put
together, with nothing in between, are those of the source (`advance_poll`,
`advance_statMiss`).

## Strategy

The signature of a reload is taken after its contents: what is appended in between is vouched
for and not read.  So the signature can be trusted in every state of a run if and only if
every stat finds the file parsing as it did when it was read (`signature_vouches_iff`).

* **A file only grows**, so its length tells an earlier state of it from the present one
  (`GrowsTo.eq_of_signature_eq`).
* **The invariant** is that signature and keylog come from the file as it was at one time
  (`Consistent`).  Appending keeps it, and of the reader's operations only a stat completes
  something new (`advance_cases`): then the time is that of the stat, if what was read
  parses as the file does now.
* **It is enough**: a signature that is the file's comes from the file as it is, and then so
  does the keylog (`Consistent.vouches`).
* **It is needed**: behind a stat the signature is the file's, so it vouches for what was
  read (`Vouches.statsWhatItRead`).
-/

namespace Tlscap

/-! ## The file, the reader and what they do -/

/-- The keylog file. -/
structure KeylogFile where
  content : Text
  mtime : Option ℕ
  deriving DecidableEq, Repr

namespace KeylogFile

/-- The length in bytes. -/
def len (file : KeylogFile) : ℕ := (file.content.map Char.utf8Size).sum

/-- What there is to read; a file that does not exist counts as empty. -/
def contents : Option KeylogFile → Text
  | none => []
  | some file => file.content

/-- `stat_signature`. -/
def signature : Option KeylogFile → Signature
  | none => ⟨none, none⟩
  | some file => ⟨file.mtime, some file.len⟩

/-- The file after an append; the first one creates it. -/
def append (more : Text) (mtime : Option ℕ) : Option KeylogFile → KeylogFile
  | none => ⟨more, mtime⟩
  | some file => if more = [] then file else ⟨file.content ++ more, mtime⟩

end KeylogFile

/-- How far the reader is. -/
inductive Reader
  /-- `open` has not read the file. -/
  | unopened
  /-- `open` has read the file and is about to stat it. -/
  | opened (reloadInterval : Duration) (text : Text)
  | idle (source : KeylogSource)
  /-- A reload is about to read the file. -/
  | reloading (source : KeylogSource) (attempt : Instant)
  /-- A reload has read the file and is about to stat it. -/
  | reread (source : KeylogSource) (attempt : Instant) (text : Text)

namespace Reader

/-- The source a reader holds, if it is open. -/
def source? : Reader → Option KeylogSource
  | unopened | opened _ _ => none
  | idle source | reloading source _ | reread source _ _ => some source

/-- What a stat would be taken for: the text that has been read before it. -/
def awaitsStat? : Reader → Option Text
  | opened _ text | reread _ _ text => some text
  | unopened | idle _ | reloading _ _ => none

end Reader

/-- The file and the reader. -/
structure KeylogWatch where
  file : Option KeylogFile
  reader : Reader

/-- One operation of the writer or of the reader.  An operation that is not the
reader's next one does nothing. -/
inductive WatchEvent
  | append (more : Text) (mtime : Option ℕ)
  /-- `open` reads the file, unless reading fails. -/
  | openRead (reloadInterval : Duration) (now : Instant) (fails : Bool)
  /-- `poll` looks at the clock, and starts a reload at `attempt` if it is time. -/
  | poll (now attempt : Instant)
  /-- `poll_after_miss` stats the file, and starts a reload if the signature differs. -/
  | statMiss (attempt : Instant)
  /-- A reload reads the file, unless reading fails. -/
  | read (fails : Bool)
  /-- `open` or a reload stats the file. -/
  | stat (now : Instant)
  deriving DecidableEq, Repr

namespace KeylogWatch

variable (hexDecode : Text → Option Bytes)

/-- What `read_to_string` returns. -/
def readToString (file : Option KeylogFile) (fails : Bool) : Except ReadError Text :=
  if fails then .error .other
  else match file with
    | none => .error .notFound
    | some file => .ok file.content

/-- The reader after the first read of `open`. -/
def openRead (file : Option KeylogFile) (reloadInterval : Duration) (now : Instant)
    (fails : Bool) : Reader :=
  match readToString file fails with
  | .ok text => .opened reloadInterval text
  | .error error =>
      match KeylogSource.openPath hexDecode (.error error) ⟨none, none⟩ reloadInterval now with
      | .ok source => .idle source
      | .error _ => .unopened

/-- The reader after its next operation. -/
def advance (file : Option KeylogFile) (reader : Reader) (event : WatchEvent) : Reader :=
  match reader, event with
  | .unopened, .openRead reloadInterval now fails =>
      openRead hexDecode file reloadInterval now fails
  | .opened reloadInterval text, .stat now =>
      match KeylogSource.openPath hexDecode (.ok text) (KeylogFile.signature file) reloadInterval
          now with
      | .ok source => .idle source
      | .error _ => .unopened
  | .idle source, .poll now attempt =>
      if source.hasPath ∧ source.reloadInterval ≤ elapsed source.lastReloadAttempt now then
        .reloading source attempt
      else .idle source
  | .idle source, .statMiss attempt =>
      if source.hasPath ∧ KeylogFile.signature file ≠ source.lastSeen then
        .reloading source attempt
      else .idle source
  | .reloading source attempt, .read fails =>
      match readToString file fails with
      | .ok text => .reread source attempt text
      | .error _ => .idle (source.reloadIfChanged hexDecode ⟨attempt, none, ⟨none, none⟩⟩)
  | .reread source attempt text, .stat _ =>
      .idle (source.reloadIfChanged hexDecode ⟨attempt, some text, KeylogFile.signature file⟩)
  | reader, _ => reader

/-- One operation of either side. -/
def step (watch : KeylogWatch) (event : WatchEvent) : KeylogWatch × Unit :=
  match event with
  | .append more mtime =>
      ({ watch with file := some (KeylogFile.append more mtime watch.file) }, ())
  | event => ({ watch with reader := advance hexDecode watch.file watch.reader event }, ())

/-- A file, or none, before it is opened. -/
def start (file : Option KeylogFile) : KeylogWatch := ⟨file, .unopened⟩

/-! ## The operations put together -/

/-- The operations of a `poll`, with the file as each of them finds it. -/
theorem advance_poll (source : KeylogSource) (file fileRead fileStat : Option KeylogFile)
    (now attempt later : Instant) (fails : Bool) :
    advance hexDecode fileStat (advance hexDecode fileRead
        (advance hexDecode file (.idle source) (.poll now attempt)) (.read fails))
        (.stat later) =
      .idle (source.poll hexDecode now ⟨attempt, (readToString fileRead fails).toOption,
        KeylogFile.signature fileStat⟩) := by
  unfold KeylogSource.poll
  simp only [advance]
  split_ifs with hdue
  · cases hread : readToString fileRead fails <;> simp [hread, Except.toOption,
      KeylogSource.reloadIfChanged, hdue.1]
  · rfl

/-- The operations of a `poll_after_miss`. -/
theorem advance_statMiss (source : KeylogSource) (file fileRead fileStat : Option KeylogFile)
    (attempt later : Instant) (fails : Bool) :
    advance hexDecode fileStat (advance hexDecode fileRead
        (advance hexDecode file (.idle source) (.statMiss attempt)) (.read fails))
        (.stat later) =
      .idle (source.pollAfterMiss hexDecode (KeylogFile.signature file)
        ⟨attempt, (readToString fileRead fails).toOption, KeylogFile.signature fileStat⟩) := by
  unfold KeylogSource.pollAfterMiss
  simp only [advance]
  split_ifs with hchanged
  · cases hread : readToString fileRead fails <;> simp [hread, Except.toOption,
      KeylogSource.reloadIfChanged, hchanged.1]
  · rfl

end KeylogWatch

/-! ## A file only grows -/

namespace KeylogFile

/-- How much there is of a file; none at all is less than an empty one. -/
def rank : Option KeylogFile → ℕ
  | none => 0
  | some file => file.len + 1

/-- A file as it was at some earlier time. -/
def GrowsTo (seen file : Option KeylogFile) : Prop := seen = file ∨ rank seen < rank file

theorem rank_eq_of_signature_eq {first second : Option KeylogFile}
    (h : signature first = signature second) : rank first = rank second := by
  cases first <;> cases second <;> simp_all [signature, rank]

theorem len_pos {more : Text} (hmore : more ≠ []) : 0 < (more.map Char.utf8Size).sum := by
  cases more with
  | nil => exact absurd rfl hmore
  | cons c rest =>
      rw [List.map_cons, List.sum_cons]
      exact Nat.add_pos_left c.utf8Size_pos _

theorem GrowsTo.append {seen file : Option KeylogFile} (h : GrowsTo seen file) (more : Text)
    (mtime : Option ℕ) : GrowsTo seen (some (KeylogFile.append more mtime file)) := by
  have happend : GrowsTo file (some (KeylogFile.append more mtime file)) := by
    cases file with
    | none => exact .inr (Nat.succ_pos _)
    | some file =>
        unfold KeylogFile.append
        split_ifs with hmore
        · exact .inl rfl
        · refine .inr ?_
          have hpos := len_pos hmore
          simp only [rank, len, List.map_append, List.sum_append]
          omega
  rcases h with rfl | hlt
  · exact happend
  · rcases happend with heq | hgrown
    · rw [← heq]
      exact .inr hlt
    · exact .inr (hlt.trans hgrown)

/-- The signature tells an earlier state of the file from the present one. -/
theorem GrowsTo.eq_of_signature_eq {seen file : Option KeylogFile} (h : GrowsTo seen file)
    (hsignature : signature seen = signature file) : seen = file := by
  rcases h with heq | hlt
  · exact heq
  · exact absurd (rank_eq_of_signature_eq hsignature) hlt.ne

end KeylogFile

/-! ## What the signature vouches for -/

namespace KeylogWatch

open KeylogFile

variable (hexDecode : Text → Option Bytes)

/-- If the signature is that of the file, the keylog is that of its contents. -/
def Vouches (watch : KeylogWatch) : Prop :=
  ∀ source ∈ watch.reader.source?, source.lastSeen = signature watch.file →
    source.current = Keylog.parse hexDecode (contents watch.file)

/-- Where `poll_after_miss` does not reload, the keylog is that of the file. -/
def SkipsOnlyUnchanged (watch : KeylogWatch) : Prop :=
  ∀ source attempt, watch.reader = .idle source →
    (step hexDecode watch (.statMiss attempt)).1.reader = .idle source →
      source.current = Keylog.parse hexDecode (contents watch.file)

/-- A stat that ends an open or a reload finds the file parsing as it did when it was
read: nothing else was appended in between. -/
def StatsWhatItRead (watch : KeylogWatch) (event : WatchEvent) : Prop :=
  ∀ now text, event = .stat now → watch.reader.awaitsStat? = some text →
    Keylog.parse hexDecode text = Keylog.parse hexDecode (contents watch.file)

/-- The readers that opened a file. -/
def HasPath (watch : KeylogWatch) : Prop :=
  ∀ source ∈ watch.reader.source?, source.hasPath = true

/-- The signature and the keylog come from the file as it was at one time. -/
def Consistent (watch : KeylogWatch) : Prop :=
  ∀ source ∈ watch.reader.source?, ∃ seen, GrowsTo seen watch.file ∧
    source.lastSeen = signature seen ∧ source.current = Keylog.parse hexDecode (contents seen)

/-- What one operation of the reader does: a stat completes what has been read, a file
that does not exist is opened as empty, and nothing else changes what is known. -/
theorem advance_cases {watch : KeylogWatch} (hpath : watch.HasPath) (event : WatchEvent) :
    (∃ now text source, event = .stat now ∧ watch.reader.awaitsStat? = some text ∧
        advance hexDecode watch.file watch.reader event = .idle source ∧ source.hasPath = true ∧
        source.lastSeen = signature watch.file ∧ source.current = Keylog.parse hexDecode text) ∨
      (∃ source, watch.file = none ∧
        advance hexDecode watch.file watch.reader event = .idle source ∧ source.hasPath = true ∧
        source.lastSeen = signature none ∧
        source.current = Keylog.parse hexDecode []) ∨
      ∀ source ∈ (advance hexDecode watch.file watch.reader event).source?,
        ∃ before ∈ watch.reader.source?, source.hasPath = before.hasPath ∧
          source.lastSeen = before.lastSeen ∧ source.current = before.current := by
  obtain ⟨file, reader⟩ := watch
  cases reader with
  | unopened =>
      cases event with
      | openRead reloadInterval now fails =>
          cases fails with
          | true => exact .inr (.inr fun _ hsource => nomatch hsource)
          | false =>
              cases file with
              -- a missing file is opened as an empty keylog
              | none => exact .inr (.inl ⟨_, rfl, rfl, rfl, rfl, rfl⟩)
              | some file => exact .inr (.inr fun _ hsource => nomatch hsource)
      | _ => exact .inr (.inr fun _ hsource => nomatch hsource)
  | opened reloadInterval text =>
      cases event with
      -- the stat comes after the read: the signature may be newer than the text
      | stat now => exact .inl ⟨now, text, _, rfl, rfl, rfl, rfl, rfl, rfl⟩
      | _ => exact .inr (.inr fun _ hsource => nomatch hsource)
  | idle source =>
      refine .inr (.inr fun after hafter => ⟨source, rfl, ?_⟩)
      cases event with
      | poll now attempt =>
          simp only [advance] at hafter
          split_ifs at hafter <;> cases hafter <;> exact ⟨rfl, rfl, rfl⟩
      | statMiss attempt =>
          simp only [advance] at hafter
          split_ifs at hafter <;> cases hafter <;> exact ⟨rfl, rfl, rfl⟩
      | _ => cases hafter; exact ⟨rfl, rfl, rfl⟩
  | reloading source attempt =>
      refine .inr (.inr fun after hafter => ⟨source, rfl, ?_⟩)
      have hsource : source.hasPath = true := hpath source rfl
      cases event with
      | read fails =>
          simp only [advance] at hafter
          cases hread : readToString file fails <;> rw [hread] at hafter <;> cases hafter
          · simp [KeylogSource.reloadIfChanged, hsource]
          · exact ⟨rfl, rfl, rfl⟩
      | _ => cases hafter; exact ⟨rfl, rfl, rfl⟩
  | reread source attempt text =>
      have hsource : source.hasPath = true := hpath source rfl
      cases event with
      | stat now =>
          refine .inl ⟨now, text, _, rfl, rfl, rfl, ?_⟩
          simp [KeylogSource.reloadIfChanged, hsource]
      | _ =>
          refine .inr (.inr fun after hafter => ⟨source, rfl, ?_⟩)
          cases hafter
          exact ⟨rfl, rfl, rfl⟩

/-- An operation appends to the file or is the reader's. -/
theorem step_cases (watch : KeylogWatch) (event : WatchEvent) :
    (∃ more mtime, event = .append more mtime) ∨
      (step hexDecode watch event).1 =
        ⟨watch.file, advance hexDecode watch.file watch.reader event⟩ := by
  cases event with
  | append more mtime => exact .inl ⟨more, mtime, rfl⟩
  | openRead _ _ _ | poll _ _ | statMiss _ | read _ | stat _ => exact .inr rfl

theorem HasPath.step {watch : KeylogWatch} (hpath : watch.HasPath) (event : WatchEvent) :
    (step hexDecode watch event).1.HasPath := by
  intro source hsource
  rcases step_cases hexDecode watch event with ⟨more, mtime, rfl⟩ | hstep
  · exact hpath source hsource
  · rw [hstep] at hsource
    rcases advance_cases hexDecode hpath event with
      ⟨_, _, after, -, -, hafter, hhas, -⟩ | ⟨after, -, hafter, hhas, -⟩ | hkept
    · rw [hafter] at hsource
      cases hsource
      exact hhas
    · rw [hafter] at hsource
      cases hsource
      exact hhas
    · obtain ⟨before, hbefore, hhas, -⟩ := hkept source hsource
      rw [hhas]
      exact hpath before hbefore

variable {hexDecode}

/-- One operation keeps what is known consistent, unless it is a stat that finds the
file parsing otherwise than it was read. -/
theorem Consistent.step {watch : KeylogWatch} (hpath : watch.HasPath)
    (hconsistent : watch.Consistent hexDecode) {event : WatchEvent}
    (hstat : StatsWhatItRead hexDecode watch event) :
    (step hexDecode watch event).1.Consistent hexDecode := by
  intro source hsource
  rcases step_cases hexDecode watch event with ⟨more, mtime, rfl⟩ | hstep
  · obtain ⟨seen, hgrows, hseen⟩ := hconsistent source hsource
    exact ⟨seen, hgrows.append more mtime, hseen⟩
  · rw [hstep] at hsource ⊢
    rcases advance_cases hexDecode hpath event with
      ⟨now, text, after, hevent, hawaits, hafter, -, hseen, hcurrent⟩ |
      ⟨after, hnone, hafter, -, hseen, hcurrent⟩ | hkept
    · rw [hafter] at hsource
      cases hsource
      refine ⟨watch.file, .inl rfl, hseen, ?_⟩
      rw [hcurrent]
      exact hstat now text hevent hawaits
    · rw [hafter] at hsource
      cases hsource
      exact ⟨none, .inl hnone.symm, hseen, hcurrent⟩
    · obtain ⟨before, hbefore, -, hseen, hcurrent⟩ := hkept source hsource
      obtain ⟨seen, hgrows, hsignature, hparsed⟩ := hconsistent before hbefore
      exact ⟨seen, hgrows, hseen.trans hsignature, hcurrent.trans hparsed⟩

theorem Consistent.vouches {watch : KeylogWatch} (hconsistent : watch.Consistent hexDecode) :
    watch.Vouches hexDecode := by
  intro source hsource hsame
  obtain ⟨seen, hgrows, hseen, hcurrent⟩ := hconsistent source hsource
  rw [hcurrent, hgrows.eq_of_signature_eq (hseen.symm.trans hsame)]

theorem Vouches.skips {watch : KeylogWatch} (hpath : watch.HasPath)
    (hvouches : watch.Vouches hexDecode) : watch.SkipsOnlyUnchanged hexDecode := by
  intro source attempt hidle hskips
  have hsource : source ∈ watch.reader.source? := by rw [hidle]; rfl
  apply hvouches source hsource
  by_contra hchanged
  simp only [step, hidle, advance] at hskips
  rw [if_pos ⟨hpath source hsource, fun heq => hchanged heq.symm⟩] at hskips
  cases hskips

/-- After a stat, the signature is that of the file: it vouches for what was read. -/
theorem Vouches.statsWhatItRead {watch : KeylogWatch} (hpath : watch.HasPath)
    {event : WatchEvent} (hnext : (step hexDecode watch event).1.Vouches hexDecode) :
    StatsWhatItRead hexDecode watch event := by
  rintro now text rfl hawaits
  obtain ⟨file, reader⟩ := watch
  cases reader with
  | opened reloadInterval read =>
      cases hawaits
      exact hnext _ rfl rfl
  | reread source attempt read =>
      cases hawaits
      have hsource : source.hasPath = true := hpath source rfl
      have hafter := hnext _ rfl
      simp only [step, advance, KeylogSource.reloadIfChanged, hsource, if_true] at hafter
      exact hafter trivial
  | unopened => cases hawaits
  | idle source => cases hawaits
  | reloading source attempt => cases hawaits

theorem always_iff_throughout {watch : KeylogWatch} (hpath : watch.HasPath)
    (hconsistent : watch.Consistent hexDecode) (events : List WatchEvent) :
    Machine.Always (step hexDecode)
        (fun watch => watch.Vouches hexDecode ∧ watch.SkipsOnlyUnchanged hexDecode) watch events ↔
      Machine.Throughout (step hexDecode) (StatsWhatItRead hexDecode) watch events := by
  have hnow : watch.Vouches hexDecode ∧ watch.SkipsOnlyUnchanged hexDecode :=
    ⟨hconsistent.vouches, hconsistent.vouches.skips hpath⟩
  induction events generalizing watch with
  | nil => exact iff_of_true hnow trivial
  | cons event rest ih =>
      constructor
      · intro halways
        have hnext : (step hexDecode watch event).1.Vouches hexDecode := by
          cases rest with
          | nil => exact halways.2.1
          | cons _ _ => exact halways.2.1.1
        have hstat := hnext.statsWhatItRead hpath
        have hkept := hconsistent.step hpath hstat
        exact ⟨hstat, (ih (hpath.step hexDecode event) hkept
          ⟨hkept.vouches, hkept.vouches.skips (hpath.step hexDecode event)⟩).mp halways.2⟩
      · rintro ⟨hstat, hrest⟩
        have hkept := hconsistent.step hpath hstat
        exact ⟨hnow, (ih (hpath.step hexDecode event) hkept
          ⟨hkept.vouches, hkept.vouches.skips (hpath.step hexDecode event)⟩).mpr hrest⟩

variable (hexDecode) in
/-- In every interleaving, the signature vouches for what was read throughout exactly
when every stat finds the file as it was read. -/
theorem signature_vouches_iff (file : Option KeylogFile) (events : List WatchEvent) :
    Machine.Always (step hexDecode)
        (fun watch => watch.Vouches hexDecode ∧ watch.SkipsOnlyUnchanged hexDecode) (start file)
        events ↔
      Machine.Throughout (step hexDecode) (StatsWhatItRead hexDecode) (start file) events := by
  apply always_iff_throughout
  · intro source hsource
    cases hsource
  · intro source hsource
    cases hsource

/-! ## A line appended between read and stat -/

namespace LateLine

/-- A keylog of one line. -/
def file : KeylogFile := ⟨"CLIENT_RANDOM aa bb\n".toList, some 1⟩

/-- The file is opened, grows by a line before the stat, and a key is missed. -/
def events : List WatchEvent :=
  [.openRead 1000000000 0 false, .append "CLIENT_RANDOM cc dd\n".toList (some 2), .stat 1,
    .statMiss 2]

/-- The signature is that of both lines, the keylog has the first. -/
theorem line_vouched_for_unread :
    ¬ ∀ (file : Option KeylogFile) (events : List WatchEvent),
      Machine.Always (step Recording.hexDecode)
        (fun watch => watch.Vouches Recording.hexDecode ∧
          watch.SkipsOnlyUnchanged Recording.hexDecode) (start file) events := by
  intro hvouches
  have hlast := (hvouches (some file) events).last.1
  have hsource : (Machine.run (step Recording.hexDecode) (start (some file)) events).1.reader =
      .idle ⟨true, 1000000000, 1, ⟨some 2, some 40⟩,
        Keylog.parse Recording.hexDecode file.content⟩ := rfl
  have hcurrent := hlast _ (by rw [hsource]; rfl) (by decide +kernel)
  have hcontents :
      contents (Machine.run (step Recording.hexDecode) (start (some file)) events).1.file =
      "CLIENT_RANDOM aa bb\nCLIENT_RANDOM cc dd\n".toList := rfl
  rw [hcontents] at hcurrent
  have hcount := congrArg Keylog.entryCount hcurrent
  revert hcount
  decide +kernel

end LateLine

end KeylogWatch

end Tlscap
