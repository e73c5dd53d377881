import Tlscap.Connection.Session
import Tlscap.Keylog.Growth
import Tlscap.Orchestrator.Frame

/-!
# Keys that arrive late

A record without a key is discarded, and the counter of its lane moves only when a record is
decrypted.  So once the first record of a lane is missed, the counter stays behind the peer's
numbering for good: no later record of the lane is decrypted, whether or not its secret is in
the keylog by then.  A lane is decrypted from its first record on, or not at all
(`decrypted_once_visible_iff`).

## Strategy

A run here is one connection in the middle of everything that moves the keylog reader: the
file grows by whole lines, records of the connection are drained, and other connections poll
the reader too (`Moment`).  The file is honest: what it binds of the session are its secrets
(`LogsOnly`).

* **The reader** has read the file or an earlier state of it, and rereading it, whenever that
  happens, forgets no secret (`ReadFrom.reread`).
* **The counters** count the records of the lanes whose first record had its secret; the
  others count as if nothing had been sent (`counted`).  This is the invariant
  (`Consistent`).
* **A record of a lane held from the start** is numbered by its counter and its secret is
  still there, so it is decrypted.
* **A record of a lane that was missed** is tried under a number that was given to another
  record, or to none, so it is not.  The counter stays.

A lane's secrets may be in the file before the reader has seen them.  `heldFirst` says
whether the reader had them for the lane's first record, and the equivalence is between this
and being decrypted, for the records drained once the secrets are in the file.
-/

namespace Tlscap

namespace LateKey

/-! ## Runs -/

/-- What the keylog operations around an attempt see, the file apart: clock
readings, `stat` results, and whether reading the file succeeds. -/
structure AttemptReadings where
  pollClock : Instant
  pollAttempt : Instant
  pollSucceeds : Bool
  pollSignature : Signature
  missSignature : Signature
  missAttempt : Instant
  missSucceeds : Bool
  missReloadSignature : Signature

/-- The readings when the file has these contents. -/
def AttemptReadings.on (readings : AttemptReadings) (file : Text) : KeylogReadings where
  pollClock := readings.pollClock
  pollReload :=
    ⟨readings.pollAttempt, if readings.pollSucceeds then some file else none,
      readings.pollSignature⟩
  missSignature := readings.missSignature
  missReload :=
    ⟨readings.missAttempt, if readings.missSucceeds then some file else none,
      readings.missReloadSignature⟩

/-- Something that happens: the file grows by whole lines, a record of the
connection is drained, or an attempt on another connection polls the reader. -/
inductive Moment
  | grow (text : Text)
  | drain (wire : WireRecord) (readings : AttemptReadings)
  | elsewhere (readings : AttemptReadings) (missed : Bool)

/-- The file, the reader and the connection.  `numbering` and `heldFirst` record the
past: how many records of each lane were drained, and whether the reader had the
lane's secret when the first of them was. -/
structure World where
  file : Text
  source : KeylogSource
  state : ConnectionState
  numbering : Numbering
  heldFirst : Bool → Option Generation → Bool

/-- A drained record of the session: whether the secrets of its direction were in
the file by then, whether the reader had the secret for the first record of its
lane, and the result. -/
structure Drained where
  record : SessionRecord
  visible : Bool
  heldFirst : Bool
  result : Except ProcessError DecryptedRecord

/-- Whether a keylog has the secret of a lane. -/
def holds (session : Session) (keylog : Keylog) (isClient : Bool) (lane : Option Generation) :
    Bool :=
  (keylog.secretFor session.clientRandom (laneLabel isClient lane)).isSome

/-- Whether a keylog has all the secrets of a direction. -/
def holdsDirection (session : Session) (keylog : Keylog) (isClient : Bool) : Bool :=
  [some .handshake, some .application, none].all fun lane =>
    (session.secrets (laneLabel isClient lane)).isNone || holds session keylog isClient lane

namespace World

/-- The start: both hellos have been drained, and no record after them. -/
def start (session : Session) (learned : Bool) (file : Text) (source : KeylogSource) :
    World where
  file := file
  source := source
  state := session.start learned
  numbering _ _ := 0
  heldFirst _ _ := false

/-- The reader after the poll that precedes an attempt. -/
def polled (crypto : Crypto) (world : World) (readings : AttemptReadings) : KeylogSource :=
  world.source.poll crypto.hexDecode (readings.on world.file).pollClock
    (readings.on world.file).pollReload

/-- Whether the reader had the secret for the first record of each lane, once a
record is drained. -/
def heldFirstAfter (crypto : Crypto) (session : Session) (world : World)
    (record : SessionRecord) (readings : AttemptReadings) : Bool → Option Generation → Bool :=
  fun isClient lane =>
    if isClient = record.isClient ∧ lane = record.version.lane ∧
        world.numbering isClient lane = 0 then
      holds session (world.polled crypto readings).current isClient lane
    else world.heldFirst isClient lane

/-- One moment. -/
def step (crypto : Crypto) (session : Session) (world : World) : Moment → World × Option Drained
  | .grow text => ({ world with file := world.file ++ (text ++ ['\n']) }, none)
  | .elsewhere readings missed =>
      let polled := world.polled crypto readings
      let on := readings.on world.file
      ({ world with
          source :=
            if missed then polled.pollAfterMiss crypto.hexDecode on.missSignature on.missReload
            else polled }, none)
  | .drain (.foreign isClient wireType body) readings =>
      let after := attemptDecrypt crypto world.source world.state (readings.on world.file)
        isClient wireType body
      ({ world with source := after.1, state := after.2.1 }, none)
  | .drain (.honest record wireType body) readings =>
      let lane := record.version.lane
      let after := attemptDecrypt crypto world.source world.state (readings.on world.file)
        record.isClient wireType body
      let heldFirst := world.heldFirstAfter crypto session record readings
      ({ world with
          source := after.1
          state := after.2.1
          numbering := world.numbering.next record.isClient lane
          heldFirst },
        some
          { record
            visible :=
              holdsDirection session (Keylog.parse crypto.hexDecode world.file) record.isClient
            heldFirst := heldFirst record.isClient lane
            result := after.2.2 })

end World

/-- The records drained in a run. -/
def drained : List Moment → List WireRecord
  | [] => []
  | .drain wire _ :: rest => wire :: drained rest
  | _ :: rest => drained rest

/-- Whatever the file has, or gets, of the session are its secrets. -/
def LogsOnly (crypto : Crypto) (session : Session) (file : Text) (moments : List Moment) :
    Prop :=
  Keylog.LinesBindOnly crypto.hexDecode session.clientRandom session.secrets file ∧
    ∀ text, Moment.grow text ∈ moments →
      Keylog.LinesBindOnly crypto.hexDecode session.clientRandom session.secrets (text ++ ['\n'])

/-! ## The reader -/

/-- A keylog that was read from the file or an earlier state of it. -/
structure ReadFrom (crypto : Crypto) (session : Session) (file : Text) (keylog : Keylog) :
    Prop where
  binds : keylog.BindsOnly session.clientRandom session.secrets
  visible : ∀ isClient lane, holds session keylog isClient lane →
    holds session (Keylog.parse crypto.hexDecode file) isClient lane

section Reader

variable {crypto : Crypto} {session : Session} {file : Text} {keylog keylog' : Keylog}

theorem readFrom_parse
    (hfile : (Keylog.parse crypto.hexDecode file).BindsOnly session.clientRandom session.secrets) :
    ReadFrom crypto session file (Keylog.parse crypto.hexDecode file) :=
  ⟨hfile, fun _ _ => id⟩

/-- Rereading the file, or not, never forgets a secret of the session. -/
theorem ReadFrom.reread (hread : ReadFrom crypto session file keylog)
    (hfile : (Keylog.parse crypto.hexDecode file).BindsOnly session.clientRandom session.secrets)
    (hreread : keylog' = keylog ∨ keylog' = Keylog.parse crypto.hexDecode file) :
    ReadFrom crypto session file keylog' ∧
      ∀ isClient lane, holds session keylog isClient lane →
        holds session keylog' isClient lane := by
  rcases hreread with rfl | rfl
  · exact ⟨hread, fun _ _ => id⟩
  · exact ⟨readFrom_parse hfile, hread.visible⟩

theorem polled_current (crypto : Crypto) (world : World) (readings : AttemptReadings) :
    (world.polled crypto readings).current = world.source.current ∨
      (world.polled crypto readings).current = Keylog.parse crypto.hexDecode world.file := by
  rcases world.source.poll_current crypto.hexDecode (readings.on world.file).pollClock
    (readings.on world.file).pollReload with hsame | ⟨text, hcontents, hparse⟩
  · exact .inl hsame
  · right
    simp only [AttemptReadings.on] at hcontents
    split at hcontents
    · cases hcontents
      exact hparse
    · cases hcontents

theorem pollAfterMiss_on_current (crypto : Crypto) (source : KeylogSource)
    (readings : AttemptReadings) (file : Text) :
    (source.pollAfterMiss crypto.hexDecode (readings.on file).missSignature
        (readings.on file).missReload).current = source.current ∨
      (source.pollAfterMiss crypto.hexDecode (readings.on file).missSignature
        (readings.on file).missReload).current = Keylog.parse crypto.hexDecode file := by
  rcases source.pollAfterMiss_current crypto.hexDecode (readings.on file).missSignature
    (readings.on file).missReload with hsame | ⟨text, hcontents, hparse⟩
  · exact .inl hsame
  · right
    simp only [AttemptReadings.on] at hcontents
    split at hcontents
    · cases hcontents
      exact hparse
    · cases hcontents

/-- An attempt decrypts with the polled keylog, and leaves a reader that may have
reread the file once more. -/
theorem attemptDecrypt_polled (crypto : Crypto) (world : World) (readings : AttemptReadings)
    (isClient : Bool) (wireType : UInt8) (body : Bytes) :
    (attemptDecrypt crypto world.source world.state (readings.on world.file) isClient wireType
        body).2 =
      world.state.decrypt crypto (world.polled crypto readings).current isClient wireType body ∧
    ((attemptDecrypt crypto world.source world.state (readings.on world.file) isClient wireType
        body).1.current = (world.polled crypto readings).current ∨
      (attemptDecrypt crypto world.source world.state (readings.on world.file) isClient wireType
        body).1.current = Keylog.parse crypto.hexDecode world.file) := by
  obtain ⟨hleft, hdecrypted⟩ := attemptDecrypt_spec crypto world.source world.state
    (readings.on world.file) isClient wireType body
  refine ⟨hdecrypted, ?_⟩
  rcases hleft with hleft | hleft
  · exact .inl (congrArg KeylogSource.current hleft)
  · rw [hleft]
    exact pollAfterMiss_on_current crypto (world.polled crypto readings) readings world.file

end Reader

/-! ## The invariant -/

/-- The numbering of the lanes whose first record had its secret; the others count
as if nothing had been sent. -/
def counted (numbering : Numbering) (heldFirst : Bool → Option Generation → Bool) : Numbering :=
  fun isClient lane => if heldFirst isClient lane then numbering isClient lane else 0

/-- The receiver's counters count the lanes whose first record had its secret. -/
structure Consistent (session : Session) (crypto : Crypto) (learned : Bool) (world : World) :
    Prop where
  wholeLines : Keylog.WholeLines world.file
  fileBinds : (Keylog.parse crypto.hexDecode world.file).BindsOnly session.clientRandom
    session.secrets
  reads : ReadFrom crypto session world.file world.source.current
  follows : session.Follows crypto learned (counted world.numbering world.heldFirst) world.state
  held : ∀ isClient lane, world.heldFirst isClient lane →
    holds session world.source.current isClient lane
  started : ∀ isClient lane, world.numbering isClient lane = 0 →
    world.heldFirst isClient lane = false

section Run

variable {crypto : Crypto} {log : Bytes → Option Sealing} {session : Session} {learned : Bool}
  {world : World}

theorem consistent_start (crypto : Crypto) (learned : Bool) {file : Text} {source : KeylogSource}
    (hwhole : Keylog.WholeLines file)
    (hfile : Keylog.LinesBindOnly crypto.hexDecode session.clientRandom session.secrets file)
    (hsource : source.current = Keylog.parse crypto.hexDecode file) :
    Consistent session crypto learned (World.start session learned file source) := by
  have hbinds : (Keylog.parse crypto.hexDecode file).BindsOnly session.clientRandom
      session.secrets :=
    fun label => (Keylog.foldl_addLine hfile (fun _ _ hempty => by cases hempty) label).2
  refine ⟨hwhole, hbinds, ?_, ?_, nofun, fun _ _ _ => rfl⟩
  · rw [World.start, hsource]
    exact readFrom_parse hbinds
  · exact session.follows_start crypto learned

/-- Growth by lines of the session's secrets. -/
theorem Consistent.grow (hconsistent : Consistent session crypto learned world) {text : Text}
    (htext : Keylog.LinesBindOnly crypto.hexDecode session.clientRandom session.secrets
      (text ++ ['\n'])) :
    Consistent session crypto learned
      { world with file := world.file ++ (text ++ ['\n']) } := by
  have hparse := Keylog.parse_append crypto.hexDecode hconsistent.wholeLines (text ++ ['\n'])
  have hgrown := Keylog.foldl_addLine htext hconsistent.fileBinds
  refine ⟨Keylog.wholeLines_append world.file text, ?_, ⟨hconsistent.reads.binds, ?_⟩,
    hconsistent.follows, hconsistent.held, hconsistent.started⟩
  · rw [hparse]
    exact fun label => (hgrown label).2
  · intro isClient lane hholds
    rw [hparse]
    exact (hgrown _).1 (hconsistent.reads.visible isClient lane hholds)

/-- Rereading the file keeps the invariant. -/
theorem Consistent.reread (hconsistent : Consistent session crypto learned world)
    {source : KeylogSource} (hreread : source.current = world.source.current ∨
      source.current = Keylog.parse crypto.hexDecode world.file) :
    Consistent session crypto learned { world with source } := by
  obtain ⟨hreads, hkept⟩ := hconsistent.reads.reread hconsistent.fileBinds hreread
  exact ⟨hconsistent.wholeLines, hconsistent.fileBinds, hreads, hconsistent.follows,
    fun isClient lane hheld => hkept isClient lane (hconsistent.held isClient lane hheld),
    hconsistent.started⟩

/-- The reader left by an attempt was read from the file, and has every secret it
had before. -/
theorem Consistent.attempt_reader (hconsistent : Consistent session crypto learned world)
    (readings : AttemptReadings) (isClient : Bool) (wireType : UInt8) (body : Bytes) :
    let source := (attemptDecrypt crypto world.source world.state (readings.on world.file)
      isClient wireType body).1
    ReadFrom crypto session world.file (world.polled crypto readings).current ∧
      ReadFrom crypto session world.file source.current ∧
      (∀ other lane, holds session world.source.current other lane →
        holds session (world.polled crypto readings).current other lane) ∧
      ∀ other lane, holds session (world.polled crypto readings).current other lane →
        holds session source.current other lane := by
  obtain ⟨hpolled, hkept⟩ := hconsistent.reads.reread hconsistent.fileBinds
    (polled_current crypto world readings)
  obtain ⟨hreads, hkept'⟩ := hpolled.reread hconsistent.fileBinds
    (attemptDecrypt_polled crypto world readings isClient wireType body).2
  exact ⟨hpolled, hreads, hkept, hkept'⟩

/-- A foreign record of the connection. -/
theorem Consistent.drain_foreign (hideal : IdealAead crypto log)
    (hconsistent : Consistent session crypto learned world) {isClient : Bool} {body : Bytes}
    (hforeign : session.Foreign crypto log isClient body) (wireType : UInt8)
    (readings : AttemptReadings) :
    Consistent session crypto learned
      (world.step crypto session (.drain (.foreign isClient wireType body) readings)).1 := by
  obtain ⟨hpolled, hreads, hkept, hkept'⟩ :=
    hconsistent.attempt_reader readings isClient wireType body
  have hdecrypt := (attemptDecrypt_polled crypto world readings isClient wireType body).1
  obtain ⟨error, houtcome⟩ :=
    attempt_foreign hideal hconsistent.follows.tracks hpolled.binds hforeign wireType
  obtain ⟨hfollows, -⟩ :=
    hconsistent.follows.decrypt hpolled.binds houtcome hconsistent.follows.counters
  refine ⟨hconsistent.wholeLines, hconsistent.fileBinds, hreads, ?_, ?_, hconsistent.started⟩
  · simp only [World.step, hdecrypt]
    exact hfollows
  · exact fun other lane hheld =>
      hkept' other lane (hkept other lane (hconsistent.held other lane hheld))

theorem heldFirstAfter_of_ne (crypto : Crypto) (world : World) (session : Session)
    (record : SessionRecord) (readings : AttemptReadings) {isClient : Bool}
    {lane : Option Generation}
    (hne : ¬ (isClient = record.isClient ∧ lane = record.version.lane)) :
    world.heldFirstAfter crypto session record readings isClient lane =
      world.heldFirst isClient lane := by
  rw [World.heldFirstAfter, if_neg fun hsame => hne ⟨hsame.1, hsame.2.1⟩]

theorem heldFirstAfter_of_started (crypto : Crypto) (world : World) (session : Session)
    (record : SessionRecord) (readings : AttemptReadings) {isClient : Bool}
    {lane : Option Generation}
    (hnumber : world.numbering isClient lane ≠ 0) :
    world.heldFirstAfter crypto session record readings isClient lane =
      world.heldFirst isClient lane := by
  rw [World.heldFirstAfter, if_neg fun hsame => hnumber hsame.2.2]

/-- A record of a lane held from the start is numbered by what is counted, and is
counted. -/
theorem counted_of_held {record : SessionRecord} {readings : AttemptReadings}
    (hfirst : world.heldFirstAfter crypto session record readings record.isClient
      record.version.lane = true) :
    counted world.numbering world.heldFirst record.isClient record.version.lane =
        world.numbering record.isClient record.version.lane ∧
      counted (world.numbering.next record.isClient record.version.lane)
          (world.heldFirstAfter crypto session record readings) =
        (counted world.numbering world.heldFirst).next record.isClient record.version.lane := by
  have hnumber : counted world.numbering world.heldFirst record.isClient record.version.lane =
      world.numbering record.isClient record.version.lane := by
    by_cases hzero : world.numbering record.isClient record.version.lane = 0
    · rw [counted, hzero, ite_self]
    · rw [heldFirstAfter_of_started crypto world session record readings hzero] at hfirst
      rw [counted, if_pos hfirst]
  refine ⟨hnumber, ?_⟩
  funext isClient lane
  by_cases hsame : isClient = record.isClient ∧ lane = record.version.lane
  · obtain ⟨rfl, rfl⟩ := hsame
    rw [counted, hfirst, if_pos rfl, Numbering.next, if_pos ⟨rfl, rfl⟩, Numbering.next,
      if_pos ⟨rfl, rfl⟩, hnumber]
  · simp only [counted, heldFirstAfter_of_ne crypto world session record readings hsame,
      Numbering.next, if_neg hsame]

/-- A record of a lane that was missed from the start changes nothing that is
counted. -/
theorem counted_of_missed {record : SessionRecord} {readings : AttemptReadings}
    (hfirst : world.heldFirstAfter crypto session record readings record.isClient
      record.version.lane = false) :
    counted (world.numbering.next record.isClient record.version.lane)
        (world.heldFirstAfter crypto session record readings) =
      counted world.numbering world.heldFirst := by
  funext isClient lane
  by_cases hsame : isClient = record.isClient ∧ lane = record.version.lane
  · obtain ⟨rfl, rfl⟩ := hsame
    rw [counted, hfirst, if_neg Bool.false_ne_true, counted]
    by_cases hzero : world.numbering record.isClient record.version.lane = 0
    · rw [hzero, ite_self]
    · rw [heldFirstAfter_of_started crypto world session record readings hzero] at hfirst
      rw [hfirst, if_neg Bool.false_ne_true]
  · simp only [counted, heldFirstAfter_of_ne crypto world session record readings hsame,
      Numbering.next, if_neg hsame]

/-- The secrets of the lanes held from the start are still held by the polled
reader. -/
theorem Consistent.held_polled (hconsistent : Consistent session crypto learned world)
    {record : SessionRecord} {readings : AttemptReadings} {isClient : Bool}
    {lane : Option Generation}
    (hheld : world.heldFirstAfter crypto session record readings isClient lane = true) :
    holds session (world.polled crypto readings).current isClient lane := by
  rw [World.heldFirstAfter] at hheld
  split at hheld
  · exact hheld
  · exact (hconsistent.reads.reread hconsistent.fileBinds
      (polled_current crypto world readings)).2 isClient lane (hconsistent.held isClient lane hheld)

/-- The outcome for a record of the session: what was sealed, if its lane was held
from the start, and else an error. -/
theorem Consistent.attempt_honest (hideal : IdealAead crypto log)
    (hdistinct : session.KeysDistinct crypto)
    (hlearned : session.secrets .clientRandom ≠ none → learned = true)
    (hconsistent : Consistent session crypto learned world) {record : SessionRecord}
    {wireType : UInt8} {body : Bytes}
    (hseals : session.Seals crypto log record
      (world.numbering record.isClient record.version.lane) wireType body)
    (readings : AttemptReadings) :
    let outcome := world.state.uncached.attempt crypto (world.polled crypto readings).current
      record.isClient wireType body
    if world.heldFirstAfter crypto session record readings record.isClient record.version.lane then
      outcome = .ok (session.opened record)
    else ∃ error, outcome = .error error := by
  have hfollows := hconsistent.follows
  have hcounter := hfollows.counters record.isClient record.version.lane
  obtain ⟨hpolled, -⟩ := hconsistent.reads.reread hconsistent.fileBinds
    (polled_current crypto world readings)
  cases hfirst : world.heldFirstAfter crypto session record readings record.isClient
      record.version.lane with
  | true =>
      rw [(counted_of_held hfirst).1] at hcounter
      -- the secret was there for the first record, so every one so far was counted
      obtain ⟨secret, hsecret⟩ := Option.isSome_iff_exists.mp (hconsistent.held_polled hfirst)
      have hserver := hfollows.serverRandom_of_secret hlearned (hpolled.binds _ _ hsecret)
      obtain ⟨decrypted, houtcome⟩ :=
        attempt_isOk hideal hfollows.tracks hpolled.binds hseals hserver hcounter hsecret
      obtain ⟨hopened, -, -⟩ :=
        attempt_seals hideal hdistinct hfollows.tracks hpolled.binds hseals houtcome
      rw [hopened] at houtcome
      exact houtcome
  | false =>
      simp only [Bool.false_eq_true, if_false]
      cases houtcome : world.state.uncached.attempt crypto (world.polled crypto readings).current
          record.isClient wireType body with
      | error error => exact ⟨error, rfl⟩
      | ok decrypted =>
          exfalso
          obtain ⟨-, hnumber, secret, hsecret⟩ :=
            attempt_seals hideal hdistinct hfollows.tracks hpolled.binds hseals houtcome
          -- whatever opened it was the record of the counter's number
          by_cases hzero : world.numbering record.isClient record.version.lane = 0
          · rw [World.heldFirstAfter, if_pos ⟨rfl, rfl, hzero⟩, holds, hsecret] at hfirst
            cases hfirst
          · -- the counter has stayed at zero, but the record has another number
            rw [heldFirstAfter_of_started crypto world session record readings hzero] at hfirst
            rw [counted, hfirst, if_neg Bool.false_ne_true, hnumber] at hcounter
            have hnat := congrArg UInt64.toNat hcounter
            rw [UInt64.toNat_ofNat_of_lt' hseals.1] at hnat
            exact hzero hnat

/-- **One record of the session.**  It is decrypted exactly if the reader had the
secret for the first record of its lane. -/
theorem Consistent.drain_honest (hideal : IdealAead crypto log)
    (hdistinct : session.KeysDistinct crypto)
    (hlearned : session.secrets .clientRandom ≠ none → learned = true)
    (hconsistent : Consistent session crypto learned world) {record : SessionRecord}
    {wireType : UInt8} {body : Bytes}
    (hseals : session.Seals crypto log record
      (world.numbering record.isClient record.version.lane) wireType body)
    (readings : AttemptReadings) :
    let after := attemptDecrypt crypto world.source world.state (readings.on world.file)
      record.isClient wireType body
    Consistent session crypto learned
        (world.step crypto session (.drain (.honest record wireType body) readings)).1 ∧
      (after.2.2 = .ok (session.opened record) ↔
        world.heldFirstAfter crypto session record readings record.isClient
          record.version.lane) := by
  obtain ⟨hpolled, hreads, -, hkept⟩ :=
    hconsistent.attempt_reader readings record.isClient wireType body
  have hdecrypt := (attemptDecrypt_polled crypto world readings record.isClient wireType body).1
  have hfollows := hconsistent.follows
  -- a lane that has sent nothing is as it was: the record counts in its own lane only
  have hstarted : ∀ isClient lane,
      world.numbering.next record.isClient record.version.lane isClient lane = 0 →
      world.heldFirstAfter crypto session record readings isClient lane = false := by
    intro isClient lane hnumber
    by_cases hsame : isClient = record.isClient ∧ lane = record.version.lane
    · rw [Numbering.next, if_pos hsame] at hnumber
      cases hnumber
    · rw [heldFirstAfter_of_ne crypto world session record readings hsame]
      rw [Numbering.next, if_neg hsame] at hnumber
      exact hconsistent.started isClient lane hnumber
  have houtcome :=
    hconsistent.attempt_honest hideal hdistinct hlearned hseals readings
  have hoff : session.Follows crypto learned
        (counted (world.numbering.next record.isClient record.version.lane)
          (world.heldFirstAfter crypto session record readings))
        (world.state.decrypt crypto (world.polled crypto readings).current record.isClient wireType
          body).1 ∧
      ((world.state.decrypt crypto (world.polled crypto readings).current record.isClient wireType
          body).2 = .ok (session.opened record) ↔
        world.heldFirstAfter crypto session record readings record.isClient
          record.version.lane) := by
    cases hfirst : world.heldFirstAfter crypto session record readings record.isClient
        record.version.lane with
    | true =>
        -- the lane is followed, so its counter is the number of the record
        rw [hfirst, if_pos rfl] at houtcome
        obtain ⟨hafter, hresult⟩ :=
          hfollows.decrypt hpolled.binds houtcome (hfollows.counters_after record)
        rw [(counted_of_held hfirst).2, hresult]
        exact ⟨hafter, by simp⟩
    | false =>
        -- the lane was missed from its first record on, and its counter stays
        rw [hfirst, if_neg Bool.false_ne_true] at houtcome
        obtain ⟨error, houtcome⟩ := houtcome
        obtain ⟨hafter, hresult⟩ :=
          hfollows.decrypt hpolled.binds houtcome hfollows.counters
        rw [counted_of_missed hfirst, hresult]
        exact ⟨hafter, by simp⟩
  refine ⟨⟨hconsistent.wholeLines, hconsistent.fileBinds, hreads, ?_, ?_, hstarted⟩, ?_⟩
  · simp only [World.step, hdecrypt]
    exact hoff.1
  · exact fun isClient lane hheld => hkept isClient lane (hconsistent.held_polled hheld)
  · rw [hdecrypt]
    exact hoff.2

/-- One moment keeps the invariant, and a drained record of the session is decrypted
exactly if its lane was held from the start. -/
theorem Consistent.step (hideal : IdealAead crypto log) (hdistinct : session.KeysDistinct crypto)
    (hlearned : session.secrets .clientRandom ≠ none → learned = true)
    (hconsistent : Consistent session crypto learned world) {moment : Moment}
    {rest : List Moment}
    (hlogs : ∀ text, moment = .grow text →
      Keylog.LinesBindOnly crypto.hexDecode session.clientRandom session.secrets (text ++ ['\n']))
    (hsends : session.Sends crypto log world.numbering (drained (moment :: rest))) :
    Consistent session crypto learned (world.step crypto session moment).1 ∧
      session.Sends crypto log (world.step crypto session moment).1.numbering (drained rest) ∧
      ∀ record, (world.step crypto session moment).2 = some record →
        (record.result = .ok (session.opened record.record) ↔ record.heldFirst) := by
  cases moment with
  | grow text => exact ⟨hconsistent.grow (hlogs text rfl), hsends, nofun⟩
  | elsewhere readings missed =>
      refine ⟨?_, hsends, nofun⟩
      have hpolled := polled_current crypto world readings
      cases missed with
      | false => exact hconsistent.reread hpolled
      | true =>
          apply hconsistent.reread
          rcases pollAfterMiss_on_current crypto (world.polled crypto readings) readings
            world.file with hsame | hparse
          · rw [if_pos rfl, hsame]
            exact hpolled
          · exact .inr hparse
  | drain wire readings =>
      cases wire with
      | foreign isClient wireType body =>
          exact ⟨hconsistent.drain_foreign hideal hsends.1 wireType readings, hsends.2, nofun⟩
      | honest record wireType body =>
          obtain ⟨hafter, hiff⟩ :=
            hconsistent.drain_honest hideal hdistinct hlearned hsends.1 readings
          refine ⟨hafter, hsends.2, ?_⟩
          rintro _ hdrained
          cases hdrained
          exact hiff

/-- The same over a run. -/
theorem Consistent.run (hideal : IdealAead crypto log) (hdistinct : session.KeysDistinct crypto)
    (hlearned : session.secrets .clientRandom ≠ none → learned = true) {moments : List Moment}
    (hconsistent : Consistent session crypto learned world)
    (hlogs : ∀ text, Moment.grow text ∈ moments →
      Keylog.LinesBindOnly crypto.hexDecode session.clientRandom session.secrets (text ++ ['\n']))
    (hsends : session.Sends crypto log world.numbering (drained moments)) :
    ∀ record, some record ∈ (Machine.run (World.step crypto session) world moments).2 →
      (record.result = .ok (session.opened record.record) ↔ record.heldFirst) := by
  induction moments generalizing world with
  | nil => exact nofun
  | cons moment rest ih =>
      obtain ⟨hafter, hrest, hnow⟩ := hconsistent.step hideal hdistinct hlearned
        (fun text hmoment => hlogs text (hmoment ▸ List.mem_cons_self)) hsends
      intro record hrecord
      rw [Machine.run_cons] at hrecord
      rcases List.mem_cons.mp hrecord with hhead | htail
      · exact hnow record hhead.symm
      · exact ih hafter (fun text hmem => hlogs text (List.mem_cons_of_mem moment hmem)) hrest
          record htail

end Run

/-- The records of the session drained in a run from the opening of the keylog on.
The file may not exist yet. -/
def drainedRecords (crypto : Crypto) (session : Session) (learned : Bool)
    (file : Option Text) (source : KeylogSource) (moments : List Moment) : List Drained :=
  (Machine.run (World.step crypto session)
    (World.start session learned (file.getD []) source) moments).2.filterMap id

/-- **A late key costs a lane unless it comes before the lane's first record.**  Let
the keylog file grow by whole lines, and have nothing of the session but its
secrets.  Then every record of the session that is drained once the secrets of its
direction are in the file is decrypted, if and only if for each of them the reader
had the secret when it was polled for the first record of that direction and
generation. -/
theorem decrypted_once_visible_iff {crypto : Crypto} {log : Bytes → Option Sealing}
    {session : Session} {learned : Bool} (hideal : IdealAead crypto log)
    (hdistinct : session.KeysDistinct crypto)
    (hlearned : session.secrets .clientRandom ≠ none → learned = true)
    {file : Option Text} {signature : Signature} {reloadInterval : Duration} {now : Instant}
    {source : KeylogSource} {moments : List Moment}
    (hopen : KeylogSource.openPath crypto.hexDecode (file.elim (.error .notFound) .ok) signature
      reloadInterval now = .ok source)
    (hwhole : Keylog.WholeLines (file.getD []))
    (hlogs : LogsOnly crypto session (file.getD []) moments)
    (hsends : session.Sends crypto log (fun _ _ => 0) (drained moments)) :
    (∀ record ∈ drainedRecords crypto session learned file source moments,
        record.visible → record.result = .ok (session.opened record.record)) ↔
      ∀ record ∈ drainedRecords crypto session learned file source moments,
        record.visible → record.heldFirst := by
  -- a file that is not there counts as an empty one
  have hsource : source.current = Keylog.parse crypto.hexDecode (file.getD []) := by
    obtain ⟨text, hcontents, hparse⟩ := KeylogSource.openPath_current hopen
    cases file with
    | none =>
        rcases hcontents with hcontents | ⟨-, rfl⟩
        · cases hcontents
        · exact hparse
    | some contents =>
        rcases hcontents with hcontents | ⟨hcontents, -⟩
        · cases hcontents
          exact hparse
        · cases hcontents
  have hiff := (consistent_start crypto learned hwhole hlogs.1
    hsource).run hideal hdistinct hlearned hlogs.2 hsends
  have hmem : ∀ record ∈ drainedRecords crypto session learned file source moments,
      (record.result = .ok (session.opened record.record) ↔ record.heldFirst) := by
    intro record hrecord
    obtain ⟨_, hrecord, rfl⟩ := List.mem_filterMap.mp hrecord
    exact hiff record hrecord
  constructor
  · exact fun h record hrecord hvisible => (hmem record hrecord).mp (h record hrecord hvisible)
  · exact fun h record hrecord hvisible => (hmem record hrecord).mpr (h record hrecord hvisible)

/-! ## The recorded session with a late key -/

open RecordedSession

/-- Readings at one instant, with every read of the file succeeding. -/
def readingsAt (now : Instant) (signature : Signature) : AttemptReadings :=
  ⟨now, now, true, signature, signature, now, true, signature⟩

/-- The client's two requests, the keylog written in between. -/
def lateMoments : List Moment :=
  [.drain (.honest ⟨true, .tls13 .application, 0x17, [0x47, 0x45, 0x54], 3⟩ 0x17 request)
      (readingsAt 0 ⟨none, none⟩),
    .grow keylogText,
    .drain (.honest ⟨true, .tls13 .application, 0x17, [0x50, 0x4f, 0x53, 0x54], 0⟩ 0x17
      secondRequest) (readingsAt 7 ⟨some 6, some 633⟩)]

/-- The same with the keylog written first. -/
def earlyMoments : List Moment :=
  [.grow keylogText,
    .drain (.honest ⟨true, .tls13 .application, 0x17, [0x47, 0x45, 0x54], 3⟩ 0x17 request)
      (readingsAt 6 ⟨some 5, some 633⟩),
    .drain (.honest ⟨true, .tls13 .application, 0x17, [0x50, 0x4f, 0x53, 0x54], 0⟩ 0x17
      secondRequest) (readingsAt 7 ⟨some 5, some 633⟩)]

/-- The reader, opened before the file exists. -/
def source : KeylogSource := ⟨true, 5, 0, ⟨none, none⟩, Keylog.parse Recording.hexDecode []⟩

theorem linesBindOnly_keylogText :
    Keylog.LinesBindOnly Recording.hexDecode session.clientRandom session.secrets
      (keylogText ++ ['\n']) := by
  have hcheck : ∀ line ∈ Keylog.lines (keylogText ++ ['\n']),
      ∀ bound ∈ Keylog.parseLine Recording.hexDecode line,
      bound.1 = session.clientRandom → session.secrets bound.2.1 = some bound.2.2 := by
    decide +kernel
  exact fun line hline label secret hparse => hcheck line hline _ hparse rfl

theorem logsOnly_of_grow {moments : List Moment}
    (hgrow : ∀ text, Moment.grow text ∈ moments → text = keylogText) :
    LogsOnly recording.crypto session [] moments := by
  refine ⟨nofun, fun text htext => ?_⟩
  rw [hgrow text htext]
  exact linesBindOnly_keylogText

theorem sends_requests : session.Sends recording.crypto recording.log (fun _ _ => 0)
    [.honest ⟨true, .tls13 .application, 0x17, [0x47, 0x45, 0x54], 3⟩ 0x17 request,
      .honest ⟨true, .tls13 .application, 0x17, [0x50, 0x4f, 0x53, 0x54], 0⟩ 0x17
        secondRequest] :=
  ⟨⟨by decide, by decide, ⟨.aes128Gcm, beBytes 16 0x9b16fa13972ccdd9f3fdecdce2ebd949,
      beBytes 12 0x8bfd7ab1376b0dfdaa7d5b56⟩, by decide +kernel, by decide +kernel⟩,
    ⟨by decide, by decide, ⟨.aes128Gcm, beBytes 16 0x9b16fa13972ccdd9f3fdecdce2ebd949,
      beBytes 12 0x8bfd7ab1376b0dfdaa7d5b56⟩, by decide +kernel, by decide +kernel⟩, trivial⟩

/-- With the keylog written before the first request, both are decrypted. -/
theorem decrypted_once_visible_early :
    (drainedRecords recording.crypto session true none source earlyMoments).length = 2 ∧
      ∀ record ∈ drainedRecords recording.crypto session true none source earlyMoments,
        record.visible → record.result = .ok (session.opened record.record) := by
  have hopen : KeylogSource.openPath Recording.hexDecode
      ((none : Option Text).elim (.error .notFound) .ok) ⟨none, none⟩ 5 0 = .ok source := rfl
  have hlogs : LogsOnly recording.crypto session [] earlyMoments := by
    apply logsOnly_of_grow
    intro text htext
    simp only [earlyMoments, List.mem_cons, List.not_mem_nil, or_false, reduceCtorEq,
      Moment.grow.injEq] at htext
    exact htext
  have hheld : ∀ record ∈ drainedRecords recording.crypto session true none source earlyMoments,
      record.visible → record.heldFirst := by decide +kernel
  refine ⟨by decide +kernel, ?_⟩
  exact (decrypted_once_visible_iff recording.idealAead_crypto keysDistinct (fun _ => rfl) hopen
    (.inl rfl) hlogs sends_requests).mpr hheld

/-- With the keylog written between them, the second request is lost: its secret is
in the file when it is drained, but the first one was missed. -/
theorem request_lost_after_late_key :
    ¬ ∀ (crypto : Crypto) (log : Bytes → Option Sealing) (session : Session) (learned : Bool)
      (file : Option Text) (signature : Signature) (reloadInterval : Duration) (now : Instant)
      (source : KeylogSource) (moments : List Moment), IdealAead crypto log →
      session.KeysDistinct crypto →
      (session.secrets .clientRandom ≠ none → learned = true) →
      KeylogSource.openPath crypto.hexDecode (file.elim (.error .notFound) .ok) signature
        reloadInterval now = .ok source →
      Keylog.WholeLines (file.getD []) → LogsOnly crypto session (file.getD []) moments →
      session.Sends crypto log (fun _ _ => 0) (drained moments) →
      ∀ record ∈ drainedRecords crypto session learned file source moments,
        record.visible → record.result = .ok (session.opened record.record) := by
  intro hclaim
  have hlogs : LogsOnly recording.crypto session [] lateMoments := by
    apply logsOnly_of_grow
    intro text htext
    simp only [lateMoments, List.mem_cons, List.not_mem_nil, or_false, false_or, reduceCtorEq,
      Moment.grow.injEq] at htext
    exact htext
  have hlost := hclaim recording.crypto recording.log session true none ⟨none, none⟩ 5 0 source
    lateMoments recording.idealAead_crypto keysDistinct (fun _ => rfl) rfl (.inl rfl) hlogs
    sends_requests
  revert hlost
  decide +kernel

end LateKey

end Tlscap
