import Tlscap.Basic
import Mathlib.Data.List.AList

/-!
# The keylog

Parsing of the SSLKEYLOGFILE format into a map from client random and label to
secret, and the source that rereads the file.  The file, its metadata and the
clock are outside the program: what the reader sees of them at each of its
operations is an argument.  So is `hexDecode`, the decoder of hexadecimal digits,
which comes from another crate.

A file is read in three places:

* **At startup** (`KeylogSource.openPath`).  A file that does not exist yet is an
  empty one; any other failure is fatal.
* **Before an attempt to decrypt** (`KeylogSource.poll`), once the interval since
  the last reload has elapsed.
* **After an attempt that found no key** (`KeylogSource.pollAfterMiss`), if the
  modification time or the length of the file have changed.

A reload that fails keeps what was read before.
-/

namespace Tlscap

/-- The label of a secret. -/
inductive SecretLabel
  | clientRandom
  | clientHandshakeTrafficSecret
  | serverHandshakeTrafficSecret
  | clientTrafficSecret0
  | serverTrafficSecret0
  | other (label : Text)
  deriving DecidableEq, Repr

namespace SecretLabel

/-- The label a keylog line names. -/
def parse (s : Text) : SecretLabel :=
  if s = "CLIENT_RANDOM".toList then clientRandom
  else if s = "CLIENT_HANDSHAKE_TRAFFIC_SECRET".toList then clientHandshakeTrafficSecret
  else if s = "SERVER_HANDSHAKE_TRAFFIC_SECRET".toList then serverHandshakeTrafficSecret
  else if s = "CLIENT_TRAFFIC_SECRET_0".toList then clientTrafficSecret0
  else if s = "SERVER_TRAFFIC_SECRET_0".toList then serverTrafficSecret0
  else other s

end SecretLabel

/-- A parsed keylog.  The index by client random and then by label is one map
over pairs. -/
structure Keylog where
  byClientRandom : AList fun _ : Bytes × SecretLabel => Bytes
  entryCount : ℕ

namespace Keylog

/-- The lines of a text without their line ends; no line follows the last one. -/
def lines : Text → List Text
  | [] => []
  | c :: rest =>
      if c = '\n' then [] :: lines rest
      else
        match lines rest with
        | [] => [[c]]
        | line :: more => (c :: line) :: more

/-- A line without trailing carriage returns and line feeds. -/
def trimLineEnd (line : Text) : Text :=
  (line.reverse.dropWhile fun c => c == '\r' || c == '\n').reverse

/-- `char::is_whitespace`. -/
def isWhitespace (c : Char) : Bool :=
  (0x09 ≤ c.toNat && c.toNat ≤ 0x0d) || c.toNat == 0x20 || c.toNat == 0x85 || c.toNat == 0xa0 ||
    c.toNat == 0x1680 || (0x2000 ≤ c.toNat && c.toNat ≤ 0x200a) || c.toNat == 0x2028 ||
    c.toNat == 0x2029 || c.toNat == 0x202f || c.toNat == 0x205f || c.toNat == 0x3000

/-- The words of a line. -/
def splitWhitespace (line : Text) : List Text :=
  (line.splitOnP isWhitespace).filter fun word => !word.isEmpty

/-- The client random, label and secret a line binds, if it binds one. -/
def parseLine (hexDecode : Text → Option Bytes) (rawLine : Text) :
    Option (Bytes × SecretLabel × Bytes) :=
  let line := trimLineEnd rawLine
  if line.isEmpty ∨ line.head? = some '#' then none
  else
    match splitWhitespace line with
    | labelStr :: randomHex :: secretHex :: _ =>
        match hexDecode randomHex, hexDecode secretHex with
        | some clientRandom, some secret => some (clientRandom, SecretLabel.parse labelStr, secret)
        | _, _ => none
    | _ => none

/-- The keylog after one more line; a later line overrides an earlier one. -/
def addLine (hexDecode : Text → Option Bytes) (keylog : Keylog) (rawLine : Text) : Keylog :=
  match parseLine hexDecode rawLine with
  | none => keylog
  | some (clientRandom, label, secret) =>
      { byClientRandom := keylog.byClientRandom.insert (clientRandom, label) secret
        entryCount := keylog.entryCount + 1 }

/-- The keylog without entries. -/
def empty : Keylog := ⟨∅, 0⟩

/-- Parses the contents of a keylog file. -/
def parse (hexDecode : Text → Option Bytes) (contents : Text) : Keylog :=
  (lines contents).foldl (addLine hexDecode) empty

/-- Looks up a secret of a client random. -/
def secretFor (keylog : Keylog) (clientRandom : Bytes) (label : SecretLabel) : Option Bytes :=
  keylog.byClientRandom.lookup (clientRandom, label)

end Keylog

/-! ## Reading the file -/

/-- The modification time and length `stat` reports; `none` where it fails. -/
structure Signature where
  mtime : Option ℕ
  len : Option ℕ
  deriving DecidableEq, Repr

/-- Why reading the file failed. -/
inductive ReadError
  | notFound
  | other
  deriving DecidableEq, Repr

/-- What one reload sees: the clock, the contents unless reading fails, and the
signature after that. -/
structure ReloadReadings where
  attempt : Instant
  contents : Option Text
  signature : Signature

/-- What the keylog operations around one decrypt attempt see. -/
structure KeylogReadings where
  pollClock : Instant
  pollReload : ReloadReadings
  missSignature : Signature
  missReload : ReloadReadings

/-- The reader of a growing keylog file.  `hasPath` is whether there is a file. -/
structure KeylogSource where
  hasPath : Bool
  reloadInterval : Duration
  lastReloadAttempt : Instant
  lastSeen : Signature
  current : Keylog

namespace KeylogSource

variable (hexDecode : Text → Option Bytes)

/-- Opens the file at startup.  One that does not exist yet counts as empty; any
other failure to read it is fatal. -/
def openPath (contents : Except ReadError Text) (signature : Signature)
    (reloadInterval : Duration) (now : Instant) : Except ReadError KeylogSource :=
  match contents with
  | .ok text => .ok ⟨true, reloadInterval, now, signature, Keylog.parse hexDecode text⟩
  | .error .notFound => .ok ⟨true, reloadInterval, now, ⟨none, none⟩, Keylog.parse hexDecode []⟩
  | .error .other => .error .other

/-- A keylog without a file behind it; it is never reloaded.  The interval is the
longest duration there is. -/
def fromParsed (keylog : Keylog) (now : Instant) : KeylogSource where
  hasPath := false
  reloadInterval := 2 ^ 64 * 10 ^ 9 - 1
  lastReloadAttempt := now
  lastSeen := ⟨none, none⟩
  current := keylog

/-- Rereads the file; a failed read keeps what was there. -/
def reloadIfChanged (source : KeylogSource) (readings : ReloadReadings) : KeylogSource :=
  if source.hasPath then
    match readings.contents with
    | none => { source with lastReloadAttempt := readings.attempt }
    | some text =>
        { source with
          lastReloadAttempt := readings.attempt
          lastSeen := readings.signature
          current := Keylog.parse hexDecode text }
  else source

/-- Before a decrypt attempt: reloads once the interval has elapsed. -/
def poll (source : KeylogSource) (now : Instant) (readings : ReloadReadings) : KeylogSource :=
  if source.hasPath ∧ source.reloadInterval ≤ elapsed source.lastReloadAttempt now then
    source.reloadIfChanged hexDecode readings
  else source

/-- After an attempt without a key: reloads if the signature has changed. -/
def pollAfterMiss (source : KeylogSource) (signature : Signature) (readings : ReloadReadings) :
    KeylogSource :=
  if source.hasPath ∧ signature ≠ source.lastSeen then
    source.reloadIfChanged hexDecode readings
  else source

end KeylogSource

end Tlscap
