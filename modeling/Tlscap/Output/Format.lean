import Tlscap.Orchestrator.Model

/-!
# Addresses and times as text

The display of addresses, the epoch readings and the calendar date the writers put
into a line.
-/

namespace Tlscap

/-- An unsigned number in decimal, `{}`. -/
def decimal (n : ℕ) : Text := Nat.toDigits 10 n

/-! ## Addresses -/

namespace IpAddr

/-- The four numbers of an IPv4 address. -/
def octets (address : ℕ) : List ℕ :=
  [address / 2 ^ 24 % 256, address / 2 ^ 16 % 256, address / 2 ^ 8 % 256, address % 256]

/-- An IPv4 address, in dotted decimal. -/
def displayV4 (address : ℕ) : Text := ['.'].intercalate ((octets address).map decimal)

/-- The eight groups of an IPv6 address. -/
def segments (address : BitVec 128) : List ℕ :=
  (List.range 8).map fun i => address.toNat / 2 ^ (16 * (7 - i)) % 2 ^ 16

/-- A run of zero groups: where it starts and how long it is. -/
structure Span where
  start : ℕ
  len : ℕ

/-- One more group: the longest run of zeros so far and the one that reaches here. -/
def zeroRun (runs : Span × Span) (segment : ℕ × ℕ) : Span × Span :=
  if segment.1 = 0 then
    let current : Span :=
      ⟨if runs.2.len = 0 then segment.2 else runs.2.start, runs.2.len + 1⟩
    (if runs.1.len < current.len then current else runs.1, current)
  else (runs.1, ⟨0, 0⟩)

/-- Groups in hexadecimal with colons between them. -/
def displaySegments (chunk : List ℕ) : Text := [':'].intercalate (chunk.map (Nat.toDigits 16))

/-- An IPv6 address: an address that maps an IPv4 address shows it, and the first of
the longest runs of at least two zero groups is left out. -/
def displayV6 (address : BitVec 128) : Text :=
  if address.toNat / 2 ^ 32 = 0xffff then
    "::ffff:".toList ++ displayV4 (address.toNat % 2 ^ 32)
  else
    let groups := segments address
    let zeroes := (groups.zipIdx.foldl zeroRun (⟨0, 0⟩, ⟨0, 0⟩)).1
    if 1 < zeroes.len then
      displaySegments (groups.take zeroes.start) ++ [':', ':'] ++
        displaySegments (groups.drop (zeroes.start + zeroes.len))
    else displaySegments groups

/-- `to_string` of an address. -/
def toText : IpAddr → Text
  | .v4 address => displayV4 address.toNat
  | .v6 address => displayV6 address

end IpAddr

/-! ## Times -/

/-- `as_millis` -/
def epochMillis (timestamp : Duration) : ℕ := timestamp / 1000000

/-- `as_micros` -/
def epochMicros (timestamp : Duration) : ℕ := timestamp / 1000

/-- The civil date of a day counted from 1970-01-01: year, month and day. -/
def civilFromDays (z : ℤ) : ℤ × ℕ × ℕ :=
  let z := z + 719468
  let era := (if 0 ≤ z then z else z - 146096).tdiv 146097
  let doe := (z - era * 146097).toNat
  let yoe := (doe - doe / 1460 + doe / 36524 - doe / 146096) / 365
  let y := (yoe : ℤ) + era * 400
  let doy := doe - (365 * yoe + yoe / 4 - yoe / 100)
  let mp := (5 * doy + 2) / 153
  let d := doy - (153 * mp + 2) / 5 + 1
  let m := if mp < 10 then mp + 3 else mp - 9
  (if m ≤ 2 then y + 1 else y, m, d)

/-- A number padded with zeros to a width, behind its sign. -/
def zeroPadded (width : ℕ) (n : ℤ) : Text :=
  if n < 0 then '-' :: (decimal n.natAbs).leftpad (width - 1) '0'
  else (decimal n.natAbs).leftpad width '0'

/-- The date of a timestamp, `YYYY-MM-DD`. -/
def indexDate (timestamp : Duration) : Text :=
  let days : ℤ := ↑(timestamp / 1000000000 / 86400)
  let (y, m, d) := civilFromDays days
  zeroPadded 4 y ++ '-' :: (zeroPadded 2 m ++ '-' :: zeroPadded 2 d)

end Tlscap
