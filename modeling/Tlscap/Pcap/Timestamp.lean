import Tlscap.Basic
import Tlscap.Library.Checked
import Mathlib.Tactic.Ring
import Mathlib.Tactic.Positivity

/-!
# Timestamps of enhanced packets

The capture library reads the tick count of a packet as nanoseconds, whatever the
resolution of its interface is.  `correctEpbTimestamp` recovers the count and scales
it: the result is the count in nanoseconds, rounded down, for every resolution that
a `Duration` can tell apart.

## Strategy

Whole seconds and the ticks beyond them are scaled apart, which loses nothing
(`mul_div_eq_split`).  That no operation overflows is shown beside what it computes, in
the two cases of a resolution byte (`splitTicks_spec`):

* **A power of two.**  The unit is at most `2 ^ 127`, and the ticks beyond the seconds are
  fewer than `2 ^ 64`, so that their product with a billion fits a `u128`.
* **A power of ten.**  Powers finer than a nanosecond are counted as nanoseconds, so a tick
  is a whole number of these.
-/

namespace Tlscap

open Checked

/-- The options of an interface description; only the resolution is read. -/
inductive InterfaceDescriptionOption
  | ifTsResol (tsresol : UInt8)
  | other
  deriving DecidableEq, Repr

/-- An interface of a pcapng capture. -/
structure InterfaceDescription where
  options : List InterfaceDescriptionOption
  deriving DecidableEq, Repr

/-- `Duration::new`: whole seconds among the nanoseconds are carried over. -/
def Duration.new (secs nanos : ℕ) : Option Duration :=
  if secs + nanos / 1000000000 < 2 ^ 64 then some (secs * 1000000000 + nanos) else none

/-- The whole seconds and the nanoseconds beyond them, before they are cast to `u64`
and `u32`; `none` where an operation overflows. -/
def splitTicks (rawTicks : ℕ) (tsresol : UInt8) : Option (ℕ × ℕ) :=
  if tsresol &&& 0x80 ≠ 0 then do
    let shift := (tsresol &&& 0x7F).toNat
    let unit ← unsigned? 128 (1 <<< shift : ℕ)
    let scaled ← unsigned? 128 (rawTicks % unit * 1000000000 : ℕ)
    some (rawTicks / unit, scaled / unit)
  else do
    let exp := min tsresol.toNat 9
    let divisor ← unsigned? 128 (10 ^ exp : ℕ)
    let scale ← unsigned? 128 (10 ^ (9 - exp) : ℕ)
    let nanos ← unsigned? 128 (rawTicks % divisor * scale : ℕ)
    some (rawTicks / divisor, nanos)

/-- The timestamp of a packet, from its tick count read as nanoseconds; `none` where
the source panics. -/
def correctEpbTimestamp (misScaled : Duration) (ifTsresol : Option UInt8) : Option Duration := do
  let (wholeSecs, subsecNanos) ← splitTicks misScaled (ifTsresol.getD 6)
  Duration.new (wholeSecs % 2 ^ 64) (subsecNanos % 2 ^ 32)

/-- The resolution an interface declares. -/
def interfaceTsresol (interfaces : List InterfaceDescription) (interfaceId : ℕ) : Option UInt8 :=
  interfaces[interfaceId]?.bind fun interface => interface.options.findSome? fun
    | .ifTsResol tsresol => some tsresol
    | .other => none

/-- The timestamp `next_packet` gives an enhanced packet with a raw tick count. -/
def packetTimestamp (interfaces : List InterfaceDescription) (interfaceId rawTicks : ℕ) :
    Option Duration :=
  correctEpbTimestamp rawTicks (interfaceTsresol interfaces interfaceId)

/-! ## Resolutions -/

/-- Ticks for each second: the resolution is a negative power of ten, or with the top
bit set of two, and of microseconds by default. -/
def unitsPerSecond (ifTsresol : Option UInt8) : ℕ :=
  match ifTsresol with
  | none => 10 ^ 6
  | some tsresol =>
      if tsresol.toNat < 128 then 10 ^ tsresol.toNat else 2 ^ (tsresol.toNat - 128)

/-- A resolution that is a power of two, or no finer than a nanosecond. -/
def Representable (ifTsresol : Option UInt8) : Prop :=
  ∀ tsresol ∈ ifTsresol, tsresol.toNat ≤ 9 ∨ 128 ≤ tsresol.toNat

/-- The ticks for each second that are counted with: finer powers of ten are taken
for nanoseconds. -/
def countedUnits (tsresol : UInt8) : ℕ :=
  if tsresol.toNat < 128 then 10 ^ min tsresol.toNat 9 else 2 ^ (tsresol.toNat - 128)

theorem countedUnits_eq {ifTsresol : Option UInt8} (hres : Representable ifTsresol) :
    countedUnits (ifTsresol.getD 6) = unitsPerSecond ifTsresol := by
  cases ifTsresol with
  | none => rfl
  | some tsresol =>
      unfold countedUnits unitsPerSecond
      rcases hres tsresol rfl with hten | htwo
      · rw [Option.getD_some, Nat.min_eq_left hten]
      · have hge : ¬ tsresol.toNat < 128 := by omega
        rw [Option.getD_some, if_neg hge]
        exact (if_neg hge).symm

theorem countedUnits_pos (tsresol : UInt8) : 0 < countedUnits tsresol := by
  unfold countedUnits
  split_ifs <;> positivity

/-! ## Scaling -/

/-- Scaling the whole units and the rest separately loses nothing. -/
theorem mul_div_eq_split (n k unit : ℕ) (hunit : 0 < unit) :
    n * k / unit = n / unit * k + n % unit * k / unit := by
  calc n * k / unit
      = (unit * (n / unit) + n % unit) * k / unit := by rw [Nat.div_add_mod]
    _ = (n % unit * k + unit * (n / unit * k)) / unit := by ring_nf
    _ = n % unit * k / unit + n / unit * k := Nat.add_mul_div_left _ _ hunit
    _ = n / unit * k + n % unit * k / unit := Nat.add_comm _ _

/-- The top bit of a resolution byte. -/
theorem topBit_iff (tsresol : UInt8) : tsresol &&& 0x80 ≠ 0 ↔ 128 ≤ tsresol.toNat := by
  have hall : ∀ n : Fin 256, (UInt8.ofNat n.1 &&& 0x80 ≠ 0 ↔ 128 ≤ (UInt8.ofNat n.1).toNat) := by
    decide +kernel
  have hbyte := hall ⟨tsresol.toNat, tsresol.toNat_lt⟩
  rwa [UInt8.ofNat_toNat] at hbyte

theorem lowBits_eq {tsresol : UInt8} (htop : 128 ≤ tsresol.toNat) :
    (tsresol &&& 0x7F).toNat = tsresol.toNat - 128 := by
  have hall : ∀ n : Fin 256, 128 ≤ (UInt8.ofNat n.1).toNat →
      (UInt8.ofNat n.1 &&& 0x7F).toNat = (UInt8.ofNat n.1).toNat - 128 := by decide +kernel
  have hbyte := hall ⟨tsresol.toNat, tsresol.toNat_lt⟩
  rw [UInt8.ofNat_toNat] at hbyte
  exact hbyte htop

/-- What is split off is exact, and fits the casts. -/
theorem splitTicks_spec {rawTicks : ℕ} (hticks : rawTicks < 2 ^ 64) (tsresol : UInt8) :
    ∃ wholeSecs subsecNanos, splitTicks rawTicks tsresol = some (wholeSecs, subsecNanos) ∧
      wholeSecs < 2 ^ 64 ∧ subsecNanos < 1000000000 ∧
      wholeSecs * 1000000000 + subsecNanos = rawTicks * 1000000000 / countedUnits tsresol := by
  have hsplit := mul_div_eq_split rawTicks 1000000000 (countedUnits tsresol)
    (countedUnits_pos tsresol)
  have hsecs : rawTicks / countedUnits tsresol < 2 ^ 64 :=
    lt_of_le_of_lt (Nat.div_le_self _ _) hticks
  have hrest : rawTicks % countedUnits tsresol < 2 ^ 64 :=
    lt_of_le_of_lt (Nat.mod_le _ _) hticks
  have hnanos :
      rawTicks % countedUnits tsresol * 1000000000 / countedUnits tsresol < 1000000000 := by
    rw [Nat.div_lt_iff_lt_mul (countedUnits_pos tsresol), Nat.mul_comm 1000000000]
    exact Nat.mul_lt_mul_of_pos_right (Nat.mod_lt _ (countedUnits_pos tsresol)) (by decide)
  refine ⟨rawTicks / countedUnits tsresol,
    rawTicks % countedUnits tsresol * 1000000000 / countedUnits tsresol, ?_, hsecs, hnanos,
    hsplit.symm⟩
  unfold splitTicks
  by_cases htop : tsresol &&& 0x80 ≠ 0
  · -- a power of two
    have hge := (topBit_iff tsresol).mp htop
    have hunits : countedUnits tsresol = 2 ^ (tsresol.toNat - 128) := if_neg (by omega)
    have hunit : 2 ^ (tsresol.toNat - 128) < 2 ^ 128 :=
      Nat.pow_lt_pow_right (by decide) (by have := tsresol.toNat_lt; omega)
    -- the remainder is below `2 ^ 64`, whatever the unit is, so the product fits
    have hscaled : rawTicks % 2 ^ (tsresol.toNat - 128) * 1000000000 < 2 ^ 128 := by
      rw [hunits] at hrest
      omega
    rw [hunits, if_pos htop]
    dsimp only
    rw [lowBits_eq hge, Nat.one_shiftLeft, bind_of_eq_some (unsigned?_eq rfl hunit),
      bind_of_eq_some (unsigned?_eq rfl hscaled)]
  · -- a power of ten
    have hlt : tsresol.toNat < 128 := by
      by_contra hge
      exact htop ((topBit_iff tsresol).mpr (by omega))
    have hunits : countedUnits tsresol = 10 ^ min tsresol.toNat 9 := if_pos hlt
    have hexp : min tsresol.toNat 9 ≤ 9 := Nat.min_le_right _ _
    rw [hunits] at hnanos ⊢
    generalize min tsresol.toNat 9 = exp at *
    have hscale : 10 ^ exp * 10 ^ (9 - exp) = 1000000000 := by
      rw [← Nat.pow_add, Nat.add_sub_cancel' hexp]
    -- no finer than nanoseconds, so a whole number of these is a tick
    have hdivide :
        rawTicks % 10 ^ exp * 1000000000 / 10 ^ exp = rawTicks % 10 ^ exp * 10 ^ (9 - exp) :=
      calc rawTicks % 10 ^ exp * 1000000000 / 10 ^ exp
          = 10 ^ exp * (rawTicks % 10 ^ exp * 10 ^ (9 - exp)) / 10 ^ exp := by
            rw [← hscale]
            ring_nf
        _ = rawTicks % 10 ^ exp * 10 ^ (9 - exp) := Nat.mul_div_cancel_left _ (by positivity)
    have hdivisor : 10 ^ exp < 2 ^ 128 :=
      lt_of_le_of_lt (Nat.pow_le_pow_right (by decide) hexp) (by decide)
    have hfactor : 10 ^ (9 - exp) < 2 ^ 128 :=
      lt_of_le_of_lt (Nat.pow_le_pow_right (by decide) (Nat.sub_le 9 exp)) (by decide)
    have hfits : rawTicks % 10 ^ exp * 10 ^ (9 - exp) < 2 ^ 128 := by
      rw [hdivide] at hnanos
      exact lt_of_lt_of_le hnanos (by decide)
    rw [if_neg htop, hdivide]
    dsimp only
    rw [bind_of_eq_some (unsigned?_eq rfl hdivisor), bind_of_eq_some (unsigned?_eq rfl hfactor),
      bind_of_eq_some (unsigned?_eq rfl hfits)]

/-- The timestamp of any tick count, at any resolution. -/
theorem correctEpbTimestamp_eq {rawTicks : ℕ} (hticks : rawTicks < 2 ^ 64)
    (ifTsresol : Option UInt8) :
    correctEpbTimestamp rawTicks ifTsresol =
      some (rawTicks * 1000000000 / countedUnits (ifTsresol.getD 6)) := by
  obtain ⟨wholeSecs, subsecNanos, hsplit, hsecs, hnanos, hsum⟩ :=
    splitTicks_spec hticks (ifTsresol.getD 6)
  have hcarry : subsecNanos / 1000000000 = 0 := Nat.div_eq_of_lt hnanos
  unfold correctEpbTimestamp
  rw [bind_of_eq_some hsplit]
  dsimp only
  rw [Nat.mod_eq_of_lt hsecs, Nat.mod_eq_of_lt (lt_trans hnanos (by decide)), Duration.new,
    hcarry, Nat.add_zero, if_pos hsecs, hsum]

/-- A later tick count is not given an earlier timestamp. -/
theorem correctEpbTimestamp_mono {earlier later : ℕ} (hle : earlier ≤ later)
    (hlater : later < 2 ^ 64) (ifTsresol : Option UInt8) :
    ∃ first ∈ correctEpbTimestamp earlier ifTsresol,
      ∃ second ∈ correctEpbTimestamp later ifTsresol, first ≤ second :=
  ⟨_, correctEpbTimestamp_eq (lt_of_le_of_lt hle hlater) ifTsresol, _,
    correctEpbTimestamp_eq hlater ifTsresol,
    Nat.div_le_div_right (Nat.mul_le_mul_right 1000000000 hle)⟩

/-- Rescaling neither fails nor cuts anything off; it is exact for every resolution
that can be represented and never reorders the packets of an interface. -/
theorem packetTimestamp_exact (interfaces : List InterfaceDescription) (interfaceId : ℕ)
    (rawTicks : ℕ) (hticks : rawTicks < 2 ^ 64) (ifTsresol : Option UInt8) :
    (∃ wholeSecs subsecNanos,
        splitTicks rawTicks (ifTsresol.getD 6) = some (wholeSecs, subsecNanos) ∧
          wholeSecs < 2 ^ 64 ∧ subsecNanos < 1000000000 ∧
          correctEpbTimestamp rawTicks ifTsresol = some (wholeSecs * 1000000000 + subsecNanos)) ∧
      (Representable ifTsresol →
        correctEpbTimestamp rawTicks ifTsresol =
          some (rawTicks * 1000000000 / unitsPerSecond ifTsresol)) ∧
      (∀ later, rawTicks ≤ later → later < 2 ^ 64 →
        ∃ first ∈ packetTimestamp interfaces interfaceId rawTicks,
          ∃ second ∈ packetTimestamp interfaces interfaceId later, first ≤ second) := by
  refine ⟨?_, fun hres => ?_, fun later hle hlater => correctEpbTimestamp_mono hle hlater _⟩
  · obtain ⟨wholeSecs, subsecNanos, hsplit, hsecs, hnanos, hsum⟩ :=
      splitTicks_spec hticks (ifTsresol.getD 6)
    refine ⟨wholeSecs, subsecNanos, hsplit, hsecs, hnanos, ?_⟩
    rw [correctEpbTimestamp_eq hticks, ← hsum]
  · rw [correctEpbTimestamp_eq hticks, countedUnits_eq hres]

/-- Three halves of a second, counted in halves. -/
theorem packetTimestamp_halves : correctEpbTimestamp 3 (some 0x81) = some 1500000000 := by
  have hrepresentable : Representable (some 0x81) := by
    rintro tsresol ⟨⟩
    decide
  have hexact := (packetTimestamp_exact [⟨[.ifTsResol 0x81]⟩] 0 3 (by decide) (some 0x81)).2.1
    hrepresentable
  rw [hexact]
  rfl

end Tlscap
