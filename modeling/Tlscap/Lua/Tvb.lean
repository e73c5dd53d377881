import Mathlib.Data.Nat.Digits.Defs
import Tlscap.Lua.Model

/-!
# The byte view of a dissector

A dissector reads its plaintext through a `Tvb`, and through the `TvbRange`s it gets by calling
a `Tvb` or one of its ranges with an offset and a length.  Both are signed numbers of the
script; the bounds check is made on their unsigned conversions, with the wrapping addition of
a release build.  A call that meets `Unwrapped` is refused or gives exactly the bytes it asked
for; any other call passes the check and gives a range outside its own window
(`Tvb.slice_confined_iff`).

### Strategy

What a call asks for is said without machine numbers (`SliceCall.window`), and compared with
what the code computes, modulo `2 ^ 64`:

* **It asks for bytes of the window.**  Nothing wraps, and it gets them
  (`Tvb.slice_of_window`).
* **It asks for others, and the sum of the conversions does not wrap**, or is more than the
  window even so: the check refuses it (`Tvb.slice_of_window_eq_none`).
* **The sum wraps back into the window**, which takes a negative number: the check passes,
  and the range starts outside the window or runs backwards (`Tvb.slice_of_not_unwrapped`).
  Reading the bytes of such a range panics.

A list of calls is followed by induction (`TvbRange.nested_iff`): as long as calls are
unwrapped, each range lies in the one before it and holds the part of its bytes that was asked
for, so the next call is one on a window of that many bytes.
-/

namespace Tlscap

/-! ### The code -/

/-- A vector of bytes; the language keeps its length below `2 ^ 63`. -/
structure ByteVec where
  bytes : Bytes
  length_lt : bytes.length < 2 ^ 63

/-- `Vec::len`, a `usize` of 64 bits. -/
def ByteVec.len (data : ByteVec) : UInt64 := UInt64.ofNat data.bytes.length

/-- `usize::saturating_sub` -/
def saturatingSub (a b : UInt64) : UInt64 := if b ≤ a then a - b else 0

/-- The arguments of one call: an offset and, if it is given, a length. -/
structure SliceCall where
  offset : Int64
  length : Option Int64

/-- A part `start..stop` of the bytes. -/
structure TvbRange where
  data : ByteVec
  start : UInt64
  stop : UInt64

/-- The whole plaintext of one dissection. -/
structure Tvb where
  data : ByteVec

namespace Tvb

/-- What a refused call says. -/
def outOfBounds (offset stop baseLen : UInt64) : Text :=
  "Tvb/TvbRange: range ".toList ++ Nat.toDigits 10 offset.toNat ++ "..".toList ++
    Nat.toDigits 10 stop.toNat ++ " out of bounds (len ".toList ++
    Nat.toDigits 10 baseLen.toNat ++ ")".toList

/-- The range of a call on the window of `baseLen` bytes from `baseStart` on. -/
def slice (data : ByteVec) (baseStart baseLen : UInt64) (call : SliceCall) :
    Except Text TvbRange :=
  let offset := call.offset.toUInt64
  let avail := saturatingSub baseLen offset
  let len := (call.length.map Int64.toUInt64).getD avail
  if offset + len > baseLen then .error (outOfBounds offset (offset + len) baseLen)
  else
    let start := baseStart + offset
    .ok { data, start, stop := start + len }

/-- `tvb(offset, length)` -/
def call (tvb : Tvb) (arguments : SliceCall) : Except Text TvbRange :=
  slice tvb.data 0 tvb.data.len arguments

end Tvb

namespace TvbRange

variable (r : TvbRange)

/-- `Range::len`, nothing if the range runs backwards. -/
def len : UInt64 := saturatingSub r.stop r.start

/-- `&self.data[self.range.clone()]`; `none` is a panic. -/
def bytes : Option Bytes :=
  if r.start ≤ r.stop ∧ r.stop ≤ r.data.len then
    some (Tlscap.slice r.data.bytes r.start.toNat (r.stop.toNat - r.start.toNat))
  else none

/-- `tvbrange(offset, length)`, relative to the start of the range. -/
def call (arguments : SliceCall) : Except Text TvbRange :=
  Tvb.slice r.data r.start r.len arguments

/-- `u64::from_le_bytes` -/
def fromLeBytes (buf : Bytes) : UInt64 :=
  UInt64.ofNat (Nat.ofDigits 256 (buf.map UInt8.toNat))

/-- `u64::from_be_bytes` -/
def fromBeBytes (buf : Bytes) : UInt64 := fromLeBytes buf.reverse

/-- `parse_uint`: the bytes padded with zeros to eight. -/
def parseUint (bytes : Bytes) (littleEndian : Bool) : Except Text UInt64 :=
  if bytes.isEmpty ∨ bytes.length > 8 then
    .error ("TvbRange: cannot parse ".toList ++ Nat.toDigits 10 bytes.length ++
      "-byte range as an integer".toList)
  else if littleEndian then .ok (fromLeBytes (bytes ++ List.replicate (8 - bytes.length) 0))
  else .ok (fromBeBytes (List.replicate (8 - bytes.length) 0 ++ bytes))

/-- `uint_be` -/
def uintBe : Option (Except Text UInt64) := r.bytes.map (parseUint · false)

/-- `uint_le` -/
def uintLe : Option (Except Text UInt64) := r.bytes.map (parseUint · true)

/-- The ranges reached one after the other by a list of calls, each made on the range
before it; a refused call ends the list. -/
def slices : List SliceCall → TvbRange → List TvbRange
  | [], _ => []
  | arguments :: calls, r =>
    match r.call arguments with
    | .ok inner => inner :: slices calls inner
    | .error _ => []

end TvbRange

namespace Tvb

/-- The ranges a list of calls reaches from the whole buffer. -/
def slices (tvb : Tvb) : List SliceCall → List TvbRange
  | [] => []
  | arguments :: calls =>
    match tvb.call arguments with
    | .ok inner => inner :: inner.slices calls
    | .error _ => []

end Tvb

/-! ### What a call asks for -/

namespace SliceCall

variable (arguments : SliceCall)

/-- The positions a call asks for in a window of `n` bytes, if they are in it. -/
def window (n : ℕ) : Option ByteRange :=
  let offset := arguments.offset.toInt
  let length := (arguments.length.map Int64.toInt).getD (n - offset)
  if 0 ≤ offset ∧ 0 ≤ length ∧ offset + length ≤ n then
    some ⟨offset.toNat, (offset + length).toNat⟩
  else none

/-- The bytes a call asks for. -/
def cut (bytes : Bytes) : Option Bytes :=
  (arguments.window bytes.length).map fun range =>
    slice bytes range.start (range.stop - range.start)

/-- The bytes a list of calls asks for, each of what the one before it gave. -/
def cuts : List SliceCall → Bytes → List Bytes
  | [], _ => []
  | arguments :: calls, bytes =>
    match arguments.cut bytes with
    | some inner => inner :: cuts calls inner
    | none => []

/-- The length is left out, or offset and length are not negative, or their sum is more
than `n` even after it has wrapped around. -/
def Unwrapped (n : ℕ) : Prop :=
  ∀ length ∈ arguments.length,
    (0 ≤ arguments.offset.toInt ∧ 0 ≤ length.toInt) ∨
      (n : ℤ) < (arguments.offset.toInt + length.toInt) % 2 ^ 64

/-- Every call of a list is `Unwrapped` for the bytes it is made on. -/
def AllUnwrapped : List SliceCall → Bytes → Prop
  | [], _ => True
  | arguments :: calls, bytes =>
    arguments.Unwrapped bytes.length ∧ ∀ inner ∈ arguments.cut bytes, AllUnwrapped calls inner

end SliceCall

/-! ### Conversions -/

theorem toNat_toUInt64 (value : Int64) : (value.toUInt64.toNat : ℤ) = value.toInt % 2 ^ 64 := by
  have hint := BitVec.toInt_eq_toNat_cond value.toBitVec
  rw [Int64.toInt_toBitVec, Int64.toNat_toBitVec] at hint
  have hlt := value.toUInt64.toNat_lt
  split at hint <;> omega

theorem toNat_saturatingSub (a b : UInt64) : (saturatingSub a b).toNat = a.toNat - b.toNat := by
  unfold saturatingSub
  by_cases hle : b ≤ a
  · rw [if_pos hle, UInt64.toNat_sub_of_le _ _ hle]
  · rw [if_neg hle]
    have := UInt64.le_iff_toNat_le.not.mp hle
    simp only [UInt64.toNat_zero]
    omega

@[simp] theorem ByteVec.toNat_len (data : ByteVec) : data.len.toNat = data.bytes.length := by
  have hlt := data.length_lt
  have hsize : data.bytes.length < UInt64.size := by
    rw [UInt64.size]
    omega
  exact UInt64.toNat_ofNat_of_lt' hsize

/-! ### One call -/

namespace SliceCall

variable {arguments : SliceCall} {n : ℕ}

/-- The unsigned length of a call on a window of `baseLen` bytes. -/
def len (arguments : SliceCall) (baseLen : UInt64) : UInt64 :=
  (arguments.length.map Int64.toUInt64).getD (saturatingSub baseLen arguments.offset.toUInt64)

theorem toNat_len_none (baseLen : UInt64) (hnone : arguments.length = none) :
    (arguments.len baseLen).toNat = baseLen.toNat - arguments.offset.toUInt64.toNat := by
  rw [len, hnone]
  exact toNat_saturatingSub baseLen arguments.offset.toUInt64

theorem toNat_len_some (baseLen : UInt64) {length : Int64}
    (hsome : arguments.length = some length) :
    ((arguments.len baseLen).toNat : ℤ) = length.toInt % 2 ^ 64 := by
  rw [len, hsome]
  exact toNat_toUInt64 length

theorem window_eq_some {range : ByteRange} (hwindow : arguments.window n = some range) :
    (range.start : ℤ) = arguments.offset.toInt ∧
      (range.stop : ℤ) = arguments.offset.toInt +
        (arguments.length.map Int64.toInt).getD (n - arguments.offset.toInt) ∧
      range.start ≤ range.stop ∧ range.stop ≤ n := by
  obtain ⟨⟨hoffset, hlength, hle⟩, hrange⟩ := Option.ite_none_right_eq_some.mp hwindow
  obtain rfl := Option.some.inj hrange
  exact ⟨Int.toNat_of_nonneg hoffset, Int.toNat_of_nonneg (by omega),
    Int.toNat_le_toNat (by omega), Int.toNat_le.mpr hle⟩

theorem window_eq_none (hwindow : arguments.window n = none) :
    ¬ (0 ≤ arguments.offset.toInt ∧
      0 ≤ (arguments.length.map Int64.toInt).getD (n - arguments.offset.toInt) ∧
      arguments.offset.toInt +
        (arguments.length.map Int64.toInt).getD (n - arguments.offset.toInt) ≤ n) := by
  intro hin
  exact Option.some_ne_none _ ((if_pos hin).symm.trans hwindow)

end SliceCall

namespace Tvb

variable {data : ByteVec} {baseStart baseLen : UInt64} {arguments : SliceCall}

theorem slice_eq_error (hlt : baseLen.toNat <
      (arguments.offset.toUInt64.toNat + (arguments.len baseLen).toNat) % 2 ^ 64) :
    ∃ message, slice data baseStart baseLen arguments = .error message := by
  have hcheck : arguments.offset.toUInt64 + arguments.len baseLen > baseLen := by
    rwa [gt_iff_lt, UInt64.lt_iff_toNat_lt, UInt64.toNat_add]
  exact ⟨_, if_pos hcheck⟩

theorem slice_eq_ok (hle : (arguments.offset.toUInt64.toNat + (arguments.len baseLen).toNat) %
      2 ^ 64 ≤ baseLen.toNat) :
    slice data baseStart baseLen arguments =
      .ok ⟨data, baseStart + arguments.offset.toUInt64,
        baseStart + arguments.offset.toUInt64 + arguments.len baseLen⟩ := by
  have hcheck : ¬ arguments.offset.toUInt64 + arguments.len baseLen > baseLen := by
    rwa [gt_iff_lt, UInt64.lt_iff_toNat_lt, UInt64.toNat_add, not_lt]
  exact if_neg hcheck

/-- A call for bytes of the window gets them. -/
theorem slice_of_window (hinside : baseStart.toNat + baseLen.toNat < 2 ^ 63)
    {range : ByteRange} (hwindow : arguments.window baseLen.toNat = some range) :
    ∃ r, slice data baseStart baseLen arguments = .ok r ∧ r.data = data ∧
      r.start.toNat = baseStart.toNat + range.start ∧
      r.stop.toNat = baseStart.toNat + range.stop := by
  obtain ⟨hstart, hstop, hordered, hle⟩ := SliceCall.window_eq_some hwindow
  have hoffset := toNat_toUInt64 arguments.offset
  have hlen : ((arguments.len baseLen).toNat : ℤ) = range.stop - range.start := by
    cases hlength : arguments.length with
    | none =>
      have hnone := SliceCall.toNat_len_none baseLen hlength
      rw [hlength] at hstop
      simp only [Option.map_none, Option.getD_none] at hstop
      omega
    | some length =>
      have hsome := SliceCall.toNat_len_some baseLen hlength
      rw [hlength] at hstop
      simp only [Option.map_some, Option.getD_some] at hstop
      omega
  refine ⟨_, slice_eq_ok (by omega), rfl, ?_, ?_⟩
  · rw [UInt64.toNat_add]
    omega
  · rw [UInt64.toNat_add, UInt64.toNat_add]
    omega

/-- An unwrapped call for bytes outside the window is refused. -/
theorem slice_of_window_eq_none (hbase : baseLen.toNat < 2 ^ 63)
    (hunwrapped : arguments.Unwrapped baseLen.toNat)
    (hwindow : arguments.window baseLen.toNat = none) :
    ∃ message, slice data baseStart baseLen arguments = .error message := by
  apply slice_eq_error
  have hoffset := toNat_toUInt64 arguments.offset
  have hmin := arguments.offset.le_toInt
  have hmax := arguments.offset.toInt_lt
  have hout := SliceCall.window_eq_none hwindow
  cases hlength : arguments.length with
  | none =>
    have hnone := SliceCall.toNat_len_none baseLen hlength
    rw [hlength] at hout
    simp only [Option.map_none, Option.getD_none] at hout
    omega
  | some length =>
    have hsome := SliceCall.toNat_len_some baseLen hlength
    have hlower := length.le_toInt
    have hupper := length.toInt_lt
    rw [hlength] at hout
    simp only [Option.map_some, Option.getD_some] at hout
    rcases hunwrapped length hlength with hpositive | hlarge <;> omega

/-- Any other call passes the check and gets a range outside the window. -/
theorem slice_of_not_unwrapped (hinside : baseStart.toNat + baseLen.toNat < 2 ^ 63)
    (hwrapped : ¬ arguments.Unwrapped baseLen.toNat) :
    ∃ r, slice data baseStart baseLen arguments = .ok r ∧
      ¬ (baseStart ≤ r.start ∧ r.start ≤ r.stop) := by
  have hoffset := toNat_toUInt64 arguments.offset
  have hmin := arguments.offset.le_toInt
  have hmax := arguments.offset.toInt_lt
  unfold SliceCall.Unwrapped at hwrapped
  push Not at hwrapped
  obtain ⟨length, hlength, hnegative, hsmall⟩ := hwrapped
  have hsome := SliceCall.toNat_len_some baseLen hlength
  have hlower := length.le_toInt
  have hupper := length.toInt_lt
  -- At least one of the two is negative, so the sum of the conversions wraps once.
  have hsum : 2 ^ 64 ≤ arguments.offset.toUInt64.toNat + (arguments.len baseLen).toNat ∧
      arguments.offset.toUInt64.toNat + (arguments.len baseLen).toNat ≤
        2 ^ 64 + baseLen.toNat := by
    rcases lt_or_ge arguments.offset.toInt 0 with hneg | hpos
    · have hshift : (arguments.offset.toUInt64.toNat : ℤ) = arguments.offset.toInt + 2 ^ 64 := by
        omega
      rcases lt_or_ge length.toInt 0 with hlengthNeg | hlengthPos <;> omega
    · have hlengthNeg := hnegative hpos
      omega
  refine ⟨_, slice_eq_ok (by omega), ?_⟩
  have hstart := arguments.offset.toUInt64.toNat_lt
  have hlen := (arguments.len baseLen).toNat_lt
  simp only [UInt64.le_iff_toNat_le, UInt64.toNat_add]
  omega

end Tvb

/-! ### Nested calls -/

namespace TvbRange

variable {r inner : TvbRange} {arguments : SliceCall} {content : Bytes}

/-- A range that runs forwards, inside the window of another. -/
def Inside (inner outer : TvbRange) : Prop :=
  outer.start ≤ inner.start ∧ inner.start ≤ inner.stop ∧ inner.stop ≤ outer.stop

theorem Inside.trans {outer : TvbRange} (hinner : inner.Inside r) (hr : r.Inside outer) :
    inner.Inside outer :=
  ⟨UInt64.le_trans hr.1 hinner.1, hinner.2.1, UInt64.le_trans hinner.2.2 hr.2.2⟩

theorem bytes_eq_some : r.bytes = some content ↔
    (r.start ≤ r.stop ∧ r.stop ≤ r.data.len) ∧
      slice r.data.bytes r.start.toNat (r.stop.toNat - r.start.toNat) = content := by
  rw [bytes, Option.ite_none_right_eq_some, Option.some_inj]

/-- A range whose bytes can be read covers as many as they are. -/
theorem bounds_of_bytes (hbytes : r.bytes = some content) :
    r.start.toNat + content.length = r.stop.toNat ∧
      r.stop.toNat ≤ r.data.bytes.length ∧ r.len.toNat = content.length := by
  obtain ⟨⟨hordered, hend⟩, rfl⟩ := bytes_eq_some.mp hbytes
  rw [UInt64.le_iff_toNat_le] at hordered hend
  rw [ByteVec.toNat_len] at hend
  rw [length_slice (by omega), len, toNat_saturatingSub]
  exact ⟨by omega, hend, rfl⟩

/-- The bytes of a range inside another are the part of its bytes at that place. -/
theorem bytes_of_offsets (hbytes : r.bytes = some content) (hdata : inner.data = r.data)
    {range : ByteRange} (hordered : range.start ≤ range.stop)
    (hin : range.stop ≤ content.length)
    (hstart : inner.start.toNat = r.start.toNat + range.start)
    (hstop : inner.stop.toNat = r.start.toNat + range.stop) :
    inner.Inside r ∧ inner.bytes = some (slice content range.start (range.stop - range.start)) := by
  obtain ⟨hlength, hend, -⟩ := bounds_of_bytes hbytes
  obtain ⟨-, rfl⟩ := bytes_eq_some.mp hbytes
  refine ⟨?_, bytes_eq_some.mpr ⟨⟨?_, ?_⟩, ?_⟩⟩
  · simp only [Inside, UInt64.le_iff_toNat_le]
    omega
  · rw [UInt64.le_iff_toNat_le]
    omega
  · rw [UInt64.le_iff_toNat_le, ByteVec.toNat_len, hdata]
    omega
  · rw [hdata, hstart, hstop]
    conv_rhs => rw [slice, drop_slice, slice, List.take_take]
    rw [slice]
    congr 1
    omega

/-- A call for bytes of the range gets them, from inside the range. -/
theorem call_of_cut (hbytes : r.bytes = some content) {part : Bytes}
    (hcut : arguments.cut content = some part) :
    ∃ inner, r.call arguments = .ok inner ∧ inner.Inside r ∧ inner.bytes = some part := by
  obtain ⟨hlength, hend, hlen⟩ := bounds_of_bytes hbytes
  have hlt := r.data.length_lt
  obtain ⟨range, hwindow, rfl⟩ := Option.map_eq_some_iff.mp hcut
  obtain ⟨-, -, hordered, hin⟩ := SliceCall.window_eq_some hwindow
  rw [← hlen] at hwindow
  have hslice : ∃ inner, Tvb.slice r.data r.start r.len arguments = .ok inner ∧
      inner.data = r.data ∧ inner.start.toNat = r.start.toNat + range.start ∧
      inner.stop.toNat = r.start.toNat + range.stop :=
    Tvb.slice_of_window (by omega) hwindow
  obtain ⟨inner, hcall, hdata, hstart, hstop⟩ := hslice
  exact ⟨inner, hcall, bytes_of_offsets hbytes hdata hordered hin hstart hstop⟩

/-- An unwrapped call for anything else is refused. -/
theorem call_of_cut_eq_none (hbytes : r.bytes = some content)
    (hunwrapped : arguments.Unwrapped content.length) (hcut : arguments.cut content = none) :
    ∃ message, r.call arguments = .error message := by
  obtain ⟨hlength, hend, hlen⟩ := bounds_of_bytes hbytes
  have hlt := r.data.length_lt
  have hwindow := Option.map_eq_none_iff.mp hcut
  rw [← hlen] at hwindow hunwrapped
  exact Tvb.slice_of_window_eq_none (by omega) hunwrapped hwindow

/-- A call that is not unwrapped leaves the range. -/
theorem call_of_not_unwrapped (hbytes : r.bytes = some content)
    (hwrapped : ¬ arguments.Unwrapped content.length) :
    ∃ inner, r.call arguments = .ok inner ∧ ¬ inner.Inside r := by
  obtain ⟨hlength, hend, hlen⟩ := bounds_of_bytes hbytes
  have hlt := r.data.length_lt
  rw [← hlen] at hwrapped
  have hslice : ∃ inner, Tvb.slice r.data r.start r.len arguments = .ok inner ∧
      ¬ (r.start ≤ inner.start ∧ inner.start ≤ inner.stop) :=
    Tvb.slice_of_not_unwrapped (by omega) hwrapped
  obtain ⟨inner, hcall, hout⟩ := hslice
  exact ⟨inner, hcall, fun hinside => hout ⟨hinside.1, hinside.2.1⟩⟩

/-- The ranges `slices` reaches from `r` are nested one in the other, and hold the parts
their calls ask for. -/
def Nested (calls : List SliceCall) (r : TvbRange) (content : Bytes) : Prop :=
  (r :: r.slices calls).Pairwise (fun outer inner => inner.Inside outer) ∧
    (r.slices calls).map bytes = (SliceCall.cuts calls content).map some

theorem slices_cons_ok {calls : List SliceCall} (hcall : r.call arguments = .ok inner) :
    r.slices (arguments :: calls) = inner :: inner.slices calls := by
  simp only [slices, hcall]

theorem slices_cons_error {calls : List SliceCall} {message : Text}
    (hcall : r.call arguments = .error message) : r.slices (arguments :: calls) = [] := by
  simp only [slices, hcall]

theorem pairwise_inside_cons {ranges : List TvbRange} :
    (r :: inner :: ranges).Pairwise (fun outer inner => inner.Inside outer) ↔
      inner.Inside r ∧ (inner :: ranges).Pairwise (fun outer inner => inner.Inside outer) := by
  rw [List.pairwise_cons]
  refine and_congr_left fun hranges => ?_
  rw [List.forall_mem_cons]
  refine and_iff_left_of_imp fun hinner x hx => ?_
  exact ((List.pairwise_cons.mp hranges).1 x hx).trans hinner

/-- By induction on the calls: each is a step of the three lemmas above. -/
theorem nested_iff (calls : List SliceCall) (hbytes : r.bytes = some content) :
    Nested calls r content ↔ SliceCall.AllUnwrapped calls content := by
  induction calls generalizing r content with
  | nil => simp [Nested, slices, SliceCall.cuts, SliceCall.AllUnwrapped]
  | cons arguments calls ih =>
    by_cases hunwrapped : arguments.Unwrapped content.length
    · cases hcut : arguments.cut content with
      | none =>
        obtain ⟨message, hcall⟩ := call_of_cut_eq_none hbytes hunwrapped hcut
        simp [Nested, slices_cons_error hcall, SliceCall.cuts, hcut, SliceCall.AllUnwrapped,
          hunwrapped]
      | some part =>
        obtain ⟨inner, hcall, hinside, hpart⟩ := call_of_cut hbytes hcut
        calc Nested (arguments :: calls) r content
            ↔ Nested calls inner part := by
              rw [Nested, slices_cons_ok hcall, pairwise_inside_cons, and_iff_right hinside,
                SliceCall.cuts, hcut, List.map_cons, List.map_cons, hpart, List.cons_inj_right,
                Nested]
          _ ↔ SliceCall.AllUnwrapped calls part := ih hpart
          _ ↔ SliceCall.AllUnwrapped (arguments :: calls) content := by
              simp [SliceCall.AllUnwrapped, hunwrapped, hcut]
    · obtain ⟨inner, hcall, hout⟩ := call_of_not_unwrapped hbytes hunwrapped
      have hnot : ¬ Nested (arguments :: calls) r content := by
        rw [Nested, slices_cons_ok hcall, pairwise_inside_cons]
        exact fun hnested => hout hnested.1.1
      exact iff_of_false hnot fun hall => hunwrapped hall.1

/-- A number is read exactly where the bytes are. -/
theorem uint_isSome : r.uintBe.isSome = r.bytes.isSome ∧ r.uintLe.isSome = r.bytes.isSome :=
  ⟨Option.isSome_map, Option.isSome_map⟩

/-- One to eight bytes are read as digits to the base 256; the padding does not count. -/
theorem parseUint_eq_ok {bytes : Bytes} (hnonempty : bytes ≠ []) (hshort : bytes.length ≤ 8) :
    parseUint bytes true = .ok (UInt64.ofNat (Nat.ofDigits 256 (bytes.map UInt8.toNat))) ∧
      parseUint bytes false = parseUint bytes.reverse true := by
  have hpad : fromLeBytes (bytes ++ List.replicate (8 - bytes.length) 0) =
      UInt64.ofNat (Nat.ofDigits 256 (bytes.map UInt8.toNat)) := by
    rw [fromLeBytes, List.map_append, List.map_replicate, UInt8.toNat_zero,
      Nat.ofDigits_append_replicate_zero]
  have hread : ¬ (bytes.isEmpty ∨ bytes.length > 8) :=
    not_or.mpr ⟨List.isEmpty_iff.not.mpr hnonempty, not_lt.mpr hshort⟩
  have hreverse : ¬ (bytes.reverse.isEmpty ∨ bytes.reverse.length > 8) := by
    rwa [List.isEmpty_reverse, List.length_reverse]
  constructor
  · rw [parseUint, if_neg hread, if_pos rfl, hpad]
  · rw [parseUint, parseUint, if_neg hread, if_neg hreverse, if_pos rfl,
      if_neg Bool.false_ne_true, fromBeBytes, List.reverse_append, List.reverse_replicate,
      List.length_reverse]

end TvbRange

namespace Tvb

/-- The range of all bytes. -/
def whole (tvb : Tvb) : TvbRange := ⟨tvb.data, 0, tvb.data.len⟩

theorem bytes_whole (tvb : Tvb) : tvb.whole.bytes = some tvb.data.bytes := by
  rw [TvbRange.bytes_eq_some]
  refine ⟨⟨UInt64.zero_le, UInt64.le_refl _⟩, ?_⟩
  simp [whole, Tlscap.slice]

theorem slices_eq (tvb : Tvb) (calls : List SliceCall) :
    tvb.slices calls = tvb.whole.slices calls := by
  cases calls with
  | nil => rfl
  | cons arguments calls =>
    have hlen : tvb.whole.len = tvb.data.len := by
      simp [TvbRange.len, whole, saturatingSub]
    rw [slices, TvbRange.slices, TvbRange.call, hlen]
    rfl

/-- What a call on a window gives is confined to it and can be read. -/
def Confined (data : ByteVec) (baseStart baseLen : UInt64) (arguments : SliceCall) : Prop :=
  ∀ r, slice data baseStart baseLen arguments = .ok r →
    baseStart ≤ r.start ∧ r.start ≤ r.stop ∧
      r.stop.toNat ≤ baseStart.toNat + baseLen.toNat ∧ r.bytes.isSome

theorem confined_iff {data : ByteVec} {baseStart baseLen : UInt64}
    (hinside : baseStart.toNat + baseLen.toNat ≤ data.bytes.length) (arguments : SliceCall) :
    Confined data baseStart baseLen arguments ↔ arguments.Unwrapped baseLen.toNat := by
  have hlt := data.length_lt
  constructor
  · intro hconfined
    by_contra hwrapped
    have hslice : ∃ r, slice data baseStart baseLen arguments = .ok r ∧
        ¬ (baseStart ≤ r.start ∧ r.start ≤ r.stop) :=
      slice_of_not_unwrapped (by omega) hwrapped
    obtain ⟨r, hr, hout⟩ := hslice
    obtain ⟨hstart, hordered, -⟩ := hconfined r hr
    exact hout ⟨hstart, hordered⟩
  · intro hunwrapped r hr
    cases hwindow : arguments.window baseLen.toNat with
    | none =>
      have hslice : ∃ message, slice data baseStart baseLen arguments = .error message :=
        slice_of_window_eq_none (by omega) hunwrapped hwindow
      obtain ⟨message, herror⟩ := hslice
      rw [herror] at hr
      cases hr
    | some range =>
      -- nothing wraps, so the ends are those of the window that was asked for
      obtain ⟨-, -, hordered, hin⟩ := SliceCall.window_eq_some hwindow
      have hslice : ∃ r, slice data baseStart baseLen arguments = .ok r ∧ r.data = data ∧
          r.start.toNat = baseStart.toNat + range.start ∧
          r.stop.toNat = baseStart.toNat + range.stop :=
        slice_of_window (by omega) hwindow
      obtain ⟨found, hfound, hdata, hstart, hstop⟩ := hslice
      obtain rfl := Except.ok.inj (hfound.symm.trans hr)
      have hforwards : found.start ≤ found.stop := by
        rw [UInt64.le_iff_toNat_le]
        omega
      have hend : found.stop ≤ found.data.len := by
        rw [UInt64.le_iff_toNat_le, ByteVec.toNat_len, hdata]
        omega
      refine ⟨?_, hforwards, by omega, ?_⟩
      · rw [UInt64.le_iff_toNat_le]
        omega
      · rw [TvbRange.bytes, if_pos ⟨hforwards, hend⟩]
        rfl

/-- A call stays in the window it is made on exactly if it is unwrapped, and the ranges of
a list of calls stay in all the windows before them, with the bytes asked for, exactly if
each is. -/
theorem slice_confined_iff (data : ByteVec) :
    (∀ (baseStart baseLen : UInt64) (arguments : SliceCall),
      baseStart.toNat + baseLen.toNat ≤ data.bytes.length →
        (Confined data baseStart baseLen arguments ↔
          arguments.Unwrapped baseLen.toNat)) ∧
    ∀ calls : List SliceCall,
      (((Tvb.mk data).whole :: (Tvb.mk data).slices calls).Pairwise
          (fun outer inner => inner.Inside outer) ∧
        ((Tvb.mk data).slices calls).map TvbRange.bytes =
          (SliceCall.cuts calls data.bytes).map some) ↔
      SliceCall.AllUnwrapped calls data.bytes := by
  refine ⟨fun baseStart baseLen arguments hinside => confined_iff hinside arguments,
    fun calls => ?_⟩
  rw [slices_eq]
  exact TvbRange.nested_iff calls (Tvb.mk data).bytes_whole

/-- The plaintext `aa bb`. -/
def twoBytes : ByteVec := ⟨[0xaa, 0xbb], by decide⟩

/-- `tvb(-1, 1)` is no error, and reading its bytes panics. -/
theorem slice_before_start :
    twoBytes.bytes.length = 2 ∧ ((Tvb.mk twoBytes).call ⟨-1, some 1⟩).isOk = true ∧
      ¬ Confined twoBytes 0 2 ⟨-1, some 1⟩ ∧
      ((Tvb.mk twoBytes).slices [⟨-1, some 1⟩]).map TvbRange.bytes = [none] := by
  refine ⟨rfl, by decide, ?_, by decide⟩
  intro hconfined
  obtain ⟨-, hordered, -⟩ := hconfined _ rfl
  exact absurd hordered (by decide)

end Tvb

end Tlscap
