import Tlscap.Tls.Record12
import Tlscap.Tls.Recording

/-!
# Key expansion

`p_hash` against its definition in the standard: the loop appends the output blocks
of the series one after another and stops at the first that reaches the length asked
for.

* **The loop is the series** cut where it is long enough (`pHashLoop_eq_series`).  Every
  block has the size of the MAC, which is positive, so the loop ends within as many
  iterations as bytes are asked for (`pHashLoop_terminates`).
* **A shorter output is a prefix** of a longer one, as series that are long enough start
  with the same bytes (`take_series`).
* **The key block** is cut by `derive` into four consecutive pieces, with nothing between
  them and nothing left over (`derive_tiles`).
-/

namespace Tlscap.Tls12

/-! ## The series -/

section Series

variable (mac : Bytes → Bytes) (seed : Bytes)

/-- `A(i)`. -/
def chain : ℕ → Bytes
  | 0 => seed
  | i + 1 => mac (chain i)

/-- The output block that `A(i + 1)` gives. -/
def outputBlock (i : ℕ) : Bytes := mac (chain mac seed (i + 1) ++ seed)

/-- The first output blocks, one after another. -/
def series (count : ℕ) : Bytes := (List.range count).flatMap (outputBlock mac seed)

theorem series_succ (count : ℕ) :
    series mac seed (count + 1) = series mac seed count ++ outputBlock mac seed count := by
  rw [series, series, List.range_succ, List.flatMap_append, List.flatMap_singleton]

theorem series_prefix {count more : ℕ} (hle : count ≤ more) :
    series mac seed count <+: series mac seed more := by
  induction hle with
  | refl => exact List.prefix_rfl
  | step _ ih =>
      apply ih.trans
      rw [series_succ]
      exact List.prefix_append _ _

variable {mac} {size : ℕ} (hsize : ∀ data, (mac data).length = size)
include hsize

theorem length_series (count : ℕ) : (series mac seed count).length = count * size := by
  induction count with
  | zero => rw [Nat.zero_mul]; rfl
  | succ count ih =>
      rw [series_succ, List.length_append, ih, outputBlock, hsize, Nat.succ_mul]

/-- Every series that is long enough starts with the same bytes. -/
theorem take_series {outLen count more : ℕ} (hle : count ≤ more) (hcount : outLen ≤ count * size) :
    (series mac seed more).take outLen = (series mac seed count).take outLen := by
  obtain ⟨rest, hrest⟩ := series_prefix mac seed hle
  rw [← hrest, List.take_append_of_le_length]
  rw [length_series seed hsize]
  exact hcount

/-! ## The loop -/

/-- With enough fuel the loop ends by its condition, at the first block that reaches
the length. -/
theorem pHashLoop_eq_series {outLen last : ℕ} (hlast : outLen ≤ last * size)
    (hfirst : ∀ count < last, count * size < outLen) (fuel : ℕ) {count : ℕ}
    (hcount : count ≤ last) (hfuel : last ≤ count + fuel) :
    pHashLoop mac seed outLen fuel (series mac seed count) (chain mac seed (count + 1)) =
      series mac seed last := by
  induction fuel generalizing count with
  | zero =>
      obtain rfl : count = last := by omega
      rfl
  | succ fuel ih =>
      rw [pHashLoop, length_series seed hsize]
      obtain rfl | hlt : count = last ∨ count < last := by omega
      · rw [if_neg (Nat.not_lt.mpr hlast)]
      · rw [if_pos (hfirst count hlt)]
        have hnext := ih (Nat.succ_le_of_lt hlt) (by omega)
        rw [series_succ] at hnext
        exact hnext

/-- The loop ends within as many iterations as bytes are asked for, and any fuel
beyond that is left over. -/
theorem pHashLoop_terminates (hpos : 0 < size) (outLen : ℕ) :
    ∃ last, outLen ≤ last * size ∧ ∀ fuel, outLen ≤ fuel →
      pHashLoop mac seed outLen fuel [] (mac seed) = series mac seed last := by
  have hreached : ∃ last, outLen ≤ last * size := ⟨outLen, Nat.le_mul_of_pos_right outLen hpos⟩
  refine ⟨Nat.find hreached, Nat.find_spec hreached, fun fuel hfuel => ?_⟩
  apply pHashLoop_eq_series seed hsize (Nat.find_spec hreached) _ fuel (Nat.zero_le _)
  · have hle : Nat.find hreached ≤ outLen :=
      Nat.find_min' hreached (Nat.le_mul_of_pos_right outLen hpos)
    omega
  · intro count hcount
    exact Nat.lt_of_not_le (Nat.find_min hreached hcount)

/-- `p_hash` is the beginning of the series. -/
theorem pHash_eq_take (hpos : 0 < size) {outLen count : ℕ} (hcount : outLen ≤ count * size) :
    pHash mac seed outLen = (series mac seed count).take outLen := by
  obtain ⟨last, hlast, hloop⟩ := pHashLoop_terminates seed hsize hpos outLen
  rw [pHash, hloop outLen le_rfl]
  rcases le_total last count with hle | hle
  · exact (take_series seed hsize hle hlast).symm
  · exact take_series seed hsize hle hcount

theorem length_pHash (hpos : 0 < size) (outLen : ℕ) : (pHash mac seed outLen).length = outLen := by
  have hcount : outLen ≤ outLen * size := Nat.le_mul_of_pos_right outLen hpos
  rw [pHash_eq_take seed hsize hpos hcount, List.length_take, length_series seed hsize]
  exact Nat.min_eq_left hcount

theorem pHash_prefix (hpos : 0 < size) {shorter outLen : ℕ} (hle : shorter ≤ outLen) :
    pHash mac seed shorter <+: pHash mac seed outLen := by
  have hcount : outLen ≤ outLen * size := Nat.le_mul_of_pos_right outLen hpos
  rw [pHash_eq_take seed hsize hpos (hle.trans hcount), pHash_eq_take seed hsize hpos hcount]
  exact List.take_prefix_take_left hle

end Series

/-! ## The key block -/

/-- The key material of both directions. -/
def keyBlock (crypto : Crypto) (masterSecret clientRandom serverRandom : Bytes)
    (algorithm : AeadAlgorithm) : Bytes :=
  prf crypto masterSecret (keyExpansionLabel ++ serverRandom ++ clientRandom)
    (2 * algorithm.keyLen + 2 * 4) (prfHash algorithm)

theorem length_keyBlock (crypto : Crypto) (masterSecret clientRandom serverRandom : Bytes)
    (algorithm : AeadAlgorithm) :
    (keyBlock crypto masterSecret clientRandom serverRandom algorithm).length =
      2 * algorithm.keyLen + 2 * 4 := by
  have hpos : 0 < (prfHash algorithm).outputSize := by
    cases algorithm with
    | _ => decide
  exact length_pHash _ (crypto.hmac_length _ _) hpos _

/-- Each direction's keys are two slices of the key block. -/
theorem derive_eq (crypto : Crypto) (masterSecret clientRandom serverRandom : Bytes)
    (algorithm : AeadAlgorithm) (isClient : Bool) :
    RecordKeys.derive crypto masterSecret clientRandom serverRandom algorithm isClient =
      let block := keyBlock crypto masterSecret clientRandom serverRandom algorithm
      if isClient then
        ⟨algorithm, slice block 0 algorithm.keyLen, slice block (2 * algorithm.keyLen) 4⟩
      else
        ⟨algorithm, slice block algorithm.keyLen algorithm.keyLen,
          slice block (2 * algorithm.keyLen + 4) 4⟩ := rfl

/-- The keys of both directions are the key block, cut into client key, server key,
client salt and server salt. -/
theorem derive_tiles (crypto : Crypto) (masterSecret clientRandom serverRandom : Bytes)
    (algorithm : AeadAlgorithm) {keys : Bool → RecordKeys}
    (hkeys : keys = RecordKeys.derive crypto masterSecret clientRandom serverRandom algorithm) :
    (keys true).key ++ (keys false).key ++ (keys true).salt ++ (keys false).salt =
        keyBlock crypto masterSecret clientRandom serverRandom algorithm ∧
      ∀ isClient, (keys isClient).key.length = algorithm.keyLen ∧
        (keys isClient).salt.length = 4 := by
  subst hkeys
  have hlength := length_keyBlock crypto masterSecret clientRandom serverRandom algorithm
  simp only [derive_eq]
  generalize keyBlock crypto masterSecret clientRandom serverRandom algorithm = block at hlength ⊢
  constructor
  · have hkeys : slice block 0 algorithm.keyLen ++ slice block algorithm.keyLen algorithm.keyLen =
        block.take (2 * algorithm.keyLen) :=
      calc slice block 0 algorithm.keyLen ++ slice block algorithm.keyLen algorithm.keyLen
          = block.take algorithm.keyLen ++ slice block algorithm.keyLen algorithm.keyLen := rfl
        _ = block.take (algorithm.keyLen + algorithm.keyLen) := take_append_slice _ _ _
        _ = block.take (2 * algorithm.keyLen) := by rw [Nat.two_mul]
    simp only [if_true, Bool.false_eq_true, if_false]
    rw [hkeys, take_append_slice, take_append_slice, List.take_of_length_le (by omega)]
  · intro isClient
    cases isClient with
    | true => exact ⟨length_slice (by omega), length_slice (by omega)⟩
    | false => exact ⟨length_slice (by omega), length_slice (by omega)⟩

/-- Key expansion is the one of the standard: `p_hash` ends, with the first bytes of
the series and nothing else, whatever the length; and the keys and salts of both
directions make up the key block. -/
theorem keyExpansion_follows_series (mac : Bytes → Bytes → Bytes) (size : ℕ) (hpos : 0 < size)
    (hsize : ∀ secret data, (mac secret data).length = size) (secret seed : Bytes)
    (outLen : ℕ) (crypto : Crypto) (masterSecret clientRandom serverRandom : Bytes)
    (algorithm : AeadAlgorithm) (keys : Bool → RecordKeys)
    (hkeys : keys = RecordKeys.derive crypto masterSecret clientRandom serverRandom algorithm) :
    ((∃ last, outLen ≤ last * size ∧ ∀ fuel, outLen ≤ fuel →
          pHashLoop (mac secret) seed outLen fuel [] (mac secret seed) =
            series (mac secret) seed last) ∧
        (∀ count, outLen ≤ count * size →
          pHash (mac secret) seed outLen = (series (mac secret) seed count).take outLen) ∧
        (pHash (mac secret) seed outLen).length = outLen ∧
        ∀ shorter ≤ outLen, pHash (mac secret) seed shorter <+: pHash (mac secret) seed outLen) ∧
      (keyBlock crypto masterSecret clientRandom serverRandom algorithm).length =
          2 * algorithm.keyLen + 2 * 4 ∧
      (keys true).key ++ (keys false).key ++ (keys true).salt ++ (keys false).salt =
          keyBlock crypto masterSecret clientRandom serverRandom algorithm ∧
      ∀ isClient, (keys isClient).key.length = algorithm.keyLen ∧
        (keys isClient).salt.length = 4 := by
  refine ⟨⟨pHashLoop_terminates seed (hsize secret) hpos outLen, fun count hcount => ?_,
    length_pHash seed (hsize secret) hpos outLen, fun shorter hle => ?_⟩,
    length_keyBlock crypto masterSecret clientRandom serverRandom algorithm,
    derive_tiles crypto masterSecret clientRandom serverRandom algorithm hkeys⟩
  · exact pHash_eq_take seed (hsize secret) hpos hcount
  · exact pHash_prefix seed (hsize secret) hpos hle

/-! ## Two blocks of HMAC-SHA256 -/

namespace TwoBlocks

/-- The secret the two blocks are made with. -/
def secret : Bytes := beBytes 16 0x9bbe436ba940f017b17652849a71db35

/-- The seed they are made with. -/
def seed : Bytes := beBytes 16 0xa0ba9f936cda311827a6f796ffd5198c

/-- The first block of the series. -/
def firstBlock : Bytes :=
  beBytes 32 0x339e306b064d5458da9ae38b6e7b1a73a2129b843446c57556dcb7b42b22c7d1

/-- The second block of the series. -/
def secondBlock : Bytes :=
  beBytes 32 0xa752c95782a2312953c0ae09b4231fbed6402e9da5f056a9d3e50870181e03ad

/-- The HMACs the two blocks need. -/
def recording : Recording where
  hmac := Recording.pHashRounds .sha256 secret seed
    (beBytes 32 0x8ed10ee3f7e8b713a66e313c5c7760eecf4ee5a4c5c60a4473836ec0fe4a86bc) firstBlock
    (beBytes 32 0x93cd079093c4521f82bc774bb4f13464692e7ed65586049f6b3e7ecc8e023c91) secondBlock

/-- Forty bytes end within the second block. -/
theorem forty_bytes :
    pHash (recording.crypto.hmac .sha256 secret) seed 40 = firstBlock ++ secondBlock.take 8 ∧
      pHash (recording.crypto.hmac .sha256 secret) seed 32 = firstBlock := by
  have hexpansion := keyExpansion_follows_series (recording.crypto.hmac .sha256) 32 (by decide)
    (recording.crypto.hmac_length .sha256) secret seed 40 recording.crypto secret seed seed
    .aes128Gcm _ rfl
  obtain ⟨⟨-, hseries, -, hprefix⟩, -⟩ := hexpansion
  have hforty : pHash (recording.crypto.hmac .sha256 secret) seed 40 =
      firstBlock ++ secondBlock.take 8 := by
    rw [hseries 2 (by decide)]
    decide +kernel
  refine ⟨hforty, ?_⟩
  have hthirtyTwo := hprefix 32 (by decide)
  rw [hforty] at hthirtyTwo
  have hlength := length_pHash seed (recording.crypto.hmac_length .sha256 secret) (by decide) 32
  rw [List.prefix_iff_eq_take.mp hthirtyTwo, hlength]
  decide +kernel

end TwoBlocks

end Tlscap.Tls12
