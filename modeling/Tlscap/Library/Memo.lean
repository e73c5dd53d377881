import Mathlib.Logic.Function.Basic

/-!
# Values kept on demand

A cache keeps for a key the value that was computed for it once.  What a value is computed
from is not always known (`Source.known`), and the computation can fail; a lookup only
looks into the cache where it is known (`Source.lookup`), and probing looks the values of
some keys up in turn until one of them settles the matter (`Source.probe`).

Two things are kept by every lookup, and so by probing:

* a slot that is filled afterwards was filled before, or holds what is computed now
  (`Fills`);
* if nothing in the cache is stale (`Agrees`), nothing is stale afterwards, and what is
  found is what is computed now (`lookup_agrees`, `probe_agrees`).

And a lookup does not show in what is found later (`lookup_again`).
-/

namespace Memo

variable {κ σ α ρ : Type*}

/-- Where the values come from. -/
structure Source (κ σ α : Type*) where
  known : κ → Option σ
  compute : κ → σ → Option α

namespace Source

variable (source : Source κ σ α)

/-- The value of a key, without a cache. -/
def fresh (key : κ) : Option α := (source.known key).bind (source.compute key)

/-- Every slot of `after` was filled in `before` already or is computed now. -/
def Fills (before after : κ → Option α) : Prop :=
  ∀ key value, after key = some value → before key = some value ∨ source.fresh key = some value

/-- No slot is stale: what is kept is what is computed now, where that is known. -/
def Agrees (cache : κ → Option α) : Prop :=
  ∀ key value known, cache key = some value → source.known key = some known →
    source.compute key known = some value

variable {source} {before middle after cache : κ → Option α}

theorem Fills.refl (cache : κ → Option α) : source.Fills cache cache := fun _ _ hkept => .inl hkept

theorem Fills.trans (hfirst : source.Fills before middle) (hsecond : source.Fills middle after) :
    source.Fills before after := by
  intro key value hkept
  rcases hsecond key value hkept with hold | hfresh
  · exact hfirst key value hold
  · exact .inr hfresh

theorem Fills.agrees (hfills : source.Fills before after) (hagrees : source.Agrees before) :
    source.Agrees after := by
  intro key value known hkept hknown
  rcases hfills key value hkept with hold | hfresh
  · exact hagrees key value known hold hknown
  · rwa [fresh, hknown, Option.bind_some] at hfresh

/-! ## One lookup -/

variable [DecidableEq κ]

/-- The value of a key, and the cache after the lookup. -/
def lookup (source : Source κ σ α) (cache : κ → Option α) (key : κ) :
    (κ → Option α) × Option α :=
  match source.known key with
  | none => (cache, none)
  | some known =>
      match cache key with
      | some value => (cache, some value)
      | none =>
          match source.compute key known with
          | none => (cache, none)
          | some value => (Function.update cache key (some value), some value)

/-- What a lookup finds. -/
theorem lookup_snd (source : Source κ σ α) (cache : κ → Option α) (key : κ) :
    (source.lookup cache key).2 =
      (source.known key).bind fun known => (cache key).or (source.compute key known) := by
  unfold lookup
  cases source.known key with
  | none => rfl
  | some known =>
      cases cache key with
      | some value => rfl
      | none => cases hcomputed : source.compute key known <;> simp [hcomputed]

/-- A lookup leaves the cache as it is, or fills an empty slot. -/
theorem lookup_fst (source : Source κ σ α) (cache : κ → Option α) (key : κ) :
    (source.lookup cache key).1 = cache ∨
      ∃ known value, source.known key = some known ∧ cache key = none ∧
        source.compute key known = some value ∧
          (source.lookup cache key).1 = Function.update cache key (some value) := by
  unfold lookup
  cases source.known key with
  | none => exact .inl rfl
  | some known =>
      cases cache key with
      | some value => exact .inl rfl
      | none =>
          cases hcomputed : source.compute key known with
          | none => exact .inl (by simp only [hcomputed])
          | some value => exact .inr ⟨known, value, rfl, rfl, hcomputed, by simp only [hcomputed]⟩

theorem lookup_fills (source : Source κ σ α) (cache : κ → Option α) (key : κ) :
    source.Fills cache (source.lookup cache key).1 := by
  rcases source.lookup_fst cache key with hsame | ⟨known, value, hknown, -, hcomputed, hfilled⟩
  · rw [hsame]
    exact .refl cache
  · rw [hfilled]
    intro other kept hother
    by_cases hslot : other = key
    · subst hslot
      rw [Function.update_self] at hother
      exact .inr (by rw [fresh, hknown, Option.bind_some, hcomputed, hother])
    · rw [Function.update_of_ne hslot] at hother
      exact .inl hother

/-- With nothing stale in the cache, a lookup finds what is computed now. -/
theorem lookup_agrees (hagrees : source.Agrees cache) (key : κ) :
    (source.lookup cache key).2 = source.fresh key := by
  rw [lookup_snd, fresh]
  cases hknown : source.known key with
  | none => rfl
  | some known =>
      cases hkept : cache key with
      | none => rfl
      | some value => exact (hagrees key value known hkept hknown).symm

/-- A lookup does not change what is found later. -/
theorem lookup_again (source : Source κ σ α) (cache : κ → Option α) (key other : κ) :
    (source.lookup (source.lookup cache key).1 other).2 = (source.lookup cache other).2 := by
  rw [lookup_snd, lookup_snd]
  rcases source.lookup_fst cache key with hsame | ⟨known, value, hknown, hempty, hcomputed, hfilled⟩
  · rw [hsame]
  · rw [hfilled]
    by_cases hslot : other = key
    · -- the slot just filled holds what would be computed without it
      subst hslot
      rw [Function.update_self, hknown, hempty, Option.bind_some, Option.bind_some, hcomputed]
      rfl
    · rw [Function.update_of_ne hslot]

/-! ## Probing -/

/-- Looks the values of some keys up, until what is tried with one gives a result. -/
def probe (source : Source κ σ α) (tried : κ → α → Option ρ) :
    List κ → (κ → Option α) → (κ → Option α) × Option ρ
  | [], cache => (cache, none)
  | key :: rest, cache =>
      let (cache, found) := source.lookup cache key
      match found.bind (tried key) with
      | some result => (cache, some result)
      | none => probe source tried rest cache

theorem probe_fills (source : Source κ σ α) (tried : κ → α → Option ρ) (keys : List κ)
    (cache : κ → Option α) : source.Fills cache (source.probe tried keys cache).1 := by
  induction keys generalizing cache with
  | nil => exact .refl cache
  | cons key rest ih =>
      have hfirst := source.lookup_fills cache key
      unfold probe
      simp only
      split
      · exact hfirst
      · exact hfirst.trans (ih _)

/-- With nothing stale in the cache, probing has the first result that values computed
now give. -/
theorem probe_agrees (hagrees : source.Agrees cache) (tried : κ → α → Option ρ)
    (keys : List κ) :
    (source.probe tried keys cache).2 =
      keys.findSome? fun key => (source.fresh key).bind (tried key) := by
  induction keys generalizing cache with
  | nil => rfl
  | cons key rest ih =>
      have hrest := ih ((source.lookup_fills cache key).agrees hagrees)
      unfold probe
      rw [List.findSome?_cons, ← lookup_agrees hagrees key]
      simp only
      split
      · rename_i result hresult
        rw [hresult]
      · rename_i hnone
        rw [hnone]
        exact hrest

end Source

end Memo
