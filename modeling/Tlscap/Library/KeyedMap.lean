import Mathlib.Data.List.AList

/-!
# Keeping some entries of a keyed map

`AList.retain` drops the entries that fail a test, as `HashMap::retain` does.
-/

namespace AList

variable {κ : Type*} {β : κ → Type*}

/-- The entries that pass a test. -/
def retain (m : AList β) (keep : (key : κ) → β key → Bool) : AList β where
  entries := m.entries.filter fun entry => keep entry.1 entry.2
  nodupKeys := m.nodupKeys.sublist List.filter_sublist

theorem mem_entries_retain {m : AList β} {keep : (key : κ) → β key → Bool} {entry : Sigma β} :
    entry ∈ (m.retain keep).entries ↔ entry ∈ m.entries ∧ keep entry.1 entry.2 = true :=
  List.mem_filter

/-- Looking a key up after `retain`. -/
theorem lookup_retain [DecidableEq κ] (m : AList β) (keep : (key : κ) → β key → Bool)
    (key : κ) : (m.retain keep).lookup key = (m.lookup key).filter (keep key) := by
  ext value
  rw [← Option.mem_def, mem_lookup_iff, mem_entries_retain, Option.filter_eq_some_iff,
    ← Option.mem_def, mem_lookup_iff]

/-- Erasing a key that is there takes one entry. -/
theorem length_erase_of_lookup_eq_some [DecidableEq κ] {m : AList β} {key : κ} {value : β key}
    (h : m.lookup key = some value) :
    (m.erase key).entries.length + 1 = m.entries.length := by
  have hmem : key ∈ m.entries.keys := AList.lookup_isSome.mp (by rw [h]; rfl)
  have hkeys : (m.erase key).entries.keys = m.entries.keys.erase key := List.keys_kerase
  calc (m.erase key).entries.length + 1
      = (m.entries.keys.erase key).length + 1 := by
        rw [← hkeys, List.keys, List.length_map]
    _ = m.entries.keys.length := by
        rw [List.length_erase_of_mem hmem]
        exact Nat.sub_add_cancel (List.length_pos_of_mem hmem)
    _ = m.entries.length := List.length_map _

/-- Erasing a key that is not there changes nothing. -/
theorem erase_of_lookup_eq_none [DecidableEq κ] {m : AList β} {key : κ}
    (h : m.lookup key = none) : (m.erase key).entries = m.entries :=
  List.kerase_of_notMem_keys (AList.lookup_eq_none.mp h)

theorem length_insert [DecidableEq κ] (m : AList β) (key : κ) (value : β key) :
    (m.insert key value).entries.length = (m.erase key).entries.length + 1 := rfl

end AList
