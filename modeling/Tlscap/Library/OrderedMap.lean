import Mathlib.Order.Basic
import Mathlib.Order.Defs.LinearOrder
import Mathlib.Data.List.Basic
import Mathlib.Data.List.Pairwise
import Mathlib.Algebra.Order.BigOperators.Group.List
import Mathlib.Algebra.Order.Ring.Nat

/-!
# Maps iterated in key order

A finite map kept as the list of its entries in strictly increasing key order.
The order is a field of the structure, so every value of the type is sorted and
no lemma about it asks for well-formedness.  Iteration starts at the least key;
`popFirst?` is the pair "look at the first entry, remove it".

A loop over the entries is a recursion that pops the first one, and three facts about
`popFirst?` are what such a recursion needs: the entry that is popped is the least
(`popFirst?_spec`), one entry fewer is left (`popFirst?_length`), and the total of any
measure falls by that of the entry (`popFirst?_total`).

The two facts the rest of a development needs about `insert` are its entries
(`mem_insert`) and what it does to a total over the values (`total_insert`): the new
value is added, and that of the entry it replaces is taken away.
-/

/-- A finite map, as its entries in strictly increasing key order. -/
structure OrderedMap (κ α : Type*) [LinearOrder κ] where
  entries : List (κ × α)
  sorted : entries.Pairwise fun earlier later => earlier.1 < later.1

namespace OrderedMap

variable {κ α : Type*} [LinearOrder κ]

/-! ## Operations -/

/-- The map without entries. -/
def empty : OrderedMap κ α := ⟨[], List.Pairwise.nil⟩

/-- The number of entries. -/
def length (m : OrderedMap κ α) : ℕ := m.entries.length

/-- Whether the map has no entry. -/
def isEmpty (m : OrderedMap κ α) : Bool := m.entries.isEmpty

/-- The value stored under a key. -/
def find? (m : OrderedMap κ α) (key : κ) : Option α :=
  (m.entries.find? fun entry => decide (entry.1 = key)).map Prod.snd

/-- Inserts an entry into a sorted list, replacing the entry of the same key. -/
def insertEntry (key : κ) (value : α) : List (κ × α) → List (κ × α)
  | [] => [(key, value)]
  | entry :: rest =>
      if key < entry.1 then (key, value) :: entry :: rest
      else if key = entry.1 then (key, value) :: rest
      else entry :: insertEntry key value rest

theorem mem_insertEntry {key : κ} {value : α} {entries : List (κ × α)}
    (hsorted : entries.Pairwise fun earlier later => earlier.1 < later.1) {entry : κ × α} :
    entry ∈ insertEntry key value entries ↔
      entry = (key, value) ∨ entry ∈ entries ∧ entry.1 ≠ key := by
  induction entries with
  | nil => simp [insertEntry]
  | cons head rest ih =>
      rw [List.pairwise_cons] at hsorted
      have hrest := ih hsorted.2
      unfold insertEntry
      split
      · -- a smaller key goes in front of the head
        rename_i hlt
        have hne : ∀ other ∈ head :: rest, other.1 ≠ key := by
          intro other hother
          rcases List.mem_cons.mp hother with rfl | hother
          · exact hlt.ne'
          · exact (hlt.trans (hsorted.1 other hother)).ne'
        simp only [List.mem_cons (a := entry) (b := (key, value))]
        exact or_congr_right ⟨fun h => ⟨h, hne entry h⟩, fun h => h.1⟩
      · split
        · -- an equal key replaces the head
          rename_i heq
          have hne : ∀ other ∈ rest, other.1 ≠ key := fun other hother =>
            heq ▸ (hsorted.1 other hother).ne'
          constructor
          · intro h
            rcases List.mem_cons.mp h with h | h
            · exact Or.inl h
            · exact Or.inr ⟨List.mem_cons_of_mem _ h, hne entry h⟩
          · rintro (h | ⟨h, hkey⟩)
            · exact h ▸ List.mem_cons_self
            · rcases List.mem_cons.mp h with rfl | h
              · exact absurd heq.symm hkey
              · exact List.mem_cons_of_mem _ h
        · -- a larger key goes behind the head
          rename_i hge hne
          rw [List.mem_cons, List.mem_cons, hrest]
          have hhead : head.1 ≠ key := fun h => hne h.symm
          constructor
          · rintro (rfl | h | h)
            · exact Or.inr ⟨Or.inl rfl, hhead⟩
            · exact Or.inl h
            · exact Or.inr ⟨Or.inr h.1, h.2⟩
          · rintro (h | ⟨h | h, hkey⟩)
            · exact Or.inr (Or.inl h)
            · exact Or.inl h
            · exact Or.inr (Or.inr ⟨h, hkey⟩)

theorem pairwise_insertEntry (key : κ) (value : α) {entries : List (κ × α)}
    (hsorted : entries.Pairwise fun earlier later => earlier.1 < later.1) :
    (insertEntry key value entries).Pairwise fun earlier later => earlier.1 < later.1 := by
  induction entries with
  | nil => simp [insertEntry]
  | cons head rest ih =>
      have hcons := List.pairwise_cons.mp hsorted
      unfold insertEntry
      split
      · rename_i hlt
        refine List.pairwise_cons.mpr ⟨?_, hsorted⟩
        intro other hother
        rcases List.mem_cons.mp hother with rfl | hother
        · exact hlt
        · exact hlt.trans (hcons.1 other hother)
      · split
        · rename_i heq
          exact List.pairwise_cons.mpr ⟨fun other hother => heq ▸ hcons.1 other hother, hcons.2⟩
        · rename_i hge hne
          refine List.pairwise_cons.mpr ⟨?_, ih hcons.2⟩
          intro other hother
          rcases (mem_insertEntry hcons.2).mp hother with rfl | hother
          · exact lt_of_le_of_ne (not_lt.mp hge) (fun h => hne h.symm)
          · exact hcons.1 other hother.1

/-- Stores a value under a key, replacing the value that was there. -/
def insert (m : OrderedMap κ α) (key : κ) (value : α) : OrderedMap κ α :=
  ⟨insertEntry key value m.entries, pairwise_insertEntry key value m.sorted⟩

/-- The entry of the least key, and the map without it. -/
def popFirst? (m : OrderedMap κ α) : Option ((κ × α) × OrderedMap κ α) :=
  match m with
  | ⟨[], _⟩ => none
  | ⟨entry :: rest, sorted⟩ => some (entry, ⟨rest, (List.pairwise_cons.mp sorted).2⟩)

/-- The sum of a measure over the stored values. -/
def total (measure : α → ℕ) (m : OrderedMap κ α) : ℕ :=
  (m.entries.map fun entry => measure entry.2).sum

/-! ## Equality and emptiness -/

@[ext] theorem ext {m₁ m₂ : OrderedMap κ α} (h : m₁.entries = m₂.entries) : m₁ = m₂ := by
  cases m₁
  cases m₂
  cases h
  rfl

instance [DecidableEq α] : DecidableEq (OrderedMap κ α) := fun m₁ m₂ =>
  decidable_of_iff (m₁.entries = m₂.entries) ⟨ext, fun h => h ▸ rfl⟩

@[simp] theorem entries_empty : (empty : OrderedMap κ α).entries = [] := rfl

@[simp] theorem length_empty : (empty : OrderedMap κ α).length = 0 := rfl

@[simp] theorem total_empty (measure : α → ℕ) :
    (empty : OrderedMap κ α).total measure = 0 := rfl

@[simp] theorem isEmpty_empty : (empty : OrderedMap κ α).isEmpty = true := rfl

theorem isEmpty_iff {m : OrderedMap κ α} : m.isEmpty = true ↔ m.entries = [] := by
  simp [isEmpty]

theorem eq_empty_of_entries_eq_nil {m : OrderedMap κ α} (h : m.entries = []) : m = empty :=
  ext h

/-- The measure of one entry is at most the total. -/
theorem le_total (measure : α → ℕ) {m : OrderedMap κ α} {entry : κ × α}
    (hentry : entry ∈ m.entries) : measure entry.2 ≤ m.total measure :=
  List.single_le_sum (fun _ _ => Nat.zero_le _) _ (List.mem_map.mpr ⟨entry, hentry, rfl⟩)

/-- A total of positive measures vanishes only on the empty map. -/
theorem entries_eq_nil_of_total_eq_zero {measure : α → ℕ} {m : OrderedMap κ α}
    (hpos : ∀ entry ∈ m.entries, 0 < measure entry.2) (htotal : m.total measure = 0) :
    m.entries = [] := by
  rw [List.eq_nil_iff_forall_not_mem]
  intro entry hentry
  have hle := le_total measure hentry
  have := hpos entry hentry
  omega

/-! ## Looking up -/

theorem find?_eq_some_iff {m : OrderedMap κ α} {key : κ} {value : α} :
    m.find? key = some value ↔ (key, value) ∈ m.entries := by
  obtain ⟨entries, hsorted⟩ := m
  simp only [find?]
  induction entries with
  | nil => simp
  | cons head rest ih =>
      have hcons := List.pairwise_cons.mp hsorted
      by_cases hhead : head.1 = key
      · have hnot : (key, value) ∉ rest := fun hmem =>
          absurd (hcons.1 _ hmem) (by simp [hhead])
        simp only [List.find?_cons, hhead, decide_true, Option.map_some, Option.some.injEq,
          List.mem_cons, hnot, or_false]
        constructor
        · rintro rfl
          exact Prod.ext hhead.symm rfl
        · rintro h
          exact (congrArg Prod.snd h).symm
      · have hne : (key, value) ≠ head := fun h => hhead (congrArg Prod.fst h).symm
        simp only [List.find?_cons, hhead, decide_false, List.mem_cons, hne, false_or]
        exact ih hcons.2

/-! ## Removing the first entry -/

theorem popFirst?_eq_none_iff {m : OrderedMap κ α} : m.popFirst? = none ↔ m.entries = [] := by
  obtain ⟨_ | ⟨entry, rest⟩, hsorted⟩ := m <;> simp [popFirst?]

/-- What `popFirst?` returns: the head of the entries, below every other key. -/
theorem popFirst?_spec {m rest : OrderedMap κ α} {key : κ} {value : α}
    (h : m.popFirst? = some ((key, value), rest)) :
    m.entries = (key, value) :: rest.entries ∧ ∀ entry ∈ rest.entries, key < entry.1 := by
  obtain ⟨_ | ⟨entry, tail⟩, hsorted⟩ := m
  · simp [popFirst?] at h
  · simp only [popFirst?, Option.some.injEq, Prod.mk.injEq] at h
    obtain ⟨rfl, rfl⟩ := h
    exact ⟨rfl, (List.pairwise_cons.mp hsorted).1⟩

theorem popFirst?_mem {m rest : OrderedMap κ α} {entry : κ × α}
    (h : m.popFirst? = some (entry, rest)) : entry ∈ m.entries := by
  rw [(popFirst?_spec h).1]
  exact List.mem_cons_self

theorem popFirst?_subset {m rest : OrderedMap κ α} {entry : κ × α}
    (h : m.popFirst? = some (entry, rest)) : rest.entries ⊆ m.entries := by
  rw [(popFirst?_spec h).1]
  exact List.subset_cons_self entry rest.entries

theorem popFirst?_length {m rest : OrderedMap κ α} {entry : κ × α}
    (h : m.popFirst? = some (entry, rest)) : m.length = rest.length + 1 := by
  simp [length, (popFirst?_spec h).1]

theorem popFirst?_total {m rest : OrderedMap κ α} {entry : κ × α} (measure : α → ℕ)
    (h : m.popFirst? = some (entry, rest)) :
    m.total measure = measure entry.2 + rest.total measure := by
  simp [total, (popFirst?_spec h).1]

/-! ## Inserting -/

theorem mem_insert {m : OrderedMap κ α} {key : κ} {value : α} {entry : κ × α} :
    entry ∈ (m.insert key value).entries ↔
      entry = (key, value) ∨ entry ∈ m.entries ∧ entry.1 ≠ key :=
  mem_insertEntry m.sorted

theorem insert_entries_ne_nil (m : OrderedMap κ α) (key : κ) (value : α) :
    (m.insert key value).entries ≠ [] :=
  List.ne_nil_of_mem (mem_insert.mpr (Or.inl rfl))

theorem insertEntry_perm (key : κ) (value : α) (entries : List (κ × α)) :
    ∃ others, (insertEntry key value entries).Perm ((key, value) :: others) ∧
      others.Sublist entries := by
  induction entries with
  | nil => exact ⟨[], .refl _, .slnil⟩
  | cons entry rest ih =>
      unfold insertEntry
      split_ifs
      · exact ⟨entry :: rest, .refl _, .refl _⟩
      · exact ⟨rest, .refl _, List.sublist_cons_self entry rest⟩
      · obtain ⟨others, hperm, hsublist⟩ := ih
        exact ⟨entry :: others, (hperm.cons entry).trans (.swap _ _ _), hsublist.cons_cons entry⟩

/-- Inserting keeps some of the entries, and adds the new one. -/
theorem insert_perm (m : OrderedMap κ α) (key : κ) (value : α) :
    ∃ others, (m.insert key value).entries.Perm ((key, value) :: others) ∧
      others.Sublist m.entries :=
  insertEntry_perm key value m.entries

/-- Inserting adds the measure of the new value and takes away that of the value
it replaces. -/
theorem total_insert (measure : α → ℕ) (m : OrderedMap κ α) (key : κ) (value : α) :
    (m.insert key value).total measure + ((m.find? key).map measure).getD 0 =
      m.total measure + measure value := by
  obtain ⟨entries, hsorted⟩ := m
  simp only [insert, total, find?]
  induction entries with
  | nil => simp [insertEntry]
  | cons head rest ih =>
      have hcons := List.pairwise_cons.mp hsorted
      have hrest := ih hcons.2
      have habsent : ∀ other, key < other → other ≤ head.1 →
          (head :: rest).find? (fun entry => decide (entry.1 = key)) = none := by
        intro other hlt hle
        simp only [List.find?_eq_none, List.mem_cons, decide_eq_true_eq, forall_eq_or_imp]
        refine ⟨(hlt.trans_le hle).ne', fun entry hentry => ?_⟩
        exact (hlt.trans_le (hle.trans (hcons.1 entry hentry).le)).ne'
      unfold insertEntry
      split
      · rename_i hlt
        rw [habsent head.1 hlt le_rfl]
        simp [Nat.add_comm]
      · split
        · rename_i heq
          simp only [List.find?_cons, heq, decide_true, List.map_cons, List.sum_cons,
            Option.map_some, Option.getD_some]
          omega
        · rename_i hge hne
          have hhead : ¬ head.1 = key := fun h => hne h.symm
          simp only [List.find?_cons, hhead, decide_false, List.map_cons, List.sum_cons]
          omega

/-! ## Changing the values -/

section Map

variable {β : Type*} (f : α → β)

/-- Every value changed by the same function. -/
def map (m : OrderedMap κ α) : OrderedMap κ β where
  entries := m.entries.map fun entry => (entry.1, f entry.2)
  sorted := List.pairwise_map.mpr m.sorted

@[simp] theorem map_empty : (empty : OrderedMap κ α).map f = empty := rfl

@[simp] theorem length_map (m : OrderedMap κ α) : (m.map f).length = m.length :=
  List.length_map _

@[simp] theorem isEmpty_map (m : OrderedMap κ α) : (m.map f).isEmpty = m.isEmpty :=
  List.isEmpty_map

theorem popFirst?_map (m : OrderedMap κ α) :
    (m.map f).popFirst? =
      m.popFirst?.map fun popped => ((popped.1.1, f popped.1.2), popped.2.map f) := by
  obtain ⟨_ | ⟨entry, rest⟩, hsorted⟩ := m
  · rfl
  · rfl

theorem find?_map (m : OrderedMap κ α) (key : κ) : (m.map f).find? key = (m.find? key).map f := by
  unfold find? map
  rw [List.find?_map, Option.map_map, Option.map_map]
  rfl

theorem insert_map (m : OrderedMap κ α) (key : κ) (value : α) :
    (m.map f).insert key (f value) = (m.insert key value).map f := by
  apply ext
  change insertEntry key (f value) (m.entries.map _) = (insertEntry key value m.entries).map _
  induction m.entries with
  | nil => rfl
  | cons head rest ih =>
      simp only [List.map_cons, insertEntry]
      split_ifs
      · rfl
      · rfl
      · rw [List.map_cons, ih]

end Map

end OrderedMap
