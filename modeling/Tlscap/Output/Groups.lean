import Tlscap.Lua.Fields
import Mathlib.Data.List.AList

/-!
# Entries by name

`groupedEntries` gathers the entries of one level under their names: the names in
the order in which they first occur, the values of each in encounter order
(`groupedEntries_eq`).

The source gathers into a list of names and a map of values, and takes the groups out
of the map in the order of the list.  Gathering keeps that the two hold the entries
there were so far (`Gathers.add`); taking a group out does not disturb the others, as no
name occurs twice in the list (`drain_eq`).
-/

namespace Tlscap

/-- The groups gathered so far: their names in order, and the values of each. -/
structure Grouping where
  order : List Text
  map : AList fun _ : Text => List FieldValue

namespace Grouping

/-- Nothing gathered. -/
def empty : Grouping := ⟨[], ∅⟩

/-- Gathers one entry. -/
def add (grouping : Grouping) (entry : Text × FieldValue) : Grouping where
  order := if (grouping.map.lookup entry.1).isSome then grouping.order
    else grouping.order ++ [entry.1]
  map := grouping.map.insert entry.1 ((grouping.map.lookup entry.1).getD [] ++ [entry.2])

/-- Takes the groups out of the map, in order. -/
def drain : List Text → (AList fun _ : Text => List FieldValue) → List (Text × List FieldValue)
  | [], _ => []
  | name :: order, map => (name, (map.lookup name).getD []) :: drain order (map.erase name)

end Grouping

/-- The entries of one level, grouped by name. -/
def groupedEntries (fields : FrameFields) : List (Text × List FieldValue) :=
  let grouping := fields.entries.foldl Grouping.add Grouping.empty
  Grouping.drain grouping.order grouping.map

/-- The values entered under a name, in encounter order. -/
def valuesNamed (entries : List (Text × FieldValue)) (name : Text) : List FieldValue :=
  (entries.filter fun entry => entry.1 = name).map Prod.snd

/-- The names of entries, each where it first occurs. -/
def namesInOrder (entries : List (Text × FieldValue)) : List Text :=
  (entries.map Prod.fst).reverse.dedup.reverse

namespace Grouping

/-- A grouping holds the entries it was made from. -/
structure Gathers (entries : List (Text × FieldValue)) (grouping : Grouping) : Prop where
  order : grouping.order = namesInOrder entries
  map : ∀ name, (grouping.map.lookup name).getD [] = valuesNamed entries name
  isSome : ∀ name, (grouping.map.lookup name).isSome ↔ name ∈ entries.map Prod.fst

theorem gathers_empty : Gathers [] empty := by
  refine ⟨rfl, fun name => ?_, fun name => ?_⟩
  · simp [empty, valuesNamed]
  · simp [empty]

theorem valuesNamed_append (entries more : List (Text × FieldValue)) (name : Text) :
    valuesNamed (entries ++ more) name = valuesNamed entries name ++ valuesNamed more name := by
  simp [valuesNamed]

/-- A name that occurred already adds nothing to the order, a new one its end. -/
theorem namesInOrder_concat (entries : List (Text × FieldValue)) (entry : Text × FieldValue) :
    namesInOrder (entries ++ [entry]) =
      if entry.1 ∈ entries.map Prod.fst then namesInOrder entries
      else namesInOrder entries ++ [entry.1] := by
  unfold namesInOrder
  rw [List.map_append, List.map_singleton, List.reverse_append, List.reverse_singleton,
    List.singleton_append]
  by_cases hmem : entry.1 ∈ entries.map Prod.fst
  · rw [List.dedup_cons_of_mem (List.mem_reverse.mpr hmem), if_pos hmem]
  · rw [List.dedup_cons_of_notMem (fun h => hmem (List.mem_reverse.mp h)), if_neg hmem,
      List.reverse_cons]

theorem Gathers.add {entries : List (Text × FieldValue)} {grouping : Grouping}
    (h : Gathers entries grouping) (entry : Text × FieldValue) :
    Gathers (entries ++ [entry]) (grouping.add entry) := by
  refine ⟨?_, fun name => ?_, fun name => ?_⟩
  · rw [namesInOrder_concat, ← h.order]
    exact if_congr (h.isSome entry.1) rfl rfl
  · rw [valuesNamed_append, ← h.map name]
    by_cases hname : name = entry.1
    · subst hname
      simp [Grouping.add, valuesNamed]
    · simp [Grouping.add, valuesNamed, AList.lookup_insert_ne hname, Ne.symm hname]
  · by_cases hname : name = entry.1
    · subst hname
      simp [Grouping.add]
    · rw [Grouping.add, AList.lookup_insert_ne hname, h.isSome name, List.map_append,
        List.mem_append]
      simp [hname]

theorem gathers_foldl (entries : List (Text × FieldValue)) :
    Gathers entries (entries.foldl add empty) := by
  induction entries using List.reverseRecOn with
  | nil => exact gathers_empty
  | append_singleton entries entry ih =>
      rw [List.foldl_append]
      exact ih.add entry

/-- Taking groups out does not disturb those behind, as no name occurs twice. -/
theorem drain_eq {order : List Text} (hnodup : order.Nodup)
    (map : AList fun _ : Text => List FieldValue) :
    drain order map = order.map fun name => (name, (map.lookup name).getD []) := by
  induction order generalizing map with
  | nil => rfl
  | cons name order ih =>
      obtain ⟨hname, hnodup⟩ := List.nodup_cons.mp hnodup
      rw [drain, ih hnodup, List.map_cons]
      refine congrArg _ (List.map_congr_left fun other hother => ?_)
      have hne : other ≠ name := fun heq => hname (heq ▸ hother)
      rw [AList.lookup_erase_ne hne]

end Grouping

theorem nodup_namesInOrder (entries : List (Text × FieldValue)) : (namesInOrder entries).Nodup :=
  List.nodup_reverse.mpr (List.nodup_dedup _)

theorem mem_namesInOrder {entries : List (Text × FieldValue)} {name : Text} :
    name ∈ namesInOrder entries ↔ name ∈ entries.map Prod.fst := by
  simp [namesInOrder]

/-- Each name with its values, in the order of first occurrence. -/
theorem groupedEntries_eq (fields : FrameFields) :
    groupedEntries fields =
      (namesInOrder fields.entries).map fun name => (name, valuesNamed fields.entries name) := by
  have hgathers := Grouping.gathers_foldl fields.entries
  change Grouping.drain _ _ = _
  rw [hgathers.order, Grouping.drain_eq (nodup_namesInOrder _)]
  exact List.map_congr_left fun name _ => by rw [hgathers.map name]

/-! ## Nesting depth -/

theorem sizeOf_valuesNamed_le (entries : List (Text × FieldValue)) (name : Text) :
    sizeOf (valuesNamed entries name) ≤ sizeOf entries := by
  induction entries with
  | nil => exact le_rfl
  | cons entry rest ih =>
      obtain ⟨other, value⟩ := entry
      unfold valuesNamed at ih ⊢
      by_cases hname : other = name
      · simp only [List.filter_cons, hname, decide_true, if_true, List.map_cons,
          List.cons.sizeOf_spec, Prod.mk.sizeOf_spec]
        omega
      · simp only [List.filter_cons, hname, decide_false, Bool.false_eq_true, if_false,
          List.cons.sizeOf_spec]
        omega

/-- A recorded value nests less deep than the fields it is from. -/
theorem sizeOf_of_mem_entries {fields : FrameFields} {entry : Text × FieldValue}
    (h : entry ∈ fields.entries) : sizeOf entry.2 < sizeOf fields := by
  obtain ⟨name, value⟩ := entry
  cases fields with
  | mk entries protocol info malformed =>
      have hlt : sizeOf (name, value) < sizeOf entries := List.sizeOf_lt_of_mem h
      simp only [Prod.mk.sizeOf_spec, FrameFields.mk.sizeOf_spec] at hlt ⊢
      omega

/-- The values of a group nest less deep than the fields they are from. -/
theorem sizeOf_of_mem_groupedEntries {fields : FrameFields} {group : Text × List FieldValue}
    (h : group ∈ groupedEntries fields) : sizeOf group.2 < sizeOf fields := by
  rw [groupedEntries_eq, List.mem_map] at h
  obtain ⟨name, -, rfl⟩ := h
  have hle := sizeOf_valuesNamed_le fields.entries name
  cases fields with
  | mk entries protocol info malformed =>
      simp only [FrameFields.entries, FrameFields.mk.sizeOf_spec] at hle ⊢
      omega

end Tlscap
