import Tlscap.Output.Record

/-!
# What a selection selects

The groups an NDJSON writer is made for, and the member each of them gives a line;
the leaves an Elasticsearch writer finds for a field.
-/

namespace Tlscap

/-! ## Groups of a writer -/

/-- The groups whose contents do not come from a dissector. -/
def IsEnvelope (group : Text) : Prop :=
  group = "ip".toList ∨ group = "tcp".toList ∨ group = "tls".toList

/-- The fields whose values do not come from a dissector. -/
def EkWriter.IsEnvelopeField (field : Text) : Prop :=
  field = "ip.src".toList ∨ field = "ip.dst".toList ∨ field = "tcp.srcport".toList ∨
    field = "tcp.dstport".toList ∨ field = "tls.app_data".toList

namespace NdjsonWriter

/-- What has been selected after some fields. -/
structure Selects (fields : List Text) (selected : Finset Text × List Text) : Prop where
  groups : ∀ group, group ∈ selected.1 ↔ group ∈ fields.map groupOf
  nodup : selected.2.Nodup
  order : ∀ group, group ∈ selected.2 ↔ group ∈ fields.map groupOf ∧ ¬IsEnvelope group

theorem Selects.selectField {fields : List Text} {selected : Finset Text × List Text}
    (h : Selects fields selected) (field : Text) :
    Selects (fields ++ [field]) (selectField selected field) := by
  have hmem : ∀ group, group ∈ (fields ++ [field]).map groupOf ↔
      group ∈ fields.map groupOf ∨ group = groupOf field := by
    intro group
    simp [eq_comm]
  unfold NdjsonWriter.selectField
  by_cases hgroup : groupOf field ∈ selected.1
  · -- the group is there already
    rw [if_pos hgroup]
    have hold : ∀ group, group ∈ (fields ++ [field]).map groupOf ↔ group ∈ fields.map groupOf := by
      intro group
      rw [hmem group, or_iff_left_of_imp]
      rintro rfl
      exact (h.groups _).mp hgroup
    exact ⟨fun group => (h.groups group).trans (hold group).symm, h.nodup,
      fun group => (h.order group).trans (and_congr_left' (hold group)).symm⟩
  · rw [if_neg hgroup]
    have hnew : groupOf field ∉ fields.map groupOf := fun hold => hgroup ((h.groups _).mpr hold)
    refine ⟨fun group => ?_, ?_, fun group => ?_⟩
    · rw [Finset.mem_insert, h.groups group, hmem group, or_comm]
    · split
      · exact h.nodup
      · refine List.nodup_append.mpr ⟨h.nodup, List.nodup_singleton _, ?_⟩
        intro group hold other hother heq
        rw [List.mem_singleton.mp hother] at heq
        exact hnew (heq ▸ ((h.order group).mp hold).1)
    · rw [hmem group]
      split
      · rename_i henvelope
        rw [h.order group]
        refine and_congr_left fun hgeneric => (or_iff_left_of_imp ?_).symm
        rintro rfl
        exact absurd henvelope hgeneric
      · rename_i hgeneric
        rw [List.mem_append, h.order group, List.mem_singleton, or_and_right]
        refine or_congr_right ⟨?_, And.left⟩
        rintro rfl
        exact ⟨rfl, hgeneric⟩

theorem selects_new (fields : List Text) (explode : Option Text) (mapFields : List Text) :
    Selects fields ((new fields explode mapFields).groups,
      (new fields explode mapFields).genericGroupOrder) := by
  show Selects fields (fields.foldl NdjsonWriter.selectField (∅, []))
  induction fields using List.reverseRecOn with
  | nil => exact ⟨fun group => by simp, List.nodup_nil, fun group => by simp⟩
  | append_singleton fields field ih =>
      rw [List.foldl_append]
      exact ih.selectField field

theorem mem_genericGroupOrder_new {fields mapFields : List Text} {explode : Option Text}
    {group : Text} : group ∈ (new fields explode mapFields).genericGroupOrder ↔
      group ∈ fields.map groupOf ∧ ¬IsEnvelope group :=
  (selects_new fields explode mapFields).order group

end NdjsonWriter

/-! ## Members of a line -/

theorem find?_name (names : List Text) (group : Text) :
    names.find? (fun name => name = group) = if group ∈ names then some group else none := by
  induction names with
  | nil => rfl
  | cons name names ih =>
      by_cases hname : name = group
      · subst hname
        simp
      · simp [hname, Ne.symm hname, ih]

/-- The group of a name, where the name was recorded at the top level. -/
theorem find?_groupedEntries (fields : FrameFields) (group : Text) :
    (groupedEntries fields).find? (fun entry => entry.1 = group) =
      if group ∈ fields.entries.map Prod.fst then
        some (group, valuesNamed fields.entries group)
      else none := by
  have hfind := find?_name (namesInOrder fields.entries) group
  simp only [mem_namesInOrder] at hfind
  rw [groupedEntries_eq, List.find?_map]
  show ((namesInOrder fields.entries).find? fun name => name = group).map _ = _
  rw [hfind]
  split
  · rfl
  · rfl

theorem valuesNamed_ne_nil {entries : List (Text × FieldValue)} {name : Text} :
    valuesNamed entries name ≠ [] ↔ name ∈ entries.map Prod.fst := by
  simp [valuesNamed, List.filter_eq_nil_iff]

theorem mem_valuesNamed {entries : List (Text × FieldValue)} {name : Text} {v : FieldValue} :
    v ∈ valuesNamed entries name ↔ (name, v) ∈ entries := by
  simp [valuesNamed]

namespace NdjsonWriter

variable {hexEncode : Bytes → Text} {self : NdjsonWriter} {fields : FrameFields}

/-- What a group of recorded values gives a line. -/
theorem groupMember_none (hexEncode : Bytes → Text) (self : NdjsonWriter) (fields : FrameFields)
    (group : Text) :
    self.groupMember hexEncode (groupedEntries fields) none group =
      if group ∈ fields.entries.map Prod.fst then
        some (group, namedJson hexEncode self.mapFields group (valuesNamed fields.entries group)
          group)
      else none := by
  unfold groupMember
  rw [find?_groupedEntries]
  by_cases hmem : group ∈ fields.entries.map Prod.fst
  · rw [if_pos hmem, if_pos hmem]
  · rw [if_neg hmem, if_neg hmem]

theorem groupMember_some (explodedName group : Text) (v : FieldValue) :
    self.groupMember hexEncode (groupedEntries fields) (some (explodedName, v)) group =
      if group = explodedName then some (group, fieldJson hexEncode self.mapFields v group)
      else self.groupMember hexEncode (groupedEntries fields) none group := rfl

/-- A message is exploded where its writer explodes a recorded group. -/
theorem explodedValues_eq : self.explodedValues (groupedEntries fields) =
    self.explode.bind fun explodeName =>
      if explodeName ∈ fields.entries.map Prod.fst then
        some (explodeName, valuesNamed fields.entries explodeName)
      else none := by
  unfold explodedValues
  cases self.explode with
  | none => rfl
  | some explodeName =>
      dsimp only [Option.bind_some]
      rw [find?_groupedEntries]
      by_cases hmem : explodeName ∈ fields.entries.map Prod.fst
      · have hnonempty := List.isEmpty_eq_false_iff.mpr (valuesNamed_ne_nil.mpr hmem)
        rw [if_pos hmem]
        simp only [hnonempty, Bool.false_eq_true, if_false]
      · rw [if_neg hmem]

end NdjsonWriter

end Tlscap
