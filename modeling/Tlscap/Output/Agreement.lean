import Tlscap.Library.Json.Values
import Tlscap.Output.Lines
import Tlscap.Output.Selection

/-!
# What both formats show

The Elasticsearch writer finds the leaves of a selected field at any depth; the NDJSON writer
shows the top-level entries that are called like the group of the field.  So a leaf the first
one emits is shown by the second, in the member that renders the entry the leaf lies in, if
and only if that entry is called like the group, and the group is not the envelope's
(`leaves_shown_iff`).

## Strategy

* **What is emitted.**  A field name finds its leaves entry by entry
  (`FrameFields.collectEntriesFor_eq`), so they can be told apart by the top-level entry they
  come from (`EkWriter.emittedFrom`).
* **What a member shows.**  Without maps, rendering a recorded value keeps the text of all its
  leaves and shows nothing else (`shows_fieldJson`), so the member of an entry shows every
  leaf in it.
* **Which members there are.**  An entry whose group is selected has a member exactly if its
  whole name is the group and the group is a dissector's
  (`NdjsonWriter.entryMember_mem_iff`).  No other part of the line can be mistaken for it: the
  line's own names have no dot and are reserved, and the envelope is rendered as objects.

That the text of a leaf stands elsewhere in the line as well does not count.
-/

namespace Tlscap

open Json

/-! ## Leaves -/

/-- A leaf with this text stands in a recorded value, at some depth. -/
inductive HasLeaf (text : Text) : FieldValue → Prop
  | leaf {v : FieldValue} (hleaf : v.isTree = false) (htext : v.toOutputString = text) :
      HasLeaf text v
  | tree {child : FrameFields} {entry : Text × FieldValue} (hentry : entry ∈ child.entries)
      (h : HasLeaf text entry.2) : HasLeaf text (.tree child)

section Leaves

variable {text : Text}

theorem hasLeaf_tree {child : FrameFields} :
    HasLeaf text (.tree child) ↔ ∃ entry ∈ child.entries, HasLeaf text entry.2 := by
  constructor
  · intro h
    cases h with
    | leaf hleaf _ => exact absurd hleaf (by simp [FieldValue.isTree])
    | tree hentry h => exact ⟨_, hentry, h⟩
  · rintro ⟨entry, hentry, h⟩
    exact .tree hentry h

theorem hasLeaf_of_isTree {v : FieldValue} (hleaf : v.isTree = false) :
    HasLeaf text v ↔ v.toOutputString = text := by
  constructor
  · intro h
    cases h with
    | leaf _ htext => exact htext
    | tree _ _ => exact absurd hleaf (by simp [FieldValue.isTree])
  · exact .leaf hleaf

namespace FrameFields

variable (fieldName : Text)

/-- The leaves a field name finds in one entry of a level. -/
def entryValuesFor (entry : Text × FieldValue) : List FieldValue :=
  collectEntriesFor fieldName [entry] []

variable {fieldName}

theorem collectEntriesFor_leaf {name : Text} {v : FieldValue} (hleaf : v.isTree = false)
    (rest : List (Text × FieldValue)) (out : List FieldValue) :
    collectEntriesFor fieldName ((name, v) :: rest) out =
      collectEntriesFor fieldName rest (if name = fieldName then out ++ [v] else out) := by
  cases v with
  | tree child => exact absurd hleaf (by simp [FieldValue.isTree])
  | uInt n => rw [collectEntriesFor]; exact fun child h => FieldValue.noConfusion h
  | str s => rw [collectEntriesFor]; exact fun child h => FieldValue.noConfusion h
  | bytes b => rw [collectEntriesFor]; exact fun child h => FieldValue.noConfusion h

/-- One more leaf before entries of which it is known that they append. -/
theorem collectEntriesFor_leaf_append {name : Text} {v : FieldValue} (hleaf : v.isTree = false)
    {rest : List (Text × FieldValue)}
    (ih : ∀ out, collectEntriesFor fieldName rest out =
      out ++ collectEntriesFor fieldName rest []) (out : List FieldValue) :
    collectEntriesFor fieldName ((name, v) :: rest) out =
      out ++ collectEntriesFor fieldName ((name, v) :: rest) [] := by
  rw [collectEntriesFor_leaf hleaf, collectEntriesFor_leaf hleaf]
  by_cases hname : name = fieldName
  · rw [if_pos hname, if_pos hname, ih, ih ([] ++ [v]), List.nil_append, List.append_assoc]
  · rw [if_neg hname, if_neg hname, ih]

mutual

theorem collectValuesFor_append : ∀ (fields : FrameFields) (out : List FieldValue),
    collectValuesFor fieldName fields out = out ++ collectValuesFor fieldName fields []
  | .mk entries _ _ _, out => by
      rw [collectValuesFor, collectValuesFor]
      exact collectEntriesFor_append entries out

/-- What is found is appended to what was found before. -/
theorem collectEntriesFor_append : ∀ (entries : List (Text × FieldValue))
    (out : List FieldValue), collectEntriesFor fieldName entries out =
      out ++ collectEntriesFor fieldName entries []
  | [], out => (List.append_nil out).symm
  | (_, .tree child) :: rest, out => by
      rw [collectEntriesFor, collectEntriesFor, collectEntriesFor_append rest,
        collectValuesFor_append child out,
        collectEntriesFor_append rest (collectValuesFor fieldName child []), List.append_assoc]
  | (_, .uInt _) :: rest, out =>
      collectEntriesFor_leaf_append rfl (collectEntriesFor_append rest) out
  | (_, .str _) :: rest, out =>
      collectEntriesFor_leaf_append rfl (collectEntriesFor_append rest) out
  | (_, .bytes _) :: rest, out =>
      collectEntriesFor_leaf_append rfl (collectEntriesFor_append rest) out

end

/-- A field name finds its leaves entry by entry. -/
theorem collectEntriesFor_eq (entries : List (Text × FieldValue)) :
    collectEntriesFor fieldName entries [] = entries.flatMap (entryValuesFor fieldName) := by
  induction entries with
  | nil => rfl
  | cons entry rest ih =>
      obtain ⟨name, v⟩ := entry
      rw [List.flatMap_cons, ← ih, entryValuesFor]
      by_cases htree : v.isTree
      · cases v with
        | tree child =>
            rw [collectEntriesFor, collectEntriesFor_append, collectEntriesFor, collectEntriesFor]
        | uInt n => exact absurd htree (by simp [FieldValue.isTree])
        | str s => exact absurd htree (by simp [FieldValue.isTree])
        | bytes b => exact absurd htree (by simp [FieldValue.isTree])
      · have hleaf := Bool.eq_false_iff.mpr htree
        rw [collectEntriesFor_leaf hleaf, collectEntriesFor_append, collectEntriesFor_leaf hleaf,
          collectEntriesFor]

theorem valuesFor_eq (fields : FrameFields) :
    fields.valuesFor fieldName = fields.entries.flatMap (entryValuesFor fieldName) := by
  cases fields with
  | mk entries protocol info malformed =>
      rw [valuesFor, collectValuesFor]
      exact collectEntriesFor_eq entries

/-- What a field name finds in an entry is leaves of it. -/
theorem hasLeaf_of_mem_entryValuesFor (name : Text) (value : FieldValue) {v : FieldValue}
    (h : v ∈ entryValuesFor fieldName (name, value)) : HasLeaf v.toOutputString value := by
  have hfound : value.isTree = false → HasLeaf v.toOutputString value := by
    intro hleaf
    rw [entryValuesFor, collectEntriesFor_leaf hleaf, collectEntriesFor] at h
    split at h
    · exact .leaf hleaf (List.mem_singleton.mp h ▸ rfl)
    · exact absurd h List.not_mem_nil
  cases value with
  | tree child =>
      rw [entryValuesFor, collectEntriesFor, collectEntriesFor] at h
      change v ∈ child.valuesFor fieldName at h
      rw [valuesFor_eq, List.mem_flatMap] at h
      obtain ⟨inner, hinner, h⟩ := h
      have : sizeOf inner.2 < sizeOf child := sizeOf_of_mem_entries hinner
      exact .tree hinner (hasLeaf_of_mem_entryValuesFor inner.1 inner.2 h)
  | uInt n => exact hfound rfl
  | str s => exact hfound rfl
  | bytes b => exact hfound rfl
termination_by sizeOf value
decreasing_by
  subst_vars
  simp only [FieldValue.tree.sizeOf_spec]
  omega

end FrameFields

end Leaves

/-! ## Values of a line -/

section Values

variable {hexEncode : Bytes → Text} {text : Text}

/-- Rendered as a scalar or an array, a group shows the leaves of its values. -/
theorem shows_groupJson {mapFields : Finset Text} (values : List FieldValue) (enclosing : Text) :
    Shows text (groupJson hexEncode mapFields values enclosing) ↔
      ∃ v ∈ values, Shows text (fieldJson hexEncode mapFields v enclosing) := by
  rw [groupJson_eq]
  cases hsole : soleLeaf values with
  | some single =>
      rw [(soleLeaf_eq_some.mp hsole).1]
      simp
  | none =>
      rw [shows_arr]
      simp only [List.mem_map, exists_exists_and_eq_and]

/-- Without maps, a line shows exactly the leaves of what was recorded. -/
theorem shows_fieldJson (hhex : ∀ bytes, hexEncode bytes = FieldValue.hexEncode bytes)
    (v : FieldValue) (enclosing : Text) :
    Shows text (fieldJson hexEncode ∅ v enclosing) ↔ HasLeaf text v := by
  cases v with
  | uInt n =>
      rw [fieldJson, hasLeaf_of_isTree rfl]
      exact shows_num
  | str s => rw [fieldJson, hasLeaf_of_isTree rfl, shows_str, FieldValue.toOutputString]
  | bytes b =>
      rw [fieldJson, hasLeaf_of_isTree rfl, shows_str, hhex, FieldValue.toOutputString]
  | tree child =>
      have hvalues : ∀ entry ∈ child.entries,
          (Shows text (fieldJson hexEncode ∅ entry.2 entry.1) ↔ HasLeaf text entry.2) :=
        fun entry hentry =>
          have : sizeOf entry.2 < sizeOf child := sizeOf_of_mem_entries hentry
          shows_fieldJson hhex entry.2 entry.1
      rw [fieldJson, hasLeaf_tree, shows_obj, fieldMembers_eq, groupedEntries_eq, List.map_map]
      simp only [List.mem_map, exists_exists_and_eq_and, Function.comp_apply, namedJson,
        Finset.notMem_empty, if_false, shows_groupJson, mem_valuesNamed, mem_namesInOrder]
      constructor
      · rintro ⟨first, -, v, hentry, h⟩
        exact ⟨(first.1, v), hentry, (hvalues _ hentry).mp h⟩
      · rintro ⟨entry, hentry, h⟩
        exact ⟨entry, hentry, entry.2, hentry, (hvalues entry hentry).mpr h⟩
termination_by sizeOf v
decreasing_by
  simp only [FieldValue.tree.sizeOf_spec]
  omega

end Values

/-! ## The member of an entry -/

namespace NdjsonWriter

variable {hexEncode : Bytes → Text} {text : Text}

theorem groupOf_groupOf (name : Text) : groupOf (groupOf name) = groupOf name :=
  List.takeWhile_idem

/-- The member that renders the recorded values of a name. -/
def entryMember (hexEncode : Bytes → Text) (msg : DecodedMessage) (name : Text) : Text × Json :=
  (name, groupJson hexEncode ∅ (valuesNamed msg.fields.entries name) name)

/-- The line has the member that renders an entry, and the text stands in that member. -/
def ShowsEntry (hexEncode : Bytes → Text) (msg : DecodedMessage) (entry : Text × FieldValue)
    (text : Text) (line : Json) : Prop :=
  ∃ members, line = .obj members ∧ entryMember hexEncode msg entry.1 ∈ members ∧
    Shows text (entryMember hexEncode msg entry.1).2

/-- Recorded values are rendered as a scalar or an array, the envelope as objects. -/
theorem groupJson_ne_obj (values : List FieldValue) (enclosing : Text)
    (members : List (Text × Json)) :
    groupJson hexEncode ∅ values enclosing ≠ .obj members := by
  rw [groupJson_eq]
  cases hsole : soleLeaf values with
  | none => exact Json.noConfusion
  | some single =>
      have hleaf := (soleLeaf_eq_some.mp hsole).2
      cases single with
      | tree child => exact absurd hleaf (by simp [FieldValue.isTree])
      | uInt n => simp [fieldJson]
      | str s => simp [fieldJson]
      | bytes b => simp [fieldJson]

/-- **The members of a line.**  An entry whose group is selected is rendered exactly if its
whole name is the group, and the group is a dissector's. -/
theorem entryMember_mem_iff {fields : List Text} {msg : DecodedMessage} {name : Text}
    (hrecorded : name ∈ msg.fields.entries.map Prod.fst)
    (hselected : groupOf name ∈ fields.map groupOf) :
    entryMember hexEncode msg name ∈ (new fields none []).lineMembers hexEncode msg none ↔
      name = groupOf name ∧ ¬IsEnvelope name := by
  have hmaps : (new fields none []).mapFields = ∅ := rfl
  have hmember := groupMember_none hexEncode (new fields none []) msg.fields name
  rw [if_pos hrecorded, hmaps, namedJson, if_neg (Finset.notMem_empty _)] at hmember
  -- the line's own names have no dot and are not the envelope's; the envelope is objects
  have hpreamble : entryMember hexEncode msg name ∈
      preambleMembers "tls_record".toList msg.timestamp → name = groupOf name ∧
        ¬IsEnvelope name := by
    unfold preambleMembers IsEnvelope
    rw [List.mem_pair]
    rintro (heq | heq)
    · obtain rfl : name = "kind".toList := congrArg Prod.fst heq
      decide
    · obtain rfl : name = "tstamp".toList := congrArg Prod.fst heq
      decide
  have henvelope : ∀ (selected : Prop) [Decidable selected] (group : Text)
      (members : List (Text × Json)),
      entryMember hexEncode msg name ∉ if selected then [(group, Json.obj members)] else [] := by
    intro selected _ group members hmem
    split at hmem
    · exact groupJson_ne_obj _ _ _ (congrArg Prod.snd (List.mem_singleton.mp hmem))
    · exact absurd hmem List.not_mem_nil
  constructor
  · intro hmem
    simp only [lineMembers, List.mem_append] at hmem
    rcases hmem with hmem | hmem | hmem | hmem | hmem
    · exact hpreamble hmem
    · exact absurd hmem (henvelope _ _ _)
    · exact absurd hmem (henvelope _ _ _)
    · exact absurd hmem (henvelope _ _ _)
    · -- a group of the selection: it is a first component itself
      obtain ⟨group, hgroup, hmem⟩ := List.mem_filterMap.mp hmem
      rw [groupMember_none] at hmem
      split at hmem
      · obtain rfl : group = name := congrArg Prod.fst (Option.some.inj hmem)
        obtain ⟨hselected, hgeneric⟩ := mem_genericGroupOrder_new.mp hgroup
        obtain ⟨field, -, rfl⟩ := List.mem_map.mp hselected
        exact ⟨(groupOf_groupOf field).symm, hgeneric⟩
      · exact absurd hmem (by simp)
  · rintro ⟨hname, hgeneric⟩
    simp only [lineMembers, List.mem_append]
    refine .inr (.inr (.inr (.inr (List.mem_filterMap.mpr ⟨name, ?_, hmember⟩))))
    exact mem_genericGroupOrder_new.mpr ⟨hname ▸ hselected, hgeneric⟩

theorem writes_plainLine (hexEncode : Bytes → Text) (fields : List Text) (msg : DecodedMessage)
    (buffer : Text) :
    ∃ line, ((new fields none []).writeTlsRecord hexEncode buffer msg).1 =
        buffer ++ terminated [line] ∧
      ParsesTo line ((new fields none []).lineMembers hexEncode msg none) := by
  obtain ⟨lines, hlines, hwrite⟩ :=
    writes_tlsRecord (W := Text) hexEncode (new fields none []) msg
  change List.Forall₂ _ lines [(new fields none []).lineMembers hexEncode msg none] at hlines
  obtain ⟨line, rest, hline, hrest, rfl⟩ := List.forall₂_cons_right_iff.mp hlines
  obtain rfl := List.forall₂_nil_right_iff.mp hrest
  exact ⟨line, congrArg Prod.fst (hwrite buffer), hline.parsesTo⟩

end NdjsonWriter

/-! ## Agreement -/

/-- What the Elasticsearch writer emits for a selected field from one top-level entry. -/
def EkWriter.emittedFrom (field : Text) (entry : Text × FieldValue) : List Text :=
  (FrameFields.entryValuesFor field entry).map FieldValue.toOutputString

theorem EkWriter.valuesFor_eq (hexEncode : Bytes → Text) {field : Text}
    (hfield : ¬IsEnvelopeField field) (msg : DecodedMessage) :
    valuesFor hexEncode field msg = some (msg.fields.entries.flatMap (emittedFrom field)) := by
  simp only [IsEnvelopeField, not_or] at hfield
  obtain ⟨hsrc, hdst, hsrcport, hdstport, hdata⟩ := hfield
  rw [valuesFor, if_neg hsrc, if_neg hdst, if_neg hsrcport, if_neg hdstport, if_neg hdata,
    FrameFields.valuesFor_eq, List.map_flatMap]
  rfl

/-- A relation of what the Elasticsearch writer emits for a selection, from the entries
whose name begins like the field's. -/
def ForAllEmitted (fields : List Text) (msg : DecodedMessage)
    (P : (field : Text) → (entry : Text × FieldValue) → (text : Text) → Prop) : Prop :=
  ∀ field ∈ fields, ¬EkWriter.IsEnvelopeField field → ∀ entry ∈ msg.fields.entries,
    NdjsonWriter.groupOf entry.1 = NdjsonWriter.groupOf field →
      ∀ text ∈ EkWriter.emittedFrom field entry, P field entry text

/-- Every leaf that the Elasticsearch writer emits appears in the NDJSON line, in the member
that renders the entry it lies in, exactly if that entry is called like the group of its
field and the group is not the envelope's. -/
theorem leaves_shown_iff (hexEncode : Bytes → Text)
    (hhex : ∀ bytes, hexEncode bytes = FieldValue.hexEncode bytes) (fields : List Text)
    (msg : DecodedMessage) (buffer : Text) :
    (∀ field, ¬EkWriter.IsEnvelopeField field → EkWriter.valuesFor hexEncode field msg =
      some (msg.fields.entries.flatMap (EkWriter.emittedFrom field))) ∧
    ∃ line value, ((NdjsonWriter.new fields none []).writeTlsRecord hexEncode buffer msg).1 =
        buffer ++ terminated [line] ∧ Json.parse line = some value ∧
      (ForAllEmitted fields msg (fun _ entry text =>
          NdjsonWriter.ShowsEntry hexEncode msg entry text value) ↔
        ForAllEmitted fields msg fun field entry _ =>
          entry.1 = NdjsonWriter.groupOf field ∧ ¬IsEnvelope entry.1) := by
  refine ⟨fun field hfield => EkWriter.valuesFor_eq hexEncode hfield msg, ?_⟩
  obtain ⟨line, hwrite, hline⟩ := NdjsonWriter.writes_plainLine hexEncode fields msg buffer
  refine ⟨line, _, hwrite, hline.parse, ?_⟩
  unfold ForAllEmitted
  refine forall₂_congr fun field hfield => forall_congr' fun _ => forall₂_congr fun entry hentry =>
    forall_congr' fun hgroup => forall₂_congr fun text htext => ?_
  have hmember : NdjsonWriter.entryMember hexEncode msg entry.1 ∈
      (NdjsonWriter.new fields none []).lineMembers hexEncode msg none ↔
        entry.1 = NdjsonWriter.groupOf entry.1 ∧ ¬IsEnvelope entry.1 :=
    NdjsonWriter.entryMember_mem_iff (List.mem_map_of_mem hentry)
      (hgroup ▸ List.mem_map_of_mem hfield)
  have hshown : Shows text (NdjsonWriter.entryMember hexEncode msg entry.1).2 := by
    obtain ⟨v, hv, rfl⟩ := List.mem_map.mp htext
    refine (shows_groupJson _ _).mpr ⟨entry.2, mem_valuesNamed.mpr hentry, ?_⟩
    exact (shows_fieldJson hhex _ _).mpr
      (FrameFields.hasLeaf_of_mem_entryValuesFor entry.1 entry.2 hv)
  beta_reduce
  rw [← hgroup, ← hmember]
  constructor
  · rintro ⟨members, hmembers, hmem, -⟩
    obtain rfl := Json.obj.inj hmembers
    exact hmem
  · exact fun hmem => ⟨_, rfl, hmem, hshown⟩

namespace Unwrapped

/-- A message whose dissector adds a leaf to the root tree. -/
def msg : DecodedMessage where
  srcIp := .v4 0x0a000001
  dstIp := .v4 0x0a000002
  srcPort := 51234
  dstPort := 9410
  tlsAppData := [0xaa]
  fields := .mk [("proto.field".toList, .str "value".toList)] none none []
  timestamp := 0

/-- The same leaf in a subtree that is called like its group. -/
def wrapped : DecodedMessage :=
  { msg with
    fields := .mk [("proto".toList,
      .tree (.mk [("proto.field".toList, .str "value".toList)] none none []))] none none [] }

end Unwrapped

/-- A leaf that is not wrapped in a subtree is emitted for Elasticsearch only. -/
theorem unwrapped_leaf_missing : ∃ line value,
    ((NdjsonWriter.new ["proto.field".toList] none []).writeTlsRecord FieldValue.hexEncode []
      Unwrapped.msg).1 = terminated [line] ∧ Json.parse line = some value ∧
    ¬ForAllEmitted ["proto.field".toList] Unwrapped.msg fun _ entry text =>
      NdjsonWriter.ShowsEntry FieldValue.hexEncode Unwrapped.msg entry text value := by
  obtain ⟨line, hwrite, hline⟩ := NdjsonWriter.writes_plainLine FieldValue.hexEncode
    ["proto.field".toList] Unwrapped.msg []
  refine ⟨line, _, hwrite, hline.parse, fun hall => ?_⟩
  have hshown := hall "proto.field".toList List.mem_cons_self
    (by unfold EkWriter.IsEnvelopeField; decide) ("proto.field".toList, .str "value".toList)
    List.mem_cons_self (by decide) "value".toList List.mem_cons_self
  obtain ⟨members, hmembers, hmem, -⟩ := hshown
  obtain rfl := Json.obj.inj hmembers
  exact absurd ((NdjsonWriter.entryMember_mem_iff List.mem_cons_self
    (List.mem_singleton_self _)).mp hmem).1 (by decide)

/-- The leaf of a wrapping subtree is shown by both. -/
theorem wrapped_leaf_shown : ∃ line value,
    ((NdjsonWriter.new ["proto.field".toList] none []).writeTlsRecord FieldValue.hexEncode []
      Unwrapped.wrapped).1 = terminated [line] ∧ Json.parse line = some value ∧
    ForAllEmitted ["proto.field".toList] Unwrapped.wrapped fun _ entry text =>
      NdjsonWriter.ShowsEntry FieldValue.hexEncode Unwrapped.wrapped entry text value := by
  obtain ⟨-, line, value, hwrite, hparse, hiff⟩ := leaves_shown_iff FieldValue.hexEncode
    (fun _ => rfl) ["proto.field".toList] Unwrapped.wrapped []
  refine ⟨line, value, hwrite, hparse, hiff.mpr ?_⟩
  intro field hfield _ entry hentry _ text _
  obtain rfl := List.mem_singleton.mp hfield
  obtain rfl := List.mem_singleton.mp hentry
  exact ⟨by decide, by unfold IsEnvelope; decide⟩

end Tlscap
