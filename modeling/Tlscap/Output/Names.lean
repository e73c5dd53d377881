import Tlscap.Keylog.Growth
import Tlscap.Library.Json.Quotes
import Tlscap.Output.Lines
import Tlscap.Output.Selection

/-!
# Distinct member names

When no object of a line names two members alike.  A level gathers its entries by their
recorded names, but writes shorter ones; a map takes its names from the values a dissector
recorded; and a selected group may be called like the beginning of the line.  `KeysApart` and
`RecordApart` say of the recorded fields that none of this makes two names meet, and
`names_distinct_iff` that the lines have distinct names exactly then.

## Strategy

What a line holds is known (`writes_tlsRecord`, `writes_actionData`), so all that is left is
to read off its names.

* **Recorded values.**  The names of a level are the shortened names of its groups, each
  once; they are distinct exactly if shortening and replacing dots keeps different names
  apart (`namesDistinct_fieldMembers`).  A group rendered as a map is one level whose values
  are strings (`namesDistinct_mapMembers`).  The induction is on the nesting
  (`namesDistinct_fieldJson`).
* **An NDJSON line** is a preamble, the envelope and the selected groups.  The envelope's
  names are reserved, as no selected group is called like one; the preamble's are not
  (`lineMembers_nodup`).  An exploded group is shown one occurrence at a time, and is never a
  map (`namesDistinct_recordMembers`).
* **The Elasticsearch lines.**  The fields that occur are written under their whole names
  with the dots replaced (`namesDistinct_dataMembers`).  The index action is written without
  escapes.  An index name without quotation marks is the string it stands in, or the line is
  no JSON at all (`namesDistinct_action`); one with quotation marks may say anything, and
  only the fields' part is stated for it.
-/

namespace Tlscap

open Json

/-! ## Lines of an output -/

/-- Every line of an output that is JSON has distinct names in all its objects. -/
def LinesDistinct (output : Text) : Prop :=
  ∀ line ∈ Keylog.lines output, ∀ value, Json.parse line = some value → NamesDistinct value

theorem lines_terminated {lines : List Text} (h : ∀ line ∈ lines, '\n' ∉ line) (more : Text) :
    Keylog.lines (terminated lines ++ more) = lines ++ Keylog.lines more := by
  have hline : ∀ line : Text, '\n' ∉ line → Keylog.lines (line ++ ['\n']) = [line] := by
    intro line hmem
    induction line with
    | nil => rfl
    | cons c line ih =>
        have hc : c ≠ '\n' := fun heq => hmem (heq ▸ List.mem_cons_self)
        rw [List.cons_append, Keylog.lines, if_neg hc,
          ih fun hmem' => hmem (List.mem_cons_of_mem _ hmem')]
  induction lines with
  | nil => rfl
  | cons line lines ih =>
      rw [terminated_cons, List.append_assoc, List.append_assoc, List.singleton_append,
        Keylog.lines_append_newline, hline line (h line List.mem_cons_self),
        ih fun other hother => h other (List.mem_cons_of_mem _ hother)]
      rfl

/-- Lines with known members are distinct where the members are. -/
theorem linesDistinct_terminated {lines : List Text} {objects : List (List (Text × Json))}
    (h : List.Forall₂ ParsesTo lines objects) :
    LinesDistinct (terminated lines) ↔ ∀ members ∈ objects, NamesDistinct (.obj members) := by
  have hlines : Keylog.lines (terminated lines) = lines := by
    have hall : ∀ line ∈ lines, '\n' ∉ line := by
      induction h with
      | nil => exact fun _ hline => absurd hline List.not_mem_nil
      | cons hparses _ ih => exact List.forall_mem_cons.mpr ⟨hparses.oneLine, ih⟩
    have hsplit := lines_terminated hall []
    rwa [List.append_nil, Keylog.lines, List.append_nil] at hsplit
  unfold LinesDistinct
  rw [hlines]
  clear hlines
  induction h with
  | nil => simp
  | @cons line members lines objects hparses _ ih =>
      rw [List.forall_mem_cons, List.forall_mem_cons]
      refine and_congr ⟨fun hall => hall _ hparses.parse, fun hdistinct value hvalue => ?_⟩ ih
      rw [hparses.parse] at hvalue
      exact Option.some.inj hvalue ▸ hdistinct

/-- The lines of a text are made of its characters. -/
theorem sublist_of_mem_lines {text line : Text} (h : line ∈ Keylog.lines text) :
    line.Sublist text := by
  induction text generalizing line with
  | nil => exact absurd h List.not_mem_nil
  | cons c rest ih =>
      rw [Keylog.lines] at h
      split at h
      · rcases List.mem_cons.mp h with rfl | h
        · exact List.nil_sublist _
        · exact (ih h).cons c
      · cases hrest : Keylog.lines rest with
        | nil =>
            rw [hrest] at h
            rw [List.mem_singleton.mp h]
            exact List.singleton_sublist.mpr List.mem_cons_self
        | cons first more =>
            rw [hrest] at h ih
            rcases List.mem_cons.mp h with rfl | h
            · exact (ih List.mem_cons_self).cons_cons c
            · exact (ih (List.mem_cons_of_mem first h)).cons c

/-! ## Recorded values -/

/-- No two occurrences that make an entry of a map have the same key. -/
def MapKeysApart (values : List FieldValue) (enclosing : Text) : Prop :=
  ((values.filterMap (mapMember enclosing)).map Prod.fst).Nodup

section Values

variable (mapFields : Finset Text)

/-- At no level of a recorded value do different names become one, or two entries of a
map have one key. -/
inductive KeysApart : Text → FieldValue → Prop
  | leaf {enclosing : Text} {v : FieldValue} (hleaf : v.isTree = false) : KeysApart enclosing v
  | tree {enclosing : Text} {child : FrameFields}
      (hnames : ∀ first ∈ child.entries, ∀ second ∈ child.entries,
        underscored (shortName enclosing first.1) = underscored (shortName enclosing second.1) →
          first.1 = second.1)
      (hmaps : ∀ entry ∈ child.entries, shortName enclosing entry.1 ∈ mapFields →
        MapKeysApart (valuesNamed child.entries entry.1) entry.1)
      (hvalues : ∀ entry ∈ child.entries, shortName enclosing entry.1 ∉ mapFields →
        KeysApart entry.1 entry.2) : KeysApart enclosing (.tree child)

variable {mapFields} {hexEncode : Bytes → Text}

theorem namesDistinct_mapMembers (values : List FieldValue) (enclosing : Text) :
    NamesDistinct (.obj (mapMembers values enclosing)) ↔ MapKeysApart values enclosing := by
  rw [namesDistinct_obj, mapMembers, List.map_map, MapKeysApart]
  refine and_iff_left ?_
  intro member hmember
  obtain ⟨entry, -, rfl⟩ := List.mem_map.mp hmember
  exact .str

theorem namesDistinct_groupJson (values : List FieldValue) (enclosing : Text) :
    NamesDistinct (groupJson hexEncode mapFields values enclosing) ↔
      ∀ v ∈ values, NamesDistinct (fieldJson hexEncode mapFields v enclosing) := by
  rw [groupJson_eq]
  cases hsole : soleLeaf values with
  | some single => rw [(soleLeaf_eq_some.mp hsole).1, List.forall_mem_singleton]
  | none => rw [namesDistinct_arr, List.forall_mem_map]

theorem namesDistinct_namedJson (short : Text) (values : List FieldValue) (enclosing : Text) :
    NamesDistinct (namedJson hexEncode mapFields short values enclosing) ↔
      (short ∈ mapFields → MapKeysApart values enclosing) ∧
        (short ∉ mapFields →
          ∀ v ∈ values, NamesDistinct (fieldJson hexEncode mapFields v enclosing)) := by
  rw [namedJson]
  by_cases hmap : short ∈ mapFields
  · rw [if_pos hmap, namesDistinct_mapMembers]
    exact ⟨fun h => ⟨fun _ => h, fun hno => absurd hmap hno⟩, fun h => h.1 hmap⟩
  · rw [if_neg hmap, namesDistinct_groupJson]
    exact ⟨fun h => ⟨fun hyes => absurd hyes hmap, fun _ => h⟩, fun h => h.2 hmap⟩

/-- One level, given what its values need. -/
theorem namesDistinct_fieldMembers (child : FrameFields) (enclosing : Text) :
    NamesDistinct (.obj (fieldMembers hexEncode mapFields child enclosing)) ↔
      (∀ first ∈ child.entries, ∀ second ∈ child.entries,
        underscored (shortName enclosing first.1) = underscored (shortName enclosing second.1) →
          first.1 = second.1) ∧
      (∀ entry ∈ child.entries, shortName enclosing entry.1 ∈ mapFields →
        MapKeysApart (valuesNamed child.entries entry.1) entry.1) ∧
      ∀ entry ∈ child.entries, shortName enclosing entry.1 ∉ mapFields →
        NamesDistinct (fieldJson hexEncode mapFields entry.2 entry.1) := by
  have hnames : ∀ P : Text → Prop,
      (∀ name ∈ namesInOrder child.entries, P name) ↔ ∀ entry ∈ child.entries, P entry.1 := by
    intro P
    simp only [mem_namesInOrder, List.forall_mem_map]
  rw [namesDistinct_obj, fieldMembers_eq, groupedEntries_eq, List.map_map, List.map_map]
  refine and_congr ?_ ?_
  · rw [List.nodup_map_iff_inj_on (nodup_namesInOrder _), hnames]
    exact forall₂_congr fun first _ => hnames fun name =>
      underscored (shortName enclosing first.1) = underscored (shortName enclosing name) →
        first.1 = name
  · rw [List.forall_mem_map, List.forall_mem_map]
    simp only [namesDistinct_namedJson]
    constructor
    · intro h
      have hrecorded : ∀ entry ∈ child.entries, entry.1 ∈ namesInOrder child.entries :=
        fun entry hentry => mem_namesInOrder.mpr (List.mem_map_of_mem hentry)
      exact ⟨fun entry hentry => (h entry.1 (hrecorded entry hentry)).1,
        fun entry hentry hmap => (h entry.1 (hrecorded entry hentry)).2 hmap entry.2
          (mem_valuesNamed.mpr hentry)⟩
    · rintro ⟨hmaps, hvalues⟩ name hname
      refine ⟨fun hmap => ?_, fun hmap v hv => hvalues (name, v) (mem_valuesNamed.mp hv) hmap⟩
      obtain ⟨entry, hentry, rfl⟩ := List.mem_map.mp (mem_namesInOrder.mp hname)
      exact hmaps entry hentry hmap

/-- A recorded value says nothing twice under one name exactly if its names stay apart. -/
theorem namesDistinct_fieldJson (v : FieldValue) (enclosing : Text) :
    NamesDistinct (fieldJson hexEncode mapFields v enclosing) ↔
      KeysApart mapFields enclosing v := by
  cases v with
  | uInt n =>
      rw [fieldJson]
      exact ⟨fun _ => .leaf rfl, fun _ => .num⟩
  | str s =>
      rw [fieldJson]
      exact ⟨fun _ => .leaf rfl, fun _ => .str⟩
  | bytes b =>
      rw [fieldJson]
      exact ⟨fun _ => .leaf rfl, fun _ => .str⟩
  | tree child =>
      have hvalues : ∀ entry ∈ child.entries,
          (NamesDistinct (fieldJson hexEncode mapFields entry.2 entry.1) ↔
            KeysApart mapFields entry.1 entry.2) := fun entry hentry =>
        have : sizeOf entry.2 < sizeOf child := sizeOf_of_mem_entries hentry
        namesDistinct_fieldJson entry.2 entry.1
      rw [fieldJson, namesDistinct_fieldMembers]
      constructor
      · rintro ⟨hnames, hmaps, hdistinct⟩
        exact .tree hnames hmaps fun entry hentry hmap =>
          (hvalues entry hentry).mp (hdistinct entry hentry hmap)
      · intro hapart
        cases hapart with
        | leaf hleaf => exact absurd hleaf (by simp [FieldValue.isTree])
        | tree hnames hmaps happart =>
            exact ⟨hnames, hmaps, fun entry hentry hmap =>
              (hvalues entry hentry).mpr (happart entry hentry hmap)⟩
termination_by sizeOf v
decreasing_by
  simp only [FieldValue.tree.sizeOf_spec]
  omega

end Values

/-! ## NDJSON lines -/

namespace NdjsonWriter

variable (hexEncode : Bytes → Text) (self : NdjsonWriter)

/-- What the envelope of a message says, under distinct names of its own. -/
def envelopeMembers (msg : DecodedMessage) : List (Text × Json) :=
  self.ipMembers msg.srcIp.toText msg.dstIp.toText ++
    (self.portMembers msg ++ self.tlsMembers hexEncode msg)

theorem envelopeMembers_names (msg : DecodedMessage) :
    ((self.envelopeMembers hexEncode msg).map Prod.fst).Nodup ∧
      ∀ name ∈ (self.envelopeMembers hexEncode msg).map Prod.fst, IsEnvelope name := by
  unfold envelopeMembers ipMembers portMembers tlsMembers IsEnvelope
  split <;> split <;> split <;> simp

theorem envelopeMembers_distinct (msg : DecodedMessage) :
    ∀ member ∈ self.envelopeMembers hexEncode msg, NamesDistinct member.2 := by
  have hpair : ∀ (first second : Text) (a b : Json), first ≠ second → NamesDistinct a →
      NamesDistinct b → NamesDistinct (.obj [(first, a), (second, b)]) := by
    intro first second a b hne ha hb
    exact .obj (by simpa using hne) (by simp [ha, hb])
  intro member hmember
  unfold envelopeMembers ipMembers portMembers tlsMembers at hmember
  simp only [List.mem_append] at hmember
  rcases hmember with hmember | hmember | hmember
  · split at hmember
    · rw [List.mem_singleton.mp hmember]
      exact hpair _ _ _ _ (by decide) .str .str
    · exact absurd hmember List.not_mem_nil
  · split at hmember
    · rw [List.mem_singleton.mp hmember]
      exact hpair _ _ _ _ (by decide) .num .num
    · exact absurd hmember List.not_mem_nil
  · split at hmember
    · rw [List.mem_singleton.mp hmember]
      exact .obj (List.nodup_singleton _) (by simp [NamesDistinct.str])
    · exact absurd hmember List.not_mem_nil

variable {hexEncode : Bytes → Text} {self : NdjsonWriter}

/-- The groups a line shows, with the line's own names. -/
theorem lineMembers_eq (msg : DecodedMessage) (exploded : Option (Text × FieldValue)) :
    self.lineMembers hexEncode msg exploded =
      preambleMembers "tls_record".toList msg.timestamp ++
        (self.envelopeMembers hexEncode msg ++ self.genericGroupOrder.filterMap
          (self.groupMember hexEncode (groupedEntries msg.fields) exploded)) := by
  simp only [lineMembers, envelopeMembers, List.append_assoc]

theorem groupMember_name {fields : FrameFields} {exploded : Option (Text × FieldValue)}
    {group : Text} {member : Text × Json}
    (h : self.groupMember hexEncode (groupedEntries fields) exploded group = some member) :
    member.1 = group := by
  have hnone : ∀ member, self.groupMember hexEncode (groupedEntries fields) none group =
      some member → member.1 = group := by
    intro member h
    rw [groupMember_none] at h
    split at h
    · rw [← Option.some.inj h]
    · exact absurd h (by simp)
  cases exploded with
  | none => exact hnone member h
  | some exploded =>
      rw [groupMember_some] at h
      split at h
      · rw [← Option.some.inj h]
      · exact hnone member h

/-- What a line shows of the selected groups, each under its own name. -/
theorem mem_shownGroups {fields : FrameFields} {exploded : Option (Text × FieldValue)}
    {member : Text × Json} :
    member ∈ self.genericGroupOrder.filterMap
        (self.groupMember hexEncode (groupedEntries fields) exploded) ↔
      member.1 ∈ self.genericGroupOrder ∧
        self.groupMember hexEncode (groupedEntries fields) exploded member.1 = some member := by
  rw [List.mem_filterMap]
  constructor
  · rintro ⟨group, hgroup, hmember⟩
    have hname := groupMember_name hmember
    exact ⟨hname ▸ hgroup, hname ▸ hmember⟩
  · rintro ⟨hgroup, hmember⟩
    exact ⟨member.1, hgroup, hmember⟩

/-- Groups selected once are shown once. -/
theorem shownGroups_nodup (hnodup : self.genericGroupOrder.Nodup) (fields : FrameFields)
    (exploded : Option (Text × FieldValue)) :
    ((self.genericGroupOrder.filterMap
      (self.groupMember hexEncode (groupedEntries fields) exploded)).map Prod.fst).Nodup := by
  rw [List.map_filterMap]
  refine hnodup.filterMap fun first second name hfirst hsecond => ?_
  obtain ⟨member, hmember, rfl⟩ := Option.map_eq_some_iff.mp hfirst
  obtain ⟨other, hother, heq⟩ := Option.map_eq_some_iff.mp hsecond
  rw [← groupMember_name hmember, ← groupMember_name hother, heq]

/-- The names of a line are distinct if no group it shows is called like a name of the
preamble: no group is called like the envelope's. -/
theorem lineMembers_nodup (hnodup : self.genericGroupOrder.Nodup)
    (hgeneric : ∀ group ∈ self.genericGroupOrder, ¬IsEnvelope group) (msg : DecodedMessage)
    (exploded : Option (Text × FieldValue)) :
    ((self.lineMembers hexEncode msg exploded).map Prod.fst).Nodup ↔
      ∀ member ∈ self.genericGroupOrder.filterMap
        (self.groupMember hexEncode (groupedEntries msg.fields) exploded),
        member.1 ≠ "kind".toList ∧ member.1 ≠ "tstamp".toList := by
  let shown := self.genericGroupOrder.filterMap
    (self.groupMember hexEncode (groupedEntries msg.fields) exploded)
  obtain ⟨henvelopeNodup, henvelope⟩ := self.envelopeMembers_names hexEncode msg
  have hreserved : ∀ name, IsEnvelope name → name ≠ "kind".toList ∧ name ≠ "tstamp".toList := by
    rintro name (rfl | rfl | rfl) <;> decide
  -- no selected group is called like the envelope, so only the preamble can be met
  have hrest : (((self.envelopeMembers hexEncode msg ++ shown).map Prod.fst)).Nodup := by
    rw [List.map_append]
    refine List.nodup_append.mpr ⟨henvelopeNodup, shownGroups_nodup hnodup _ _, ?_⟩
    rintro name hname other hother rfl
    obtain ⟨member, hmember, rfl⟩ := List.mem_map.mp hother
    exact hgeneric member.1 (mem_shownGroups.mp hmember).1 (henvelope member.1 hname)
  have hfront : ∀ name, name = "kind".toList ∨ name = "tstamp".toList →
      (name ∈ (self.envelopeMembers hexEncode msg ++ shown).map Prod.fst ↔
        name ∈ shown.map Prod.fst) := by
    intro name hname
    rw [List.map_append, List.mem_append, or_iff_right]
    intro hmem
    obtain ⟨hkind, htstamp⟩ := hreserved name (henvelope name hmem)
    exact hname.elim hkind htstamp
  rw [lineMembers_eq, preambleMembers, List.map_append]
  simp only [List.map_cons, List.map_nil, List.cons_append, List.nil_append, List.nodup_cons,
    List.mem_cons]
  rw [hfront _ (.inl rfl), hfront _ (.inr rfl)]
  constructor
  · rintro ⟨hkind, htstamp, -⟩ member hmember
    have hname := List.mem_map_of_mem (f := Prod.fst) hmember
    exact ⟨fun heq => hkind (.inr (heq ▸ hname)), fun heq => htstamp (heq ▸ hname)⟩
  · -- kind and tstamp are two names, and neither is shown again
    intro h
    have habsent : ∀ name ∈ shown.map Prod.fst,
        name ≠ "kind".toList ∧ name ≠ "tstamp".toList := by
      rw [List.forall_mem_map]
      exact h
    refine ⟨?_, fun hmem => (habsent _ hmem).2 rfl, hrest⟩
    rintro (heq | hmem)
    · exact absurd heq (by decide)
    · exact (habsent _ hmem).1 rfl

/-- A line has distinct names if the groups it shows do, and none is called like the
beginning of the line. -/
theorem namesDistinct_lineMembers (hnodup : self.genericGroupOrder.Nodup)
    (hgeneric : ∀ group ∈ self.genericGroupOrder, ¬IsEnvelope group) (msg : DecodedMessage)
    (exploded : Option (Text × FieldValue)) :
    NamesDistinct (.obj (self.lineMembers hexEncode msg exploded)) ↔
      ∀ group ∈ self.genericGroupOrder, ∀ member,
        self.groupMember hexEncode (groupedEntries msg.fields) exploded group = some member →
          group ≠ "kind".toList ∧ group ≠ "tstamp".toList ∧ NamesDistinct member.2 := by
  rw [namesDistinct_obj, lineMembers_nodup hnodup hgeneric]
  constructor
  · rintro ⟨happart, hvalues⟩ group hgroup member hmember
    have hname := groupMember_name hmember
    have hshown := mem_shownGroups.mpr ⟨hname ▸ hgroup, hname ▸ hmember⟩
    have hline : member ∈ self.lineMembers hexEncode msg exploded := by
      rw [lineMembers_eq]
      exact List.mem_append_right _ (List.mem_append_right _ hshown)
    obtain ⟨hkind, htstamp⟩ := happart member hshown
    exact ⟨hname ▸ hkind, hname ▸ htstamp, hvalues member hline⟩
  · intro h
    have hall : ∀ member ∈ self.genericGroupOrder.filterMap
        (self.groupMember hexEncode (groupedEntries msg.fields) exploded),
        member.1 ≠ "kind".toList ∧ member.1 ≠ "tstamp".toList ∧ NamesDistinct member.2 := by
      intro member hmember
      obtain ⟨hgroup, heq⟩ := mem_shownGroups.mp hmember
      exact h member.1 hgroup member heq
    refine ⟨fun member hmember => ⟨(hall member hmember).1, (hall member hmember).2.1⟩, ?_⟩
    intro member hmember
    rw [lineMembers_eq] at hmember
    rcases List.mem_append.mp hmember with hmember | hmember
    · -- the preamble is a string and a number
      simp only [preambleMembers, List.mem_cons, List.not_mem_nil, or_false] at hmember
      rcases hmember with rfl | rfl
      · exact .str
      · exact .num
    rcases List.mem_append.mp hmember with hmember | hmember
    · exact self.envelopeMembers_distinct hexEncode msg member hmember
    · exact (hall member hmember).2.2

/-- The values of a recorded group stay apart in the form a writer gives them: as a map,
or one by one. -/
def GroupApart (self : NdjsonWriter) (fields : FrameFields) (group : Text) : Prop :=
  if group ∈ self.mapFields ∧ self.explode ≠ some group then
    MapKeysApart (valuesNamed fields.entries group) group
  else ∀ v ∈ valuesNamed fields.entries group, KeysApart self.mapFields group v

/-- No selected group that was recorded is called like the beginning of a line, and the
values of each stay apart. -/
def RecordApart (self : NdjsonWriter) (fields : FrameFields) : Prop :=
  ∀ group ∈ self.genericGroupOrder, group ∈ fields.entries.map Prod.fst →
    group ≠ "kind".toList ∧ group ≠ "tstamp".toList ∧ self.GroupApart fields group

/-- A line of its own is distinct where the groups it shows are; the groups that are not
exploded are shown whole. -/
theorem namesDistinct_plainMembers (hnodup : self.genericGroupOrder.Nodup)
    (hgeneric : ∀ group ∈ self.genericGroupOrder, ¬IsEnvelope group) (msg : DecodedMessage) :
    NamesDistinct (.obj (self.lineMembers hexEncode msg none)) ↔
      ∀ group ∈ self.genericGroupOrder, group ∈ msg.fields.entries.map Prod.fst →
        group ≠ "kind".toList ∧ group ≠ "tstamp".toList ∧
          NamesDistinct (namedJson hexEncode self.mapFields group
            (valuesNamed msg.fields.entries group) group) := by
  rw [namesDistinct_lineMembers hnodup hgeneric]
  refine forall₂_congr fun group _ => ?_
  rw [groupMember_none]
  by_cases hrecorded : group ∈ msg.fields.entries.map Prod.fst
  · rw [if_pos hrecorded]
    exact ⟨fun h _ => h _ rfl, fun h member heq => Option.some.inj heq ▸ h hrecorded⟩
  · rw [if_neg hrecorded]
    exact ⟨fun _ hmem => absurd hmem hrecorded, fun _ member heq => absurd heq (by simp)⟩

/-- A line that shows one occurrence of its exploded group. -/
theorem namesDistinct_explodedMembers (hnodup : self.genericGroupOrder.Nodup)
    (hgeneric : ∀ group ∈ self.genericGroupOrder, ¬IsEnvelope group) (msg : DecodedMessage)
    {explodedName : Text} (hexploded : explodedName ∈ msg.fields.entries.map Prod.fst)
    (v : FieldValue) :
    NamesDistinct (.obj (self.lineMembers hexEncode msg (some (explodedName, v)))) ↔
      ∀ group ∈ self.genericGroupOrder, group ∈ msg.fields.entries.map Prod.fst →
        group ≠ "kind".toList ∧ group ≠ "tstamp".toList ∧
          (group = explodedName → KeysApart self.mapFields group v) ∧
          (group ≠ explodedName → NamesDistinct (namedJson hexEncode self.mapFields group
            (valuesNamed msg.fields.entries group) group)) := by
  rw [namesDistinct_lineMembers hnodup hgeneric]
  refine forall₂_congr fun group _ => ?_
  rw [groupMember_some]
  by_cases hname : group = explodedName
  · -- the exploded group shows the one occurrence
    subst hname
    rw [if_pos rfl]
    constructor
    · intro h _
      obtain ⟨hkind, htstamp, hdistinct⟩ := h _ rfl
      exact ⟨hkind, htstamp, fun _ => (namesDistinct_fieldJson v group).mp hdistinct,
        fun hne => absurd rfl hne⟩
    · intro h member heq
      obtain ⟨hkind, htstamp, happart, -⟩ := h hexploded
      rw [← Option.some.inj heq]
      exact ⟨hkind, htstamp, (namesDistinct_fieldJson v group).mpr (happart rfl)⟩
  · -- every other group shows what was recorded for it
    rw [if_neg hname, groupMember_none]
    by_cases hrecorded : group ∈ msg.fields.entries.map Prod.fst
    · rw [if_pos hrecorded]
      constructor
      · intro h _
        obtain ⟨hkind, htstamp, hdistinct⟩ := h _ rfl
        exact ⟨hkind, htstamp, fun heq => absurd heq hname, fun _ => hdistinct⟩
      · intro h member heq
        obtain ⟨hkind, htstamp, -, hdistinct⟩ := h hrecorded
        rw [← Option.some.inj heq]
        exact ⟨hkind, htstamp, hdistinct hname⟩
    · rw [if_neg hrecorded]
      exact ⟨fun _ hmem => absurd hmem hrecorded, fun _ member heq => absurd heq (by simp)⟩

/-- All lines of a message are distinct exactly if its selected groups are. -/
theorem namesDistinct_recordMembers (hnodup : self.genericGroupOrder.Nodup)
    (hgeneric : ∀ group ∈ self.genericGroupOrder, ¬IsEnvelope group) (msg : DecodedMessage) :
    (∀ members ∈ self.recordMembers hexEncode msg, NamesDistinct (.obj members)) ↔
      self.RecordApart msg.fields := by
  have hwhole : ∀ group, NamesDistinct (namedJson hexEncode self.mapFields group
      (valuesNamed msg.fields.entries group) group) ↔
        if group ∈ self.mapFields then MapKeysApart (valuesNamed msg.fields.entries group) group
        else ∀ v ∈ valuesNamed msg.fields.entries group, KeysApart self.mapFields group v := by
    intro group
    rw [namesDistinct_namedJson]
    simp only [namesDistinct_fieldJson]
    by_cases hmap : group ∈ self.mapFields
    · rw [if_pos hmap]
      exact ⟨fun h => h.1 hmap, fun h => ⟨fun _ => h, fun hno => absurd hmap hno⟩⟩
    · rw [if_neg hmap]
      exact ⟨fun h => h.2 hmap, fun h => ⟨fun hyes => absurd hyes hmap, fun _ => h⟩⟩
  -- for a group that is not exploded, all its occurrences are in every line
  have hsame : ∀ group, self.explode ≠ some group →
      (NamesDistinct (namedJson hexEncode self.mapFields group
        (valuesNamed msg.fields.entries group) group) ↔ self.GroupApart msg.fields group) := by
    intro group hne
    rw [hwhole group, GroupApart]
    exact iff_of_eq (if_congr (and_iff_left hne).symm rfl rfl)
  rw [recordMembers, explodedValues_eq]
  by_cases hexploded : ∃ explodedName, self.explode = some explodedName ∧
      explodedName ∈ msg.fields.entries.map Prod.fst
  · -- one line for each occurrence of the exploded group
    obtain ⟨explodedName, hname, hrecorded⟩ := hexploded
    have happart : self.GroupApart msg.fields explodedName ↔
        ∀ v ∈ valuesNamed msg.fields.entries explodedName,
          KeysApart self.mapFields explodedName v := by
      rw [GroupApart, if_neg fun h => h.2 hname]
    rw [hname, Option.bind_some, if_pos hrecorded]
    show (∀ members ∈ (valuesNamed msg.fields.entries explodedName).map _, _) ↔ _
    rw [List.forall_mem_map]
    simp only [namesDistinct_explodedMembers hnodup hgeneric msg hrecorded]
    constructor
    · -- the other groups are the same in every line, so the first line speaks for all
      intro h group hgroup hmem
      obtain ⟨first, hfirst⟩ :=
        List.exists_mem_of_ne_nil _ (valuesNamed_ne_nil.mpr hrecorded)
      refine ⟨(h first hfirst group hgroup hmem).1, (h first hfirst group hgroup hmem).2.1, ?_⟩
      by_cases heq : group = explodedName
      · subst heq
        exact happart.mpr fun v hv => (h v hv group hgroup hmem).2.2.1 rfl
      · refine (hsame group fun hsome => heq ?_).mp ((h first hfirst group hgroup hmem).2.2.2 heq)
        exact (Option.some.inj (hname.symm.trans hsome)).symm
    · intro h v hv group hgroup hmem
      obtain ⟨hkind, htstamp, hgroupApart⟩ := h group hgroup hmem
      refine ⟨hkind, htstamp, ?_, fun hne => (hsame group fun hsome => hne ?_).mpr hgroupApart⟩
      · rintro rfl
        exact happart.mp hgroupApart v hv
      · exact (Option.some.inj (hname.symm.trans hsome)).symm
  · -- one line that shows everything
    have hnone : (self.explode.bind fun explodeName =>
        if explodeName ∈ msg.fields.entries.map Prod.fst then
          some (explodeName, valuesNamed msg.fields.entries explodeName)
        else none) = none := by
      rw [Option.bind_eq_none_iff]
      intro explodedName hname
      exact if_neg fun hrecorded => hexploded ⟨explodedName, hname, hrecorded⟩
    rw [hnone]
    show (∀ members ∈ [_], _) ↔ _
    rw [List.forall_mem_singleton, namesDistinct_plainMembers hnodup hgeneric]
    refine forall₂_congr fun group _ => forall_congr' fun hmem => ?_
    rw [hsame group fun hname => hexploded ⟨group, hname, hmem⟩]

/-- What the writer of selected fields appends for a message has distinct names exactly
if the selected groups stay apart. -/
theorem linesDistinct_iff (fields mapFields : List Text) (explode : Option Text)
    (msg : DecodedMessage) (buffer : Text) :
    ∃ output, ((new fields explode mapFields).writeTlsRecord hexEncode buffer msg).1 =
        buffer ++ output ∧
      (LinesDistinct output ↔ (new fields explode mapFields).RecordApart msg.fields) := by
  obtain ⟨lines, hlines, hwrite⟩ :=
    writes_tlsRecord (W := Text) hexEncode (new fields explode mapFields) msg
  refine ⟨terminated lines, congrArg Prod.fst (hwrite buffer), ?_⟩
  rw [linesDistinct_terminated (hlines.imp fun _ _ hspells => hspells.parsesTo)]
  exact namesDistinct_recordMembers (selects_new fields explode mapFields).nodup
    (fun group hgroup => (mem_genericGroupOrder_new.mp hgroup).2) msg

end NdjsonWriter

/-! ## Lines for Elasticsearch -/

namespace EkWriter

variable {hexEncode : Bytes → Text} {self : EkWriter}

/-- The field has a value in a message. -/
def Occurs (msg : DecodedMessage) (field : Text) : Prop :=
  IsEnvelopeField field ∨ msg.fields.valuesFor field ≠ []

/-- Two selected fields that occur are not written under one name. -/
def LayersApart (self : EkWriter) (msg : DecodedMessage) : Prop :=
  ∀ first ∈ self.fields, ∀ second ∈ self.fields, Occurs msg first → Occurs msg second →
    underscored first = underscored second → first = second

/-- A field gives a member exactly if it occurs. -/
theorem layerMember_names (msg : DecodedMessage) (field name : Text) :
    (∃ member, layerMember hexEncode msg field = some member ∧ member.1 = name) ↔
      Occurs msg field ∧ underscored field = name := by
  have hsome : ∀ {values : List Text}, valuesFor hexEncode field msg = some values →
      ((∃ member, layerMember hexEncode msg field = some member ∧ member.1 = name) ↔
        values ≠ [] ∧ underscored field = name) := by
    intro values hvalues
    unfold layerMember
    rw [hvalues]
    cases values with
    | nil => simp
    | cons value values => simp
  by_cases henvelope : IsEnvelopeField field
  · obtain ⟨value, hvalue⟩ : ∃ value, valuesFor hexEncode field msg = some [value] := by
      rcases henvelope with rfl | rfl | rfl | rfl | rfl <;> exact ⟨_, rfl⟩
    rw [hsome hvalue, Occurs]
    simp [henvelope]
  · have hvalues : valuesFor hexEncode field msg =
        some ((msg.fields.valuesFor field).map FieldValue.toOutputString) := by
      simp only [IsEnvelopeField, not_or] at henvelope
      obtain ⟨hsrc, hdst, hsrcport, hdstport, hdata⟩ := henvelope
      rw [valuesFor, if_neg hsrc, if_neg hdst, if_neg hsrcport, if_neg hdstport, if_neg hdata]
    rw [hsome hvalues, Occurs]
    simp [henvelope]

/-- What the elements of a list without repetition give is without repetition exactly if
no two of them give the same. -/
theorem nodup_filterMap_iff {α β : Type} {toItem : α → Option β} {values : List α}
    (hnodup : values.Nodup) : (values.filterMap toItem).Nodup ↔
      ∀ first ∈ values, ∀ second ∈ values, ∀ item,
        toItem first = some item → toItem second = some item → first = second := by
  constructor
  · intro h first hfirst second hsecond item hitem hitem'
    induction values with
    | nil => exact absurd hfirst List.not_mem_nil
    | cons value values ih =>
        have hrest : (values.filterMap toItem).Nodup :=
          h.sublist ((List.sublist_cons_self value values).filterMap toItem)
        have hclash : ∀ other ∈ values, toItem value = some item → toItem other ≠ some item := by
          intro other hother hvalue heq
          rw [List.filterMap_cons_some hvalue] at h
          exact (List.nodup_cons.mp h).1 (List.mem_filterMap.mpr ⟨other, hother, heq⟩)
        rcases List.mem_cons.mp hfirst with heq | hfirst <;>
          rcases List.mem_cons.mp hsecond with heq' | hsecond
        · exact heq.trans heq'.symm
        · exact absurd hitem' (hclash second hsecond (heq ▸ hitem))
        · exact absurd hitem (hclash first hfirst (heq' ▸ hitem'))
        · exact ih (List.nodup_cons.mp hnodup).2 hrest hfirst hsecond
  · intro h
    induction values with
    | nil => exact List.nodup_nil
    | cons value values ih =>
        obtain ⟨hvalue, hnodup⟩ := List.nodup_cons.mp hnodup
        have hrest := ih hnodup fun first hfirst second hsecond =>
          h first (List.mem_cons_of_mem _ hfirst) second (List.mem_cons_of_mem _ hsecond)
        cases hitem : toItem value with
        | none => rwa [List.filterMap_cons_none hitem]
        | some item =>
            rw [List.filterMap_cons_some hitem]
            refine List.nodup_cons.mpr ⟨fun hmem => hvalue ?_, hrest⟩
            obtain ⟨other, hother, heq⟩ := List.mem_filterMap.mp hmem
            rwa [h value List.mem_cons_self other (List.mem_cons_of_mem _ hother) item hitem heq]

theorem namesDistinct_dataMembers (hnodup : self.fields.Nodup) (msg : DecodedMessage) :
    NamesDistinct (.obj (self.dataMembers hexEncode msg)) ↔ self.LayersApart msg := by
  have hlayers : ∀ member ∈ self.fields.filterMap (layerMember hexEncode msg),
      NamesDistinct member.2 := by
    intro member hmember
    obtain ⟨field, -, hfield⟩ := List.mem_filterMap.mp hmember
    unfold layerMember at hfield
    split at hfield
    · exact absurd hfield (by simp)
    · split at hfield
      · exact absurd hfield (by simp)
      · rw [← Option.some.inj hfield, namesDistinct_arr, List.forall_mem_map]
        exact fun _ _ => .str
  have hname : ∀ field name, (layerMember hexEncode msg field).map Prod.fst = some name ↔
      Occurs msg field ∧ underscored field = name := by
    intro field name
    rw [Option.map_eq_some_iff]
    exact layerMember_names msg field name
  have hobject : NamesDistinct (.obj (self.dataMembers hexEncode msg)) ↔
      ((self.fields.filterMap (layerMember hexEncode msg)).map Prod.fst).Nodup := by
    rw [dataMembers, namesDistinct_obj, List.forall_mem_cons, List.forall_mem_singleton,
      namesDistinct_obj]
    exact ⟨fun h => h.2.2.1, fun h => ⟨by simp, .str, h, hlayers⟩⟩
  rw [hobject, List.map_filterMap, nodup_filterMap_iff hnodup]
  refine forall₂_congr fun first _ => forall₂_congr fun second _ => ?_
  simp only [hname]
  constructor
  · intro h hfirst hsecond heq
    exact h _ ⟨hfirst, rfl⟩ ⟨hsecond, heq.symm⟩
  · rintro h name ⟨hfirst, heq⟩ ⟨hsecond, heq'⟩
    exact h hfirst hsecond (heq.trans heq'.symm)

/-- What the writer appends for a message has distinct names exactly if its fields stay
apart, and its index action has distinct names. -/
theorem linesDistinct_iff {fields : List Text} (hnodup : fields.Nodup) (indexPrefix : Text)
    (msg : DecodedMessage) (buffer : Text) :
    ∃ output, ((EkWriter.mk fields indexPrefix).writeMessage hexEncode buffer msg).1 =
        buffer ++ output ∧
      (LinesDistinct output ↔ (EkWriter.mk fields indexPrefix).LayersApart msg ∧
        LinesDistinct
          (terminated [actionText ((EkWriter.mk fields indexPrefix).indexName msg)])) := by
  obtain ⟨data, hdata, hwrite⟩ :=
    writes_actionData (W := Text) hexEncode (EkWriter.mk fields indexPrefix) msg
  refine ⟨_, congrArg Prod.fst (hwrite buffer), ?_⟩
  have hlines : ∀ action, Keylog.lines (terminated [action, data]) =
      Keylog.lines (terminated [action]) ++ Keylog.lines (terminated [data]) := by
    intro action
    rw [terminated_cons, List.append_assoc, List.singleton_append, Keylog.lines_append_newline,
      terminated_singleton, terminated_singleton]
  have hdistinct := linesDistinct_terminated (.cons hdata.parsesTo .nil)
  rw [List.forall_mem_singleton, namesDistinct_dataMembers hnodup] at hdistinct
  rw [and_comm, ← hdistinct]
  unfold LinesDistinct
  rw [hlines]
  exact List.forall_mem_append

/-! ### The index action -/

theorem action_opens : "\x7b\"index\":\x7b\"_index\":\"".toList =
    nestedObject "index".toList "_index".toList [] := by
  simp [nestedObject]

theorem actionText_eq (name : Text) :
    actionText name = nestedObject "index".toList "_index".toList (name ++ ['"', '}', '}']) := by
  unfold actionText
  rw [action_opens, List.append_assoc]
  exact (nestedObject_append _ _ [] _).symm

theorem parse_action_none {tail : Text} (htail : parseQuoted ('"' :: tail) = none) :
    Json.parse (nestedObject "index".toList "_index".toList tail) = none :=
  parse_nestedObject_none (List.all_eq_true.mp rfl) (List.all_eq_true.mp rfl) htail

theorem parse_action_some {tail index : Text}
    (htail : parseQuoted ('"' :: tail) = some (index, ['}', '}'])) :
    Json.parse (nestedObject "index".toList "_index".toList tail) =
      some (.obj [("index".toList, .obj [("_index".toList, .str index)])]) :=
  parse_nestedObject_some (List.all_eq_true.mp rfl) (List.all_eq_true.mp rfl) htail

/-- An index name without quotation marks can only be the string it stands in. -/
theorem namesDistinct_action {name : Text} (hname : '"' ∉ name) {value : Json}
    (h : Json.parse (actionText name) = some value) : NamesDistinct value := by
  rw [actionText_eq] at h
  cases hquoted : parseQuoted ('"' :: (name ++ '"' :: ['}', '}'])) with
  | none =>
      -- the name ends in the middle of an escape, or cannot be read
      rw [parse_action_none hquoted] at h
      cases h
  | some found =>
      obtain ⟨index, after⟩ := found
      have hafter := rest_of_parseQuoted hname (by decide) hquoted
      rw [hafter] at hquoted
      rw [parse_action_some hquoted, Option.some.injEq] at h
      rw [← h]
      refine .obj (List.nodup_singleton _) ?_
      rw [List.forall_mem_singleton]
      exact .obj (List.nodup_singleton _) (by simp [NamesDistinct.str])

/-- An index name without quotation marks spells no name twice, whatever else it breaks. -/
theorem linesDistinct_action {name : Text} (hname : '"' ∉ name) :
    LinesDistinct (terminated [actionText name]) := by
  intro line hline value hvalue
  by_cases hbroken : '\n' ∈ name
  · -- the line is broken: the first piece leaves a string open, the others hardly open one
    obtain ⟨first, rest, rfl, hfirst⟩ := List.eq_append_cons_of_mem hbroken
    simp only [List.mem_append, List.mem_cons, not_or] at hname
    have hpieces : terminated [actionText (first ++ '\n' :: rest)] =
        terminated [nestedObject "index".toList "_index".toList first] ++
          (rest ++ ['"', '}', '}', '\n']) := by
      rw [actionText_eq, List.append_assoc, nestedObject_append _ _ first]
      simp [terminated_singleton]
    have hfront : ∀ piece ∈ [nestedObject "index".toList "_index".toList first],
        '\n' ∉ piece := by
      simpa [nestedObject] using hfirst
    rw [hpieces, lines_terminated hfront] at hline
    rcases List.mem_append.mp hline with hhead | hpiece
    · rw [List.mem_singleton.mp hhead, parse_action_none (parseQuoted_eq_none hname.1)] at hvalue
      cases hvalue
    · apply distinct_of_spells (spells_of_parse hvalue)
      refine ((sublist_of_mem_lines hpiece).count_le '"').trans ?_
      rw [List.count_append, List.count_eq_zero_of_not_mem hname.2.2]
      decide
  · have hsole : ∀ piece ∈ [actionText name], '\n' ∉ piece := by
      rw [List.forall_mem_singleton]
      unfold actionText
      simp [hbroken]
    have hlines := lines_terminated hsole []
    rw [List.append_nil, Keylog.lines, List.append_nil] at hlines
    rw [hlines] at hline
    rw [List.mem_singleton.mp hline] at hvalue
    exact namesDistinct_action hname hvalue

variable (self) in
/-- An index action whose prefix has no quotation mark has distinct names. -/
theorem linesDistinct_indexAction (hindex : '"' ∉ self.indexPrefix) (msg : DecodedMessage) :
    LinesDistinct (terminated [actionText (self.indexName msg)]) := by
  apply linesDistinct_action
  simp only [indexName, List.mem_append, List.mem_singleton, not_or]
  refine ⟨⟨hindex, by decide⟩, fun hmem => ?_⟩
  exact absurd (isUnescaped_indexDate _ _ hmem) (by decide)

end EkWriter

/-! ## Both writers -/

/-- What the writers append for a message, under selections without repetition, has
distinct names in every object exactly if the names of the recorded fields stay apart;
for the Elasticsearch writer wherever the index prefix has no quotation mark, and with one
the names that do not stay apart are still repeated. -/
theorem names_distinct_iff (hexEncode : Bytes → Text) (fields mapFields : List Text)
    (explode : Option Text) (indexPrefix : Text) (msg : DecodedMessage) (buffer : Text)
    (hfields : fields.Nodup) :
    (∃ output, ((NdjsonWriter.new fields explode mapFields).writeTlsRecord hexEncode buffer
          msg).1 = buffer ++ output ∧
        (LinesDistinct output ↔
          (NdjsonWriter.new fields explode mapFields).RecordApart msg.fields)) ∧
      ∃ output, ((EkWriter.mk fields indexPrefix).writeMessage hexEncode buffer msg).1 =
          buffer ++ output ∧
        ('"' ∉ indexPrefix →
          (LinesDistinct output ↔ (EkWriter.mk fields indexPrefix).LayersApart msg)) ∧
        (LinesDistinct output → (EkWriter.mk fields indexPrefix).LayersApart msg) := by
  refine ⟨NdjsonWriter.linesDistinct_iff fields mapFields explode msg buffer, ?_⟩
  obtain ⟨output, hwrite, hiff⟩ := EkWriter.linesDistinct_iff hfields indexPrefix msg buffer
  refine ⟨output, hwrite, fun hindex => ?_, fun h => (hiff.mp h).1⟩
  rw [hiff, and_iff_left]
  exact (EkWriter.mk fields indexPrefix).linesDistinct_indexAction hindex msg

namespace Repeated

/-- An occurrence of a repeated field, with its name and value. -/
def occurrence (key value : Text) : Text × FieldValue :=
  ("myproto.field".toList, .tree (.mk [("myproto.field.name".toList, .str key),
    ("myproto.field.value".toList, .str value)] none none []))

/-- A message whose dissector recorded a field twice. -/
def msg : DecodedMessage where
  srcIp := .v4 0x0a000001
  dstIp := .v4 0x0a000002
  srcPort := 51234
  dstPort := 9410
  tlsAppData := [0xaa]
  fields := .mk [("myproto".toList, .tree (.mk
    [occurrence "id".toList ['1'], occurrence "id".toList ['2']] none none []))] none none []
  timestamp := 0

end Repeated

/-- Written as a map, the second occurrence repeats the key of the first. -/
theorem map_repeats_key : ¬LinesDistinct
    ((NdjsonWriter.new ["myproto".toList] none ["field".toList]).writeTlsRecord
      FieldValue.hexEncode [] Repeated.msg).1 := by
  obtain ⟨output, hwrite, hiff⟩ := NdjsonWriter.linesDistinct_iff ["myproto".toList]
    ["field".toList] none Repeated.msg []
  rw [hwrite, List.nil_append, hiff]
  intro hrecord
  have hselected : "myproto".toList ∈
      (NdjsonWriter.new ["myproto".toList] none ["field".toList]).genericGroupOrder := by decide
  obtain ⟨-, -, hgroup⟩ := hrecord _ hselected (by decide)
  have happart := hgroup _ (List.mem_singleton_self _)
  cases happart with
  | leaf hleaf => exact absurd hleaf (by decide)
  | tree _ hmaps _ =>
      exact absurd (hmaps _ List.mem_cons_self (by decide)) (by unfold MapKeysApart; decide)

/-- Written as an array, the occurrences stand side by side. -/
theorem array_keeps_occurrences : ∃ output,
    ((NdjsonWriter.new ["myproto".toList] none []).writeTlsRecord FieldValue.hexEncode []
      Repeated.msg).1 = [] ++ output ∧ LinesDistinct output := by
  obtain ⟨output, hwrite, hiff⟩ := (names_distinct_iff FieldValue.hexEncode ["myproto".toList] []
    none [] Repeated.msg [] (by decide)).1
  refine ⟨output, hwrite, hiff.mpr ?_⟩
  intro group hgroup _
  obtain rfl : group = "myproto".toList := by
    simpa [NdjsonWriter.groupOf] using (NdjsonWriter.mem_genericGroupOrder_new.mp hgroup).1
  refine ⟨by decide, by decide, ?_⟩
  have hplain : ∀ name : Text,
      name ∉ (NdjsonWriter.new ["myproto".toList] none []).mapFields := fun name => by
    show name ∉ ([] : List Text).toFinset
    simp
  have hne : underscored (shortName "myproto.field".toList "myproto.field.name".toList) ≠
      underscored (shortName "myproto.field".toList "myproto.field.value".toList) := by decide
  -- the two fields of an occurrence keep different names
  have hleaves : ∀ key value : Text, KeysApart
      (NdjsonWriter.new ["myproto".toList] none []).mapFields "myproto.field".toList
        (Repeated.occurrence key value).2 := by
    intro key value
    refine .tree ?_ (fun entry _ hmap => absurd hmap (hplain _)) ?_
    · intro first hfirst second hsecond
      rcases List.mem_pair.mp hfirst with rfl | rfl <;>
        rcases List.mem_pair.mp hsecond with rfl | rfl
      · exact fun _ => rfl
      · exact fun heq => absurd heq hne
      · exact fun heq => absurd heq.symm hne
      · exact fun _ => rfl
    · intro entry hentry _
      rcases List.mem_pair.mp hentry with rfl | rfl
      · exact .leaf rfl
      · exact .leaf rfl
  rw [NdjsonWriter.GroupApart, if_neg fun h => hplain _ h.1]
  intro v hv
  obtain rfl := List.mem_singleton.mp hv
  refine .tree ?_ (fun entry _ hmap => absurd hmap (hplain _)) ?_
  · intro first hfirst second hsecond _
    rcases List.mem_pair.mp hfirst with rfl | rfl <;>
      rcases List.mem_pair.mp hsecond with rfl | rfl <;> rfl
  · intro entry hentry _
    rcases List.mem_pair.mp hentry with rfl | rfl
    · exact hleaves _ _
    · exact hleaves _ _

end Tlscap
