import Tlscap.Output.Lines
import Tlscap.Output.Selection

/-!
# Exploded messages

A line is its envelope and the texts of the selected groups, one behind the other.  Where the
exploded group is selected, each line of a message is the plain line with one occurrence in
place of all; where it is not, each is the plain line again, so a message with several
occurrences is written several times (`onlyReshapes_iff`).

## Strategy

Texts are compared and not values, so that "the plain line again" means the same characters.
What a writer appends does not depend on its buffer (`Appends`), so a line is known by what is
written into an empty one.

* **The exploded group is selected.**  The line splits at it (`lineText_split`): what is in
  front and behind is the same for every occurrence, and the same in the plain line
  (`groupText_other`).  The group itself shows one occurrence, or all
  (`groupText_exploded`, `groupText_plain`).
* **It is not selected, or is one of the envelope's.**  No part of the line depends on the
  occurrence (`lineText_unselected`).  There is a line for each, so a group that was recorded
  more than once repeats the plain line, and a repeated line is not a single one
  (`terminated_replicate_eq`).
* **It was not recorded.**  The message is written as it is without the option.
-/

namespace Tlscap

open Json

/-! ## Appended text -/

/-- What is written into an empty buffer. -/
def appended (write : CountingWriter Text → CountingWriter Text) : Text :=
  (write ⟨[], 0⟩).inner

/-- Writing appends the same text to every buffer, and no line break. -/
structure Appends (write : CountingWriter Text → CountingWriter Text) : Prop where
  newline_not_mem : '\n' ∉ appended write
  eq : ∀ w, write w = writeAll w (appended write)

theorem appends_of_writes {α : Type} {Spelling : Text → α → Prop} {value : α}
    {write : CountingWriter Text → CountingWriter Text} (h : Writes Spelling write value) :
    Appends write := by
  obtain ⟨text, -, hline, hwrite⟩ := h
  have happended : appended write = text := by
    rw [appended, hwrite]
    rfl
  exact ⟨happended ▸ hline, fun w => by rw [happended, hwrite]⟩

theorem appended_of_eq {write : CountingWriter Text → CountingWriter Text} {text : Text}
    (h : ∀ w, write w = writeAll w text) : appended write = text := by
  rw [appended, h]
  rfl

theorem Appends.comp {first second : CountingWriter Text → CountingWriter Text}
    (hfirst : Appends first) (hsecond : Appends second) : Appends fun w => second (first w) := by
  have hwrite : ∀ w, second (first w) = writeAll w (appended first ++ appended second) := by
    intro w
    rw [hsecond.eq, hfirst.eq, LawfulWrite.writeAll_append]
  have happended := appended_of_eq hwrite
  refine ⟨?_, fun w => by rw [happended, hwrite]⟩
  rw [happended, List.mem_append, not_or]
  exact ⟨hfirst.newline_not_mem, hsecond.newline_not_mem⟩

/-- Steps that append make a loop that does. -/
theorem foldl_eq_writeAll {α : Type} {step : CountingWriter Text → α → CountingWriter Text}
    {values : List α} (hstep : ∀ value ∈ values, Appends (step · value))
    (w : CountingWriter Text) :
    values.foldl step w = writeAll w (values.flatMap fun value => appended (step · value)) := by
  induction values generalizing w with
  | nil => exact (LawfulWrite.writeAll_nil w).symm
  | cons value rest ih =>
      rw [List.foldl_cons, ih fun other hother => hstep other (List.mem_cons_of_mem value hother),
        List.flatMap_cons, ← LawfulWrite.writeAll_append]
      exact congrArg (writeAll · _) ((hstep value List.mem_cons_self).eq w)

namespace NdjsonWriter

variable (hexEncode : Bytes → Text) (self : NdjsonWriter) (msg : DecodedMessage)

/-- What stands in a line before the groups a dissector recorded. -/
def writeEnvelope (w : CountingWriter Text) : CountingWriter Text :=
  let w := writePreamble w "tls_record".toList msg.timestamp
  let w := self.writeIp w msg.srcIp.toText msg.dstIp.toText
  let w :=
    if "tcp".toList ∈ self.groups then
      writeAll w (",\"tcp\":\x7b\"srcport\":".toList ++ decimal msg.srcPort.toNat ++
        ",\"dstport\":".toList ++ decimal msg.dstPort.toNat ++ ['}'])
    else w
  if "tls".toList ∈ self.groups then
    writeAll (writeJsonString (writeAll w ",\"tls\":\x7b\"app_data\":".toList)
      (hexEncode msg.tlsAppData)) ['}']
  else w

theorem appends_preamble (timestamp : Duration) :
    Appends (writePreamble · "tls_record".toList timestamp) := by
  have hwrite : ∀ w : CountingWriter Text, writePreamble w "tls_record".toList timestamp =
      writeAll w ("\x7b\"kind\":\"".toList ++ "tls_record".toList ++
        "\",\"tstamp\":".toList ++ decimal (epochMicros timestamp)) := by
    intro w
    rw [writePreamble]
  have happended := appended_of_eq hwrite
  refine ⟨?_, fun w => by rw [happended, hwrite]⟩
  rw [happended, List.mem_append, not_or]
  exact ⟨by decide, newline_not_mem_decimal _⟩

theorem appends_envelope : Appends (self.writeEnvelope hexEncode msg) := by
  have hip := writes_ip (W := CountingWriter Text) self msg.srcIp.toText msg.dstIp.toText
  have hports := writes_ports (W := CountingWriter Text) self msg
  have htls := writes_tls (W := CountingWriter Text) hexEncode self msg
  exact (appends_preamble msg.timestamp).comp
    (appends_of_writes (hip.andThen (hports.andThen htls)))

/-! ## The text of a line -/

/-- What a selected group adds to a line. -/
def groupText (exploded : Option (Text × FieldValue)) (group : Text) : Text :=
  appended (self.writeGroup hexEncode (groupedEntries msg.fields) exploded · group)

theorem appends_group (exploded : Option (Text × FieldValue)) (group : Text) :
    Appends (self.writeGroup hexEncode (groupedEntries msg.fields) exploded · group) :=
  appends_of_writes (writes_selected hexEncode self _ exploded group)

/-- A line without its end. -/
def lineText (exploded : Option (Text × FieldValue)) : Text :=
  appended (self.writeEnvelope hexEncode msg) ++
    (self.genericGroupOrder.flatMap (self.groupText hexEncode msg exploded) ++ ['}'])

theorem newline_not_mem_lineText (exploded : Option (Text × FieldValue)) :
    '\n' ∉ self.lineText hexEncode msg exploded := by
  have henvelope := (self.appends_envelope hexEncode msg).newline_not_mem
  have hgroups :
      '\n' ∉ self.genericGroupOrder.flatMap (self.groupText hexEncode msg exploded) := by
    intro hmem
    obtain ⟨group, -, hgroup⟩ := List.mem_flatMap.mp hmem
    exact (self.appends_group hexEncode msg exploded group).newline_not_mem hgroup
  simp [lineText, henvelope, hgroups]

theorem writeOneTlsRecord_eq (buffer : Text) (exploded : Option (Text × FieldValue)) :
    (self.writeOneTlsRecord hexEncode buffer msg (groupedEntries msg.fields) exploded).1 =
      buffer ++ terminated [self.lineText hexEncode msg exploded] := by
  have hline : ∀ w : CountingWriter Text,
      writeAll (self.genericGroupOrder.foldl
        (self.writeGroup hexEncode (groupedEntries msg.fields) exploded)
        (self.writeEnvelope hexEncode msg w)) ['}', '\n'] =
      writeAll w (terminated [self.lineText hexEncode msg exploded]) := by
    intro w
    rw [foldl_eq_writeAll fun group _ => self.appends_group hexEncode msg exploded group,
      (self.appends_envelope hexEncode msg).eq w, LawfulWrite.writeAll_append,
      LawfulWrite.writeAll_append, terminated_singleton]
    apply congrArg (writeAll w)
    simp only [lineText, List.append_assoc, List.cons_append, List.nil_append]
    rfl
  exact congrArg CountingWriter.inner (hline ⟨buffer, 0⟩)

/-- The text written for a message. -/
def recordText : Text := (self.writeTlsRecord hexEncode ([] : Text) msg).1

theorem recordText_of_none
    (hexploded : self.explodedValues (groupedEntries msg.fields) = none) :
    self.recordText hexEncode msg = terminated [self.lineText hexEncode msg none] := by
  unfold recordText writeTlsRecord
  dsimp only
  rw [hexploded]
  exact self.writeOneTlsRecord_eq hexEncode msg [] none

/-- One line for each exploded occurrence, in their order. -/
theorem recordText_of_some {name : Text} {values : List FieldValue}
    (hexploded : self.explodedValues (groupedEntries msg.fields) = some (name, values)) :
    self.recordText hexEncode msg =
      terminated (values.map fun v => self.lineText hexEncode msg (some (name, v))) := by
  have hloop : ∀ (rest : List FieldValue) (buffer : Text) (total : ℕ),
      (rest.foldl (fun state v =>
        let written := self.writeOneTlsRecord hexEncode state.1 msg
          (groupedEntries msg.fields) (some (name, v))
        (written.1, state.2 + written.2)) (buffer, total)).1 =
      buffer ++ terminated
        (rest.map fun v => self.lineText hexEncode msg (some (name, v))) := by
    intro rest
    induction rest with
    | nil => exact fun buffer _ => (List.append_nil buffer).symm
    | cons v rest ih =>
        intro buffer total
        rw [List.foldl_cons, ih, writeOneTlsRecord_eq, List.map_cons, terminated_singleton,
          terminated_cons, List.append_assoc]
  unfold recordText writeTlsRecord
  dsimp only
  rw [hexploded]
  exact hloop values [] 0

/-! ## One occurrence in place of all -/

/-- A group behind its comma and its name. -/
def memberText (group value : Text) : Text :=
  ',' :: (appended (writeJsonString · group) ++ ':' :: value)

/-- The value of a group, with all occurrences. -/
def pluralText (values : List FieldValue) (group : Text) : Text :=
  appended (writeNamedValue hexEncode self.mapFields · group values group)

/-- The value of a group, with a single occurrence. -/
def singularText (v : FieldValue) (group : Text) : Text :=
  appended (writeFieldValue hexEncode self.mapFields · v group)

theorem appended_member {write : CountingWriter Text → CountingWriter Text}
    (hwrite : Appends write) (group : Text) :
    appended (fun w => write (writeAll (writeJsonString (writeAll w [',']) group) [':'])) =
      memberText group (appended write) := by
  have hname := appends_of_writes (writes_jsonString (W := CountingWriter Text) group)
  apply appended_of_eq
  intro w
  rw [hwrite.eq, hname.eq (writeAll w [',']), LawfulWrite.writeAll_append,
    LawfulWrite.writeAll_append, LawfulWrite.writeAll_append]
  exact congrArg (writeAll w) (by simp [memberText])

/-- The exploded group shows a single occurrence. -/
theorem groupText_exploded (group : Text) (v : FieldValue) :
    self.groupText hexEncode msg (some (group, v)) group =
      memberText group (self.singularText hexEncode v group) := by
  have hvalue : Appends (writeFieldValue hexEncode self.mapFields · v group) :=
    appends_of_writes (writes_fieldValue v group)
  rw [singularText, ← appended_member hvalue, groupText]
  apply congrArg appended
  funext w
  rw [writeGroup]
  exact if_pos rfl

/-- Other groups show what they show in the plain line. -/
theorem groupText_other {name group : Text} (hne : group ≠ name) (v : FieldValue) :
    self.groupText hexEncode msg (some (name, v)) group =
      self.groupText hexEncode msg none group := by
  apply congrArg appended
  funext w
  rw [writeGroup]
  exact if_neg hne

/-- In the plain line a group that was recorded shows all its occurrences. -/
theorem groupText_plain {group : Text} (hgroup : valuesNamed msg.fields.entries group ≠ []) :
    self.groupText hexEncode msg none group =
      memberText group
        (self.pluralText hexEncode (valuesNamed msg.fields.entries group) group) := by
  have hvalues : Appends (writeNamedValue hexEncode self.mapFields · group
      (valuesNamed msg.fields.entries group) group) :=
    appends_of_writes (writes_named group fun v _ => writes_fieldValue v group)
  rw [pluralText, ← appended_member hvalues, groupText]
  apply congrArg appended
  funext w
  rw [writeGroup, find?_groupedEntries, if_pos (valuesNamed_ne_nil.mp hgroup)]

/-- Where the exploded group is selected, nothing but its value depends on it. -/
theorem lineText_split {name : Text} (hnodup : self.genericGroupOrder.Nodup)
    (hname : name ∈ self.genericGroupOrder) :
    ∃ front back, self.lineText hexEncode msg none =
        front ++ self.groupText hexEncode msg none name ++ back ∧
      ∀ v, self.lineText hexEncode msg (some (name, v)) =
        front ++ memberText name (self.singularText hexEncode v name) ++ back := by
  obtain ⟨before, after, horder⟩ := List.append_of_mem hname
  rw [horder, List.nodup_middle, List.nodup_cons, List.mem_append, not_or] at hnodup
  obtain ⟨⟨hbefore, hafter⟩, -⟩ := hnodup
  have hother : ∀ (v : FieldValue) {groups : List Text}, name ∉ groups →
      groups.flatMap (self.groupText hexEncode msg (some (name, v))) =
        groups.flatMap (self.groupText hexEncode msg none) := by
    intro v groups hgroups
    apply List.flatMap_congr
    intro group hgroup
    have hne : group ≠ name := by
      rintro rfl
      exact hgroups hgroup
    exact self.groupText_other hexEncode msg hne v
  refine ⟨appended (self.writeEnvelope hexEncode msg) ++
      before.flatMap (self.groupText hexEncode msg none),
    after.flatMap (self.groupText hexEncode msg none) ++ ['}'], ?_, fun v => ?_⟩
  · simp only [lineText, horder, List.flatMap_append, List.flatMap_cons, List.append_assoc]
  · rw [← self.groupText_exploded hexEncode msg name v]
    simp only [lineText, horder, List.flatMap_append, List.flatMap_cons, List.append_assoc,
      hother v hbefore, hother v hafter]

/-- Where the exploded group is not selected, every line is the plain one. -/
theorem lineText_unselected {name : Text} (hname : name ∉ self.genericGroupOrder)
    (v : FieldValue) :
    self.lineText hexEncode msg (some (name, v)) = self.lineText hexEncode msg none := by
  have hgroups : self.genericGroupOrder.flatMap (self.groupText hexEncode msg (some (name, v))) =
      self.genericGroupOrder.flatMap (self.groupText hexEncode msg none) := by
    apply List.flatMap_congr
    intro group hgroup
    have hne : group ≠ name := by
      rintro rfl
      exact hname hgroup
    exact self.groupText_other hexEncode msg hne v
  rw [lineText, lineText, hgroups]

/-! ## Reshaping -/

/-- Exploding a group only reshapes a message: each line is the plain line with one
occurrence in place of all, if the plain line shows any, and the plain line is left
as it is otherwise. -/
structure OnlyReshapes (exploding plain : NdjsonWriter) (name : Text) : Prop where
  shown : name ∈ plain.genericGroupOrder → valuesNamed msg.fields.entries name ≠ [] →
    ∃ front back,
      '\n' ∉ front ++ memberText name
        (plain.pluralText hexEncode (valuesNamed msg.fields.entries name) name) ++ back ∧
      plain.recordText hexEncode msg = terminated [front ++ memberText name
        (plain.pluralText hexEncode (valuesNamed msg.fields.entries name) name) ++ back] ∧
      exploding.recordText hexEncode msg =
        terminated ((valuesNamed msg.fields.entries name).map fun v =>
          front ++ memberText name (plain.singularText hexEncode v name) ++ back) ∧
      ∀ v ∈ valuesNamed msg.fields.entries name,
        '\n' ∉ front ++ memberText name (plain.singularText hexEncode v name) ++ back
  notShown : ¬(name ∈ plain.genericGroupOrder ∧ valuesNamed msg.fields.entries name ≠ []) →
    ∃ line, '\n' ∉ line ∧ plain.recordText hexEncode msg = terminated [line] ∧
      exploding.recordText hexEncode msg = terminated [line]

theorem length_terminated_replicate (count : ℕ) (line : Text) :
    (terminated (List.replicate count line)).length = count * (line.length + 1) := by
  simp [terminated]

/-- Only one line, repeated, ends up as itself. -/
theorem terminated_replicate_eq {count : ℕ} {line : Text}
    (h : terminated (List.replicate count line) = terminated [line]) : count = 1 := by
  have hlength := congrArg List.length h
  rw [length_terminated_replicate, ← List.replicate_one, length_terminated_replicate] at hlength
  exact Nat.eq_of_mul_eq_mul_right (Nat.succ_pos line.length) hlength

section Selected

variable (fields mapFields : List Text) (name : Text)

theorem recordText_plain : (new fields none mapFields).recordText hexEncode msg =
    terminated [(new fields none mapFields).lineText hexEncode msg none] := by
  apply recordText_of_none
  rw [explodedValues_eq]
  rfl

/-- A recorded group is exploded, selected or not. -/
theorem recordText_exploding (hrecorded : valuesNamed msg.fields.entries name ≠ []) :
    (new fields (some name) mapFields).recordText hexEncode msg =
      terminated ((valuesNamed msg.fields.entries name).map fun v =>
        (new fields none mapFields).lineText hexEncode msg (some (name, v))) := by
  have hexploded : (new fields (some name) mapFields).explodedValues
      (groupedEntries msg.fields) = some (name, valuesNamed msg.fields.entries name) := by
    rw [explodedValues_eq]
    exact if_pos (valuesNamed_ne_nil.mp hrecorded)
  exact recordText_of_some hexEncode _ msg hexploded

theorem recordText_unrecorded (hrecorded : valuesNamed msg.fields.entries name = []) :
    (new fields (some name) mapFields).recordText hexEncode msg =
      terminated [(new fields none mapFields).lineText hexEncode msg none] := by
  have hnone : (new fields (some name) mapFields).explodedValues
      (groupedEntries msg.fields) = none := by
    rw [explodedValues_eq]
    exact if_neg fun hmem => valuesNamed_ne_nil.mpr hmem hrecorded
  exact recordText_of_none hexEncode _ msg hnone

theorem nodup_genericGroupOrder : (new fields none mapFields).genericGroupOrder.Nodup :=
  (selects_new fields none mapFields).nodup

/-- Without the group among the rendered ones, each occurrence repeats the plain line. -/
theorem recordText_repeats
    (hselected : name ∉ (new fields none mapFields).genericGroupOrder)
    (hrecorded : valuesNamed msg.fields.entries name ≠ []) :
    (new fields (some name) mapFields).recordText hexEncode msg =
      terminated (List.replicate (valuesNamed msg.fields.entries name).length
        ((new fields none mapFields).lineText hexEncode msg none)) := by
  rw [recordText_exploding hexEncode msg fields mapFields name hrecorded]
  apply congrArg terminated
  rw [← List.map_const']
  exact List.map_congr_left fun v _ => lineText_unselected hexEncode _ msg hselected v

/-- A group that is not rendered but recorded more than once. -/
theorem not_onlyReshapes (hselected : name ∉ (new fields none mapFields).genericGroupOrder)
    (hmany : 1 < (valuesNamed msg.fields.entries name).length) :
    ¬OnlyReshapes hexEncode msg (new fields (some name) mapFields) (new fields none mapFields)
      name := by
  intro h
  have hrecorded := List.ne_nil_of_length_pos (Nat.zero_lt_of_lt hmany)
  obtain ⟨line, -, hline, hsame⟩ := h.notShown fun hshown => hselected hshown.1
  -- several occurrences repeat the line that has to stand alone
  have hrepeats :
      terminated (List.replicate (valuesNamed msg.fields.entries name).length
        ((new fields none mapFields).lineText hexEncode msg none)) =
      terminated [(new fields none mapFields).lineText hexEncode msg none] :=
    calc terminated (List.replicate (valuesNamed msg.fields.entries name).length
            ((new fields none mapFields).lineText hexEncode msg none))
        = (new fields (some name) mapFields).recordText hexEncode msg :=
          (recordText_repeats hexEncode msg fields mapFields name hselected hrecorded).symm
      _ = terminated [line] := hsame
      _ = (new fields none mapFields).recordText hexEncode msg := hline.symm
      _ = terminated [(new fields none mapFields).lineText hexEncode msg none] :=
          recordText_plain hexEncode msg fields mapFields
  exact absurd (terminated_replicate_eq hrepeats) (Nat.ne_of_gt hmany)

end Selected

/-- Exploding a group only reshapes a message where the group is among the rendered
ones, or was recorded at most once. -/
theorem onlyReshapes_iff (fields mapFields : List Text) (name : Text) :
    OnlyReshapes hexEncode msg (new fields (some name) mapFields) (new fields none mapFields)
        name ↔
      (name ∈ fields.map groupOf ∧ ¬IsEnvelope name) ∨
        (valuesNamed msg.fields.entries name).length ≤ 1 := by
  have horder : name ∈ (new fields none mapFields).genericGroupOrder ↔
      name ∈ fields.map groupOf ∧ ¬IsEnvelope name := mem_genericGroupOrder_new
  rw [← horder]
  have hplain := recordText_plain hexEncode msg fields mapFields
  have hlines := newline_not_mem_lineText hexEncode (new fields none mapFields) msg
  constructor
  · intro h
    by_contra hcondition
    rw [not_or, not_le] at hcondition
    exact not_onlyReshapes hexEncode msg fields mapFields name hcondition.1 hcondition.2 h
  · intro hcondition
    constructor
    · -- the group is rendered
      intro hselected hrecorded
      obtain ⟨front, back, hfront, hsingle⟩ := lineText_split hexEncode _ msg
        (nodup_genericGroupOrder fields mapFields) hselected
      rw [groupText_plain hexEncode _ msg hrecorded] at hfront
      refine ⟨front, back, ?_, ?_, ?_, ?_⟩
      · rw [← hfront]
        exact hlines none
      · rw [hplain, hfront]
      · rw [recordText_exploding hexEncode msg fields mapFields name hrecorded]
        exact congrArg terminated (List.map_congr_left fun v _ => hsingle v)
      · intro v _
        rw [← hsingle v]
        exact hlines (some (name, v))
    · -- the group is not rendered
      intro hnotShown
      refine ⟨_, hlines none, hplain, ?_⟩
      by_cases hrecorded : valuesNamed msg.fields.entries name = []
      · exact recordText_unrecorded hexEncode msg fields mapFields name hrecorded
      · have hselected : name ∉ (new fields none mapFields).genericGroupOrder :=
          fun hselected => hnotShown ⟨hselected, hrecorded⟩
        have hfew := hcondition.resolve_left hselected
        have honce : (valuesNamed msg.fields.entries name).length = 1 :=
          Nat.le_antisymm hfew (List.length_pos_of_ne_nil hrecorded)
        rw [recordText_repeats hexEncode msg fields mapFields name hselected hrecorded, honce,
          List.replicate_one]

/-! ## A group that is not selected -/

namespace TwoMessages

/-- A dissector found two messages of a protocol in one TLS record. -/
def twice : DecodedMessage where
  srcIp := .v4 0x0a000001
  dstIp := .v4 0x0a000002
  srcPort := 51234
  dstPort := 9410
  tlsAppData := [0xaa]
  fields := .mk [("myproto".toList, .uInt 1), ("myproto".toList, .uInt 2)] none none []
  timestamp := 0

/-- The writer that makes a line of each `myproto`. -/
def exploding : NdjsonWriter := new ["ip.src".toList] (some "myproto".toList) []

/-- The same writer without that option. -/
def plain : NdjsonWriter := new ["ip.src".toList] none []

/-- The record is written twice. -/
theorem record_duplicated :
    exploding.recordText FieldValue.hexEncode twice =
      terminated [plain.lineText FieldValue.hexEncode twice none,
        plain.lineText FieldValue.hexEncode twice none] ∧
    plain.recordText FieldValue.hexEncode twice =
      terminated [plain.lineText FieldValue.hexEncode twice none] ∧
    ¬OnlyReshapes FieldValue.hexEncode twice exploding plain "myproto".toList := by
  have hselected : "myproto".toList ∉ plain.genericGroupOrder := by decide
  have hrecorded : valuesNamed twice.fields.entries "myproto".toList = [.uInt 1, .uInt 2] := rfl
  refine ⟨?_, recordText_plain _ twice ["ip.src".toList] [], ?_⟩
  · apply recordText_repeats _ twice ["ip.src".toList] [] _ hselected
    rw [hrecorded]
    exact List.cons_ne_nil _ _
  · apply not_onlyReshapes _ twice ["ip.src".toList] [] _ hselected
    rw [hrecorded]
    exact Nat.one_lt_two

end TwoMessages

end NdjsonWriter

end Tlscap
