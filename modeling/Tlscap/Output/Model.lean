import Tlscap.Library.Json.Writing
import Tlscap.Output.Format
import Tlscap.Output.Groups
import Mathlib.Data.Finset.Basic

/-!
# The output lines

What is written for a message and for a packet event, in both formats.  The writers
put every punctuation mark by hand, into the caller's buffer: a buffer of text takes
whatever is written to it, and `CountingWriter` counts the bytes on their way.
`hex::encode` is of another crate, and a parameter.

* **Elasticsearch** (`EkWriter`): two lines for each message, the index action and an
  object with the selected fields, the values of each found at any depth of its group.
* **NDJSON** (`NdjsonWriter`): one line for each message or packet event, with the selected
  groups under the names and subtrees the dissector gave them.  A group may be rendered as
  a map, and one group may be exploded: one line for each of its occurrences.

Fields are selected by their full names, groups by the first component of these names.
-/

namespace Tlscap

/-! ## Sinks -/

instance : Write Text where
  writeAll buffer text := buffer ++ text

/-- Passes every write on and counts its bytes. -/
structure CountingWriter (W : Type) where
  inner : W
  count : ℕ

/-- How many bytes a text takes in UTF-8. -/
def utf8Len (text : Text) : ℕ := (text.map Char.utf8Size).sum

instance {W : Type} [Write W] : Write (CountingWriter W) where
  writeAll w text := ⟨writeAll w.inner text, w.count + utf8Len text⟩

section Values

variable {W : Type} [Write W]

/-! ## Strings -/

/-- `{:04x}` -/
def hex4 (n : ℕ) : Text := (Nat.toDigits 16 n).leftpad 4 '0'

/-- Writes one character of a string. -/
def writeJsonChar (w : W) (c : Char) : W :=
  if c = '"' then writeAll w ['\\', '"']
  else if c = '\\' then writeAll w ['\\', '\\']
  else if c = '\n' then writeAll w ['\\', 'n']
  else if c = '\r' then writeAll w ['\\', 'r']
  else if c = '\t' then writeAll w ['\\', 't']
  else if c.toNat < 0x20 then writeAll w ('\\' :: 'u' :: hex4 c.toNat)
  else writeAll w [c]

/-- Writes a string with its quotation marks. -/
def writeJsonString (w : W) (s : Text) : W :=
  writeAll (s.foldl writeJsonChar (writeAll w ['"'])) ['"']

/-! ## Names -/

/-- `strip_prefix` -/
def stripPrefix (front text : Text) : Option Text :=
  if front <+: text then some (text.drop front.length) else none

/-- A name without that of the subtree it stands in. -/
def shortName (enclosing name : Text) : Text := (stripPrefix (enclosing ++ ['.']) name).getD name

/-- `replace('.', "_")` -/
def underscored (name : Text) : Text := name.map fun c => if c = '.' then '_' else c

/-! ## Field values -/

/-- `matches!(value, FieldValue::Tree(_))` -/
def FieldValue.isTree : FieldValue → Bool
  | .tree _ => true
  | _ => false

/-- The only value of a group, if it is a leaf. -/
def soleLeaf : List FieldValue → Option FieldValue
  | [single] => if single.isTree then none else some single
  | _ => none

theorem soleLeaf_eq_some {values : List FieldValue} {single : FieldValue} :
    soleLeaf values = some single ↔ values = [single] ∧ single.isTree = false := by
  unfold soleLeaf
  split
  · split
    · rename_i leaf htree
      constructor
      · exact fun h => absurd h (by simp)
      · rintro ⟨hsingle, hleaf⟩
        obtain rfl : leaf = single := List.singleton_inj.mp hsingle
        exact absurd (htree.symm.trans hleaf) (by simp)
    · rename_i leaf htree
      constructor
      · intro h
        obtain rfl : leaf = single := Option.some.inj h
        exact ⟨rfl, by simpa using htree⟩
      · rintro ⟨hsingle, -⟩
        exact congrArg some (List.singleton_inj.mp hsingle)
  · rename_i hother
    exact ⟨fun h => absurd h (by simp), fun h => absurd h.1 (hother single)⟩

/-- What the entries of a subtree say about its key and its value in a map. -/
def mapEntry (enclosing : Text) (fields : FrameFields) : Option Text × Option Text :=
  fields.entries.foldl (fun found entry =>
    match entry.2 with
    | .str s =>
        if shortName enclosing entry.1 = "name".toList then (some s, found.2)
        else if shortName enclosing entry.1 = "value".toList then (found.1, some s)
        else found
    | _ => found) (none, none)

/-- The entry of a map that one occurrence gives. -/
def mapMember (enclosing : Text) : FieldValue → Option (Text × Text)
  | .tree child =>
      match mapEntry enclosing child with
      | (some key, some value) => some (key, value)
      | _ => none
  | _ => none

/-- Writes the occurrences of a group as a map. -/
def writeMap (w : W) (values : List FieldValue) (enclosing : Text) : W :=
  let step (state : W × Bool) (v : FieldValue) : W × Bool :=
    match mapMember enclosing v with
    | none => state
    | some (key, value) =>
        let w := if state.2 then state.1 else writeAll state.1 [',']
        (writeJsonString (writeAll (writeJsonString w key) [':']) value, false)
  writeAll (values.foldl step (writeAll w ['{'], true)).1 ['}']

variable (hexEncode : Bytes → Text) (mapFields : Finset Text)

mutual

/-- Writes one value. -/
def writeFieldValue (w : W) (v : FieldValue) (enclosing : Text) : W :=
  match v with
  | .uInt n => writeAll w (decimal n.toNat)
  | .str s => writeJsonString w s
  | .bytes b => writeJsonString w (hexEncode b)
  | .tree child => writeFrameFieldsObject w child enclosing
termination_by (sizeOf v, 0)

/-- Writes the values of a group: one leaf bare, anything else as an array. -/
def writeValueOrArray (w : W) (values : List FieldValue) (enclosing : Text) : W :=
  match h : soleLeaf values with
  | some single => writeFieldValue w single enclosing
  | none =>
      writeAll (values.attach.zipIdx.foldl
        (fun w v => writeFieldValue (if 0 < v.2 then writeAll w [','] else w) v.1.1 enclosing)
        (writeAll w ['['])) [']']
termination_by (sizeOf values, 1)
decreasing_by
  · rw [(soleLeaf_eq_some.mp h).1]
    exact Prod.Lex.left _ _ (List.sizeOf_lt_of_mem List.mem_cons_self)
  · exact Prod.Lex.left _ _ (List.sizeOf_lt_of_mem v.1.2)

/-- Writes a group as a map if its name is selected for that. -/
def writeNamedValue (w : W) (short : Text) (values : List FieldValue) (enclosing : Text) : W :=
  if short ∈ mapFields then writeMap w values enclosing
  else writeValueOrArray w values enclosing
termination_by (sizeOf values, 2)

/-- Writes one level as an object. -/
def writeFrameFieldsObject (w : W) (fields : FrameFields) (enclosing : Text) : W :=
  let step (state : W × Bool) (group : { g // g ∈ groupedEntries fields }) : W × Bool :=
    let w := if state.2 then state.1 else writeAll state.1 [',']
    let short := shortName enclosing group.1.1
    (writeNamedValue (writeAll (writeJsonString w (underscored short)) [':']) short group.1.2
      group.1.1, false)
  writeAll ((groupedEntries fields).attach.foldl step (writeAll w ['{'], true)).1 ['}']
termination_by (sizeOf fields, 3)
decreasing_by exact Prod.Lex.left _ _ (sizeOf_of_mem_groupedEntries group.2)

end

end Values

/-! ## The Elasticsearch format -/

/-- The writer of two lines for each message: where to index it, and its fields. -/
structure EkWriter where
  fields : List Text
  indexPrefix : Text

namespace EkWriter

variable (hexEncode : Bytes → Text) (self : EkWriter) {W : Type} [Write W]

/-- The values of a selected field. -/
def valuesFor (field : Text) (msg : DecodedMessage) : Option (List Text) :=
  if field = "ip.src".toList then some [msg.srcIp.toText]
  else if field = "ip.dst".toList then some [msg.dstIp.toText]
  else if field = "tcp.srcport".toList then some [decimal msg.srcPort.toNat]
  else if field = "tcp.dstport".toList then some [decimal msg.dstPort.toNat]
  else if field = "tls.app_data".toList then some [hexEncode msg.tlsAppData]
  else some ((msg.fields.valuesFor field).map FieldValue.toOutputString)

/-- Writes one selected field, if it has a value. -/
def writeField (msg : DecodedMessage) (state : W × Bool) (field : Text) : W × Bool :=
  match valuesFor hexEncode field msg with
  | none => state
  | some values =>
      if values.isEmpty then state
      else
        let w := if state.2 then state.1 else writeAll state.1 [',']
        let w := writeAll (writeJsonString w (underscored field)) [':', '[']
        let w := values.zipIdx.foldl
          (fun w v => writeJsonString (if 0 < v.2 then writeAll w [','] else w) v.1) w
        (writeAll w [']'], false)

/-- Writes the two lines of a message; returns the number of bytes written. -/
def writeMessage (w : W) (msg : DecodedMessage) : W × ℕ :=
  let w : CountingWriter W := ⟨w, 0⟩
  let w := writeAll w ("\x7b\"index\":\x7b\"_index\":\"".toList ++ self.indexPrefix ++ ['-'] ++
    indexDate msg.timestamp ++ "\"\x7d\x7d\n".toList)
  let w := writeAll w ("\x7b\"timestamp\":\"".toList ++ decimal (epochMillis msg.timestamp) ++
    "\",\"layers\":\x7b".toList)
  let w := (self.fields.foldl (writeField hexEncode msg) (w, true)).1
  let w := writeAll w "\x7d\x7d\n".toList
  (w.inner, w.count)

end EkWriter

/-! ## The NDJSON format -/

/-- The writer of one line for each message or packet event. -/
structure NdjsonWriter where
  groups : Finset Text
  genericGroupOrder : List Text
  explode : Option Text
  mapFields : Finset Text

namespace NdjsonWriter

/-- The first dotted component of a field name. -/
def groupOf (field : Text) : Text := field.takeWhile fun c => c != '.'

/-- One more selected field. -/
def selectField (selected : Finset Text × List Text) (field : Text) : Finset Text × List Text :=
  let group := groupOf field
  if group ∈ selected.1 then selected
  else
    (insert group selected.1,
      if group = "ip".toList ∨ group = "tcp".toList ∨ group = "tls".toList then selected.2
      else selected.2 ++ [group])

/-- The writer for selected fields, an exploded group and groups rendered as maps. -/
def new (fields : List Text) (explode : Option Text) (mapFields : List Text) : NdjsonWriter :=
  let selected := fields.foldl selectField (∅, [])
  { groups := selected.1
    genericGroupOrder := selected.2
    explode
    mapFields := mapFields.toFinset }

variable (hexEncode : Bytes → Text) (self : NdjsonWriter) {W : Type} [Write W]

/-- Writes the beginning of a line. -/
def writePreamble (w : W) (kind : Text) (timestamp : Duration) : W :=
  writeAll w ("\x7b\"kind\":\"".toList ++ kind ++ "\",\"tstamp\":".toList ++
    decimal (epochMicros timestamp))

/-- Writes the addresses, if they are selected. -/
def writeIp (w : W) (src dst : Text) : W :=
  if "ip".toList ∈ self.groups then
    let w := writeJsonString (writeAll w ",\"ip\":\x7b\"src\":".toList) src
    let w := writeJsonString (writeAll w ",\"dst\":".toList) dst
    writeAll w ['}']
  else w

/-- Writes one selected group of recorded fields; an exploded one shows a single
occurrence. -/
def writeGroup (grouped : List (Text × List FieldValue)) (exploded : Option (Text × FieldValue))
    (w : W) (group : Text) : W :=
  let plain :=
    match grouped.find? fun entry => entry.1 = group with
    | none => w
    | some (_, values) =>
        writeNamedValue hexEncode self.mapFields
          (writeAll (writeJsonString (writeAll w [',']) group) [':']) group values group
  match exploded with
  | none => plain
  | some (explodedName, singleValue) =>
      if group = explodedName then
        writeFieldValue hexEncode self.mapFields
          (writeAll (writeJsonString (writeAll w [',']) group) [':']) singleValue group
      else plain

/-- Writes one line for a message. -/
def writeOneTlsRecord (w : W) (msg : DecodedMessage) (grouped : List (Text × List FieldValue))
    (exploded : Option (Text × FieldValue)) : W × ℕ :=
  let w : CountingWriter W := ⟨w, 0⟩
  let w := writePreamble w "tls_record".toList msg.timestamp
  let w := self.writeIp w msg.srcIp.toText msg.dstIp.toText
  let w :=
    if "tcp".toList ∈ self.groups then
      writeAll w (",\"tcp\":\x7b\"srcport\":".toList ++ decimal msg.srcPort.toNat ++
        ",\"dstport\":".toList ++ decimal msg.dstPort.toNat ++ ['}'])
    else w
  let w :=
    if "tls".toList ∈ self.groups then
      writeAll (writeJsonString (writeAll w ",\"tls\":\x7b\"app_data\":".toList)
        (hexEncode msg.tlsAppData)) ['}']
    else w
  let w := self.genericGroupOrder.foldl (self.writeGroup hexEncode grouped exploded) w
  let w := writeAll w ['}', '\n']
  (w.inner, w.count)

/-- The occurrences of the exploded group, if there are any. -/
def explodedValues (grouped : List (Text × List FieldValue)) : Option (Text × List FieldValue) :=
  match self.explode with
  | none => none
  | some explodeName =>
      match grouped.find? fun entry => entry.1 = explodeName with
      | none => none
      | some (_, values) => if values.isEmpty then none else some (explodeName, values)

/-- Writes the line of a message, or one line for each occurrence of the exploded
group; returns the number of bytes written. -/
def writeTlsRecord (w : W) (msg : DecodedMessage) : W × ℕ :=
  let grouped := groupedEntries msg.fields
  match self.explodedValues grouped with
  | some (explodeName, values) =>
      values.foldl (fun state v =>
        let written := self.writeOneTlsRecord hexEncode state.1 msg grouped (some (explodeName, v))
        (written.1, state.2 + written.2)) (w, 0)
  | none => self.writeOneTlsRecord hexEncode w msg grouped none

/-- Writes the line of a packet event; returns the number of bytes written. -/
def writePacketEvent (w : W) (evt : PacketEvent) : W × ℕ :=
  let w : CountingWriter W := ⟨w, 0⟩
  let w := writePreamble w "packet".toList evt.timestamp
  let w := self.writeIp w evt.srcIp.toText evt.dstIp.toText
  let w :=
    if "tcp".toList ∈ self.groups then
      let w := writeAll w (",\"tcp\":\x7b\"srcport\":".toList ++ decimal evt.srcPort.toNat ++
        ",\"dstport\":".toList ++ decimal evt.dstPort.toNat ++ ",\"seq\":".toList ++
        decimal evt.seq.toNat ++ ",\"ack\":".toList ++ decimal evt.ack.toNat ++
        ",\"flags\":[".toList)
      let w := evt.flags.zipIdx.foldl
        (fun w flag => writeJsonString (if 0 < flag.2 then writeAll w [','] else w) flag.1.toList) w
      writeAll w ("],\"payload_len\":".toList ++ decimal evt.payloadLen ++ ['}'])
    else w
  let w := writeAll w ['}', '\n']
  (w.inner, w.count)

end NdjsonWriter

end Tlscap
