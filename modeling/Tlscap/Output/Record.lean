import Tlscap.Output.Model

/-!
# What a line says

The JSON value each line is to spell: recorded values under their names, without a
word about punctuation or escapes.  The writers are held to these values in
`Tlscap.Output.Lines`.

* **A recorded value** is a number, a string or, for a subtree, an object with one member
  for each of the names in it (`fieldJson`, `fieldMembers`).
* **The values of a group** are one leaf bare, or an array of all of them (`groupJson`);
  under a name selected for that, an object keyed by their names (`namedJson`).
* **A line** is an object whose members are the preamble, the envelope and the selected
  groups that were recorded (`NdjsonWriter.lineMembers`), or the selected fields of a
  message (`EkWriter.dataMembers`).
-/

namespace Tlscap

section Values

variable (hexEncode : Bytes → Text) (mapFields : Finset Text)

/-- The entries the occurrences of a group give a map. -/
def mapMembers (values : List FieldValue) (enclosing : Text) : List (Text × Json) :=
  (values.filterMap (mapMember enclosing)).map fun entry => (entry.1, .str entry.2)

mutual

/-- What a recorded value says. -/
def fieldJson (v : FieldValue) (enclosing : Text) : Json :=
  match v with
  | .uInt n => .num n.toNat 0
  | .str s => .str s
  | .bytes b => .str (hexEncode b)
  | .tree child => .obj (fieldMembers child enclosing)
termination_by (sizeOf v, 0)

/-- What the values of a group say. -/
def groupJson (values : List FieldValue) (enclosing : Text) : Json :=
  match _h : soleLeaf values with
  | some single => fieldJson single enclosing
  | none => .arr (values.attach.map fun v => fieldJson v.1 enclosing)
termination_by (sizeOf values, 1)
decreasing_by
  · rw [(soleLeaf_eq_some.mp _h).1]
    exact Prod.Lex.left _ _ (List.sizeOf_lt_of_mem List.mem_cons_self)
  · exact Prod.Lex.left _ _ (List.sizeOf_lt_of_mem v.2)

/-- What a group says under its short name. -/
def namedJson (short : Text) (values : List FieldValue) (enclosing : Text) : Json :=
  if short ∈ mapFields then .obj (mapMembers values enclosing)
  else groupJson values enclosing
termination_by (sizeOf values, 2)

/-- What one level says. -/
def fieldMembers (fields : FrameFields) (enclosing : Text) : List (Text × Json) :=
  (groupedEntries fields).attach.map fun group =>
    (underscored (shortName enclosing group.1.1),
      namedJson (shortName enclosing group.1.1) group.1.2 group.1.1)
termination_by (sizeOf fields, 3)
decreasing_by exact Prod.Lex.left _ _ (sizeOf_of_mem_groupedEntries group.2)

end

end Values

/-! ## Lines -/

/-- The index action of a message. -/
def EkWriter.actionMembers (self : EkWriter) (msg : DecodedMessage) : List (Text × Json) :=
  [("index".toList,
    .obj [("_index".toList, .str (self.indexPrefix ++ ['-'] ++ indexDate msg.timestamp))])]

/-- One selected field of a message, if it has a value. -/
def EkWriter.layerMember (hexEncode : Bytes → Text) (msg : DecodedMessage) (field : Text) :
    Option (Text × Json) :=
  match valuesFor hexEncode field msg with
  | none => none
  | some values =>
      if values.isEmpty then none else some (underscored field, .arr (values.map Json.str))

/-- The fields of a message. -/
def EkWriter.dataMembers (hexEncode : Bytes → Text) (self : EkWriter) (msg : DecodedMessage) :
    List (Text × Json) :=
  [("timestamp".toList, .str (decimal (epochMillis msg.timestamp))),
    ("layers".toList, .obj (self.fields.filterMap (EkWriter.layerMember hexEncode msg)))]

namespace NdjsonWriter

variable (hexEncode : Bytes → Text) (self : NdjsonWriter)

/-- The beginning of a line. -/
def preambleMembers (kind : Text) (timestamp : Duration) : List (Text × Json) :=
  [("kind".toList, .str kind), ("tstamp".toList, .num (epochMicros timestamp) 0)]

/-- The addresses, if they are selected. -/
def ipMembers (src dst : Text) : List (Text × Json) :=
  if "ip".toList ∈ self.groups then
    [("ip".toList, .obj [("src".toList, .str src), ("dst".toList, .str dst)])]
  else []

/-- The ports of a message, if they are selected. -/
def portMembers (msg : DecodedMessage) : List (Text × Json) :=
  if "tcp".toList ∈ self.groups then
    [("tcp".toList, .obj [("srcport".toList, .num msg.srcPort.toNat 0),
      ("dstport".toList, .num msg.dstPort.toNat 0)])]
  else []

/-- The decrypted bytes of a message, if they are selected. -/
def tlsMembers (msg : DecodedMessage) : List (Text × Json) :=
  if "tls".toList ∈ self.groups then
    [("tls".toList, .obj [("app_data".toList, .str (hexEncode msg.tlsAppData))])]
  else []

/-- One selected group of recorded fields. -/
def groupMember (grouped : List (Text × List FieldValue)) (exploded : Option (Text × FieldValue))
    (group : Text) : Option (Text × Json) :=
  let plain :=
    match grouped.find? fun entry => entry.1 = group with
    | none => none
    | some (_, values) => some (group, namedJson hexEncode self.mapFields group values group)
  match exploded with
  | none => plain
  | some (explodedName, singleValue) =>
      if group = explodedName then
        some (group, fieldJson hexEncode self.mapFields singleValue group)
      else plain

/-- One line of a message. -/
def lineMembers (msg : DecodedMessage) (exploded : Option (Text × FieldValue)) :
    List (Text × Json) :=
  preambleMembers "tls_record".toList msg.timestamp ++
    (self.ipMembers msg.srcIp.toText msg.dstIp.toText ++ (self.portMembers msg ++
      (self.tlsMembers hexEncode msg ++
        self.genericGroupOrder.filterMap
          (self.groupMember hexEncode (groupedEntries msg.fields) exploded))))

/-- The lines of a message. -/
def recordMembers (msg : DecodedMessage) : List (List (Text × Json)) :=
  match self.explodedValues (groupedEntries msg.fields) with
  | none => [self.lineMembers hexEncode msg none]
  | some (explodeName, values) =>
      values.map fun v => self.lineMembers hexEncode msg (some (explodeName, v))

/-- The header of a packet event, if it is selected. -/
def headerMembers (evt : PacketEvent) : List (Text × Json) :=
  if "tcp".toList ∈ self.groups then
    [("tcp".toList, .obj [("srcport".toList, .num evt.srcPort.toNat 0),
      ("dstport".toList, .num evt.dstPort.toNat 0), ("seq".toList, .num evt.seq.toNat 0),
      ("ack".toList, .num evt.ack.toNat 0),
      ("flags".toList, .arr (evt.flags.map fun flag => .str flag.toList)),
      ("payload_len".toList, .num evt.payloadLen 0)])]
  else []

/-- The line of a packet event. -/
def eventMembers (evt : PacketEvent) : List (Text × Json) :=
  preambleMembers "packet".toList evt.timestamp ++
    (self.ipMembers evt.srcIp.toText evt.dstIp.toText ++ self.headerMembers evt)

end NdjsonWriter

section Equations

variable {hexEncode : Bytes → Text} {mapFields : Finset Text}

theorem groupJson_eq (values : List FieldValue) (enclosing : Text) :
    groupJson hexEncode mapFields values enclosing =
      match soleLeaf values with
      | some single => fieldJson hexEncode mapFields single enclosing
      | none => .arr (values.map fun v => fieldJson hexEncode mapFields v enclosing) := by
  rw [groupJson]
  split
  · rename_i single h
    rw [h]
  · rename_i h
    rw [h]
    exact congrArg Json.arr
      (List.attach_map_val (f := fun v => fieldJson hexEncode mapFields v enclosing))

theorem fieldMembers_eq (fields : FrameFields) (enclosing : Text) :
    fieldMembers hexEncode mapFields fields enclosing =
      (groupedEntries fields).map fun group =>
        (underscored (shortName enclosing group.1),
          namedJson hexEncode mapFields (shortName enclosing group.1) group.2 group.1) := by
  rw [fieldMembers]
  exact List.attach_map_val (f := fun group : Text × List FieldValue =>
    (underscored (shortName enclosing group.1),
      namedJson hexEncode mapFields (shortName enclosing group.1) group.2 group.1))

end Equations

end Tlscap
