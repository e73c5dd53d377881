import Tlscap.Library.Json.Strict
import Tlscap.Output.Record

/-!
# Every line is JSON

Each line the writers produce is a JSON text with the value the record says it has, and has
no line break but its terminator (`lines_parse`).  This holds for every message, selection,
set of maps and exploded field, and for the Elasticsearch writer with an index whose name
needs no escape.

## Strategy

`Writes` says of a piece of a writer that it appends a text of the grammar, whatever is in
the buffer.  The pieces are put together as they are in the source:

* **Strings.**  Every character is written as itself or as an escape (`writes_jsonChar`),
  so what is written for a string spells it (`writes_jsonString`).
* **Members.**  A member comes behind the comma that is due (`writes_member`).  Whether one
  is due is the flag the loops of the source carry, and `Writes.object` runs such a loop.
* **Recorded values.**  The induction follows the nesting of what a dissector recorded: a
  writer of one level writes what it should if the writers of the values below do
  (`writes_group`, `writes_named`, `writes_fields`).  Its measure is the size of the value
  (`writes_fieldValue`).
* **Maps.**  An occurrence without a name or a value writes nothing, and no comma either
  (`writes_map`), so a map needs no induction of its own.
* **Lines.**  Between its beginning and its end a line is one object, whose members are
  those of its parts (`writes_line`); an exploded group gives a line for each occurrence
  (`writes_exploded`), and the Elasticsearch writer a line for the index in front.

The counting writer that some bodies are written through passes on what it is given
(`counted`), so every piece is stated for any lawful writer.
-/

namespace Tlscap

open Json

/-! ## Lines and counts -/

/-- Lines, each with its terminator. -/
def terminated (lines : List Text) : Text := lines.flatMap fun line => line ++ ['\n']

theorem terminated_singleton (line : Text) : terminated [line] = line ++ ['\n'] := by
  simp [terminated]

theorem terminated_cons (line : Text) (lines : List Text) :
    terminated (line :: lines) = line ++ ['\n'] ++ terminated lines := by
  simp [terminated]

/-- A line spells an object and has no line break. -/
def SpellsObject (line : Text) (members : List (Text × Json)) : Prop :=
  Value line (.obj members) ∧ '\n' ∉ line

instance : LawfulWrite Text where
  writeAll_nil := List.append_nil
  writeAll_append := List.append_assoc

theorem utf8Len_append (first second : Text) :
    utf8Len (first ++ second) = utf8Len first + utf8Len second := by
  simp [utf8Len]

instance {W : Type} [Write W] [LawfulWrite W] : LawfulWrite (CountingWriter W) where
  writeAll_nil w := by
    show CountingWriter.mk (writeAll w.inner []) (w.count + 0) = w
    rw [LawfulWrite.writeAll_nil, Nat.add_zero]
  writeAll_append w first second := by
    show CountingWriter.mk _ _ = CountingWriter.mk _ _
    rw [utf8Len_append, ← Nat.add_assoc]
    exact congrArg (CountingWriter.mk · _) (LawfulWrite.writeAll_append w.inner first second)

/-- What a counting writer passes on, and its count. -/
theorem counted {W : Type} [Write W] {body : CountingWriter W → CountingWriter W}
    {text : Text} (h : ∀ w, body w = writeAll w text) (w : W) :
    ((body ⟨w, 0⟩).inner, (body ⟨w, 0⟩).count) = (writeAll w text, utf8Len text) := by
  rw [h]
  exact congrArg (Prod.mk _) (Nat.zero_add _)

section Values

variable {W : Type} [Write W]

/-! ## Strings -/

/-- The escape of a control character. -/
theorem unicode_hex4 : ∀ n < 0x20, '\n' ∉ hex4 n ∧ ∃ a b c d, hex4 n = [a, b, c, d] ∧
    codeUnit a b c d = some n := by
  have hdigits : ∀ n < 0x20, '\n' ∉ hex4 n ∧
      hex4 n = ['0', '0', Nat.digitChar (n / 16), Nat.digitChar (n % 16)] ∧
      codeUnit '0' '0' (Nat.digitChar (n / 16)) (Nat.digitChar (n % 16)) = some n := by
    decide
  intro n hn
  obtain ⟨hline, hhex, hcode⟩ := hdigits n hn
  exact ⟨hline, _, _, _, _, hhex, hcode⟩

theorem writes_jsonChar (c : Char) : Writes Character (writeJsonChar (W := W) · c) c := by
  by_cases hquote : c = '"'
  · subst hquote
    exact ⟨['\\', '"'], .short rfl, by decide, fun w => rfl⟩
  by_cases hslash : c = '\\'
  · subst hslash
    exact ⟨['\\', '\\'], .short rfl, by decide, fun w => rfl⟩
  by_cases hnewline : c = '\n'
  · subst hnewline
    exact ⟨['\\', 'n'], .short rfl, by decide, fun w => rfl⟩
  by_cases hreturn : c = '\r'
  · subst hreturn
    exact ⟨['\\', 'r'], .short rfl, by decide, fun w => rfl⟩
  by_cases htab : c = '\t'
  · subst htab
    exact ⟨['\\', 't'], .short rfl, by decide, fun w => rfl⟩
  by_cases hcontrol : c.toNat < 0x20
  · obtain ⟨hline, a, b, d, e, hhex, hcode⟩ := unicode_hex4 c.toNat hcontrol
    have hunicode : Unicode [a, b, d, e] (Char.ofNat c.toNat) := .scalar hcode (.inl (by omega))
    rw [Char.ofNat_toNat] at hunicode
    refine ⟨'\\' :: 'u' :: hex4 c.toNat, hhex ▸ .unicode hunicode, by simpa using hline,
      fun w => ?_⟩
    simp [writeJsonChar, hquote, hslash, hnewline, hreturn, htab, hcontrol]
  · refine ⟨[c], .unescaped ?_, by simpa using Ne.symm hnewline, fun w => ?_⟩
    · simp [isUnescaped, hquote, hslash]
      omega
    · simp [writeJsonChar, hquote, hslash, hnewline, hreturn, htab, hcontrol]

variable [LawfulWrite W]

/-- What is written for a string spells the string. -/
theorem writes_jsonString (s : Text) : Writes Quoted (writeJsonString (W := W) · s) s := by
  have hcharacters : Writes Characters (fun w : W => s.foldl writeJsonChar w) s := by
    induction s with
    | nil => exact ⟨[], .nil, List.not_mem_nil, fun w => (LawfulWrite.writeAll_nil w).symm⟩
    | cons c s ih =>
        obtain ⟨text, htext, hline, hwrite⟩ := writes_jsonChar (W := W) c
        obtain ⟨rest, hrest, hline', hwrite'⟩ := ih
        refine ⟨text ++ rest, .cons htext hrest, by simp [hline, hline'], fun w => ?_⟩
        calc (c :: s).foldl writeJsonChar w = s.foldl writeJsonChar (writeAll w text) :=
              congrArg (s.foldl writeJsonChar) (hwrite w)
          _ = writeAll (writeAll w text) rest := hwrite' _
          _ = writeAll w (text ++ rest) := LawfulWrite.writeAll_append w text rest
  obtain ⟨text, htext, hline, hwrite⟩ := hcharacters
  refine ⟨'"' :: (text ++ ['"']), .mk htext, by simp [hline], fun w => ?_⟩
  calc writeJsonString w s = writeAll (writeAll (writeAll w ['"']) text) ['"'] :=
        congrArg (writeAll · ['"']) (hwrite _)
    _ = writeAll w ('"' :: (text ++ ['"'])) := by
        rw [LawfulWrite.writeAll_append, LawfulWrite.writeAll_append]
        rfl

/-! ## Recorded values -/

/-- A name, a colon and a value are a member, behind the comma that is due. -/
theorem writes_member {write : W → W} {value : Json} (name : Text) (h : Writes Value write value) :
    ∃ text, Member Value text (name, value) ∧ '\n' ∉ text ∧ ∀ w first,
      write (writeAll (writeJsonString (if first then w else writeAll w [',']) name) [':']) =
        writeAll (writeAll w (separator first)) text := by
  obtain ⟨quoted, hquoted, hline, hname⟩ := writes_jsonString (W := W) name
  obtain ⟨text, htext, hline', hvalue⟩ := h
  refine ⟨quoted ++ ':' :: text, .compact hquoted htext, by simp [hline, hline'], fun w first => ?_⟩
  have hcomma : (if first then w else writeAll w [',']) = writeAll w (separator first) := by
    cases first with
    | true => exact (LawfulWrite.writeAll_nil w).symm
    | false => rfl
  rw [hcomma, hvalue, show writeJsonString _ name = _ from hname _, LawfulWrite.writeAll_append,
    LawfulWrite.writeAll_append]
  exact congrArg (writeAll _) (by simp)

/-- The occurrences of a group as a map: those without a key or a value are skipped. -/
theorem writes_map (values : List FieldValue) (enclosing : Text) :
    Writes Value (writeMap (W := W) · values enclosing) (.obj (mapMembers values enclosing)) := by
  have hmembers : mapMembers values enclosing =
      values.filterMap fun v =>
        (mapMember enclosing v).map fun entry => (entry.1, .str entry.2) := by
    rw [mapMembers, List.map_filterMap]
  rw [hmembers]
  -- the flag is still up where nothing has been written, so a skipped value leaves it up
  refine Writes.object (writes_flagged _ _ values ?_ ?_ true)
  · intro v _ hnone w
    rw [Option.map_eq_none_iff.mp hnone]
  · intro v _ member hsome
    obtain ⟨⟨key, value⟩, hentry, rfl⟩ := Option.map_eq_some_iff.mp hsome
    obtain ⟨text, htext, hline, hwrite⟩ :=
      writes_member key (writes_jsonString (W := W) value).string
    refine ⟨text, htext, hline, fun w first => ?_⟩
    rw [hentry]
    exact congrArg (·, false) (hwrite w first)

/-! ### Groups and levels -/

section Nesting

variable {hexEncode : Bytes → Text} {mapFields : Finset Text}

/-- A group writes what it says if its values do. -/
theorem writes_group {values : List FieldValue} {enclosing : Text}
    (h : ∀ v ∈ values, Writes Value (writeFieldValue hexEncode mapFields (W := W) · v enclosing)
      (fieldJson hexEncode mapFields v enclosing)) :
    Writes Value (writeValueOrArray hexEncode mapFields (W := W) · values enclosing)
      (groupJson hexEncode mapFields values enclosing) := by
  rw [groupJson_eq]
  cases hsole : soleLeaf values with
  | some single =>
      have hmem : single ∈ values := by
        rw [(soleLeaf_eq_some.mp hsole).1]
        exact List.mem_cons_self
      obtain ⟨text, htext, hline, hwrite⟩ := h single hmem
      refine ⟨text, htext, hline, fun w => ?_⟩
      show writeValueOrArray hexEncode mapFields w values enclosing = _
      rw [writeValueOrArray]
      split
      · rename_i leaf hleaf
        obtain rfl : leaf = single := Option.some.inj (hleaf.symm.trans hsole)
        exact hwrite w
      · rename_i hnone
        exact absurd (hnone.symm.trans hsole) (by simp)
  | none =>
      -- more than one value, or a tree: an array, whose commas go by position
      have harray := Writes.array (writes_numbered (W := W)
        (fun w v => writeFieldValue hexEncode mapFields w v.1 enclosing)
        (fun v => fieldJson hexEncode mapFields v.1 enclosing) values.attach
        fun v _ => (h v.1 v.2).padded)
      obtain ⟨text, htext, hline, hwrite⟩ := harray
      rw [List.attach_map_val (f := fun v => fieldJson hexEncode mapFields v enclosing)] at htext
      refine ⟨text, htext, hline, fun w => ?_⟩
      show writeValueOrArray hexEncode mapFields w values enclosing = _
      rw [writeValueOrArray]
      split
      · rename_i leaf hleaf
        exact absurd (hleaf.symm.trans hsole) (by simp)
      · exact hwrite w

/-- A group under its name, where a level has selected it for a map or not. -/
theorem writes_named {values : List FieldValue} {enclosing : Text} (short : Text)
    (h : ∀ v ∈ values, Writes Value (writeFieldValue hexEncode mapFields (W := W) · v enclosing)
      (fieldJson hexEncode mapFields v enclosing)) :
    Writes Value (writeNamedValue hexEncode mapFields (W := W) · short values enclosing)
      (namedJson hexEncode mapFields short values enclosing) := by
  rw [namedJson]
  split
  · rename_i hmap
    obtain ⟨text, htext, hline, hwrite⟩ := writes_map (W := W) values enclosing
    refine ⟨text, htext, hline, fun w => ?_⟩
    show writeNamedValue hexEncode mapFields w short values enclosing = _
    rw [writeNamedValue, if_pos hmap]
    exact hwrite w
  · rename_i hmap
    obtain ⟨text, htext, hline, hwrite⟩ := writes_group h
    refine ⟨text, htext, hline, fun w => ?_⟩
    show writeNamedValue hexEncode mapFields w short values enclosing = _
    rw [writeNamedValue, if_neg hmap]
    exact hwrite w

/-- A level writes what it says if the values of its groups do. -/
theorem writes_fields {fields : FrameFields} (enclosing : Text)
    (h : ∀ group ∈ groupedEntries fields, ∀ v ∈ group.2,
      Writes Value (writeFieldValue hexEncode mapFields (W := W) · v group.1)
        (fieldJson hexEncode mapFields v group.1)) :
    Writes Value (writeFrameFieldsObject hexEncode mapFields (W := W) · fields enclosing)
      (.obj (fieldMembers hexEncode mapFields fields enclosing)) := by
  have hobject := Writes.object (writes_flagged (W := W)
    (fun state group =>
      (writeNamedValue hexEncode mapFields
        (writeAll (writeJsonString (if state.2 then state.1 else writeAll state.1 [','])
          (underscored (shortName enclosing group.1.1))) [':'])
        (shortName enclosing group.1.1) group.1.2 group.1.1, false))
    (fun group => some (underscored (shortName enclosing group.1.1),
      namedJson hexEncode mapFields (shortName enclosing group.1.1) group.1.2 group.1.1))
    (groupedEntries fields).attach
    (fun group _ hnone => absurd hnone (by simp))
    (fun group _ member hmember => by
      obtain rfl := Option.some.inj hmember
      obtain ⟨text, htext, hline, hwrite⟩ := writes_member
        (underscored (shortName enclosing group.1.1))
        (writes_named (shortName enclosing group.1.1) (h group.1 group.2))
      exact ⟨text, htext, hline, fun w first => congrArg (·, false) (hwrite w first)⟩)
    true)
  obtain ⟨text, htext, hline, hwrite⟩ := hobject
  have hmembers : fieldMembers hexEncode mapFields fields enclosing =
      (groupedEntries fields).attach.filterMap fun group =>
        some (underscored (shortName enclosing group.1.1),
          namedJson hexEncode mapFields (shortName enclosing group.1.1) group.1.2 group.1.1) := by
    rw [fieldMembers, List.filterMap_eq_map']
  refine ⟨text, hmembers ▸ htext, hline, fun w => ?_⟩
  show writeFrameFieldsObject hexEncode mapFields w fields enclosing = _
  rw [writeFrameFieldsObject]
  exact hwrite w

/-- Every recorded value writes what it says. -/
theorem writes_fieldValue (v : FieldValue) (enclosing : Text) :
    Writes Value (writeFieldValue hexEncode mapFields (W := W) · v enclosing)
      (fieldJson hexEncode mapFields v enclosing) := by
  cases v with
  | uInt n =>
      have hdigits : ∀ c ∈ decimal n.toNat, c.isDigit = true := fun c hc =>
        Nat.isDigit_of_mem_toDigits (by decide) (by decide) hc
      rw [fieldJson]
      refine ⟨decimal n.toNat, .decimal n.toNat, fun hline => ?_, fun w => ?_⟩
      · exact absurd (hdigits _ hline) (by decide)
      · show writeFieldValue hexEncode mapFields w _ enclosing = _
        rw [writeFieldValue]
  | str s =>
      obtain ⟨text, htext, hline, hwrite⟩ := (writes_jsonString (W := W) s).string
      rw [fieldJson]
      refine ⟨text, htext, hline, fun w => ?_⟩
      show writeFieldValue hexEncode mapFields w _ enclosing = _
      rw [writeFieldValue]
      exact hwrite w
  | bytes b =>
      obtain ⟨text, htext, hline, hwrite⟩ := (writes_jsonString (W := W) (hexEncode b)).string
      rw [fieldJson]
      refine ⟨text, htext, hline, fun w => ?_⟩
      show writeFieldValue hexEncode mapFields w _ enclosing = _
      rw [writeFieldValue]
      exact hwrite w
  | tree child =>
      -- the values of a group are smaller than the tree, so they write what they say
      have hvalues : ∀ group ∈ groupedEntries child, ∀ v ∈ group.2,
          Writes Value (writeFieldValue hexEncode mapFields (W := W) · v group.1)
            (fieldJson hexEncode mapFields v group.1) := fun group hgroup v hv =>
        have : sizeOf v < sizeOf child :=
          (List.sizeOf_lt_of_mem hv).trans (sizeOf_of_mem_groupedEntries hgroup)
        writes_fieldValue v group.1
      obtain ⟨text, htext, hline, hwrite⟩ := writes_fields (W := W) enclosing hvalues
      rw [fieldJson]
      refine ⟨text, htext, hline, fun w => ?_⟩
      show writeFieldValue hexEncode mapFields w _ enclosing = _
      rw [writeFieldValue]
      exact hwrite w
termination_by sizeOf v
decreasing_by
  simp only [FieldValue.tree.sizeOf_spec]
  omega

end Nesting

end Values

/-! ## Parts of a line -/

section Parts

variable {W : Type} [Write W] [LawfulWrite W]

theorem newline_not_mem_decimal (n : ℕ) : '\n' ∉ decimal n := fun hline =>
  absurd (Nat.isDigit_of_mem_toDigits (by decide) (by decide) hline) (by decide)

namespace NdjsonWriter

variable (hexEncode : Bytes → Text) (self : NdjsonWriter)

theorem writes_ip (src dst : Text) :
    Writes (Chain (Member Value) false) (self.writeIp (W := W) · src dst)
      (self.ipMembers src dst) := by
  unfold ipMembers
  split
  · rename_i hip
    obtain ⟨srcText, hsrc, hsrcLine, hsrcWrite⟩ := (writes_jsonString (W := W) src).string
    obtain ⟨dstText, hdst, hdstLine, hdstWrite⟩ := (writes_jsonString (W := W) dst).string
    have hpair : Chain (Member Value) true _ [("src".toList, .str src), ("dst".toList, .str dst)] :=
      .start (.plain (by decide) hsrc) (.next (.plain (by decide) hdst) .nil)
    refine ⟨_, .next (.plain (by decide) (.chainedObject hpair)) .nil, ?_, fun w => ?_⟩
    · simp [hsrcLine, hdstLine]
    · show self.writeIp w src dst = _
      rw [writeIp, if_pos hip]
      simp only [show writeJsonString _ src = _ from hsrcWrite _,
        show writeJsonString _ dst = _ from hdstWrite _, LawfulWrite.writeAll_append]
      exact congrArg (writeAll w) (by simp)
  · rename_i hip
    have hnothing : Writes (Chain (Member Value) false) (fun w : W => w) [] := writes_nothing
    obtain ⟨text, htext, hline, hwrite⟩ := hnothing
    refine ⟨text, htext, hline, fun w => ?_⟩
    show self.writeIp w src dst = _
    rw [writeIp, if_neg hip]
    exact hwrite w

theorem writes_ports (msg : DecodedMessage) :
    Writes (Chain (Member Value) false)
      (fun w : W => if "tcp".toList ∈ self.groups then
        writeAll w (",\"tcp\":\x7b\"srcport\":".toList ++ decimal msg.srcPort.toNat ++
          ",\"dstport\":".toList ++ decimal msg.dstPort.toNat ++ ['}'])
        else w)
      (self.portMembers msg) := by
  unfold portMembers
  split
  · have hports : Chain (Member Value) true _ [("srcport".toList, .num msg.srcPort.toNat 0),
        ("dstport".toList, .num msg.dstPort.toNat 0)] :=
      .start (.plain (by decide) (.decimal _)) (.next (.plain (by decide) (.decimal _)) .nil)
    refine ⟨_, .next (.plain (by decide) (.chainedObject hports)) .nil, ?_, fun w => ?_⟩
    · have hline := newline_not_mem_decimal
      unfold decimal at hline
      simp [hline]
    · exact congrArg (writeAll w) (by simp [decimal])
  · exact writes_nothing

theorem writes_tls (msg : DecodedMessage) :
    Writes (Chain (Member Value) false)
      (fun w : W => if "tls".toList ∈ self.groups then
        writeAll (writeJsonString (writeAll w ",\"tls\":\x7b\"app_data\":".toList)
          (hexEncode msg.tlsAppData)) ['}']
        else w)
      (self.tlsMembers hexEncode msg) := by
  unfold tlsMembers
  split
  · obtain ⟨text, htext, hline, hwrite⟩ :=
      (writes_jsonString (W := W) (hexEncode msg.tlsAppData)).string
    have hdata : Chain (Member Value) true _
        [("app_data".toList, .str (hexEncode msg.tlsAppData))] :=
      .start (.plain (by decide) htext) .nil
    refine ⟨_, .next (.plain (by decide) (.chainedObject hdata)) .nil, ?_, fun w => ?_⟩
    · simp [hline]
    · simp only [show writeJsonString _ (hexEncode msg.tlsAppData) = _ from hwrite _,
        LawfulWrite.writeAll_append]
      exact congrArg (writeAll w) (by simp)
  · exact writes_nothing

/-- A selected group behind its comma. -/
theorem writes_behind {write : W → W} {value : Json} (name : Text) (h : Writes Value write value) :
    Writes (Chain (Member Value) false)
      (fun w => write (writeAll (writeJsonString (writeAll w [',']) name) [':']))
      [(name, value)] := by
  obtain ⟨text, htext, hline, hwrite⟩ := writes_member name h
  refine ⟨',' :: (text ++ []), .next htext .nil, by simp [hline], fun w => ?_⟩
  calc write (writeAll (writeJsonString (writeAll w [',']) name) [':'])
      = writeAll (writeAll w [',']) text := hwrite w false
    _ = writeAll w (',' :: (text ++ [])) := by
        rw [LawfulWrite.writeAll_append, List.append_nil]
        rfl

theorem writes_selected (grouped : List (Text × List FieldValue))
    (exploded : Option (Text × FieldValue)) (group : Text) :
    Writes (Chain (Member Value) false)
      (self.writeGroup hexEncode grouped exploded (W := W) · group)
      (self.groupMember hexEncode grouped exploded group).toList := by
  have hplain : Writes (Chain (Member Value) false)
      (self.writeGroup hexEncode grouped none (W := W) · group)
      (self.groupMember hexEncode grouped none group).toList := by
    unfold writeGroup groupMember
    dsimp only
    cases grouped.find? fun entry => entry.1 = group with
    | none => exact writes_nothing
    | some entry =>
        exact writes_behind group (writes_named group fun v _ => writes_fieldValue v group)
  cases exploded with
  | none => exact hplain
  | some exploded =>
      unfold writeGroup groupMember
      dsimp only
      split
      · exact writes_behind group (writes_fieldValue exploded.2 group)
      · exact hplain

theorem writes_header (evt : PacketEvent) :
    Writes (Chain (Member Value) false)
      (fun w : W => if "tcp".toList ∈ self.groups then
        let w := writeAll w (",\"tcp\":\x7b\"srcport\":".toList ++ decimal evt.srcPort.toNat ++
          ",\"dstport\":".toList ++ decimal evt.dstPort.toNat ++ ",\"seq\":".toList ++
          decimal evt.seq.toNat ++ ",\"ack\":".toList ++ decimal evt.ack.toNat ++
          ",\"flags\":[".toList)
        let w := evt.flags.zipIdx.foldl (fun w flag =>
          writeJsonString (if 0 < flag.2 then writeAll w [','] else w) flag.1.toList) w
        writeAll w ("],\"payload_len\":".toList ++ decimal evt.payloadLen ++ ['}'])
        else w)
      (self.headerMembers evt) := by
  unfold headerMembers
  split
  · obtain ⟨flags, hflags, hline, hwrite⟩ := writes_numbered (W := W)
      (fun w flag => writeJsonString w flag.toList) (fun flag => Json.str flag.toList) evt.flags
      fun flag _ => (writes_jsonString flag.toList).string.padded
    -- the flags are the one member that is written by a loop of its own
    have hheader : Chain (Member Value) true _ [("srcport".toList, .num evt.srcPort.toNat 0),
        ("dstport".toList, .num evt.dstPort.toNat 0), ("seq".toList, .num evt.seq.toNat 0),
        ("ack".toList, .num evt.ack.toNat 0),
        ("flags".toList, .arr (evt.flags.map fun flag => .str flag.toList)),
        ("payload_len".toList, .num evt.payloadLen 0)] :=
      .start (.plain (by decide) (.decimal _)) (.next (.plain (by decide) (.decimal _))
        (.next (.plain (by decide) (.decimal _)) (.next (.plain (by decide) (.decimal _))
          (.next (.plain (by decide) (.chainedArray hflags))
            (.next (.plain (by decide) (.decimal _)) .nil)))))
    refine ⟨_, .next (.plain (by decide) (.chainedObject hheader)) .nil, ?_, fun w => ?_⟩
    · have hdecimal := newline_not_mem_decimal
      unfold decimal at hdecimal
      simp [hline, hdecimal]
    · dsimp only
      rw [show List.foldl _ _ evt.flags.zipIdx = _ from hwrite _, LawfulWrite.writeAll_append,
        LawfulWrite.writeAll_append]
      exact congrArg (writeAll w) (by simp [decimal])
  · exact writes_nothing

/-! ## Whole lines -/

/-- Between its beginning and its end a line is one object. -/
theorem writes_line (kind : Text) (hkind : kind.all isUnescaped = true)
    (timestamp : Duration) {body : W → W} {members : List (Text × Json)}
    (h : Writes (Chain (Member Value) false) body members) :
    ∃ line, Value line (.obj (preambleMembers kind timestamp ++ members)) ∧ '\n' ∉ line ∧
      ∀ w, writeAll (body (writePreamble w kind timestamp)) ['}', '\n'] =
        writeAll w (line ++ ['\n']) := by
  obtain ⟨text, htext, hline, hbody⟩ := h
  have hpreamble : Chain (Member Value) true _ (preambleMembers kind timestamp) :=
    .start (.plain (by decide) (.string (.plain (List.all_eq_true.mp hkind))))
      (.next (.plain (by decide) (.decimal (epochMicros timestamp))) .nil)
  have hkindLine : '\n' ∉ kind := fun hmem =>
    absurd (List.all_eq_true.mp hkind _ hmem) (by decide)
  refine ⟨_, .chainedObject (hpreamble.append htext), ?_, fun w => ?_⟩
  · have hdecimal := newline_not_mem_decimal
    unfold decimal at hdecimal
    simp [hline, hkindLine, hdecimal]
  · rw [hbody, writePreamble, LawfulWrite.writeAll_append, LawfulWrite.writeAll_append]
    exact congrArg (writeAll w) (by simp [decimal])

/-- The line of a message, for one occurrence of an exploded group or for all. -/
theorem writes_oneTlsRecord (msg : DecodedMessage) (exploded : Option (Text × FieldValue)) :
    ∃ line, Value line (.obj (self.lineMembers hexEncode msg exploded)) ∧ '\n' ∉ line ∧
      ∀ w : W, self.writeOneTlsRecord hexEncode w msg (groupedEntries msg.fields) exploded =
        (writeAll w (line ++ ['\n']), utf8Len (line ++ ['\n'])) := by
  have hip := writes_ip (W := CountingWriter W) self msg.srcIp.toText msg.dstIp.toText
  have hports := writes_ports (W := CountingWriter W) self msg
  have htls := writes_tls (W := CountingWriter W) hexEncode self msg
  have hgroups := writes_following (W := CountingWriter W) self.genericGroupOrder fun group _ =>
    writes_selected hexEncode self (groupedEntries msg.fields) exploded group
  obtain ⟨line, hvalue, hline, hwrite⟩ := writes_line "tls_record".toList (by decide)
    msg.timestamp (hip.andThen (hports.andThen (htls.andThen hgroups)))
  exact ⟨line, hvalue, hline, fun w => counted hwrite w⟩

/-- The line of a packet event. -/
theorem writes_packetEvent (evt : PacketEvent) :
    ∃ line, Value line (.obj (self.eventMembers evt)) ∧ '\n' ∉ line ∧
      ∀ w : W, self.writePacketEvent w evt =
        (writeAll w (line ++ ['\n']), utf8Len (line ++ ['\n'])) := by
  have hip := writes_ip (W := CountingWriter W) self evt.srcIp.toText evt.dstIp.toText
  have hheader := writes_header (W := CountingWriter W) self evt
  obtain ⟨line, hvalue, hline, hwrite⟩ := writes_line "packet".toList (by decide)
    evt.timestamp (hip.andThen hheader)
  exact ⟨line, hvalue, hline, fun w => counted hwrite w⟩

/-- One line after the other, for each occurrence of the exploded group. -/
theorem writes_exploded (msg : DecodedMessage) (name : Text) (values : List FieldValue) :
    ∃ lines, List.Forall₂ SpellsObject lines
        (values.map fun v => self.lineMembers hexEncode msg (some (name, v))) ∧
      ∀ (w : W) (total : ℕ),
        values.foldl (fun state v =>
          let written := self.writeOneTlsRecord hexEncode state.1 msg (groupedEntries msg.fields)
            (some (name, v))
          (written.1, state.2 + written.2)) (w, total) =
        (writeAll w (terminated lines), total + utf8Len (terminated lines)) := by
  induction values with
  | nil => exact ⟨[], .nil, fun w total =>
      congrArg (·, total) (LawfulWrite.writeAll_nil w).symm⟩
  | cons v values ih =>
      obtain ⟨line, hvalue, hline, hwrite⟩ :=
        writes_oneTlsRecord (W := W) hexEncode self msg (some (name, v))
      obtain ⟨lines, hlines, hrest⟩ := ih
      refine ⟨line :: lines, .cons ⟨hvalue, hline⟩ hlines, fun w total => ?_⟩
      rw [List.foldl_cons, hrest, hwrite, terminated_cons, utf8Len_append (line ++ ['\n']),
        LawfulWrite.writeAll_append, Nat.add_assoc]

/-- The lines of a message. -/
theorem writes_tlsRecord (msg : DecodedMessage) :
    ∃ lines, List.Forall₂ SpellsObject lines (self.recordMembers hexEncode msg) ∧
      ∀ w : W, self.writeTlsRecord hexEncode w msg =
        (writeAll w (terminated lines), utf8Len (terminated lines)) := by
  unfold recordMembers writeTlsRecord
  dsimp only
  cases self.explodedValues (groupedEntries msg.fields) with
  | none =>
      obtain ⟨line, hvalue, hline, hwrite⟩ := writes_oneTlsRecord (W := W) hexEncode self msg none
      refine ⟨[line], .cons ⟨hvalue, hline⟩ .nil, fun w => ?_⟩
      rw [hwrite, terminated_singleton]
  | some exploded =>
      obtain ⟨lines, hlines, hwrite⟩ :=
        writes_exploded (W := W) hexEncode self msg exploded.1 exploded.2
      refine ⟨lines, hlines, fun w => ?_⟩
      rw [← Nat.zero_add (utf8Len _)]
      exact hwrite w 0

end NdjsonWriter

/-! ## The lines for Elasticsearch -/

namespace EkWriter

variable (hexEncode : Bytes → Text) (self : EkWriter)

/-- One selected field, behind the comma that is due. -/
theorem writes_layer (msg : DecodedMessage) (field : Text) {member : Text × Json}
    (h : layerMember hexEncode msg field = some member) :
    ∃ text, Member Value text member ∧ '\n' ∉ text ∧ ∀ (w : W) first,
      writeField hexEncode msg (w, first) field =
        (writeAll (writeAll w (separator first)) text, false) := by
  unfold layerMember at h
  unfold writeField
  cases hvalues : valuesFor hexEncode field msg with
  | none => exact absurd (hvalues ▸ h) (by simp)
  | some values =>
      simp only [hvalues] at h
      split at h
      · exact absurd h (by simp)
      · rename_i hnonempty
        obtain rfl := Option.some.inj h
        have hitems := writes_numbered (W := W) (fun w v => writeJsonString w v) Json.str values
          fun v _ => (writes_jsonString v).string.padded
        obtain ⟨text, htext, hline, hwrite⟩ := writes_member (underscored field) hitems.array
        refine ⟨text, htext, hline, fun w first => ?_⟩
        have hbracket : ∀ w : W, writeAll (writeAll w [':']) ['['] = writeAll w [':', '['] :=
          fun w => LawfulWrite.writeAll_append w [':'] ['[']
        have hwrite := hwrite w first
        rw [hbracket] at hwrite
        simp only [if_neg hnonempty]
        exact congrArg (·, false) hwrite

theorem writes_layers (msg : DecodedMessage) :
    Writes (Chain (Member Value) true)
      (fun w : W => (self.fields.foldl (writeField hexEncode msg) (w, true)).1)
      (self.fields.filterMap (layerMember hexEncode msg)) := by
  refine writes_flagged _ _ self.fields ?_ ?_ true
  · intro field _ hnone w
    unfold layerMember at hnone
    unfold writeField
    cases hvalues : valuesFor hexEncode field msg with
    | none => rfl
    | some values =>
        simp only [hvalues] at hnone
        split at hnone
        · rename_i hempty
          simp only [if_pos hempty]
        · exact absurd hnone (by simp)
  · intro field _ member hsome
    exact writes_layer hexEncode msg field hsome

theorem isUnescaped_of_isDigit {c : Char} (h : c.isDigit = true) : isUnescaped c = true := by
  have hquote : c ≠ '"' := by
    rintro rfl
    exact absurd h (by decide)
  have hslash : c ≠ '\\' := by
    rintro rfl
    exact absurd h (by decide)
  have hlow : 48 ≤ c.toNat := by
    simp only [Char.isDigit, Bool.and_eq_true, decide_eq_true_eq] at h
    exact UInt32.le_iff_toNat_le.mp h.1
  simp only [isUnescaped, Bool.and_eq_true, decide_eq_true_eq, bne_iff_ne]
  exact ⟨⟨by omega, hquote⟩, hslash⟩

theorem isUnescaped_decimal (n : ℕ) : ∀ c ∈ decimal n, isUnescaped c = true := fun _ hc =>
  isUnescaped_of_isDigit (Nat.isDigit_of_mem_toDigits (by decide) (by decide) hc)

theorem isUnescaped_zeroPadded (width : ℕ) (n : ℤ) :
    ∀ c ∈ zeroPadded width n, isUnescaped c = true := by
  have hpadded : ∀ width, ∀ c ∈ (decimal n.natAbs).leftpad width '0', isUnescaped c = true := by
    intro width c hc
    rcases List.mem_append.mp hc with hzero | hdigit
    · rw [List.eq_of_mem_replicate hzero]
      decide
    · exact isUnescaped_decimal _ c hdigit
  intro c hc
  unfold zeroPadded at hc
  split at hc
  · rcases List.mem_cons.mp hc with rfl | hc
    · decide
    · exact hpadded _ c hc
  · exact hpadded _ c hc

theorem isUnescaped_indexDate (timestamp : Duration) :
    ∀ c ∈ indexDate timestamp, isUnescaped c = true := by
  intro c hc
  unfold indexDate at hc
  simp only [List.mem_append, List.mem_cons] at hc
  rcases hc with hc | rfl | hc | rfl | hc
  · exact isUnescaped_zeroPadded _ _ c hc
  · decide
  · exact isUnescaped_zeroPadded _ _ c hc
  · decide
  · exact isUnescaped_zeroPadded _ _ c hc

/-- The index a message goes to. -/
def indexName (msg : DecodedMessage) : Text :=
  self.indexPrefix ++ ['-'] ++ indexDate msg.timestamp

/-- The text of an index action. -/
def actionText (name : Text) : Text :=
  "\x7b\"index\":\x7b\"_index\":\"".toList ++ name ++ "\"\x7d\x7d".toList

theorem spells_action {name : Text} (hname : ∀ c ∈ name, isUnescaped c = true) :
    SpellsObject (actionText name)
      [("index".toList, .obj [("_index".toList, .str name)])] := by
  have hmember : Chain (Member Value) true _
      [("index".toList, .obj [("_index".toList, .str name)])] :=
    .start (.plain (by decide) (.chainedObject (.start (.plain (by decide)
      (.string (.plain hname))) .nil))) .nil
  have hline : '\n' ∉ name := fun hmem => absurd (hname _ hmem) (by decide)
  unfold actionText
  refine ⟨?_, by simp [hline]⟩
  convert Value.chainedObject hmember using 1
  simp

/-- The text of the fields of a message, where `layers` is that of the selected ones. -/
def dataText (millis : ℕ) (layers : Text) : Text :=
  "\x7b\"timestamp\":\"".toList ++ decimal millis ++ "\",\"layers\":\x7b".toList ++ layers ++
    "\x7d\x7d".toList

theorem spells_data (millis : ℕ) {layers : Text} {members : List (Text × Json)}
    (hline : '\n' ∉ layers) (hlayers : Chain (Member Value) true layers members) :
    SpellsObject (dataText millis layers)
      [("timestamp".toList, .str (decimal millis)), ("layers".toList, .obj members)] := by
  have hmembers : Chain (Member Value) true _
      [("timestamp".toList, .str (decimal millis)), ("layers".toList, .obj members)] :=
    .start (.plain (by decide) (.string (.plain (isUnescaped_decimal _))))
      (.next (.plain (by decide) (.chainedObject hlayers)) .nil)
  unfold dataText
  refine ⟨?_, by simp [newline_not_mem_decimal, hline]⟩
  convert Value.chainedObject hmembers using 1
  simp

/-- Writing the two lines, around a body that writes `layers`. -/
theorem writes_around {body : W → W} {layers : Text} (h : ∀ w, body w = writeAll w layers)
    (name : Text) (millis : ℕ) (w : W) :
    writeAll (body (writeAll (writeAll w
        ("\x7b\"index\":\x7b\"_index\":\"".toList ++ name ++ "\"\x7d\x7d\n".toList))
        ("\x7b\"timestamp\":\"".toList ++ decimal millis ++ "\",\"layers\":\x7b".toList)))
      "\x7d\x7d\n".toList = writeAll w (terminated [actionText name, dataText millis layers]) := by
  unfold terminated actionText dataText
  rw [h, LawfulWrite.writeAll_append, LawfulWrite.writeAll_append, LawfulWrite.writeAll_append]
  exact congrArg (writeAll w) (by simp)

/-- The two lines of a message; the first has the index name as it is. -/
theorem writes_actionData (msg : DecodedMessage) :
    ∃ data, SpellsObject data (self.dataMembers hexEncode msg) ∧
      ∀ w : W, self.writeMessage hexEncode w msg =
        (writeAll w (terminated [actionText (self.indexName msg), data]),
          utf8Len (terminated [actionText (self.indexName msg), data])) := by
  obtain ⟨layers, hlayers, hline, hwrite⟩ :=
    writes_layers (W := CountingWriter W) hexEncode self msg
  refine ⟨dataText _ layers, spells_data _ hline hlayers, fun w => ?_⟩
  have hbody := writes_around hwrite (self.indexName msg) (epochMillis msg.timestamp)
  unfold indexName at hbody ⊢
  rw [← List.append_assoc, ← List.append_assoc] at hbody
  exact counted hbody w

/-- The first line is an object if the index name needs no escape. -/
theorem spells_indexAction (hindex : ∀ c ∈ self.indexPrefix, isUnescaped c = true)
    (msg : DecodedMessage) :
    SpellsObject (actionText (self.indexName msg)) (self.actionMembers msg) := by
  refine spells_action fun c hc => ?_
  simp only [indexName, List.mem_append, List.mem_singleton] at hc
  rcases hc with (hc | rfl) | hc
  · exact hindex c hc
  · decide
  · exact isUnescaped_indexDate _ c hc

/-- The two lines of a message, where the index name needs no escape. -/
theorem writes_message (hindex : ∀ c ∈ self.indexPrefix, isUnescaped c = true)
    (msg : DecodedMessage) :
    ∃ action data, SpellsObject action (self.actionMembers msg) ∧
      SpellsObject data (self.dataMembers hexEncode msg) ∧
      ∀ w : W, self.writeMessage hexEncode w msg =
        (writeAll w (terminated [action, data]), utf8Len (terminated [action, data])) := by
  obtain ⟨data, hdata, hwrite⟩ := writes_actionData (W := W) hexEncode self msg
  exact ⟨_, data, spells_indexAction self hindex msg, hdata, hwrite⟩

end EkWriter

end Parts

/-! ## What a reader gets -/

/-- A strict parser takes the line for one object with these members, and the line has
no line break. -/
structure ParsesTo (line : Text) (members : List (Text × Json)) : Prop where
  parse : Json.parse line = some (.obj members)
  oneLine : '\n' ∉ line

theorem SpellsObject.parsesTo {line : Text} {members : List (Text × Json)}
    (h : SpellsObject line members) : ParsesTo line members :=
  ⟨parse_of_spells (.compact h.1), h.2⟩

/-- What both writers append, for every selection of fields, is lines that a strict
parser takes for one object each, with the values of the record; and every string is
read back as it was. -/
theorem lines_parse (hexEncode : Bytes → Text) (fields mapFields : List Text)
    (explode : Option Text) (indexPrefix : Text) (msg : DecodedMessage) (evt : PacketEvent)
    (s buffer : Text) :
    (∃ lines, ((NdjsonWriter.new fields explode mapFields).writeTlsRecord hexEncode buffer msg).1 =
          buffer ++ terminated lines ∧
        List.Forall₂ ParsesTo lines
          ((NdjsonWriter.new fields explode mapFields).recordMembers hexEncode msg)) ∧
      (∃ line, ((NdjsonWriter.new fields explode mapFields).writePacketEvent buffer evt).1 =
          buffer ++ terminated [line] ∧
        ParsesTo line ((NdjsonWriter.new fields explode mapFields).eventMembers evt)) ∧
      ((∀ c ∈ indexPrefix, isUnescaped c = true) →
        ∃ action data, ((EkWriter.mk fields indexPrefix).writeMessage hexEncode buffer msg).1 =
            buffer ++ terminated [action, data] ∧
          ParsesTo action ((EkWriter.mk fields indexPrefix).actionMembers msg) ∧
          ParsesTo data ((EkWriter.mk fields indexPrefix).dataMembers hexEncode msg)) ∧
      ∃ text, writeJsonString buffer s = buffer ++ text ∧ Json.parse text = some (.str s) := by
  refine ⟨?_, ?_, fun hindex => ?_, ?_⟩
  · obtain ⟨lines, hlines, hwrite⟩ := NdjsonWriter.writes_tlsRecord (W := Text) hexEncode
      (NdjsonWriter.new fields explode mapFields) msg
    exact ⟨lines, congrArg Prod.fst (hwrite buffer),
      hlines.imp fun _ _ hspells => hspells.parsesTo⟩
  · obtain ⟨line, hvalue, hline, hwrite⟩ := NdjsonWriter.writes_packetEvent (W := Text)
      (NdjsonWriter.new fields explode mapFields) evt
    refine ⟨line, ?_, SpellsObject.parsesTo ⟨hvalue, hline⟩⟩
    rw [terminated_singleton]
    exact congrArg Prod.fst (hwrite buffer)
  · obtain ⟨action, data, haction, hdata, hwrite⟩ := EkWriter.writes_message (W := Text) hexEncode
      (EkWriter.mk fields indexPrefix) hindex msg
    exact ⟨action, data, congrArg Prod.fst (hwrite buffer), haction.parsesTo, hdata.parsesTo⟩
  · obtain ⟨text, htext, -, hwrite⟩ := (writes_jsonString (W := Text) s).string
    exact ⟨text, hwrite buffer, parse_of_spells (.compact htext)⟩

/-- A message with a subtree of two fields, one of which needs escapes. -/
def quotedMsg : DecodedMessage where
  srcIp := .v4 0x0a000001
  dstIp := .v4 0x0a000002
  srcPort := 51234
  dstPort := 9410
  tlsAppData := [0xaa]
  fields := .mk [("myproto".toList, .tree (.mk [("myproto.name".toList, .str "say \"hi\"".toList),
    ("myproto.count".toList, .uInt 2)] none none []))] none none []
  timestamp := 0

/-- Both writers' lines of a message with recorded fields, under an index whose name needs
no escape. -/
theorem lines_parse_plain :
    let ndjson := NdjsonWriter.new ["tcp".toList, "myproto".toList] none []
    let ek := EkWriter.mk ["tcp.srcport".toList, "myproto.name".toList] "packets".toList
    (∃ lines, (ndjson.writeTlsRecord FieldValue.hexEncode [] quotedMsg).1 =
          [] ++ terminated lines ∧
        List.Forall₂ ParsesTo lines (ndjson.recordMembers FieldValue.hexEncode quotedMsg)) ∧
      ∃ action data, (ek.writeMessage FieldValue.hexEncode [] quotedMsg).1 =
          [] ++ terminated [action, data] ∧
        ParsesTo action (ek.actionMembers quotedMsg) ∧
        ParsesTo data [("timestamp".toList, .str ['0']),
          ("layers".toList, .obj [("tcp_srcport".toList, .arr [.str "51234".toList]),
            ("myproto_name".toList, .arr [.str "say \"hi\"".toList])])] := by
  obtain ⟨hndjson, -, -, -⟩ := lines_parse FieldValue.hexEncode
    ["tcp".toList, "myproto".toList] [] none [] quotedMsg
    ⟨.v4 0, .v4 0, 0, 0, 0, 0, [], 0, 0⟩ [] []
  obtain ⟨-, -, hek, -⟩ := lines_parse FieldValue.hexEncode
    ["tcp.srcport".toList, "myproto.name".toList] [] none "packets".toList quotedMsg
    ⟨.v4 0, .v4 0, 0, 0, 0, 0, [], 0, 0⟩ [] []
  exact ⟨hndjson, hek (List.all_eq_true.mp (by decide))⟩

end Tlscap
