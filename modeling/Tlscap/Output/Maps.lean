import Tlscap.Output.Lines
import Mathlib.Data.List.ReduceOption

/-!
# Groups rendered as maps

A map keeps the occurrences of a group that have a name leaf and a value leaf.  Both are
looked up among the strings of an occurrence only, the last one of a name counts; an
occurrence whose value is a number is dropped like one without a name.

## Strategy

An occurrence is one of four kinds, by its leaves called `name` and `value`:

* **Strings for both** (`CarriesString`).  They make an entry, and it shows the occurrence
  (`exists_mapMember`).
* **Both, but one of them never a string.**  The occurrence should give an entry and does
  not.
* **One of them missing.**  It is dropped, as it should be.
* **No subtree.**  It has no leaves at all.

The entries come in the order of the occurrences, so that as many are emitted as there are
occurrences of the first kind (`countP_mapMember`).  A map therefore drops only unnamed
occurrences exactly if there are none of the second (`map_dropsOnlyUnnamed_iff`).
-/

namespace Tlscap

open Json

/-! ## Leaves of an occurrence -/

/-- An occurrence has a leaf of a short name. -/
def HasLeafNamed (enclosing short : Text) (occurrence leaf : FieldValue) : Prop :=
  leaf.isTree = false ∧ ∃ child name, occurrence = .tree child ∧
    (name, leaf) ∈ child.entries ∧ shortName enclosing name = short

/-- The text of an entry, if it is a string of a short name. -/
def stringNamed (enclosing short : Text) (entry : Text × FieldValue) : Option Text :=
  match entry.2 with
  | .str s => if shortName enclosing entry.1 = short then some s else none
  | _ => none

/-- The strings of an occurrence that have a short name. -/
def stringsNamed (enclosing short : Text) (fields : FrameFields) : List Text :=
  fields.entries.filterMap (stringNamed enclosing short)

theorem mem_stringsNamed {enclosing short s : Text} {fields : FrameFields} :
    s ∈ stringsNamed enclosing short fields ↔
      HasLeafNamed enclosing short (.tree fields) (.str s) := by
  unfold stringsNamed HasLeafNamed
  rw [List.mem_filterMap]
  constructor
  · rintro ⟨⟨name, leaf⟩, hentry, hleaf⟩
    cases leaf with
    | str text =>
        obtain ⟨hshort, htext⟩ := Option.ite_none_right_eq_some.mp hleaf
        obtain rfl := Option.some.inj htext
        exact ⟨rfl, fields, name, rfl, hentry, hshort⟩
    | uInt n => cases hleaf
    | bytes b => cases hleaf
    | tree child => cases hleaf
  · rintro ⟨-, child, name, hchild, hentry, hshort⟩
    obtain rfl := FieldValue.tree.inj hchild
    exact ⟨(name, .str s), hentry, if_pos hshort⟩

/-- The last strings are taken. -/
theorem mapEntry_eq (enclosing : Text) (fields : FrameFields) :
    mapEntry enclosing fields =
      ((stringsNamed enclosing "name".toList fields).getLast?,
        (stringsNamed enclosing "value".toList fields).getLast?) := by
  have hlast : ∀ (short : Text) (entry : Text × FieldValue),
      ([entry].filterMap (stringNamed enclosing short)).getLast? =
        stringNamed enclosing short entry := by
    intro short entry
    rw [List.filterMap_cons]
    cases stringNamed enclosing short entry with
    | none => rfl
    | some s => rfl
  unfold mapEntry stringsNamed
  induction fields.entries using List.reverseRecOn with
  | nil => rfl
  | append_singleton entries entry ih =>
      rw [List.foldl_append, ih, List.filterMap_append, List.filterMap_append,
        List.getLast?_append, List.getLast?_append, hlast, hlast]
      obtain ⟨name, leaf⟩ := entry
      cases leaf with
      | str s =>
          dsimp only [List.foldl_cons, List.foldl_nil, stringNamed]
          by_cases hname : shortName enclosing name = "name".toList
          · have hvalue : shortName enclosing name ≠ "value".toList := by
              rw [hname]
              decide
            rw [if_pos hname, if_pos hname, if_neg hvalue, Option.some_or, Option.none_or]
          · by_cases hvalue : shortName enclosing name = "value".toList
            · rw [if_neg hname, if_neg hname, if_pos hvalue, if_pos hvalue, Option.none_or,
                Option.some_or]
            · rw [if_neg hname, if_neg hname, if_neg hvalue, if_neg hvalue, Option.none_or,
                Option.none_or]
      | uInt n => rfl
      | bytes b => rfl
      | tree child => rfl

/-- An occurrence has a leaf of a short name, of any kind. -/
def Carries (enclosing short : Text) (occurrence : FieldValue) : Prop :=
  ∃ leaf, HasLeafNamed enclosing short occurrence leaf

/-- An occurrence has a leaf of a short name that is a string. -/
def CarriesString (enclosing short : Text) (occurrence : FieldValue) : Prop :=
  ∃ s, HasLeafNamed enclosing short occurrence (.str s)

theorem mapMember_tree (enclosing : Text) (child : FrameFields) :
    mapMember enclosing (.tree child) =
      (stringsNamed enclosing "name".toList child).getLast?.bind fun key =>
        (stringsNamed enclosing "value".toList child).getLast?.map fun value => (key, value) := by
  unfold mapMember
  dsimp only
  rw [mapEntry_eq]
  cases (stringsNamed enclosing "name".toList child).getLast? with
  | none => rfl
  | some key =>
      cases (stringsNamed enclosing "value".toList child).getLast? with
      | none => rfl
      | some value => rfl

/-- An entry is given by two strings of the occurrence. -/
theorem hasLeafNamed_of_mapMember {enclosing key value : Text} {occurrence : FieldValue}
    (h : mapMember enclosing occurrence = some (key, value)) :
    HasLeafNamed enclosing "name".toList occurrence (.str key) ∧
      HasLeafNamed enclosing "value".toList occurrence (.str value) := by
  cases occurrence with
  | tree child =>
      rw [mapMember_tree] at h
      obtain ⟨lastName, hname, h⟩ := Option.bind_eq_some_iff.mp h
      obtain ⟨lastValue, hvalue, h⟩ := Option.map_eq_some_iff.mp h
      obtain ⟨rfl, rfl⟩ := Prod.mk.inj h
      exact ⟨mem_stringsNamed.mp (List.mem_of_getLast? hname),
        mem_stringsNamed.mp (List.mem_of_getLast? hvalue)⟩
  | uInt n => cases h
  | str s => cases h
  | bytes b => cases h

/-- Two strings give an entry. -/
theorem exists_mapMember {enclosing : Text} {occurrence : FieldValue}
    (hname : CarriesString enclosing "name".toList occurrence)
    (hvalue : CarriesString enclosing "value".toList occurrence) :
    ∃ entry, mapMember enclosing occurrence = some entry := by
  obtain ⟨name, hname⟩ := hname
  obtain ⟨value, hvalue⟩ := hvalue
  obtain ⟨-, child, -, rfl, -, -⟩ := id hname
  have hnames := List.ne_nil_of_mem (mem_stringsNamed.mpr hname)
  have hvalues := List.ne_nil_of_mem (mem_stringsNamed.mpr hvalue)
  rw [mapMember_tree, List.getLast?_eq_some_getLast hnames,
    List.getLast?_eq_some_getLast hvalues]
  exact ⟨_, rfl⟩

/-! ## Occurrences and entries -/

section Entries

variable (hexEncode : Bytes → Text) (mapFields : Finset Text) (enclosing : Text)

/-- An entry that shows an occurrence: its key is the text of a name leaf, its value is
what a value leaf says elsewhere. -/
structure EntryOf (occurrence : FieldValue) (entry : Text × Json) : Prop where
  key : ∃ leaf, HasLeafNamed enclosing "name".toList occurrence leaf ∧
    entry.1 = leaf.toOutputString
  value : ∃ leaf, HasLeafNamed enclosing "value".toList occurrence leaf ∧
    entry.2 = fieldJson hexEncode mapFields leaf enclosing

/-- What an occurrence should give a map. -/
structure Gives (occurrence : FieldValue) (given : Option (Text × Json)) : Prop where
  named : Carries enclosing "name".toList occurrence →
    Carries enclosing "value".toList occurrence →
      ∃ entry ∈ given, EntryOf hexEncode mapFields enclosing occurrence entry
  unnamed : ¬Carries enclosing "name".toList occurrence → given = none

/-- The entries of a map are given by the occurrences, one by one. -/
def DropsOnlyUnnamed (occurrences : List FieldValue) (members : List (Text × Json)) : Prop :=
  ∃ given, List.Forall₂ (Gives hexEncode mapFields enclosing) occurrences given ∧
    members = given.reduceOption

end Entries

/-- Related lists with no more hits in the second than in the first, where every hit in
the first is one in the second. -/
theorem hit_of_countP_le {α β : Type} {R : α → β → Prop} {p : α → Bool} {q : β → Bool}
    {first : List α} {second : List β} (h : List.Forall₂ R first second)
    (himp : ∀ a b, R a b → p a → q b) (hcount : second.countP q ≤ first.countP p) :
    ∀ a ∈ first, ∃ b ∈ second, R a b ∧ (q b → p a) := by
  have hle : ∀ {first : List α} {second : List β}, List.Forall₂ R first second →
      first.countP p ≤ second.countP q := by
    intro first second h
    induction h with
    | nil => exact Nat.le_refl 0
    | @cons a b first second hab _ ih =>
        by_cases ha : p a
        · rw [List.countP_cons_of_pos ha, List.countP_cons_of_pos (himp a b hab ha)]
          exact Nat.succ_le_succ ih
        · rw [List.countP_cons_of_neg ha]
          exact ih.trans (List.sublist_cons_self b second).countP_le
  induction h with
  | nil => exact fun a ha => absurd ha List.not_mem_nil
  | @cons a b first second hab hrest ih =>
      have hback : (q b → p a) ∧ second.countP q ≤ first.countP p := by
        by_cases ha : p a
        · rw [List.countP_cons_of_pos ha, List.countP_cons_of_pos (himp a b hab ha)] at hcount
          exact ⟨fun _ => ha, Nat.le_of_succ_le_succ hcount⟩
        · rw [List.countP_cons_of_neg ha] at hcount
          by_cases hb : q b
          · -- a hit in the second list alone is one too many
            rw [List.countP_cons_of_pos hb] at hcount
            exact absurd (hle hrest) (Nat.not_le_of_lt hcount)
          · rw [List.countP_cons_of_neg hb] at hcount
            exact ⟨fun hb' => absurd hb' hb, hcount⟩
      intro other hother
      rcases List.mem_cons.mp hother with rfl | hother
      · exact ⟨b, List.mem_cons_self, hab, hback.1⟩
      · obtain ⟨related, hmem, hrelated⟩ := ih hback.2 other hother
        exact ⟨related, List.mem_cons_of_mem b hmem, hrelated⟩

/-! ## Numbers among the values -/

section Emitted

variable (hexEncode : Bytes → Text) (mapFields : Finset Text) (values : List FieldValue)
  (enclosing : Text)

theorem mapMembers_eq : mapMembers values enclosing =
    (values.map fun v =>
      (mapMember enclosing v).map fun entry => (entry.1, Json.str entry.2)).reduceOption := by
  rw [mapMembers, List.map_filterMap, List.reduceOption, List.filterMap_map]
  rfl

/-- The emitted entries are what the occurrences should give, if no name and no value is
looked for in vain among the strings. -/
theorem dropsOnlyUnnamed_mapMembers
    (hstrings : ∀ occurrence ∈ values, Carries enclosing "name".toList occurrence →
      Carries enclosing "value".toList occurrence →
        CarriesString enclosing "name".toList occurrence ∧
          CarriesString enclosing "value".toList occurrence) :
    DropsOnlyUnnamed hexEncode mapFields enclosing values (mapMembers values enclosing) := by
  refine ⟨_, ?_, mapMembers_eq values enclosing⟩
  rw [List.forall₂_map_right_iff, List.forall₂_same]
  intro occurrence hoccurrence
  constructor
  · intro hname hvalue
    obtain ⟨hnameString, hvalueString⟩ := hstrings occurrence hoccurrence hname hvalue
    obtain ⟨⟨key, value⟩, hentry⟩ := exists_mapMember hnameString hvalueString
    obtain ⟨hkey, hshown⟩ := hasLeafNamed_of_mapMember hentry
    refine ⟨(key, .str value), by rw [hentry]; rfl, ⟨_, hkey, rfl⟩, ⟨_, hshown, ?_⟩⟩
    rw [fieldJson]
  · intro hunnamed
    rw [Option.map_eq_none_iff]
    by_contra hsome
    obtain ⟨⟨key, value⟩, hentry⟩ := Option.ne_none_iff_exists'.mp hsome
    exact hunnamed ⟨_, (hasLeafNamed_of_mapMember hentry).1⟩

theorem countP_mapMember :
    values.countP (fun v => (mapMember enclosing v).isSome) =
      (mapMembers values enclosing).length := by
  rw [mapMembers, List.length_map, List.length_filterMap_eq_countP]

/-- As many entries are emitted as occurrences have the strings, so that no other
occurrence may have a name and a value. -/
theorem strings_of_dropsOnlyUnnamed
    (h : DropsOnlyUnnamed hexEncode mapFields enclosing values (mapMembers values enclosing)) :
    ∀ occurrence ∈ values, Carries enclosing "name".toList occurrence →
      Carries enclosing "value".toList occurrence →
        CarriesString enclosing "name".toList occurrence ∧
          CarriesString enclosing "value".toList occurrence := by
  obtain ⟨given, hgiven, hmembers⟩ := h
  have hcount : given.countP Option.isSome =
      values.countP (fun v => (mapMember enclosing v).isSome) := by
    rw [countP_mapMember, hmembers, List.reduceOption_length_eq, List.countP_eq_length_filter]
  have hgives : ∀ occurrence part, Gives hexEncode mapFields enclosing occurrence part →
      (mapMember enclosing occurrence).isSome → part.isSome := by
    intro occurrence part hpart hsome
    obtain ⟨⟨key, value⟩, hentry⟩ := Option.isSome_iff_exists.mp hsome
    obtain ⟨hkey, hshown⟩ := hasLeafNamed_of_mapMember hentry
    obtain ⟨entry, hmem, -⟩ := hpart.named ⟨_, hkey⟩ ⟨_, hshown⟩
    exact Option.isSome_iff_exists.mpr ⟨entry, hmem⟩
  intro occurrence hoccurrence hname hvalue
  obtain ⟨part, -, hpart, hback⟩ :=
    hit_of_countP_le hgiven hgives hcount.le occurrence hoccurrence
  obtain ⟨entry, hmem, -⟩ := hpart.named hname hvalue
  obtain ⟨⟨key, value⟩, hentry⟩ :=
    Option.isSome_iff_exists.mp (hback (Option.isSome_iff_exists.mpr ⟨entry, hmem⟩))
  obtain ⟨hkey, hshown⟩ := hasLeafNamed_of_mapMember hentry
  exact ⟨⟨key, hkey⟩, value, hshown⟩

/-- The text a mapped group is written as. -/
theorem writes_mapped {short : Text} (hmapped : short ∈ mapFields) (buffer : Text) :
    ∃ text, writeNamedValue hexEncode mapFields buffer short values enclosing = buffer ++ text ∧
      Json.parse text = some (.obj (mapMembers values enclosing)) := by
  obtain ⟨text, htext, -, hwrite⟩ := writes_map (W := Text) values enclosing
  refine ⟨text, ?_, Json.parse_eq_some_iff.mpr (.compact htext)⟩
  rw [writeNamedValue, if_pos hmapped]
  exact hwrite buffer

/-- A mapped group drops only unnamed occurrences exactly if no occurrence with a name leaf
and a value leaf has only names, or only values, that are not strings. -/
theorem map_dropsOnlyUnnamed_iff {short : Text} (hmapped : short ∈ mapFields) (buffer : Text) :
    ∃ text members,
      writeNamedValue hexEncode mapFields buffer short values enclosing = buffer ++ text ∧
      Json.parse text = some (.obj members) ∧
      (DropsOnlyUnnamed hexEncode mapFields enclosing values members ↔
        ∀ occurrence ∈ values, Carries enclosing "name".toList occurrence →
          Carries enclosing "value".toList occurrence →
            CarriesString enclosing "name".toList occurrence ∧
              CarriesString enclosing "value".toList occurrence) := by
  obtain ⟨text, hwrite, hparse⟩ :=
    writes_mapped hexEncode mapFields values enclosing hmapped buffer
  exact ⟨text, mapMembers values enclosing, hwrite, hparse,
    strings_of_dropsOnlyUnnamed hexEncode mapFields values enclosing,
    dropsOnlyUnnamed_mapMembers hexEncode mapFields values enclosing⟩

end Emitted

namespace FieldMap

/-- An occurrence with a number for a value. -/
def counted : FieldValue :=
  .tree (.mk [("field.name".toList, .str "sequence".toList), ("field.value".toList, .uInt 7)]
    none none [])

/-- An occurrence with a string for a value. -/
def echoed : FieldValue :=
  .tree (.mk [("field.number".toList, .uInt 2), ("field.name".toList, .str "echo".toList),
    ("field.value".toList, .str "abc".toList)] none none [])

/-- An occurrence without a name. -/
def nameless : FieldValue :=
  .tree (.mk [("field.number".toList, .uInt 66), ("field.value".toList, .str "x".toList)]
    none none [])

/-- The number is missing from the map. -/
theorem number_dropped :
    writeNamedValue FieldValue.hexEncode {"field".toList} ([] : Text) "field".toList [counted]
        "field".toList = "\x7b\x7d".toList ∧
      Json.parse "\x7b\x7d".toList = some (.obj []) ∧
      ¬DropsOnlyUnnamed FieldValue.hexEncode {"field".toList} "field".toList [counted] [] := by
  have hname : Carries "field".toList "name".toList counted :=
    ⟨_, rfl, _, "field.name".toList, rfl, List.mem_cons_self, by decide⟩
  have hvalue : Carries "field".toList "value".toList counted :=
    ⟨_, rfl, _, "field.value".toList, rfl, List.mem_cons_of_mem _ List.mem_cons_self, by decide⟩
  refine ⟨?_, rfl, ?_⟩
  · rw [writeNamedValue, if_pos (Finset.mem_singleton_self _)]
    decide
  · rintro ⟨given, hgiven, hmembers⟩
    obtain ⟨part, rest, hpart, -, rfl⟩ := List.forall₂_cons_left_iff.mp hgiven
    obtain ⟨entry, hentry, -⟩ := hpart.named hname hvalue
    rw [Option.mem_def.mp hentry] at hmembers
    cases hmembers

/-- The occurrence without a name is dropped, the other one is not. -/
theorem nameless_dropped : ∃ text members,
    writeNamedValue FieldValue.hexEncode {"field".toList} ([] : Text) "field".toList
        [echoed, nameless] "field".toList = [] ++ text ∧
      Json.parse text = some (.obj members) ∧
      DropsOnlyUnnamed FieldValue.hexEncode {"field".toList} "field".toList [echoed, nameless]
        members := by
  obtain ⟨text, members, hwrite, hparse, hiff⟩ :=
    map_dropsOnlyUnnamed_iff FieldValue.hexEncode {"field".toList} [echoed, nameless]
      "field".toList (Finset.mem_singleton_self "field".toList) []
  refine ⟨text, members, hwrite, hparse, hiff.mpr ?_⟩
  intro occurrence hoccurrence hname _
  rcases List.mem_pair.mp hoccurrence with rfl | rfl
  · exact ⟨⟨"echo".toList, rfl, _, "field.name".toList, rfl, by simp [FrameFields.entries],
        by decide⟩,
      "abc".toList, rfl, _, "field.value".toList, rfl, by simp [FrameFields.entries], by decide⟩
  · obtain ⟨leaf, -, child, name, hchild, hentry, hshort⟩ := hname
    obtain rfl := FieldValue.tree.inj hchild
    rcases List.mem_pair.mp hentry with hnumber | hvalue
    · obtain ⟨rfl, -⟩ := Prod.mk.inj hnumber
      exact absurd hshort (by decide)
    · obtain ⟨rfl, -⟩ := Prod.mk.inj hvalue
      exact absurd hshort (by decide)

end FieldMap

end Tlscap
