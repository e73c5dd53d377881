import Tlscap.Library.Json.Compact
import Tlscap.Library.Json.Exact
import Tlscap.Library.Json.Strict
import Tlscap.Library.Json.Values

/-!
# Quotation marks

Every name and every string of a text takes two quotation marks, so a text with fewer
spells no name at all (`distinct_of_spells`).  And where a text opens a string behind
which it has one quotation mark, that mark can only be the string's end
(`rest_of_parseQuoted`); where it has none, the text spells nothing.

The induction is on the length of the text: a value is spelled by a text that is longer
than those of the values it is made of.
-/

namespace Json

variable {text rest value : List Char}

/-! ## Texts without quotation marks -/

theorem Space.not_quote (h : Space text) : '"' ∉ text :=
  fun hmem => absurd (h _ hmem) (by decide)

theorem Digits.not_quote (h : Digits text) : '"' ∉ text :=
  fun hmem => absurd (h.2 _ hmem) (by decide)

theorem Fraction.not_quote {digits : List Char} (h : Fraction text digits) : '"' ∉ text := by
  cases h with
  | absent => exact List.not_mem_nil
  | present hdigits => simpa using hdigits.not_quote

theorem Signed.not_quote {exponent : ℤ} (h : Signed text exponent) : '"' ∉ text := by
  cases h with
  | bare hdigits => exact hdigits.not_quote
  | plus hdigits => simpa using hdigits.not_quote
  | minus hdigits => simpa using hdigits.not_quote

theorem Exponent.not_quote {exponent : ℤ} (h : Exponent text exponent) : '"' ∉ text := by
  cases h with
  | absent => exact List.not_mem_nil
  | present he hsigned =>
      rw [List.mem_cons, not_or]
      exact ⟨by rcases he with rfl | rfl <;> decide, hsigned.not_quote⟩

theorem Magnitude.not_quote {mantissa exponent : ℤ} (h : Magnitude text mantissa exponent) :
    '"' ∉ text := by
  cases h with
  | mk hint hfraction hexponent =>
      simp only [List.mem_append, not_or]
      exact ⟨hint.1.not_quote, hfraction.not_quote, hexponent.not_quote⟩

theorem Number.not_quote {mantissa exponent : ℤ} (h : Number text mantissa exponent) :
    '"' ∉ text := by
  cases h with
  | bare hmagnitude => exact hmagnitude.not_quote
  | minus hmagnitude => simpa using hmagnitude.not_quote

/-! ## How many a text takes -/

theorem Quoted.two_le_count (h : Quoted text value) : 2 ≤ text.count '"' := by
  cases h with
  | @mk text _ hcharacters =>
      rw [List.count_cons_self, List.count_append, List.count_singleton_self]
      omega

theorem Member.two_le_count {Item : List Char → Json → Prop} {member : List Char × Json}
    (h : Member Item text member) : 2 ≤ text.count '"' := by
  cases h with
  | @mk before name after text key value hbefore hname hafter hvalue =>
      have hcount := hname.two_le_count
      rw [List.count_append, List.count_append]
      omega

/-- A text that spells a value has two quotation marks, or none and no names. -/
def Unquoted (text : List Char) (value : Json) : Prop :=
  2 ≤ text.count '"' ∨ '"' ∉ text ∧ NamesDistinct value

/-- The items of an array, given that the shorter texts are as they should be. -/
theorem separated_unquoted {items : List Json} {bound : ℕ}
    (hvalue : ∀ {text : List Char} {value : Json}, Value text value → text.length ≤ bound →
      Unquoted text value)
    (h : Separated (Padded Value) text items) (hbound : text.length ≤ bound) :
    2 ≤ text.count '"' ∨ '"' ∉ text ∧ ∀ item ∈ items, NamesDistinct item := by
  have hpadded : ∀ {text : List Char} {value : Json}, Padded Value text value →
      text.length ≤ bound → Unquoted text value := by
    rintro _ _ ⟨hbefore, hitem, hafter⟩ hlength
    simp only [List.length_append] at hlength
    rcases hvalue hitem (by omega) with hcount | ⟨hquote, hdistinct⟩
    · refine .inl ?_
      rw [List.count_append, List.count_append]
      omega
    · simp only [Unquoted, List.mem_append, not_or]
      exact .inr ⟨⟨hbefore.not_quote, hquote, hafter.not_quote⟩, hdistinct⟩
  induction h with
  | last hitem =>
      rw [List.forall_mem_singleton]
      exact hpadded hitem hbound
  | @cons text rest item items hitem hrest ih =>
      simp only [List.length_append, List.length_cons] at hbound
      rw [List.count_append, List.count_cons_of_ne (by decide), List.forall_mem_cons]
      rcases hpadded hitem (by omega) with hcount | ⟨hquote, hdistinct⟩
      · exact .inl (by omega)
      · rcases ih (by omega) with hcount | ⟨hquotes, hdistincts⟩
        · exact .inl (by omega)
        · simp only [List.mem_append, List.mem_cons, not_or]
          exact .inr ⟨⟨hquote, by decide, hquotes⟩, hdistinct, hdistincts⟩

theorem Value.unquoted {value : Json} (h : Value text value) : Unquoted text value := by
  obtain ⟨bound, hbound⟩ : ∃ bound, text.length ≤ bound := ⟨_, le_rfl⟩
  induction bound generalizing text value with
  | zero =>
      obtain ⟨c, more, rfl, -⟩ := h.head
      exact absurd hbound (by simp)
  | succ bound ih =>
      cases h with
      | null => exact .inr ⟨by decide, .null⟩
      | literalTrue => exact .inr ⟨by decide, .bool⟩
      | literalFalse => exact .inr ⟨by decide, .bool⟩
      | number hnumber => exact .inr ⟨hnumber.not_quote, .num⟩
      | string hquoted => exact .inl hquoted.two_le_count
      | emptyArray hspace => exact .inr ⟨by simpa using hspace.not_quote, .arr (by simp)⟩
      | @array text items hitems =>
          simp only [List.length_cons, List.length_append] at hbound
          rcases separated_unquoted ih hitems (by omega) with hcount | ⟨hquote, hdistinct⟩
          · refine .inl ?_
            rw [List.count_cons_of_ne (by decide), List.count_append]
            omega
          · exact .inr ⟨by simpa using hquote, .arr hdistinct⟩
      | emptyObject hspace =>
          exact .inr ⟨by simpa using hspace.not_quote, .obj (by simp) (by simp)⟩
      | @object text members hmembers =>
          -- its first member has a name
          refine .inl ?_
          rw [List.count_cons_of_ne (by decide), List.count_append]
          cases hmembers with
          | last hmember =>
              have hcount := hmember.two_le_count
              omega
          | cons hmember _ =>
              have hcount := hmember.two_le_count
              rw [List.count_append]
              omega

/-- A text with at most one quotation mark spells no name twice. -/
theorem distinct_of_spells {value : Json} (h : Spells text value) (hcount : text.count '"' ≤ 1) :
    NamesDistinct value := by
  cases h with
  | mk hbefore hvalue hafter =>
      rw [List.count_append, List.count_append] at hcount
      rcases hvalue.unquoted with htwo | ⟨-, hdistinct⟩
      · omega
      · exact hdistinct

/-! ## The last string of a text -/

/-- A string is not ended where there is no quotation mark. -/
theorem parseQuoted_eq_none (htext : '"' ∉ text) : parseQuoted ('"' :: text) = none := by
  rw [Option.eq_none_iff_forall_ne_some]
  rintro ⟨value, rest⟩ h
  obtain ⟨front, hsplit, hquoted⟩ := quoted_of_parse h
  have hcount := congrArg (List.count '"') hsplit
  rw [List.count_cons_self, List.count_eq_zero_of_not_mem htext, List.count_append] at hcount
  have htwo := hquoted.two_le_count
  omega

/-- A string before the last quotation mark ends with it. -/
theorem rest_of_parseQuoted {after : List Char} (htext : '"' ∉ text) (hrest : '"' ∉ rest)
    (h : parseQuoted ('"' :: (text ++ '"' :: rest)) = some (value, after)) : after = rest := by
  obtain ⟨front, hsplit, hquoted⟩ := quoted_of_parse h
  cases hquoted with
  | @mk inner _ hcharacters =>
      simp only [List.cons_append, List.append_assoc, List.cons.injEq, true_and,
        List.nil_append] at hsplit
      exact ((List.append_cons_inj_of_notMem htext hrest).mp hsplit).2.2.symm

/-! ## One member -/

section Member

variable {name : List Char} {fuel : ℕ}

theorem skipSpace_of_head {c : Char} (hc : isSpace c = false) (text : List Char) :
    skipSpace (c :: text) = c :: text := by
  rw [skipSpace, List.dropWhile_cons_of_neg (by simp [hc])]

theorem padded_of_head {c : Char} (hc : isSpace c = false)
    (parser : List Char → Option (Json × List Char)) (text : List Char) :
    padded parser (c :: text) = (parser (c :: text)).map fun p => (p.1, skipSpace p.2) := by
  rw [padded, skipSpace_of_head hc]

/-- Reading a string as a value. -/
theorem padded_quoted (text : List Char) :
    padded (parseValue (fuel + 1)) ('"' :: text) =
      (parseQuoted ('"' :: text)).map fun p => (.str p.1, skipSpace p.2) := by
  rw [padded_of_head rfl, parseValue, if_pos rfl, Option.map_map]
  rfl

/-- What is read of a member whose name is plain. -/
theorem parseMember_plain (hname : ∀ c ∈ name, isUnescaped c = true)
    (parser : List Char → Option (Json × List Char)) (text : List Char) :
    parseMember parser ('"' :: (name ++ '"' :: ':' :: text)) =
      (padded parser text).map fun p => ((name, p.1), p.2) := by
  have hquoted := parseQuoted_append (Quoted.plain hname) (':' :: text)
  rw [List.cons_append, List.append_assoc, List.singleton_append] at hquoted
  rw [parseMember, skipSpace_of_head rfl, hquoted, Option.bind_some, skipSpace_of_head rfl,
    parseMemberValue, if_pos rfl]

/-- An object is read by its first member. -/
theorem parseValue_object (text : List Char) :
    parseValue (fuel + 1) ('{' :: '"' :: text) =
      (parseSeparated (parseMember (parseValue fuel)) '}' (text.length + 1) ('"' :: text)).map
        fun p => (.obj p.1, p.2) := by
  rw [parseValue, if_neg (by decide), if_neg (by decide), if_pos rfl, parseEnclosed, if_neg]
  · rfl
  · simp [skipSpace, isSpace]

/-- If the value of the first member is not read, the object is not either. -/
theorem parseValue_object_none (hname : ∀ c ∈ name, isUnescaped c = true) (text : List Char)
    (htext : padded (parseValue fuel) text = none) :
    parseValue (fuel + 1) ('{' :: '"' :: (name ++ '"' :: ':' :: text)) = none := by
  rw [parseValue_object, parseSeparated, parseMember_plain hname, htext]
  rfl

/-- If the object is closed behind the value of its first member, that is all of it. -/
theorem parseValue_object_some (hname : ∀ c ∈ name, isUnescaped c = true) (text : List Char)
    {member : Json} (htext : padded (parseValue fuel) text = some (member, '}' :: rest)) :
    parseValue (fuel + 1) ('{' :: '"' :: (name ++ '"' :: ':' :: text)) =
      some (.obj [(name, member)], rest) := by
  rw [parseValue_object, parseSeparated, parseMember_plain hname, htext]
  rfl

/-- A text that opens an object in the only member of another, up to a string. -/
def nestedObject (outer inner tail : List Char) : List Char :=
  '{' :: '"' :: (outer ++ '"' :: ':' :: '{' :: '"' :: (inner ++ '"' :: ':' :: '"' :: tail))

theorem nestedObject_append (outer inner tail more : List Char) :
    nestedObject outer inner (tail ++ more) = nestedObject outer inner tail ++ more := by
  simp only [nestedObject, List.cons_append, List.append_assoc]

theorem length_nestedObject_eq (outer inner tail : List Char) :
    ∃ fuel, (nestedObject outer inner tail).length = fuel + 3 := by
  apply Nat.exists_eq_add_of_le'
  simp only [nestedObject, List.length_cons, List.length_append]
  omega

section Nested

variable {outer inner tail : List Char} (houter : ∀ c ∈ outer, isUnescaped c = true)
  (hinner : ∀ c ∈ inner, isUnescaped c = true)
include houter hinner

/-- If the string cannot be read, the text is not JSON. -/
theorem parse_nestedObject_none (htail : parseQuoted ('"' :: tail) = none) :
    parse (nestedObject outer inner tail) = none := by
  obtain ⟨fuel, hfuel⟩ := length_nestedObject_eq outer inner tail
  have hstring : padded (parseValue (fuel + 1)) ('"' :: tail) = none := by
    rw [padded_quoted, htail, Option.map_none]
  have hobject : padded (parseValue (fuel + 2))
      ('{' :: '"' :: (inner ++ '"' :: ':' :: '"' :: tail)) = none := by
    rw [padded_of_head rfl, parseValue_object_none hinner _ hstring, Option.map_none]
  rw [parse, hfuel, nestedObject, padded_of_head rfl, parseValue_object_none houter _ hobject,
    Option.map_none, Option.bind_none]

/-- If both objects are closed behind the string, the text spells them. -/
theorem parse_nestedObject_some (htail : parseQuoted ('"' :: tail) = some (value, ['}', '}'])) :
    parse (nestedObject outer inner tail) =
      some (.obj [(outer, .obj [(inner, .str value)])]) := by
  obtain ⟨fuel, hfuel⟩ := length_nestedObject_eq outer inner tail
  have hstring : padded (parseValue (fuel + 1)) ('"' :: tail) =
      some (.str value, ['}', '}']) := by
    rw [padded_quoted, htail, Option.map_some, skipSpace_of_head rfl]
  have hobject : padded (parseValue (fuel + 2))
      ('{' :: '"' :: (inner ++ '"' :: ':' :: '"' :: tail)) =
        some (.obj [(inner, .str value)], ['}']) := by
    rw [padded_of_head rfl, parseValue_object_some hinner _ hstring, Option.map_some,
      skipSpace_of_head rfl]
  rw [parse, hfuel, nestedObject, padded_of_head rfl, parseValue_object_some houter _ hobject,
    Option.map_some, Option.bind_some]
  rfl

end Nested

end Member

end Json
