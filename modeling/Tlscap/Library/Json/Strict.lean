import Tlscap.Library.Json.Exact
import Mathlib.Data.List.TakeWhile

/-!
# The parser accepts nothing else

A text the parser accepts is derived by the grammar, with the value the parser returns
(`spells_of_parse`).  Together with `parse_of_spells` the parser decides the grammar
(`parse_eq_some_iff`).

Each scanner has one lemma: what it takes off the front of a text is the production it is for,
and the rest is what it returns.  The scanners of arrays and objects are one (`parseEnclosed`),
so they are treated once, for any sound parser of elements; and the parser of values is sound
for any fuel, by induction on it (`parseValue_sound`).
-/

namespace Json

/-! ## Numbers -/

theorem digits_of_parse {text digits rest : List Char}
    (h : parseDigits text = some (digits, rest)) :
    text = digits ++ rest ∧ Digits digits := by
  unfold parseDigits at h
  split at h
  · exact absurd h (by simp)
  · rename_i hnonempty
    simp only [Option.some.injEq, Prod.mk.injEq] at h
    obtain ⟨rfl, rfl⟩ := h
    refine ⟨(List.takeWhile_append_dropWhile).symm, by simpa using hnonempty, ?_⟩
    exact fun c hc => List.mem_takeWhile_imp hc

theorem fraction_of_parse {text digits rest : List Char}
    (h : parseFraction text = some (digits, rest)) :
    ∃ front, text = front ++ rest ∧ Fraction front digits := by
  cases text with
  | nil =>
      simp only [parseFraction, Option.some.injEq, Prod.mk.injEq] at h
      obtain ⟨rfl, rfl⟩ := h
      exact ⟨[], rfl, .absent⟩
  | cons c more =>
      rw [parseFraction] at h
      split at h
      · rename_i hpoint
        obtain ⟨rfl, hdigits⟩ := digits_of_parse h
        exact ⟨c :: digits, rfl, hpoint ▸ .present hdigits⟩
      · simp only [Option.some.injEq, Prod.mk.injEq] at h
        obtain ⟨rfl, rfl⟩ := h
        exact ⟨[], rfl, .absent⟩

theorem signed_of_parse {text rest : List Char} {value : ℤ}
    (h : parseSigned text = some (value, rest)) :
    ∃ front, text = front ++ rest ∧ Signed front value := by
  cases text with
  | nil => exact absurd h (by simp [parseSigned])
  | cons c more =>
      rw [parseSigned] at h
      split at h
      · rename_i hplus
        obtain ⟨⟨digits, rest'⟩, hparsed, heq⟩ := Option.map_eq_some_iff.mp h
        obtain ⟨rfl, hdigits⟩ := digits_of_parse hparsed
        simp only [Prod.mk.injEq] at heq
        obtain ⟨rfl, rfl⟩ := heq
        exact ⟨c :: digits, rfl, hplus ▸ .plus hdigits⟩
      · split at h
        · rename_i hminus
          obtain ⟨⟨digits, rest'⟩, hparsed, heq⟩ := Option.map_eq_some_iff.mp h
          obtain ⟨rfl, hdigits⟩ := digits_of_parse hparsed
          simp only [Prod.mk.injEq] at heq
          obtain ⟨rfl, rfl⟩ := heq
          exact ⟨c :: digits, rfl, hminus ▸ .minus hdigits⟩
        · obtain ⟨⟨digits, rest'⟩, hparsed, heq⟩ := Option.map_eq_some_iff.mp h
          obtain ⟨htext, hdigits⟩ := digits_of_parse hparsed
          simp only [Prod.mk.injEq] at heq
          obtain ⟨rfl, rfl⟩ := heq
          exact ⟨digits, htext, .bare hdigits⟩

theorem exponent_of_parse {text rest : List Char} {value : ℤ}
    (h : parseExponent text = some (value, rest)) :
    ∃ front, text = front ++ rest ∧ Exponent front value := by
  cases text with
  | nil =>
      simp only [parseExponent, Option.some.injEq, Prod.mk.injEq] at h
      obtain ⟨rfl, rfl⟩ := h
      exact ⟨[], rfl, .absent⟩
  | cons c more =>
      rw [parseExponent] at h
      split at h
      · rename_i he
        obtain ⟨front, rfl, hsigned⟩ := signed_of_parse h
        exact ⟨c :: front, rfl, .present he hsigned⟩
      · simp only [Option.some.injEq, Prod.mk.injEq] at h
        obtain ⟨rfl, rfl⟩ := h
        exact ⟨[], rfl, .absent⟩

theorem magnitude_of_parse {text rest : List Char} {mantissa exponent : ℤ}
    (h : parseMagnitude text = some (mantissa, exponent, rest)) :
    ∃ front, text = front ++ rest ∧ Magnitude front mantissa exponent := by
  simp only [parseMagnitude, Option.bind_eq_bind, Option.bind_eq_some_iff] at h
  obtain ⟨⟨int, more⟩, hint, h⟩ := h
  split at h
  · exact absurd h (by simp)
  · rename_i hzero
    simp only [Option.bind_eq_some_iff] at h
    obtain ⟨⟨digits, more'⟩, hfraction, ⟨value, more''⟩, hexponent, heq⟩ := h
    simp only [Option.some.injEq, Prod.mk.injEq] at heq
    obtain ⟨rfl, rfl, rfl⟩ := heq
    obtain ⟨rfl, hdigits⟩ := digits_of_parse hint
    obtain ⟨fraction, rfl, hfraction'⟩ := fraction_of_parse hfraction
    obtain ⟨exponent, rfl, hexponent'⟩ := exponent_of_parse hexponent
    have hpart : IntegerPart int :=
      ⟨hdigits, fun hhead => by_contra fun hne => hzero ⟨hhead, hne⟩⟩
    exact ⟨int ++ (fraction ++ exponent), by simp, .mk hpart hfraction' hexponent'⟩

theorem number_of_parse {text rest : List Char} {value : Json}
    (h : parseNumber text = some (value, rest)) :
    ∃ front, text = front ++ rest ∧ Value front value := by
  cases text with
  | nil => exact absurd h (by simp [parseNumber])
  | cons c more =>
      rw [parseNumber] at h
      split at h
      · rename_i hminus
        obtain ⟨⟨mantissa, exponent, rest'⟩, hparsed, heq⟩ := Option.map_eq_some_iff.mp h
        obtain ⟨front, rfl, hmagnitude⟩ := magnitude_of_parse hparsed
        simp only [Prod.mk.injEq] at heq
        obtain ⟨rfl, rfl⟩ := heq
        exact ⟨c :: front, rfl, hminus ▸ .number (.minus hmagnitude)⟩
      · obtain ⟨⟨mantissa, exponent, rest'⟩, hparsed, heq⟩ := Option.map_eq_some_iff.mp h
        obtain ⟨front, htext, hmagnitude⟩ := magnitude_of_parse hparsed
        simp only [Prod.mk.injEq] at heq
        obtain ⟨rfl, rfl⟩ := heq
        exact ⟨front, htext, .number (.bare hmagnitude)⟩

/-! ## Strings -/

theorem unit_of_parse {text rest : List Char} {unit : ℕ} (h : parseUnit text = some (unit, rest)) :
    ∃ a b c d, text = a :: b :: c :: d :: rest ∧ codeUnit a b c d = some unit := by
  unfold parseUnit at h
  split at h
  · rename_i a b c d rest'
    obtain ⟨unit', hunit, heq⟩ := Option.map_eq_some_iff.mp h
    simp only [Prod.mk.injEq] at heq
    obtain ⟨rfl, rfl⟩ := heq
    exact ⟨a, b, c, d, rfl, hunit⟩
  · exact absurd h (by simp)

theorem unicode_of_parse {text rest : List Char} {c : Char}
    (h : parseUnicode text = some (c, rest)) :
    ∃ front, text = front ++ rest ∧ Unicode front c := by
  rw [parseUnicode, Option.bind_eq_some_iff] at h
  obtain ⟨⟨unit, rest₀⟩, hunit, h⟩ := h
  obtain ⟨a, b, d, e, rfl, hcode⟩ := unit_of_parse hunit
  split at h
  · rename_i hvalid
    simp only [Option.some.injEq, Prod.mk.injEq] at h
    obtain ⟨rfl, rfl⟩ := h
    exact ⟨[a, b, d, e], rfl, .scalar hcode hvalid⟩
  · rename_i hinvalid
    split at h
    · rename_i hhigh
      unfold parseLow at h
      split at h
      · -- a high surrogate needs the escape of a low one behind it
        rename_i x y more hmore
        split at h
        · rename_i hescape
          obtain ⟨rfl, rfl⟩ := hescape
          rw [Option.bind_eq_some_iff] at h
          obtain ⟨⟨low, rest'⟩, hunit', h⟩ := h
          obtain ⟨a', b', d', e', rfl, hcode'⟩ := unit_of_parse hunit'
          split at h
          · rename_i hlow
            simp only [Option.some.injEq, Prod.mk.injEq] at h
            obtain ⟨rfl, rfl⟩ := h
            have hsurrogate : 0xD800 ≤ unit := by
              simp only [Nat.isValidChar] at hinvalid
              omega
            have hrest : rest₀ = '\\' :: 'u' :: a' :: b' :: d' :: e' :: rest' := hmore
            rw [hrest]
            exact ⟨_, rfl, .pair hcode hcode' ⟨hsurrogate, hhigh⟩ hlow⟩
          · exact absurd h (by simp)
        · exact absurd h (by simp)
      · exact absurd h (by simp)
    · exact absurd h (by simp)

theorem character_of_parse {text rest : List Char} {c : Char}
    (h : parseCharacter text = some (c, rest)) :
    ∃ front, text = front ++ rest ∧ Character front c := by
  cases text with
  | nil => exact absurd h (by simp [parseCharacter])
  | cons first more =>
      rw [parseCharacter] at h
      split at h
      · rename_i hslash
        subst hslash
        cases more with
        | nil => exact absurd h (by simp [parseEscape])
        | cons e more =>
            rw [parseEscape] at h
            split at h
            · rename_i hu
              subst hu
              obtain ⟨front, rfl, hunicode⟩ := unicode_of_parse h
              exact ⟨'\\' :: 'u' :: front, rfl, .unicode hunicode⟩
            · obtain ⟨value, hshort, heq⟩ := Option.map_eq_some_iff.mp h
              simp only [Prod.mk.injEq] at heq
              obtain ⟨rfl, rfl⟩ := heq
              exact ⟨['\\', e], rfl, .short hshort⟩
      · split at h
        · rename_i hunescaped
          simp only [Option.some.injEq, Prod.mk.injEq] at h
          obtain ⟨rfl, rfl⟩ := h
          exact ⟨[first], rfl, .unescaped hunescaped⟩
        · exact absurd h (by simp)

theorem characters_of_parse {fuel : ℕ} {text value rest : List Char}
    (h : parseCharacters fuel text = some (value, rest)) :
    ∃ front, text = front ++ '"' :: rest ∧ Characters front value := by
  induction fuel generalizing text value with
  | zero => exact absurd h (by simp [parseCharacters])
  | succ fuel ih =>
      rw [parseCharacters] at h
      split at h
      · rename_i hquote
        simp only [Option.some.injEq, Prod.mk.injEq] at h
        obtain ⟨rfl, rfl⟩ := h
        exact ⟨[], List.eq_cons_of_mem_head? hquote, .nil⟩
      · rw [Option.bind_eq_some_iff] at h
        obtain ⟨⟨c, more⟩, hfirst, h⟩ := h
        obtain ⟨⟨value', rest'⟩, hrest, heq⟩ := Option.map_eq_some_iff.mp h
        simp only [Prod.mk.injEq] at heq
        obtain ⟨rfl, rfl⟩ := heq
        obtain ⟨front, rfl, hcharacter⟩ := character_of_parse hfirst
        obtain ⟨front', hmore, hcharacters⟩ := ih hrest
        have hmore' : more = front' ++ '"' :: rest' := hmore
        exact ⟨front ++ front', by rw [hmore', List.append_assoc], .cons hcharacter hcharacters⟩

theorem quoted_of_parse {text value rest : List Char} (h : parseQuoted text = some (value, rest)) :
    ∃ front, text = front ++ rest ∧ Quoted front value := by
  cases text with
  | nil => exact absurd h (by simp [parseQuoted])
  | cons c more =>
      rw [parseQuoted] at h
      split at h
      · rename_i hquote
        subst hquote
        obtain ⟨front, rfl, hcharacters⟩ := characters_of_parse h
        exact ⟨'"' :: (front ++ ['"']), by simp, .mk hcharacters⟩
      · exact absurd h (by simp)

/-! ## Values -/

theorem space_of_skip (text : List Char) : ∃ space, text = space ++ skipSpace text ∧ Space space :=
  ⟨text.takeWhile isSpace, List.takeWhile_append_dropWhile.symm, fun _ => List.mem_takeWhile_imp⟩

/-- Whatever a parser of values takes is a value. -/
def Sound (parser : List Char → Option (Json × List Char)) : Prop :=
  ∀ {text value rest}, parser text = some (value, rest) →
    ∃ front, text = front ++ rest ∧ Value front value

section Nesting

variable {parser : List Char → Option (Json × List Char)}

theorem padded_of_parse (hparser : Sound parser) {text rest : List Char} {value : Json}
    (h : padded parser text = some (value, rest)) :
    ∃ front, text = front ++ rest ∧ Padded Value front value := by
  obtain ⟨⟨value', more⟩, hvalue, heq⟩ := Option.map_eq_some_iff.mp h
  simp only [Prod.mk.injEq] at heq
  obtain ⟨rfl, rfl⟩ := heq
  obtain ⟨before, htext, hbefore⟩ := space_of_skip text
  obtain ⟨front, hfront, hvalue⟩ := hparser hvalue
  obtain ⟨after, hmore, hafter⟩ := space_of_skip more
  refine ⟨before ++ (front ++ after), ?_, .mk hbefore hvalue hafter⟩
  calc text = before ++ skipSpace text := htext
    _ = before ++ (front ++ more) := by rw [hfront]
    _ = before ++ (front ++ (after ++ skipSpace more)) := by rw [← hmore]
    _ = before ++ (front ++ after) ++ skipSpace more := by simp only [List.append_assoc]

theorem member_of_parse (hparser : Sound parser) {text rest : List Char}
    {member : List Char × Json} (h : parseMember parser text = some (member, rest)) :
    ∃ front, text = front ++ rest ∧ Member Value front member := by
  rw [parseMember, Option.bind_eq_some_iff] at h
  obtain ⟨⟨key, more⟩, hname, h⟩ := h
  obtain ⟨⟨value, rest'⟩, hvalue, heq⟩ := Option.map_eq_some_iff.mp h
  simp only [Prod.mk.injEq] at heq
  obtain ⟨rfl, rfl⟩ := heq
  obtain ⟨before, htext, hbefore⟩ := space_of_skip text
  obtain ⟨name, hfront, hname⟩ := quoted_of_parse hname
  obtain ⟨after, hmore, hafter⟩ := space_of_skip more
  cases hskip : skipSpace more with
  | nil => exact absurd hvalue (by simp [hskip, parseMemberValue])
  | cons c text' =>
      simp only [hskip, parseMemberValue] at hvalue
      split at hvalue
      · rename_i hcolon
        subst hcolon
        obtain ⟨front, rfl, hpadded⟩ := padded_of_parse hparser hvalue
        refine ⟨before ++ (name ++ (after ++ ':' :: front)), ?_, .mk hbefore hname hafter hpadded⟩
        calc text = before ++ skipSpace text := htext
          _ = before ++ (name ++ more) := by rw [hfront]
          _ = before ++ (name ++ (after ++ ':' :: (front ++ rest'))) := by rw [← hskip, ← hmore]
          _ = before ++ (name ++ (after ++ ':' :: front)) ++ rest' := by simp
      · exact absurd hvalue (by simp)

end Nesting

section Brackets

variable {α : Type} {Item : List Char → α → Prop} {item : List Char → Option (α × List Char)}
  {close : Char}

theorem separated_of_parse
    (hitem : ∀ {text value rest}, item text = some (value, rest) →
      ∃ front, text = front ++ rest ∧ Item front value) {fuel : ℕ} {text rest : List Char}
    {values : List α} (h : parseSeparated item close fuel text = some (values, rest)) :
    ∃ front, text = front ++ close :: rest ∧ Separated Item front values := by
  induction fuel generalizing text values with
  | zero => exact absurd h (by simp [parseSeparated])
  | succ fuel ih =>
      rw [parseSeparated, Option.bind_eq_some_iff] at h
      obtain ⟨⟨value, more⟩, hvalue, h⟩ := h
      obtain ⟨front, rfl, hfront⟩ := hitem hvalue
      cases more with
      | nil => exact absurd h (by simp)
      | cons c more =>
          dsimp only at h
          split at h
          · rename_i hcomma
            subst hcomma
            obtain ⟨⟨values', rest'⟩, hrest, heq⟩ := Option.map_eq_some_iff.mp h
            simp only [Prod.mk.injEq] at heq
            obtain ⟨rfl, rfl⟩ := heq
            obtain ⟨front', rfl, hseparated⟩ := ih hrest
            exact ⟨front ++ ',' :: front', by simp, .cons hfront hseparated⟩
          · split at h
            · rename_i hclose
              simp only [Option.some.injEq, Prod.mk.injEq] at h
              obtain ⟨rfl, rfl⟩ := h
              exact ⟨front, hclose ▸ rfl, .last hfront⟩
            · exact absurd h (by simp)

theorem enclosed_of_parse
    (hitem : ∀ {text value rest}, item text = some (value, rest) →
      ∃ front, text = front ++ rest ∧ Item front value) {text rest : List Char}
    {values : List α} (h : parseEnclosed item close text = some (values, rest)) :
    ∃ front, text = front ++ close :: rest ∧
      (Space front ∧ values = [] ∨ Separated Item front values) := by
  unfold parseEnclosed at h
  split at h
  · rename_i hhead
    simp only [Option.some.injEq, Prod.mk.injEq] at h
    obtain ⟨rfl, rfl⟩ := h
    obtain ⟨space, htext, hspace⟩ := space_of_skip text
    refine ⟨space, ?_, .inl ⟨hspace, rfl⟩⟩
    exact htext.trans (congrArg (space ++ ·) (List.eq_cons_of_mem_head? hhead))
  · obtain ⟨front, htext, hseparated⟩ := separated_of_parse hitem h
    exact ⟨front, htext, .inr hseparated⟩

end Brackets

theorem name_of_parse {name text rest : List Char} {value value' : Json}
    (h : parseName name value text = some (value', rest)) :
    text = name ++ rest ∧ value' = value := by
  unfold parseName at h
  split at h
  · rename_i hname
    simp only [Option.some.injEq, Prod.mk.injEq] at h
    obtain ⟨rfl, rfl⟩ := h
    exact ⟨(List.prefix_iff_eq_append.mp hname).symm, rfl⟩
  · exact absurd h (by simp)

theorem parseValue_sound (fuel : ℕ) : Sound (parseValue fuel) := by
  -- by induction on the fuel; the first character decides which production it is
  induction fuel with
  | zero => intro text value rest h; exact absurd h (by simp [parseValue])
  | succ fuel ih =>
      intro text value rest h
      cases text with
      | nil => exact absurd h (by simp [parseValue])
      | cons c more =>
          rw [parseValue] at h
          split_ifs at h with hstring harray hobject hnull htrue hfalse
          · obtain ⟨⟨value', rest'⟩, hparsed, heq⟩ := Option.map_eq_some_iff.mp h
            obtain ⟨front, htext, hquoted⟩ := quoted_of_parse hparsed
            simp only [Prod.mk.injEq] at heq
            obtain ⟨rfl, rfl⟩ := heq
            exact ⟨front, htext, .string hquoted⟩
          · subst harray
            obtain ⟨⟨items, rest'⟩, hparsed, heq⟩ := Option.map_eq_some_iff.mp h
            obtain ⟨front, rfl, hitems⟩ := enclosed_of_parse (padded_of_parse ih) hparsed
            simp only [Prod.mk.injEq] at heq
            obtain ⟨rfl, rfl⟩ := heq
            refine ⟨'[' :: (front ++ [']']), by simp, ?_⟩
            rcases hitems with ⟨hspace, rfl⟩ | hitems
            · exact .emptyArray hspace
            · exact .array hitems
          · subst hobject
            obtain ⟨⟨members, rest'⟩, hparsed, heq⟩ := Option.map_eq_some_iff.mp h
            obtain ⟨front, rfl, hmembers⟩ := enclosed_of_parse (member_of_parse ih) hparsed
            simp only [Prod.mk.injEq] at heq
            obtain ⟨rfl, rfl⟩ := heq
            refine ⟨'{' :: (front ++ ['}']), by simp, ?_⟩
            rcases hmembers with ⟨hspace, rfl⟩ | hmembers
            · exact .emptyObject hspace
            · exact .object hmembers
          · obtain ⟨htext, rfl⟩ := name_of_parse h
            exact ⟨_, htext, .null⟩
          · obtain ⟨htext, rfl⟩ := name_of_parse h
            exact ⟨_, htext, .literalTrue⟩
          · obtain ⟨htext, rfl⟩ := name_of_parse h
            exact ⟨_, htext, .literalFalse⟩
          · exact number_of_parse h

/-- The parser accepts only what the grammar derives. -/
theorem spells_of_parse {text : List Char} {value : Json} (h : parse text = some value) :
    Spells text value := by
  rw [parse, Option.bind_eq_some_iff] at h
  obtain ⟨⟨value', rest⟩, hparsed, h⟩ := h
  obtain ⟨front, rfl, hpadded⟩ := padded_of_parse (parseValue_sound _) hparsed
  split at h
  · rename_i hrest
    simp only [Option.some.injEq] at h
    have hrest' : rest = [] := hrest
    rw [hrest', List.append_nil, ← h]
    exact hpadded
  · exact absurd h (by simp)

/-- The parser decides the grammar. -/
theorem parse_eq_some_iff {text : List Char} {value : Json} :
    parse text = some value ↔ Spells text value :=
  ⟨spells_of_parse, parse_of_spells⟩

end Json
