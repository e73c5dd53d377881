import Tlscap.Library.Json.Parser

/-!
# The parser accepts what the grammar derives

A text the grammar derives is parsed to the value it spells (`parse_of_spells`), so reading
loses nothing that the grammar allows.

## Strategy

Each production has its scanner, and one lemma that says the scanner takes exactly the
production off the front of a text, whatever follows that cannot be read as more of it.  What
may follow differs:

* **Digits** end at anything that is not a digit; a number ends at whatever cannot go on one
  (`Ends`), since a scanner takes as much as it can.
* **Characters of a string** end themselves: what spells one never begins with the mark that
  ends the string (`Character.head`).
* **Values** are followed by white space and punctuation (`Closed`), which ends all of them.
* **The elements of an array or an object** are told from its end by their first character
  (`StartsApart`).

The parser runs on fuel, and one unit is spent at each level of nesting.  The induction is on
the fuel: what it is at least is the length of the text, and every level has brackets of its
own (`parseValue_complete`).  The scanners of arrays and objects are one (`parseEnclosed`), so
they are treated once, for any parser of elements that is complete on shorter texts.
-/

namespace Json

/-- No character of a class stands at the front of a text. -/
def Ends (kind : Char → Bool) (text : List Char) : Prop :=
  ∀ c ∈ text.head?, kind c = false

theorem ends_cons {kind : Char → Bool} {c : Char} {text : List Char} :
    Ends kind (c :: text) ↔ kind c = false := by
  simp [Ends]

theorem ends_nil {kind : Char → Bool} : Ends kind [] := by
  simp [Ends]

theorem takeWhile_append {kind : Char → Bool} {text rest : List Char}
    (htext : ∀ c ∈ text, kind c = true) (hrest : Ends kind rest) :
    (text ++ rest).takeWhile kind = text ∧ (text ++ rest).dropWhile kind = rest := by
  have hstop : rest.takeWhile kind = [] ∧ rest.dropWhile kind = rest := by
    cases rest with
    | nil => exact ⟨rfl, rfl⟩
    | cons c rest =>
        have hc := ends_cons.mp hrest
        exact ⟨List.takeWhile_cons_of_neg (by simp [hc]), List.dropWhile_cons_of_neg (by simp [hc])⟩
  rw [List.takeWhile_append_of_pos htext, List.dropWhile_append_of_pos htext, hstop.1, hstop.2,
    List.append_nil]
  exact ⟨rfl, rfl⟩

theorem skipSpace_append {space rest : List Char} (hspace : Space space)
    (hrest : Ends isSpace rest) : skipSpace (space ++ rest) = rest :=
  (takeWhile_append hspace hrest).2

/-! ## Numbers -/

theorem parseDigits_append {digits rest : List Char} (hdigits : Digits digits)
    (hrest : Ends Char.isDigit rest) : parseDigits (digits ++ rest) = some (digits, rest) := by
  obtain ⟨htake, hdrop⟩ := takeWhile_append hdigits.2 hrest
  have hnonempty : digits.isEmpty = false := List.isEmpty_eq_false_iff.mpr hdigits.1
  unfold parseDigits
  rw [htake, hdrop, hnonempty, if_neg Bool.false_ne_true]

/-- The characters that can go on a number. -/
def isNumeral (c : Char) : Bool := c.isDigit || c == '.' || c == 'e' || c == 'E'

theorem Ends.isDigit {text : List Char} (h : Ends isNumeral text) : Ends Char.isDigit text := by
  intro c hc
  have hclass := h c hc
  simp only [isNumeral, Bool.or_eq_false_iff] at hclass
  exact hclass.1.1.1

/-- A digit is neither a sign, a point nor the mark of an exponent. -/
theorem Digits.head {digits : List Char} (h : Digits digits) :
    ∃ c rest, digits = c :: rest ∧ c.isDigit = true := by
  obtain ⟨hne, hall⟩ := h
  cases digits with
  | nil => exact absurd rfl hne
  | cons c rest => exact ⟨c, rest, rfl, hall c List.mem_cons_self⟩

theorem parseFraction_append {text digits rest : List Char} (h : Fraction text digits)
    (hrest : Ends Char.isDigit rest) (hpoint : Ends (· == '.') rest) :
    parseFraction (text ++ rest) = some (digits, rest) := by
  cases h with
  | absent =>
      cases rest with
      | nil => rfl
      | cons c rest =>
          have hc : c ≠ '.' := by simpa using ends_cons.mp hpoint
          exact if_neg hc
  | present hdigits => exact parseDigits_append hdigits hrest

theorem parseSigned_append {text rest : List Char} {value : ℤ} (h : Signed text value)
    (hrest : Ends Char.isDigit rest) : parseSigned (text ++ rest) = some (value, rest) := by
  cases h with
  | bare hdigits =>
      obtain ⟨c, more, rfl, hc⟩ := hdigits.head
      have hparsed := parseDigits_append hdigits hrest
      have hplus : c ≠ '+' := by rintro rfl; exact absurd hc (by decide)
      have hminus : c ≠ '-' := by rintro rfl; exact absurd hc (by decide)
      rw [List.cons_append] at hparsed ⊢
      rw [parseSigned, if_neg hplus, if_neg hminus, hparsed]
      rfl
  | plus hdigits => simp [parseSigned, parseDigits_append hdigits hrest]
  | minus hdigits => simp [parseSigned, parseDigits_append hdigits hrest]

theorem parseExponent_append {text rest : List Char} {value : ℤ} (h : Exponent text value)
    (hrest : Ends isNumeral rest) : parseExponent (text ++ rest) = some (value, rest) := by
  cases h with
  | absent =>
      cases rest with
      | nil => rfl
      | cons c rest =>
          have hc := ends_cons.mp hrest
          simp only [isNumeral, Bool.or_eq_false_iff, beq_eq_false_iff_ne] at hc
          exact if_neg (not_or.mpr ⟨hc.1.2, hc.2⟩)
  | present he hsigned =>
      rw [List.cons_append, parseExponent, if_pos he]
      exact parseSigned_append hsigned hrest.isDigit

/-- An exponent or what follows a number does not go on its fraction. -/
theorem Exponent.ends {text rest : List Char} {value : ℤ} (h : Exponent text value)
    (hrest : Ends isNumeral rest) :
    Ends Char.isDigit (text ++ rest) ∧ Ends (· == '.') (text ++ rest) := by
  cases h with
  | absent =>
      refine ⟨hrest.isDigit, fun c hc => ?_⟩
      have hclass := hrest c hc
      simp only [isNumeral, Bool.or_eq_false_iff] at hclass
      exact hclass.1.1.2
  | present he hsigned =>
      rcases he with rfl | rfl
      · exact ⟨ends_cons.mpr rfl, ends_cons.mpr rfl⟩
      · exact ⟨ends_cons.mpr rfl, ends_cons.mpr rfl⟩

theorem parseMagnitude_append {text rest : List Char} {mantissa exponent : ℤ}
    (h : Magnitude text mantissa exponent) (hrest : Ends isNumeral rest) :
    parseMagnitude (text ++ rest) = some (mantissa, exponent, rest) := by
  cases h with
  | @mk int fraction digits exponent value hint hfraction hexponent =>
      obtain ⟨hdigit, hpoint⟩ := hexponent.ends hrest
      have hint' : parseDigits (int ++ (fraction ++ (exponent ++ rest))) =
          some (int, fraction ++ (exponent ++ rest)) := by
        refine parseDigits_append hint.1 ?_
        cases hfraction with
        | absent => exact hdigit
        | present => exact ends_cons.mpr rfl
      have hzero : ¬(int.head? = some '0' ∧ int ≠ ['0']) := fun hhead => hhead.2 (hint.2 hhead.1)
      rw [List.append_assoc, List.append_assoc]
      unfold parseMagnitude
      simp only [hint', Option.bind_eq_bind, Option.bind_some, if_neg hzero,
        parseFraction_append hfraction hdigit hpoint, parseExponent_append hexponent hrest]

theorem Magnitude.head {text : List Char} {mantissa exponent : ℤ}
    (h : Magnitude text mantissa exponent) : ∃ c rest, text = c :: rest ∧ c.isDigit = true := by
  cases h with
  | mk hint hfraction hexponent =>
      obtain ⟨c, rest, rfl, hc⟩ := hint.1.head
      exact ⟨c, _, rfl, hc⟩

theorem parseNumber_append {text rest : List Char} {mantissa exponent : ℤ}
    (h : Number text mantissa exponent) (hrest : Ends isNumeral rest) :
    parseNumber (text ++ rest) = some (.num mantissa exponent, rest) := by
  cases h with
  | bare hmagnitude =>
      obtain ⟨c, more, rfl, hc⟩ := hmagnitude.head
      have hparsed := parseMagnitude_append hmagnitude hrest
      have hminus : c ≠ '-' := by rintro rfl; exact absurd hc (by decide)
      rw [List.cons_append] at hparsed ⊢
      rw [parseNumber, if_neg hminus, hparsed]
      rfl
  | minus hmagnitude => simp [parseNumber, parseMagnitude_append hmagnitude hrest]

/-! ## Strings -/

theorem parseUnit_eq {a b c d : Char} {unit : ℕ} (rest : List Char)
    (h : codeUnit a b c d = some unit) :
    parseUnit (a :: b :: c :: d :: rest) = some (unit, rest) := by
  rw [parseUnit, h]
  rfl

theorem parseUnicode_append {text rest : List Char} {c : Char} (h : Unicode text c) :
    parseUnicode (text ++ rest) = some (c, rest) := by
  cases h with
  | scalar hunit hvalid => simp [parseUnicode, parseUnit_eq rest hunit, hvalid]
  | @pair a b c d a' b' c' d' high low hhigh hlow hhigh' hlow' =>
      have hinvalid : ¬high.isValidChar := by
        rw [Nat.isValidChar]
        omega
      simp [parseUnicode, parseLow, parseUnit_eq _ hhigh, parseUnit_eq rest hlow, hinvalid, hhigh',
        hlow']

theorem parseCharacter_append {text rest : List Char} {c : Char} (h : Character text c) :
    parseCharacter (text ++ rest) = some (c, rest) := by
  cases h with
  | unescaped hunescaped =>
      have hslash : c ≠ '\\' := by rintro rfl; exact absurd hunescaped (by decide)
      simp [parseCharacter, hslash, hunescaped]
  | @short e _ hshort =>
      have hu : e ≠ 'u' := by
        rintro rfl
        exact Option.some_ne_none _ (hshort.symm.trans (by decide : shortEscape 'u' = none))
      simp [parseCharacter, parseEscape, hu, hshort]
  | unicode hunicode => simp [parseCharacter, parseEscape, parseUnicode_append hunicode]

/-- What spells a character does not begin with the mark that ends a string. -/
theorem Character.head {text : List Char} {c : Char} (h : Character text c) :
    ∃ first rest, text = first :: rest ∧ first ≠ '"' := by
  cases h with
  | unescaped hunescaped =>
      exact ⟨c, [], rfl, by rintro rfl; exact absurd hunescaped (by decide)⟩
  | short => exact ⟨'\\', _, rfl, by decide⟩
  | unicode => exact ⟨'\\', _, rfl, by decide⟩

theorem parseCharacters_append {text value : List Char} (h : Characters text value)
    (rest : List Char) {fuel : ℕ} (hfuel : text.length < fuel) :
    parseCharacters fuel (text ++ '"' :: rest) = some (value, rest) := by
  induction h generalizing fuel with
  | nil =>
      cases fuel with
      | zero => exact absurd hfuel (Nat.not_lt_zero _)
      | succ fuel => rfl
  | @cons text more c value hcharacter _ ih =>
      obtain ⟨first, tail, rfl, hquote⟩ := hcharacter.head
      cases fuel with
      | zero => exact absurd hfuel (Nat.not_lt_zero _)
      | succ fuel =>
          have hlength : more.length < fuel := by
            simp only [List.length_append, List.length_cons] at hfuel
            omega
          have hfirst : parseCharacter (_ ++ (more ++ '"' :: rest)) = _ :=
            parseCharacter_append hcharacter
          rw [List.cons_append] at hfirst
          rw [List.append_assoc, List.cons_append, parseCharacters, List.head?_cons,
            if_neg (by simpa using hquote), hfirst, Option.bind_some, ih hlength]
          rfl

theorem parseQuoted_append {text value : List Char} (h : Quoted text value) (rest : List Char) :
    parseQuoted (text ++ rest) = some (value, rest) := by
  cases h with
  | @mk text _ hcharacters =>
      rw [List.cons_append, parseQuoted, if_pos rfl, List.append_assoc, List.singleton_append]
      exact parseCharacters_append hcharacters rest (by simp)

/-! ## Values -/

theorem Quoted.head {text value : List Char} (h : Quoted text value) :
    ∃ rest, text = '"' :: rest := by
  cases h with
  | mk hcharacters => exact ⟨_, rfl⟩

theorem Number.head {text : List Char} {mantissa exponent : ℤ}
    (h : Number text mantissa exponent) :
    ∃ c rest, text = c :: rest ∧ (c.isDigit = true ∨ c = '-') := by
  cases h with
  | bare hmagnitude =>
      obtain ⟨c, rest, htext, hc⟩ := hmagnitude.head
      exact ⟨c, rest, htext, .inl hc⟩
  | minus hmagnitude => exact ⟨'-', _, rfl, .inr rfl⟩

theorem not_isSpace_of_isDigit {c : Char} (h : c.isDigit = true) : isSpace c = false := by
  by_contra hspace
  simp only [isSpace, Bool.not_eq_false, Bool.or_eq_true, beq_iff_eq] at hspace
  rcases hspace with ((rfl | rfl) | rfl) | rfl <;> exact absurd h (by decide)

/-- A value begins with what is neither white space nor the end of an array. -/
theorem Value.head {text : List Char} {value : Json} (h : Value text value) :
    ∃ c rest, text = c :: rest ∧ isSpace c = false ∧ c ≠ ']' := by
  cases h with
  | null => exact ⟨_, _, rfl, rfl, by decide⟩
  | literalTrue => exact ⟨_, _, rfl, rfl, by decide⟩
  | literalFalse => exact ⟨_, _, rfl, rfl, by decide⟩
  | number hnumber =>
      obtain ⟨c, rest, rfl, hdigit | rfl⟩ := hnumber.head
      · refine ⟨c, rest, rfl, not_isSpace_of_isDigit hdigit, ?_⟩
        rintro rfl
        exact absurd hdigit (by decide)
      · exact ⟨_, _, rfl, rfl, by decide⟩
  | string hquoted =>
      obtain ⟨rest, rfl⟩ := hquoted.head
      exact ⟨_, _, rfl, rfl, by decide⟩
  | emptyArray => exact ⟨_, _, rfl, rfl, by decide⟩
  | array => exact ⟨_, _, rfl, rfl, by decide⟩
  | emptyObject => exact ⟨_, _, rfl, rfl, by decide⟩
  | object => exact ⟨_, _, rfl, rfl, by decide⟩

/-- What may stand after a value and its white space: the next punctuation mark, or
nothing. -/
def Closed (rest : List Char) : Prop := Ends (fun c => isSpace c || isNumeral c) rest

theorem Closed.isSpace {rest : List Char} (h : Closed rest) : Ends isSpace rest :=
  fun c hc => (Bool.or_eq_false_iff.mp (h c hc)).1

theorem Closed.isNumeral {rest : List Char} (h : Closed rest) : Ends isNumeral rest :=
  fun c hc => (Bool.or_eq_false_iff.mp (h c hc)).2

/-- White space after a number ends it. -/
theorem Closed.space {rest : List Char} (h : Closed rest) {space : List Char}
    (hspace : Space space) : Ends Json.isNumeral (space ++ rest) := by
  cases space with
  | nil => exact h.isNumeral
  | cons c space =>
      have hc := hspace c List.mem_cons_self
      simp only [Json.isSpace, Bool.or_eq_true, beq_iff_eq] at hc
      rcases hc with ((rfl | rfl) | rfl) | rfl <;> exact ends_cons.mpr rfl

section Nesting

/-- The parser of values is complete on texts no longer than a bound. -/
def CompleteTo (bound : ℕ) (parser : List Char → Option (Json × List Char)) : Prop :=
  ∀ text value rest, Value text value → text.length ≤ bound → Ends isNumeral rest →
    parser (text ++ rest) = some (value, rest)

variable {bound : ℕ} {parser : List Char → Option (Json × List Char)}

theorem padded_append (hparser : CompleteTo bound parser) {text rest : List Char} {value : Json}
    (h : Padded Value text value) (hbound : text.length ≤ bound) (hrest : Closed rest) :
    padded parser (text ++ rest) = some (value, rest) := by
  cases h with
  | @mk before text after value hbefore hvalue hafter =>
      obtain ⟨c, more, htext, hc, -⟩ := hvalue.head
      have hstart : Ends isSpace (text ++ (after ++ rest)) := by
        rw [htext, List.cons_append]
        exact ends_cons.mpr hc
      have hlength : text.length ≤ bound := by
        simp only [List.length_append] at hbound
        omega
      have hparsed := hparser text value (after ++ rest) hvalue hlength (hrest.space hafter)
      rw [List.append_assoc, List.append_assoc, padded, skipSpace_append hbefore hstart, hparsed,
        Option.map_some, skipSpace_append hafter hrest.isSpace]

theorem parseMember_append (hparser : CompleteTo bound parser) {text rest : List Char}
    {member : List Char × Json} (h : Member Value text member) (hbound : text.length ≤ bound)
    (hrest : Closed rest) : parseMember parser (text ++ rest) = some (member, rest) := by
  cases h with
  | @mk before name after text key value hbefore hname hafter hvalue =>
      obtain ⟨more, hmore⟩ := hname.head
      have hstart : Ends isSpace (name ++ (after ++ ':' :: (text ++ rest))) := by
        rw [hmore, List.cons_append]
        exact ends_cons.mpr rfl
      have hcolon : Ends isSpace (':' :: (text ++ rest)) := ends_cons.mpr rfl
      have hlength : text.length ≤ bound := by
        simp only [List.length_append, List.length_cons] at hbound
        omega
      have hparsed : parseMemberValue parser (':' :: (text ++ rest)) = some (value, rest) :=
        padded_append hparser hvalue hlength hrest
      rw [List.append_assoc, List.append_assoc, List.append_assoc, List.cons_append, parseMember,
        skipSpace_append hbefore hstart, parseQuoted_append hname, Option.bind_some,
        skipSpace_append hafter hcolon, hparsed]
      rfl

end Nesting

section Brackets

variable {α : Type} {Item : List Char → α → Prop} {item : List Char → Option (α × List Char)}
  {close : Char} {bound : ℕ}

theorem parseSeparated_append
    (hitem : ∀ text value rest, Item text value → text.length ≤ bound → Closed rest →
      item (text ++ rest) = some (value, rest))
    (hclose : Closed [close] ∧ close ≠ ',') {text : List Char} {values : List α}
    (h : Separated Item text values) (rest : List Char) (hbound : text.length ≤ bound)
    {fuel : ℕ} (hfuel : text.length < fuel) :
    parseSeparated item close fuel (text ++ close :: rest) = some (values, rest) := by
  have hcloses : ∀ rest, Closed (close :: rest) := fun rest => ends_cons.mpr (ends_cons.mp hclose.1)
  induction h generalizing fuel with
  | @last text value hvalue =>
      cases fuel with
      | zero => exact absurd hfuel (Nat.not_lt_zero _)
      | succ fuel =>
          rw [parseSeparated, hitem _ _ _ hvalue hbound (hcloses rest), Option.bind_some]
          simp only [if_neg hclose.2, if_true]
  | @cons text more value values hvalue _ ih =>
      cases fuel with
      | zero => exact absurd hfuel (Nat.not_lt_zero _)
      | succ fuel =>
          simp only [List.length_append, List.length_cons] at hbound hfuel
          have hfirst := hitem text value (',' :: (more ++ close :: rest)) hvalue (by omega)
            (ends_cons.mpr rfl)
          rw [List.append_assoc, List.cons_append, parseSeparated, hfirst, Option.bind_some]
          simp only [ih (by omega) (by omega : more.length < fuel)]
          rfl

/-- Behind any white space, a text begins with a character other than `c`. -/
def StartsApart (c : Char) (text : List Char) : Prop :=
  ∃ space first rest, text = space ++ first :: rest ∧ Space space ∧ isSpace first = false ∧
    first ≠ c

theorem StartsApart.append {c : Char} {text : List Char} (h : StartsApart c text)
    (more : List Char) : StartsApart c (text ++ more) := by
  obtain ⟨space, first, rest, rfl, hspace, hfirst, hne⟩ := h
  exact ⟨space, first, rest ++ more, by simp, hspace, hfirst, hne⟩

theorem Separated.startsApart (hstart : ∀ text value, Item text value → StartsApart close text)
    {text : List Char} {values : List α} (h : Separated Item text values) :
    StartsApart close text := by
  cases h with
  | last hitem => exact hstart _ _ hitem
  | cons hitem _ => exact (hstart _ _ hitem).append _

theorem parseEnclosed_space (item : List Char → Option (α × List Char))
    (hclose : isSpace close = false) {space : List Char}
    (hspace : Space space) (rest : List Char) :
    parseEnclosed item close (space ++ close :: rest) = some ([], rest) := by
  unfold parseEnclosed
  rw [skipSpace_append hspace (ends_cons.mpr hclose)]
  exact if_pos rfl

theorem parseEnclosed_append
    (hitem : ∀ text value rest, Item text value → text.length ≤ bound → Closed rest →
      item (text ++ rest) = some (value, rest))
    (hstart : ∀ text value, Item text value → StartsApart close text)
    (hclose : Closed [close] ∧ close ≠ ',') {text : List Char} {values : List α}
    (h : Separated Item text values) (rest : List Char) (hbound : text.length ≤ bound) :
    parseEnclosed item close (text ++ close :: rest) = some (values, rest) := by
  have hhead : (skipSpace (text ++ close :: rest)).head? ≠ some close := by
    obtain ⟨space, first, more, htext, hspace, hfirst, hne⟩ :=
      (h.startsApart hstart).append (close :: rest)
    rw [htext, skipSpace_append hspace (ends_cons.mpr hfirst)]
    simpa using hne
  unfold parseEnclosed
  rw [if_neg hhead]
  exact parseSeparated_append hitem hclose h rest hbound (by simp)

end Brackets

theorem padded_startsApart {text : List Char} {value : Json} (h : Padded Value text value) :
    StartsApart ']' text := by
  cases h with
  | @mk before text after value hbefore hvalue hafter =>
      obtain ⟨c, rest, rfl, hspace, hne⟩ := hvalue.head
      exact ⟨before, c, rest ++ after, by simp, hbefore, hspace, hne⟩

theorem member_startsApart {text : List Char} {member : List Char × Json}
    (h : Member Value text member) : StartsApart '}' text := by
  cases h with
  | @mk before name after text key value hbefore hname hafter hvalue =>
      obtain ⟨rest, rfl⟩ := hname.head
      exact ⟨before, '"', rest ++ (after ++ ':' :: text), by simp, hbefore, rfl, by decide⟩

/-- The parser reads every value that is no longer than its fuel. -/
theorem parseValue_complete (fuel : ℕ) : CompleteTo fuel (parseValue fuel) := by
  induction fuel with
  | zero =>
      intro text value rest hvalue hlength
      obtain ⟨c, more, rfl, -⟩ := hvalue.head
      exact absurd hlength (by simp)
  | succ fuel ih =>
      intro text value rest hvalue hlength hrest
      cases hvalue with
      | null => simp [parseValue, parseName]
      | literalTrue => simp [parseValue, parseName]
      | literalFalse => simp [parseValue, parseName]
      | number hnumber =>
          -- no other value begins with a digit or a minus sign
          have hparsed := parseNumber_append hnumber hrest
          obtain ⟨c, more, rfl, hc⟩ := hnumber.head
          have hothers : c ≠ '"' ∧ c ≠ '[' ∧ c ≠ '{' ∧ c ≠ 'n' ∧ c ≠ 't' ∧ c ≠ 'f' := by
            refine ⟨?_, ?_, ?_, ?_, ?_, ?_⟩ <;> rintro rfl <;> revert hc <;> decide
          obtain ⟨h₁, h₂, h₃, h₄, h₅, h₆⟩ := hothers
          rw [List.cons_append] at hparsed ⊢
          rw [parseValue, if_neg h₁, if_neg h₂, if_neg h₃, if_neg h₄, if_neg h₅, if_neg h₆, hparsed]
      | string hquoted =>
          have hparsed := parseQuoted_append hquoted rest
          obtain ⟨more, rfl⟩ := hquoted.head
          rw [List.cons_append] at hparsed ⊢
          rw [parseValue, if_pos rfl, hparsed]
          rfl
      | emptyArray hspace =>
          have hparsed := parseEnclosed_space (padded (parseValue fuel))
            (by decide : isSpace ']' = false) hspace rest
          simp [parseValue, hparsed]
      | @array text items hitems =>
          simp only [List.length_cons, List.length_append] at hlength
          have hparsed := parseEnclosed_append (fun _ _ _ => padded_append ih)
            (fun _ _ => padded_startsApart) ⟨ends_cons.mpr rfl, by decide⟩ hitems rest
            (by omega : text.length ≤ fuel)
          simp [parseValue, hparsed]
      | emptyObject hspace =>
          have hparsed := parseEnclosed_space (parseMember (parseValue fuel))
            (by decide : isSpace '}' = false) hspace rest
          simp [parseValue, hparsed]
      | @object text members hmembers =>
          simp only [List.length_cons, List.length_append] at hlength
          have hparsed := parseEnclosed_append (fun _ _ _ => parseMember_append ih)
            (fun _ _ => member_startsApart) ⟨ends_cons.mpr rfl, by decide⟩ hmembers rest
            (by omega : text.length ≤ fuel)
          simp [parseValue, hparsed]

/-- The parser accepts every text the grammar derives, with the value it spells. -/
theorem parse_of_spells {text : List Char} {value : Json} (h : Spells text value) :
    parse text = some value := by
  have hparsed := padded_append (parseValue_complete text.length) h le_rfl (ends_nil : Closed [])
  rw [List.append_nil] at hparsed
  unfold parse
  rw [hparsed]
  rfl

end Json
