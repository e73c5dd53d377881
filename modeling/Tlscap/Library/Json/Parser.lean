import Tlscap.Library.Json.Grammar

/-!
# A strict parser

`Json.parse` reads one JSON text and accepts exactly what the grammar derives
(`parse_eq_some_iff`).  Each scanner takes what it can off the front of a text and
returns the rest; what has to follow it for that to be the whole of a production is
the hypothesis of its completeness lemma.

There is one scanner for each production, under a like name.  The productions that are
recursive only through values are parametrised over what parses a value (`parseMember`,
`parseSeparated`), so that `parseValue` is the one recursion: its fuel bounds how deep
values nest, and the length of the text is enough of it.
-/

namespace Json

/-! ## Scanners -/

/-- Skips white space. -/
def skipSpace (text : List Char) : List Char := text.dropWhile isSpace

/-- A literal name. -/
def parseName (name : List Char) (value : Json) (text : List Char) : Option (Json × List Char) :=
  if name <+: text then some (value, text.drop name.length) else none

/-- The longest run of digits, at least one. -/
def parseDigits (text : List Char) : Option (List Char × List Char) :=
  if (text.takeWhile Char.isDigit).isEmpty then none
  else some (text.takeWhile Char.isDigit, text.dropWhile Char.isDigit)

/-- An optional fraction. -/
def parseFraction : List Char → Option (List Char × List Char)
  | [] => some ([], [])
  | c :: rest => if c = '.' then parseDigits rest else some ([], c :: rest)

/-- The digits of an exponent, with their sign. -/
def parseSigned : List Char → Option (ℤ × List Char)
  | [] => none
  | c :: rest =>
      if c = '+' then (parseDigits rest).map fun p => (Nat.ofDigitChars 10 p.1 0, p.2)
      else if c = '-' then (parseDigits rest).map fun p => (-Nat.ofDigitChars 10 p.1 0, p.2)
      else (parseDigits (c :: rest)).map fun p => (Nat.ofDigitChars 10 p.1 0, p.2)

/-- An optional exponent. -/
def parseExponent : List Char → Option (ℤ × List Char)
  | [] => some (0, [])
  | c :: rest => if c = 'e' ∨ c = 'E' then parseSigned rest else some (0, c :: rest)

/-- A number without its sign. -/
def parseMagnitude (text : List Char) : Option (ℤ × ℤ × List Char) := do
  let (int, rest) ← parseDigits text
  if int.head? = some '0' ∧ int ≠ ['0'] then none
  else
    let (digits, rest) ← parseFraction rest
    let (value, rest) ← parseExponent rest
    some (Nat.ofDigitChars 10 (int ++ digits) 0, value - digits.length, rest)

/-- A number. -/
def parseNumber : List Char → Option (Json × List Char)
  | [] => none
  | c :: rest =>
      if c = '-' then (parseMagnitude rest).map fun p => (.num (-p.1) p.2.1, p.2.2)
      else (parseMagnitude (c :: rest)).map fun p => (.num p.1 p.2.1, p.2.2)

/-- Four hexadecimal digits. -/
def parseUnit : List Char → Option (ℕ × List Char)
  | a :: b :: c :: d :: rest => (codeUnit a b c d).map fun unit => (unit, rest)
  | _ => none

/-- The second half of a surrogate pair. -/
def parseLow (high : ℕ) : List Char → Option (Char × List Char)
  | c :: d :: rest =>
      if c = '\\' ∧ d = 'u' then
        (parseUnit rest).bind fun p =>
          if 0xDC00 ≤ p.1 ∧ p.1 < 0xE000 then some (combined high p.1, p.2) else none
      else none
  | _ => none

/-- What follows the `\u` of an escape. -/
def parseUnicode (text : List Char) : Option (Char × List Char) :=
  (parseUnit text).bind fun p =>
    if p.1.isValidChar then some (Char.ofNat p.1, p.2)
    else if p.1 < 0xDC00 then parseLow p.1 p.2
    else none

/-- What follows the backslash of an escape. -/
def parseEscape : List Char → Option (Char × List Char)
  | [] => none
  | c :: rest =>
      if c = 'u' then parseUnicode rest else (shortEscape c).map fun value => (value, rest)

/-- One character of a string. -/
def parseCharacter : List Char → Option (Char × List Char)
  | [] => none
  | c :: rest =>
      if c = '\\' then parseEscape rest
      else if isUnescaped c then some (c, rest)
      else none

/-- The characters of a string, up to its closing quotation mark. -/
def parseCharacters : ℕ → List Char → Option (List Char × List Char)
  | 0, _ => none
  | fuel + 1, text =>
      if text.head? = some '"' then some ([], text.tail)
      else
        (parseCharacter text).bind fun p =>
          (parseCharacters fuel p.2).map fun q => (p.1 :: q.1, q.2)

/-- A string. -/
def parseQuoted : List Char → Option (List Char × List Char)
  | [] => none
  | c :: rest => if c = '"' then parseCharacters rest.length rest else none

/-- A value with white space around it, given what parses a value. -/
def padded (value : List Char → Option (Json × List Char)) (text : List Char) :
    Option (Json × List Char) :=
  (value (skipSpace text)).map fun p => (p.1, skipSpace p.2)

/-- What follows the name of a member. -/
def parseMemberValue (value : List Char → Option (Json × List Char)) :
    List Char → Option (Json × List Char)
  | [] => none
  | c :: rest => if c = ':' then padded value rest else none

/-- A member of an object with white space around it. -/
def parseMember (value : List Char → Option (Json × List Char)) (text : List Char) :
    Option ((List Char × Json) × List Char) :=
  (parseQuoted (skipSpace text)).bind fun name =>
    (parseMemberValue value (skipSpace name.2)).map fun p => ((name.1, p.1), p.2)

/-- One or more items with commas between them, up to the closing character. -/
def parseSeparated {α : Type*} (item : List Char → Option (α × List Char)) (close : Char) :
    ℕ → List Char → Option (List α × List Char)
  | 0, _ => none
  | fuel + 1, text =>
      (item text).bind fun p =>
        match p.2 with
        | [] => none
        | c :: rest =>
            if c = ',' then (parseSeparated item close fuel rest).map fun q => (p.1 :: q.1, q.2)
            else if c = close then some ([p.1], rest)
            else none

/-- What follows an opening bracket: nothing but white space, or items. -/
def parseEnclosed {α : Type*} (item : List Char → Option (α × List Char)) (close : Char)
    (text : List Char) : Option (List α × List Char) :=
  if (skipSpace text).head? = some close then some ([], (skipSpace text).tail)
  else parseSeparated item close text.length text

/-- A value that nests less deep than the fuel. -/
def parseValue : ℕ → List Char → Option (Json × List Char)
  | 0, _ => none
  | _ + 1, [] => none
  | fuel + 1, c :: rest =>
      if c = '"' then (parseQuoted (c :: rest)).map fun p => (.str p.1, p.2)
      else if c = '[' then
        (parseEnclosed (padded (parseValue fuel)) ']' rest).map fun p => (.arr p.1, p.2)
      else if c = '{' then
        (parseEnclosed (parseMember (parseValue fuel)) '}' rest).map fun p => (.obj p.1, p.2)
      else if c = 'n' then parseName ['n', 'u', 'l', 'l'] .null (c :: rest)
      else if c = 't' then parseName ['t', 'r', 'u', 'e'] (.bool true) (c :: rest)
      else if c = 'f' then parseName ['f', 'a', 'l', 's', 'e'] (.bool false) (c :: rest)
      else parseNumber (c :: rest)

/-- The value of a JSON text, if the text is one. -/
def parse (text : List Char) : Option Json :=
  (padded (parseValue text.length) text).bind fun p => if p.2 = [] then some p.1 else none

end Json
