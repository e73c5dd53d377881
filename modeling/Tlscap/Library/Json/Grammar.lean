import Mathlib.Data.List.Basic
import Mathlib.Data.Int.Basic
import Mathlib.Algebra.Order.Ring.Int

/-!
# The grammar of RFC 8259

The JSON values, and which texts spell which value: one relation for each
production of the grammar, with the value the production denotes beside the text.
White space is allowed where the grammar allows it and nowhere else, a number has
no leading zero, a string no raw control character.

A `\u` escape of a surrogate counts only as half of a pair; the grammar lets a lone
one stand, but it denotes no character.  Members may share a name, as the grammar
lets them.
-/

/-- A JSON value.  A number is the decimal it is written as, `mantissa * 10 ^ exponent`. -/
inductive Json
  | null
  | bool (value : Bool)
  | num (mantissa exponent : ℤ)
  | str (value : List Char)
  | arr (items : List Json)
  | obj (members : List (List Char × Json))

namespace Json

/-! ## White space -/

/-- The characters of `ws`. -/
def isSpace (c : Char) : Bool := c == ' ' || c == '\t' || c == '\n' || c == '\r'

/-- `ws` -/
def Space (text : List Char) : Prop := ∀ c ∈ text, isSpace c = true

/-! ## Numbers -/

/-- `1*DIGIT` -/
def Digits (text : List Char) : Prop := text ≠ [] ∧ ∀ c ∈ text, c.isDigit = true

/-- `int`: digits, the first of which is `0` only if it is the only one. -/
def IntegerPart (text : List Char) : Prop := Digits text ∧ (text.head? = some '0' → text = ['0'])

/-- `[ frac ]`, with the digits after the point. -/
inductive Fraction : List Char → List Char → Prop
  | absent : Fraction [] []
  | present {digits : List Char} (hdigits : Digits digits) : Fraction ('.' :: digits) digits

/-- `[ minus / plus ] 1*DIGIT` -/
inductive Signed : List Char → ℤ → Prop
  | bare {digits : List Char} (hdigits : Digits digits) :
      Signed digits (Nat.ofDigitChars 10 digits 0)
  | plus {digits : List Char} (hdigits : Digits digits) :
      Signed ('+' :: digits) (Nat.ofDigitChars 10 digits 0)
  | minus {digits : List Char} (hdigits : Digits digits) :
      Signed ('-' :: digits) (-(Nat.ofDigitChars 10 digits 0))

/-- `[ exp ]` -/
inductive Exponent : List Char → ℤ → Prop
  | absent : Exponent [] 0
  | present {e : Char} (he : e = 'e' ∨ e = 'E') {text : List Char} {value : ℤ}
      (hsigned : Signed text value) : Exponent (e :: text) value

/-- `int [ frac ] [ exp ]`, with its mantissa and exponent. -/
inductive Magnitude : List Char → ℤ → ℤ → Prop
  | mk {int fraction digits exponent : List Char} {value : ℤ} (hint : IntegerPart int)
      (hfraction : Fraction fraction digits) (hexponent : Exponent exponent value) :
      Magnitude (int ++ (fraction ++ exponent)) (Nat.ofDigitChars 10 (int ++ digits) 0)
        (value - digits.length)

/-- `number` -/
inductive Number : List Char → ℤ → ℤ → Prop
  | bare {text : List Char} {mantissa exponent : ℤ}
      (hmagnitude : Magnitude text mantissa exponent) : Number text mantissa exponent
  | minus {text : List Char} {mantissa exponent : ℤ}
      (hmagnitude : Magnitude text mantissa exponent) : Number ('-' :: text) (-mantissa) exponent

/-! ## Strings -/

/-- `unescaped` -/
def isUnescaped (c : Char) : Bool := 0x20 ≤ c.toNat && c != '"' && c != '\\'

/-- The character an escape of two characters stands for. -/
def shortEscape (c : Char) : Option Char :=
  if c = '"' then some '"'
  else if c = '\\' then some '\\'
  else if c = '/' then some '/'
  else if c = 'b' then some '\x08'
  else if c = 'f' then some '\x0c'
  else if c = 'n' then some '\n'
  else if c = 'r' then some '\r'
  else if c = 't' then some '\t'
  else none

/-- The value of a hexadecimal digit. -/
def hexValue (c : Char) : Option ℕ :=
  if '0' ≤ c ∧ c ≤ '9' then some (c.toNat - 48)
  else if 'a' ≤ c ∧ c ≤ 'f' then some (c.toNat - 87)
  else if 'A' ≤ c ∧ c ≤ 'F' then some (c.toNat - 55)
  else none

/-- The UTF-16 code unit four hexadecimal digits write. -/
def codeUnit (a b c d : Char) : Option ℕ :=
  match hexValue a, hexValue b, hexValue c, hexValue d with
  | some a, some b, some c, some d => some (0x1000 * a + 0x100 * b + 0x10 * c + d)
  | _, _, _, _ => none

/-- The character a surrogate pair stands for. -/
def combined (high low : ℕ) : Char :=
  Char.ofNat (0x10000 + 0x400 * (high - 0xD800) + (low - 0xDC00))

/-- What follows the `\u` of an escape. -/
inductive Unicode : List Char → Char → Prop
  | scalar {a b c d : Char} {unit : ℕ} (hunit : codeUnit a b c d = some unit)
      (hvalid : unit.isValidChar) : Unicode [a, b, c, d] (Char.ofNat unit)
  | pair {a b c d a' b' c' d' : Char} {high low : ℕ} (hhigh : codeUnit a b c d = some high)
      (hlow : codeUnit a' b' c' d' = some low) (hhigh' : 0xD800 ≤ high ∧ high < 0xDC00)
      (hlow' : 0xDC00 ≤ low ∧ low < 0xE000) :
      Unicode [a, b, c, d, '\\', 'u', a', b', c', d'] (combined high low)

/-- `char` -/
inductive Character : List Char → Char → Prop
  | unescaped {c : Char} (hunescaped : isUnescaped c = true) : Character [c] c
  | short {e c : Char} (hshort : shortEscape e = some c) : Character ['\\', e] c
  | unicode {text : List Char} {c : Char} (hunicode : Unicode text c) :
      Character ('\\' :: 'u' :: text) c

/-- `*char` -/
inductive Characters : List Char → List Char → Prop
  | nil : Characters [] []
  | cons {text rest : List Char} {c : Char} {value : List Char}
      (hcharacter : Character text c) (hrest : Characters rest value) :
      Characters (text ++ rest) (c :: value)

/-- `string` -/
inductive Quoted : List Char → List Char → Prop
  | mk {text value : List Char} (hcharacters : Characters text value) :
      Quoted ('"' :: (text ++ ['"'])) value

/-! ## Values -/

/-- `ws value ws`, also the whole of a JSON text. -/
inductive Padded (Value : List Char → Json → Prop) : List Char → Json → Prop
  | mk {before text after : List Char} {value : Json} (hbefore : Space before)
      (hvalue : Value text value) (hafter : Space after) :
      Padded Value (before ++ (text ++ after)) value

/-- `member`, with the white space around it. -/
inductive Member (Value : List Char → Json → Prop) : List Char → List Char × Json → Prop
  | mk {before name after text : List Char} {key : List Char} {value : Json}
      (hbefore : Space before) (hname : Quoted name key) (hafter : Space after)
      (hvalue : Padded Value text value) :
      Member Value (before ++ (name ++ (after ++ ':' :: text))) (key, value)

/-- One or more items with a `value-separator` between each two. -/
inductive Separated {α : Type} (Item : List Char → α → Prop) : List Char → List α → Prop
  | last {text : List Char} {item : α} (hitem : Item text item) : Separated Item text [item]
  | cons {text rest : List Char} {item : α} {items : List α} (hitem : Item text item)
      (hrest : Separated Item rest items) : Separated Item (text ++ ',' :: rest) (item :: items)

/-- `value` -/
inductive Value : List Char → Json → Prop
  | null : Value ['n', 'u', 'l', 'l'] .null
  | literalTrue : Value ['t', 'r', 'u', 'e'] (.bool true)
  | literalFalse : Value ['f', 'a', 'l', 's', 'e'] (.bool false)
  | number {text : List Char} {mantissa exponent : ℤ} (hnumber : Number text mantissa exponent) :
      Value text (.num mantissa exponent)
  | string {text value : List Char} (hquoted : Quoted text value) : Value text (.str value)
  | emptyArray {space : List Char} (hspace : Space space) :
      Value ('[' :: (space ++ [']'])) (.arr [])
  | array {text : List Char} {items : List Json}
      (hitems : Separated (Padded Value) text items) : Value ('[' :: (text ++ [']'])) (.arr items)
  | emptyObject {space : List Char} (hspace : Space space) :
      Value ('{' :: (space ++ ['}'])) (.obj [])
  | object {text : List Char} {members : List (List Char × Json)}
      (hmembers : Separated (Member Value) text members) :
      Value ('{' :: (text ++ ['}'])) (.obj members)

/-- `JSON-text` -/
def Spells (text : List Char) (value : Json) : Prop := Padded Value text value

end Json
