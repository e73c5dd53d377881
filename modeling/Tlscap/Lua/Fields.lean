import Tlscap.Lua.Model

/-!
# Reading recorded fields

The lookup of a field name through all levels of what a dissector recorded, and the
text a single value is written as.
-/

namespace Tlscap

namespace FieldValue

/-- The two hexadecimal digits of a byte, `{:02x}`. -/
def hexByte (b : UInt8) : Text :=
  [Nat.digitChar (b.toNat / 16), Nat.digitChar (b.toNat % 16)]

/-- `hex_encode` -/
def hexEncode (bytes : Bytes) : Text := bytes.flatMap hexByte

/-- A value as text; a subtree has none. -/
def toOutputString : FieldValue → Text
  | .uInt v => Nat.toDigits 10 v.toNat
  | .str s => s
  | .bytes b => hexEncode b
  | .tree _ => []

end FieldValue

namespace FrameFields

/-- The entries of this level, in encounter order. -/
def entries : FrameFields → List (Text × FieldValue)
  | .mk entries _ _ _ => entries

mutual

/-- Appends the leaf values of a name, from any depth, to those already found. -/
def collectValuesFor (fieldName : Text) : FrameFields → List FieldValue → List FieldValue
  | .mk entries _ _ _, out => collectEntriesFor fieldName entries out

/-- `collectValuesFor` from one entry of a level on. -/
def collectEntriesFor (fieldName : Text) :
    List (Text × FieldValue) → List FieldValue → List FieldValue
  | [], out => out
  | (_, .tree child) :: rest, out =>
      collectEntriesFor fieldName rest (collectValuesFor fieldName child out)
  | (name, value) :: rest, out =>
      collectEntriesFor fieldName rest (if name = fieldName then out ++ [value] else out)

end

/-- Every leaf value of a name, depth first. -/
def valuesFor (fields : FrameFields) (fieldName : Text) : List FieldValue :=
  fields.collectValuesFor fieldName []

end FrameFields

end Tlscap
