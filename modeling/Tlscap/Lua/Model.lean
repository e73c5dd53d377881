import Tlscap.Keylog.Model

/-!
# The dissector engine

The Lua virtual machine is another crate.  `LuaVm` is what the engine calls of
it, over an abstract heap; how many bytes count as consumed is decided by the
engine, and modelled.
-/

namespace Tlscap

mutual

/-- A value a dissector recorded. -/
inductive FieldValue
  | uInt (value : UInt64)
  | str (value : Text)
  | bytes (value : Bytes)
  | tree (child : FrameFields)

/-- Everything recorded by one dissection, in encounter order. -/
inductive FrameFields
  | mk (entries : List (Text × FieldValue)) (protocol info : Option Text) (malformed : List Text)

end

/-- Fields without anything recorded. -/
def FrameFields.empty : FrameFields := .mk [] none none []

/-- A value a Lua function returns, as far as the engine looks at it.  A float is
given by its conversion to an unsigned integer, which truncates and saturates;
`none` is a float that is negative or not a number. -/
inductive LuaValue
  | integer (value : Int64)
  | number (truncated : Option ℕ)
  | other

/-- The virtual machine with the dissectors loaded into it, over the heap `σ`. -/
structure LuaVm (σ : Type) where
  /-- Whether a dissector is registered for a port. -/
  hasDissectorForPort : σ → UInt16 → Bool
  /-- Calls the dissector of a port: what it returns and has recorded, or its error.  A call
  in which a plugin panics ends the program, and none is among these. -/
  call : σ → UInt16 → Bytes → σ × Except Text (LuaValue × FrameFields)
  /-- A full garbage collection. -/
  gcCollect : σ → σ

namespace LuaVm

variable {σ : Type}

/-- How many bytes a dissector consumed by its return value; all of them if that
is not a number. -/
def consumed : LuaValue → (plaintextLen : ℕ) → ℕ
  | .integer value, plaintextLen =>
      if 0 ≤ value.toInt then min value.toInt.toNat plaintextLen else plaintextLen
  | .number (some truncated), plaintextLen => min truncated plaintextLen
  | .number none, plaintextLen => plaintextLen
  | .other, plaintextLen => plaintextLen

/-- Dissects a plaintext with the dissector of a port, if there is one. -/
def dissect (vm : LuaVm σ) (heap : σ) (port : UInt16) (plaintext : Bytes) :
    σ × Except Text (Option (FrameFields × ℕ)) :=
  if vm.hasDissectorForPort heap port then
    match vm.call heap port plaintext with
    | (heap, .error message) => (heap, .error message)
    | (heap, .ok (ret, fields)) => (heap, .ok (some (fields, consumed ret plaintext.length)))
  else (heap, .ok none)

/-- The dissectors compute a function of the port and the bytes. -/
def IsPure (vm : LuaVm σ)
    (result : UInt16 → Bytes → Except Text (Option (FrameFields × ℕ))) : Prop :=
  ∀ heap port plaintext, (vm.dissect heap port plaintext).2 = result port plaintext

end LuaVm

end Tlscap
