import Tlscap.Library.Arena
import Tlscap.Lua.Tvb

/-!
# What a dissector records

A script gets a handle for the top level of its dissection, and one more for every subtree
it makes; a handle is a shared reference to a mutable `Cell`, and outlives the call if the
script keeps it.  The engine reads the cells once the script has returned.  A script is
modelled by the calls it makes, one after the other, each with what it goes on with for
every reply.

What `add` puts into a level depends on its arguments:

* **A registered field** is recorded with the value behind it: a range is read by the kind of
  the field, which may be a panic, and anything else is taken as it is.
* **A table with a name** becomes a subtree under that name: a new cell, whose handle is the
  reply.
* **Anything else** records nothing; without an argument the call fails.
-/

namespace Tlscap

/-! ### Values -/

/-- The kinds of `ProtoField` a script can register. -/
inductive FieldKind
  | uInt
  | str
  | bytes
  deriving DecidableEq, Repr

/-- A registered `ProtoField`. -/
structure FieldDef where
  name : Text
  kind : FieldKind

/-- A recorded value that is not a subtree. -/
inductive Leaf
  | uInt (value : UInt64)
  | str (value : Text)
  | bytes (value : Bytes)
  deriving DecidableEq, Repr

/-- A leaf as the writers get it. -/
def Leaf.toFieldValue : Leaf → FieldValue
  | .uInt value => .uInt value
  | .str value => .str value
  | .bytes value => .bytes value

/-- A value that a script passes on, as far as `add` looks at it.  A float is given by its
saturating conversion, and a table by its `name` if that is a string. -/
inductive LuaArg
  | integer (value : Int64)
  | number (asU64 : UInt64)
  | string (bytes : Bytes)
  | uInt64 (value : UInt64)
  | tvbRange (range : TvbRange)
  | field (field : FieldDef)
  | userData
  | table (name : Option Text)
  | other

/-- `Value::UserData`, among the arguments told apart here. -/
def LuaArg.isUserData : LuaArg → Bool
  | .uInt64 _ | .tvbRange _ | .field _ | .userData => true
  | _ => false

namespace Utf8

/-- Where the bytes behind a leading byte must be; nothing if a byte leads nothing. -/
def continuations (lead : ℕ) : Option (List (ℕ × ℕ)) :=
  if lead < 0x80 then some []
  else if lead < 0xC2 then none
  else if lead < 0xE0 then some [(0x80, 0xBF)]
  else if lead = 0xE0 then some [(0xA0, 0xBF), (0x80, 0xBF)]
  else if lead = 0xED then some [(0x80, 0x9F), (0x80, 0xBF)]
  else if lead < 0xF0 then some [(0x80, 0xBF), (0x80, 0xBF)]
  else if lead = 0xF0 then some [(0x90, 0xBF), (0x80, 0xBF), (0x80, 0xBF)]
  else if lead < 0xF4 then some [(0x80, 0xBF), (0x80, 0xBF), (0x80, 0xBF)]
  else if lead = 0xF4 then some [(0x80, 0x8F), (0x80, 0xBF), (0x80, 0xBF)]
  else none

/-- How many bytes are where they must be, one after the other. -/
def matching : List (ℕ × ℕ) → Bytes → ℕ
  | (low, high) :: ranges, byte :: bytes =>
      if low ≤ byte.toNat ∧ byte.toNat ≤ high then matching ranges bytes + 1 else 0
  | _, _ => 0

/-- The number that a leading byte and the bytes behind it encode. -/
def codePoint (lead : ℕ) (behind : Bytes) : ℕ :=
  behind.foldl (fun value byte => value * 64 + byte.toNat % 64)
    (if behind.isEmpty then lead else lead % 2 ^ (6 - behind.length))

/-- The character in front of some bytes, and the bytes behind it.  What is no character
counts as one replacement character, up to where it goes wrong. -/
def next (byte : UInt8) (bytes : Bytes) : Char × Bytes :=
  match continuations byte.toNat with
  | none => ('\uFFFD', bytes)
  | some ranges =>
      let count := matching ranges bytes
      if count = ranges.length then
        (Char.ofNat (codePoint byte.toNat (bytes.take count)), bytes.drop count)
      else ('\uFFFD', bytes.drop count)

theorem length_next (byte : UInt8) (bytes : Bytes) : (next byte bytes).2.length ≤ bytes.length := by
  unfold next
  split
  · exact Nat.le_refl _
  · dsimp only
    split <;> exact List.length_drop ▸ Nat.sub_le _ _

end Utf8

/-- `String::from_utf8_lossy` -/
def fromUtf8Lossy : Bytes → Text
  | [] => []
  | byte :: bytes => (Utf8.next byte bytes).1 :: fromUtf8Lossy (Utf8.next byte bytes).2
  termination_by bytes => bytes.length
  decreasing_by exact Nat.lt_succ_of_le (Utf8.length_next byte bytes)

/-- `value_from_lua` -/
def valueFromLua : LuaArg → Option Leaf
  | .integer value => some (.uInt value.toUInt64)
  | .number asU64 => some (.uInt asU64)
  | .string bytes => some (.str (fromUtf8Lossy bytes))
  | .uInt64 value => some (.uInt value)
  | _ => none

/-- `result.unwrap_or(0)` -/
def uIntOrZero : Except Text UInt64 → Leaf
  | .ok value => .uInt value
  | .error _ => .uInt 0

/-- `value_from_tvbrange`; `none` is a panic. -/
def valueFromTvbRange (range : TvbRange) : FieldKind → Option Leaf
  | .uInt => range.uintBe.map uIntOrZero
  | .bytes => range.bytes.map .bytes
  | .str => range.bytes.map fun bytes => .str (fromUtf8Lossy bytes)

/-- `value_from_tvbrange_le` -/
def valueFromTvbRangeLe (range : TvbRange) : FieldKind → Option Leaf
  | .uInt => range.uintLe.map uIntOrZero
  | kind => valueFromTvbRange range kind

/-- The value that `add` records of a field with the arguments behind it. -/
def FieldDef.value (field : FieldDef) (littleEndian : Bool) : List LuaArg → Option Leaf
  | [.tvbRange range, explicit] =>
      match valueFromLua explicit with
      | some value => some value
      -- the order of the bytes is not looked at here
      | none => valueFromTvbRange range field.kind
  | [.tvbRange range] =>
      if littleEndian then valueFromTvbRangeLe range field.kind
      else valueFromTvbRange range field.kind
  | [only] => some (if only.isUserData then .uInt 0 else (valueFromLua only).getD (.uInt 0))
  | [] => some (.uInt 0)
  | first :: rest => some ((valueFromLua ((first :: rest).getLast?.getD first)).getD (.uInt 0))

/-! ### The cells -/

/-- What a level holds under a name: a value, or the cell of a subtree. -/
inductive CellValue
  | leaf (value : Leaf)
  | tree (address : ℕ)
  deriving DecidableEq, Repr

/-- `RefCell<FrameFields>` -/
structure Cell where
  entries : List (Text × CellValue) := []
  protocol : Option Text := none
  info : Option Text := none
  malformed : List Text := []

/-- Every cell there has been; a handle is the place of its cell. -/
abbrev CellHeap := List Cell

namespace CellHeap

variable (heap : CellHeap)

/-- The cell at an address; an empty one where there is none. -/
def cell (address : ℕ) : Cell := heap.getD address {}

/-- `TreeItem::record` -/
def record (this : ℕ) (name : Text) (value : CellValue) : CellHeap :=
  heap.modify this fun cell => { cell with entries := cell.entries ++ [(name, value)] }

end CellHeap

/-- The subtree of an entry. -/
def subtree? : Text × CellValue → Option ℕ
  | (_, .leaf _) => none
  | (_, .tree address) => some address

/-- What a cell holds, with what is in the cells of its subtrees. -/
def Cell.read (cell : Cell) (visit : ℕ → FrameFields) : FrameFields :=
  .mk (cell.entries.map fun entry =>
    (entry.1, match entry.2 with
      | .leaf value => value.toFieldValue
      | .tree address => .tree (visit address)))
    cell.protocol cell.info cell.malformed

/-- The fields that are found at a cell. -/
def CellHeap.fields (heap : CellHeap) (address : ℕ) : FrameFields :=
  Arena.fold FrameFields.empty Cell.read heap.cell heap.length address

/-! ### Calls -/

/-- What a call gives the script: the handle of a subtree, a text or nothing. -/
inductive Reply
  | treeItem (handle : ℕ)
  | text (value : Text)
  | nil

/-- A call on the handle of a cell: of its `TreeItem`, or of the `pinfo.cols` with it. -/
inductive Request
  | add (this : ℕ) (args : List LuaArg) (littleEndian : Bool)
  | setGenerated (this : ℕ)
  | setHidden (this : ℕ)
  | addExpertInfo (this : ℕ) (msg : Option Text)
  | protocol (this : ℕ)
  | setProtocol (this : ℕ) (value : Text)
  | info (this : ℕ)
  | setInfo (this : ℕ) (value : Text)

/-- The handle a call is made on. -/
def Request.this : Request → ℕ
  | .add this _ _ | .setGenerated this | .setHidden this | .addExpertInfo this _
  | .protocol this | .setProtocol this _ | .info this | .setInfo this _ => this

/-- What `add` puts into a level. -/
inductive Added
  | value (name : Text) (value : Leaf)
  | subtree (name : Text)
  | nothing

/-- What the arguments of `add` ask for; `none` is a panic. -/
def addedBy (args : List LuaArg) (littleEndian : Bool) : Option (Except Text Added) :=
  match args with
  | [] => some (.error "TreeItem:add: missing field/proto argument".toList)
  | .field field :: rest =>
      (field.value littleEndian rest).map fun value => .ok (.value field.name value)
  | .table (some name) :: _ => some (.ok (.subtree name))
  -- neither a field nor a table with a name
  | _ :: _ => some (.ok .nothing)

/-- `dispatch_add` -/
def dispatchAdd (heap : CellHeap) (this : ℕ) (args : List LuaArg) (littleEndian : Bool) :
    Option (CellHeap × Except Text Reply) :=
  (addedBy args littleEndian).map fun
    | .error message => (heap, .error message)
    | .ok (.value name value) => (heap.record this name (.leaf value), .ok (.treeItem this))
    | .ok (.subtree name) =>
        let child := heap.length
        (CellHeap.record (heap ++ [{}]) this name (.tree child), .ok (.treeItem child))
    | .ok .nothing => (heap, .ok (.treeItem this))

/-- What a call does to the cells, and its reply. -/
def Request.perform (heap : CellHeap) : Request → Option (CellHeap × Except Text Reply)
  | .add this args littleEndian => dispatchAdd heap this args littleEndian
  | .setGenerated this | .setHidden this => some (heap, .ok (.treeItem this))
  | .addExpertInfo this msg =>
      some (heap.modify this fun cell =>
        { cell with malformed := cell.malformed ++ [msg.getD []] }, .ok .nil)
  | .protocol this => some (heap, .ok (.text ((heap.cell this).protocol.getD [])))
  | .setProtocol this value =>
      some (heap.modify this fun cell => { cell with protocol := some value }, .ok .nil)
  | .info this => some (heap, .ok (.text ((heap.cell this).info.getD [])))
  | .setInfo this value =>
      some (heap.modify this fun cell => { cell with info := some value }, .ok .nil)

/-! ### Scripts -/

/-- What a dissector does: it returns, fails, or makes a call and goes on with the reply.
At its end are the globals it leaves. -/
inductive Script (τ : Type)
  | finish (ret : LuaValue) (globals : τ)
  | raise (message : Text) (globals : τ)
  | call (request : Request) (next : Except Text Reply → Script τ)

/-- What a script came to. -/
structure Called (τ : Type) where
  heap : CellHeap
  globals : τ
  requests : List Request
  outcome : Except Text LuaValue

/-- Runs a script to its end.  A handle is that of a cell there is; `none` is a panic. -/
def Script.run {τ : Type} : Script τ → CellHeap → Option (Called τ)
  | .finish ret globals, heap => some ⟨heap, globals, [], .ok ret⟩
  | .raise message globals, heap => some ⟨heap, globals, [], .error message⟩
  | .call request next, heap =>
      if request.this < heap.length then
        (request.perform heap).bind fun (heap, reply) =>
          ((next reply).run heap).map fun called =>
            { called with requests := request :: called.requests }
      else none

/-- The dissector of a plugin, on the globals, the plaintext and the handle of the top
level. -/
abbrev ScriptedDissector (τ : Type) := τ → Bytes → ℕ → Script τ

/-- The dissectors registered on `tls.port`.  An error is what reading `dissector` of the
registered table says where that is no function. -/
abbrev DissectorRegistry (τ : Type) := UInt16 → Option (Except Text (ScriptedDissector τ))

/-- One dissection. -/
structure Dissection where
  root : ℕ
  requests : List Request
  result : Except Text (LuaValue × FrameFields)

section Engine

variable {τ : Type} (registry : DissectorRegistry τ)

/-- `LuaEngine::dissect` up to what it makes of the returned value; nothing if no dissector
is registered. -/
def callDissector (state : CellHeap × τ) (port : UInt16) (plaintext : Bytes) :
    Option ((CellHeap × τ) × Option Dissection) :=
  match registry port with
  | none => some (state, none)
  | some (.error message) => some (state, some ⟨state.1.length, [], .error message⟩)
  | some (.ok dissector) =>
      let root := state.1.length
      ((dissector state.2 plaintext root).run (state.1 ++ [{}])).map fun called =>
        ((called.heap, called.globals), some ⟨root, called.requests,
          called.outcome.map fun ret => (ret, called.heap.fields root)⟩)

/-- Dissects one plaintext after the other, each on its port. -/
def dissectAll : CellHeap × τ → List (UInt16 × Bytes) →
    Option ((CellHeap × τ) × List Dissection)
  | state, [] => some (state, [])
  | state, (port, plaintext) :: rest =>
      (callDissector registry state port plaintext).bind fun (state, dissection) =>
        (dissectAll state rest).map fun (state, later) => (state, dissection.toList ++ later)

end Engine

end Tlscap
