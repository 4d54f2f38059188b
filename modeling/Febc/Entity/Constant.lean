import Febc.Bytecode.Instruction
import Febc.Text.Quoted

/-!
# Constants of an entity's pool

A constant is a number, a UTF-8 text, or a reference that points at other entries of the same
pool by their one-based index. Each entry is written as a one-byte tag and its payload, all
numbers big-endian; a text carries its byte length in two bytes.

Main statement: `serialize_head`, every serialized constant starts with its tag.
-/

namespace Febc

/-- Big-endian bytes of the low 32 bits of a number. -/
def beU32 (v : Nat) : List UInt8 :=
  [(v / Nat.pow 2 24).toUInt8, (v / Nat.pow 2 16).toUInt8, (v / Nat.pow 2 8).toUInt8, v.toUInt8]

/-- Big-endian bytes of the low 64 bits of a number. -/
def beU64 (v : Nat) : List UInt8 :=
  beU32 (v / Nat.pow 2 32) ++ beU32 v

/-- Big-endian bytes of the low 16 bits of a number. -/
def beU16 (v : Nat) : List UInt8 :=
  OperandWidth.u16.encode v

/-- A two-byte count followed by the items' bytes; the count keeps only its low 16 bits. -/
def counted {α : Type} (write : α → List UInt8) (items : List α) : List UInt8 :=
  beU16 items.length ++ (items.map write).flatten

/-- One entry of a constant pool. Indices point at other entries and count from one. -/
inductive Constant where
  | integer (v : Int32)
  | long (v : Int64)
  /-- A single-precision number, kept as its bit pattern so that every NaN is its own entry. -/
  | float (bits : UInt32)
  /-- A double-precision number, kept as its bit pattern. -/
  | double (bits : UInt64)
  | utf8 (text : String)
  /-- A string object whose text is the `utf8` entry at the index. -/
  | string (utf8 : Nat)
  /-- A function of a class, with its slot in that class's function table. -/
  | function (owner descriptor name : Nat) (tableIndex : Nat)
  | field (owner descriptor name : Nat)
  /-- A class, named by the `utf8` entry at the index. -/
  | classRef (name : Nat)
  deriving DecidableEq, Repr, Inhabited, Hashable

namespace Constant

/-- The byte that starts a serialized constant. -/
def tag : Constant → UInt8
  | .integer _ => 1
  | .long _ => 2
  | .float _ => 3
  | .double _ => 4
  | .utf8 _ => 5
  | .string _ => 6
  | .function .. => 7
  | .field .. => 8
  | .classRef _ => 9

/-- The bytes of a constant: its tag, then its payload. -/
def serialize (c : Constant) : List UInt8 :=
  c.tag :: match c with
    | .integer v => beU32 v.toUInt32.toNat
    | .long v => beU64 v.toUInt64.toNat
    | .float bits => beU32 bits.toNat
    | .double bits => beU64 bits.toNat
    | .utf8 text => beU16 text.utf8ByteSize ++ text.toUTF8.toList
    | .string text => beU16 text
    | .function owner descriptor name tableIndex =>
      beU16 owner ++ beU16 descriptor ++ beU16 name ++ beU16 tableIndex
    | .field owner descriptor name => beU16 owner ++ beU16 descriptor ++ beU16 name
    | .classRef name => beU16 name

theorem serialize_head (c : Constant) : c.serialize.head? = some c.tag := rfl

/-! ## Text of a constant in error messages -/

/-- How an index of a given kind is written: `Utf8ConstantIndex(ConstantIndex(3))`. -/
def describeIndex (kind : String) (i : Nat) : String :=
  kind ++ "ConstantIndex(ConstantIndex(" ++ toString i ++ "))"

/-- The text of a constant inside an error message. -/
def describe : Constant → String
  | .integer v => "Integer(" ++ toString v.toInt ++ ")"
  | .long v => "Long(" ++ toString v.toInt ++ ")"
  | .float bits => "Float(" ++ toString bits.toNat ++ ")"
  | .double bits => "Double(" ++ toString bits.toNat ++ ")"
  | .utf8 text => "Utf8(" ++ Quoted.quote text ++ ")"
  | .string text => "String(" ++ describeIndex "Utf8" text ++ ")"
  | .function owner descriptor name tableIndex =>
    "Function \x7b class: " ++ describeIndex "Class" owner ++ ", descriptor: " ++
      describeIndex "Utf8" descriptor ++ ", name: " ++ describeIndex "Utf8" name ++
      ", table_index: " ++ toString tableIndex ++ " \x7d"
  | .field owner descriptor name =>
    "Field \x7b class: " ++ describeIndex "Class" owner ++ ", descriptor: " ++
      describeIndex "Utf8" descriptor ++ ", name: " ++ describeIndex "Utf8" name ++ " \x7d"
  | .classRef name => "Class(" ++ describeIndex "Utf8" name ++ ")"

end Constant

end Febc
