import Febc.Entity.Attribute

/-!
# Entity files

An entity file describes one class: a magic number and format version, the constant pool, the
class's flags, its own and its superclasses' class entries, attributes, and its fields and
functions. Every count is two bytes; each member list is preceded by its count and by the size of
the table its members are slotted into, one past the largest table index.

Flags keep only the bits defined for their kind of declaration.
-/

namespace Febc

/-- Format version of an entity file. -/
structure Version where
  major : Nat
  minor : Nat
  deriving DecidableEq, Repr, Inhabited

/-- The version this compiler writes unless told otherwise. -/
def Version.initial : Version := ⟨1, 0⟩

/-! Access flags, each a bit of a two-byte word. -/
namespace AccessFlag

def publicBit : Nat := 0x0001
def privateBit : Nat := 0x0002
def secretBit : Nat := 0x0004
def staticBit : Nat := 0x0008
def finalBit : Nat := 0x0010
def nativeBit : Nat := 0x0100
def abstractBit : Nat := 0x0400

/-- Bits an entity may carry: public, private, secret, final, abstract. -/
def entityMask : Nat := 0x0417

/-- Bits a function may carry: those of an entity, static and native. -/
def functionMask : Nat := 0x051F

/-- Bits a field may carry: public, private, secret, static, final. -/
def fieldMask : Nat := 0x001F

end AccessFlag

/-- A field or function of an entity. -/
structure Member where
  flags : Nat
  nameIndex : Nat
  descriptorIndex : Nat
  tableIndex : Nat
  attributes : List Attribute
  deriving DecidableEq, Repr, Inhabited

/-- Flags (only the bits of `mask`), name, descriptor, table index, counted attributes. -/
def Member.serialize (mask : Nat) (m : Member) : List UInt8 :=
  beU16 (m.flags &&& mask) ++ beU16 m.nameIndex ++ beU16 m.descriptorIndex ++ beU16 m.tableIndex ++
    counted Attribute.serialize m.attributes

/-- Slots a member table needs: one past the largest index (at most 65535), zero if empty. -/
def tableSize (indices : List Nat) : Nat :=
  indices.foldl (fun acc i => max acc (min (i + 1) 65535)) 0

/-- One class, ready to be written. -/
structure EntityFile where
  version : Version := Version.initial
  streamFlags : Nat := 0
  constants : Array Constant
  flags : Nat
  /-- Class entry of the entity itself. -/
  self : Nat
  supers : List Nat
  attributes : List Attribute := []
  fields : List Member
  functions : List Member
  deriving Inhabited

namespace EntityFile

/-- The four bytes every entity file starts with. -/
def magic : List UInt8 := [0xFE, 0xB7, 0x20, 0x00]

/-- The byte of the one kind of entity: a class. -/
def classType : UInt8 := 0

/-- Members preceded by their count and their table size. -/
def members (mask : Nat) (ms : List Member) : List UInt8 :=
  beU16 ms.length ++ beU16 (tableSize (ms.map (·.tableIndex))) ++
    (ms.map (Member.serialize mask)).flatten

/-- The bytes of an entity file. -/
def serialize (e : EntityFile) : List UInt8 :=
  magic ++ beU16 e.version.major ++ beU16 e.version.minor ++ beU16 e.streamFlags ++
    counted Constant.serialize e.constants.toList ++
    [classType] ++ beU16 (e.flags &&& AccessFlag.entityMask) ++ beU16 e.self ++
    counted beU16 e.supers ++ counted Attribute.serialize e.attributes ++
    members AccessFlag.fieldMask e.fields ++ members AccessFlag.functionMask e.functions

theorem serialize_magic (e : EntityFile) : e.serialize.take 4 = magic := by
  simp [serialize, magic]

end EntityFile

end Febc
