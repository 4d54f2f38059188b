import Febc.Entity.ConstantPool
import Febc.Descriptor

/-!
# References into the constant pool

A class, field or function is referred to by an entry that points at the texts of its name and
descriptor. Interning a reference interns its parts first, in a fixed order (class name, class,
descriptor, member name, the reference itself), so the pool layout of a program is determined by
the order of its references alone.
-/

namespace Febc

/-- Intern the class entry of a name: its text, then the class. -/
def BinaryName.intern (name : BinaryName) : PoolM Nat := do
  let text ← ConstantPool.internUtf8 name.text
  ConstantPool.internClass text

/-- A field of a class, by name and type. -/
structure FieldRef where
  owner : BinaryName
  name : String
  descriptor : FieldType
  deriving DecidableEq, Repr, Inhabited

/-- Intern a field reference. -/
def FieldRef.intern (r : FieldRef) : PoolM Nat := do
  let owner ← r.owner.intern
  let descriptor ← ConstantPool.internUtf8 r.descriptor.render
  let name ← ConstantPool.internUtf8 r.name
  ConstantPool.internField owner descriptor name

/-- A function of a class, by name and descriptor, with its slot in the class's function
table. -/
structure FunctionRef where
  owner : BinaryName
  name : String
  descriptor : FunctionDescriptor
  tableIndex : Nat
  deriving DecidableEq, Repr, Inhabited

/-- Intern a function reference. -/
def FunctionRef.intern (r : FunctionRef) : PoolM Nat := do
  let owner ← r.owner.intern
  let descriptor ← ConstantPool.internUtf8 r.descriptor.render
  let name ← ConstantPool.internUtf8 r.name
  ConstantPool.internFunction owner descriptor name r.tableIndex

/-- A literal value that a `LoadCpr` instruction can load. -/
inductive ConstantData where
  | string (text : String)
  | integer (v : Int32)
  | long (v : Int64)
  | float (bits : UInt32)
  | double (bits : UInt64)
  deriving DecidableEq, Repr, Inhabited

/-- Intern a literal; a text becomes a string entry over its text entry. -/
def ConstantData.intern : ConstantData → PoolM Nat
  | .string text => do
    let utf8 ← ConstantPool.internUtf8 text
    ConstantPool.internString utf8
  | .integer v => ConstantPool.internInteger v
  | .long v => ConstantPool.internLong v
  | .float bits => ConstantPool.internFloat bits
  | .double bits => ConstantPool.internDouble bits

end Febc
