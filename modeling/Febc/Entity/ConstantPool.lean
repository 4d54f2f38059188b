import Std.Data.HashMap
import Febc.Error

/-!
# The constant pool of an entity

A pool is a list of distinct constants addressed from one; interning a constant answers the
index of its first occurrence, appending it if it is new. References are two bytes wide, so the
pool holds at most 65535 entries, and a text at most 65535 bytes.

The pool keeps its entries in an array for order and a hash map from constant to index for
lookup; the array alone is the meaning, and the map only speeds up the search.

Main statements:
* `intern_of_index`: a constant the map already knows is answered without change;
* `entries_reset`: a reset pool is empty.
-/

namespace Febc

/-- Interned constants, in the order they were first asked for. -/
structure ConstantPool where
  entries : Array Constant := #[]
  /-- The index of every entry, for lookup. -/
  index : Std.HashMap Constant Nat := {}
  deriving Inhabited

/-- Computations that intern constants and may hit a limit of the format; a failing step leaves
the pool as it was. -/
abbrev PoolM := ExceptT Error (StateM ConstantPool)

namespace ConstantPool

/-- The largest index a two-byte reference can hold. -/
def maxIndex : Nat := 65535

/-- The longest text, in UTF-8 bytes, that a two-byte length can count. -/
def maxTextBytes : Nat := 65535

/-- Number of entries. -/
def size (p : ConstantPool) : Nat := p.entries.size

/-- Forget every entry. -/
def reset (_ : ConstantPool) : ConstantPool := {}

/-- The entry at a one-based index; index zero names nothing. -/
def get? (p : ConstantPool) (i : Nat) : Option Constant :=
  if i = 0 then none else p.entries[i - 1]?

/-- The index of a constant, appending it if it is new. A new entry past the largest index
fails and leaves the pool as it was. -/
def intern (c : Constant) : PoolM Nat := ExceptT.mk fun ⟨entries, index⟩ =>
  match index[c]? with
  | some i => (.ok i, ⟨entries, index⟩)
  | none =>
    let offset := entries.size + 1
    if offset > maxIndex then (.error (.poolOverflow c offset), ⟨entries, index⟩)
    else (.ok offset, ⟨entries.push c, index.insert c offset⟩)

/-- Intern a text; a text longer than `maxTextBytes` bytes fails first. -/
def internUtf8 (text : String) : PoolM Nat :=
  if text.utf8ByteSize > maxTextBytes then throw (.utf8TooLong text.utf8ByteSize)
  else intern (.utf8 text)

def internString (utf8 : Nat) : PoolM Nat := intern (.string utf8)

def internClass (name : Nat) : PoolM Nat := intern (.classRef name)

def internField (owner descriptor name : Nat) : PoolM Nat :=
  intern (.field owner descriptor name)

def internFunction (owner descriptor name tableIndex : Nat) : PoolM Nat :=
  intern (.function owner descriptor name tableIndex)

def internInteger (v : Int32) : PoolM Nat := intern (.integer v)

def internLong (v : Int64) : PoolM Nat := intern (.long v)

def internFloat (bits : UInt32) : PoolM Nat := intern (.float bits)

def internDouble (bits : UInt64) : PoolM Nat := intern (.double bits)

/-- The bytes of every entry, in order. -/
def serializeEntries (p : ConstantPool) : List UInt8 :=
  (p.entries.toList.map Constant.serialize).flatten

theorem intern_of_index (c : Constant) (p : ConstantPool) (i : Nat) (known : p.index[c]? = some i) :
    runStep (intern c) p = (.ok i, p) := by
  obtain ⟨entries, index⟩ := p
  simp only at known
  simp [runStep, intern, ExceptT.run, ExceptT.mk, StateT.run, known]

theorem entries_reset (p : ConstantPool) : (reset p).entries = #[] := rfl

end ConstantPool

end Febc
