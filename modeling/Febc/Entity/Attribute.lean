import Febc.Entity.ConstantPool

/-!
# Attributes

An attribute is a named blob of bytes attached to an entity, field or function: the pool index of
its name, a four-byte length, and the bytes. The one attribute this compiler writes holds a
function's code: its stack bound, its local count, its instructions, and its exception table.
-/

namespace Febc

/-- A named blob of bytes. -/
structure Attribute where
  nameIndex : Nat
  info : List UInt8
  deriving DecidableEq, Repr, Inhabited

/-- Name index, four-byte length, bytes. -/
def Attribute.serialize (a : Attribute) : List UInt8 :=
  beU16 a.nameIndex ++ beU32 a.info.length ++ a.info

/-- One row of an exception table: a throw at an offset in `[start, stop)` whose exception is
of class `catchClass` (any exception if none) continues at `handler`. -/
structure HandlerSite where
  start : Nat
  stop : Nat
  handler : Nat
  catchClass : Option Nat
  deriving DecidableEq, Repr, Inhabited

/-- Start, stop, handler, class (zero for any), two bytes each. -/
def HandlerSite.serialize (s : HandlerSite) : List UInt8 :=
  beU16 s.start ++ beU16 s.stop ++ beU16 s.handler ++ beU16 (s.catchClass.getD 0)

/-- The code of a function. -/
structure InstructionAttribute where
  maxStack : Nat
  localCount : Nat
  code : List UInt8
  handlers : List HandlerSite
  deriving DecidableEq, Repr, Inhabited

/-- The name under which code is attached to a function. -/
def InstructionAttribute.name : String := "vm/InstructionAttribute"

/-- Stack bound, local count, four-byte code length, code, counted exception table. -/
def InstructionAttribute.serialize (a : InstructionAttribute) : List UInt8 :=
  beU16 a.maxStack ++ beU16 a.localCount ++ beU32 a.code.length ++ a.code ++
    counted HandlerSite.serialize a.handlers

/-- Attach code as an attribute: intern the attribute's name, then write the code. -/
def InstructionAttribute.intern (a : InstructionAttribute) : PoolM Attribute := do
  let nameIndex ← ConstantPool.internUtf8 InstructionAttribute.name
  pure ⟨nameIndex, a.serialize⟩

end Febc
