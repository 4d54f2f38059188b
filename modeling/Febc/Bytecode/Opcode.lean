/-!
# Opcodes of the entity virtual machine

An instruction is a one-byte opcode followed by a fixed list of big-endian operands, each one
or two bytes wide. This module fixes, for every opcode, its byte, its operand widths, whether it
jumps, falls through or invokes, and how it changes the depth of the operand stack.

Main statements:
* `ofByte?_toByte`: reading the byte of an opcode gives the opcode back;
* `toByte_injective`: no two opcodes share a byte;
* `length_eq`: the encoded length is one plus the operand bytes, so at most three.
-/

namespace Febc

/-- Width of one operand of an instruction. -/
inductive OperandWidth where
  | u8
  | u16
  deriving DecidableEq, Repr, Inhabited

namespace OperandWidth

/-- Bytes an operand of this width takes in the instruction stream. -/
def bytes : OperandWidth → Nat
  | .u8 => 1
  | .u16 => 2

/-- Name of the width as the instruction tables write it. -/
def name : OperandWidth → String
  | .u8 => "u8"
  | .u16 => "u16"

/-- Largest operand value a width can hold. -/
def max : OperandWidth → Nat
  | .u8 => 255
  | .u16 => 65535

end OperandWidth

/-- Instructions understood by the virtual machine. -/
inductive Opcode where
  | nop
  | pushNull
  | loadCpr
  | loadA
  | storeA
  | loadStaticField
  | storeStaticField
  | loadInstanceField
  | storeInstanceField
  | invokeSpecial
  | invokeVirtual
  | invokeDynamic
  | invokeStatic
  | new
  | duplicate
  | duplicateX1
  | duplicate2
  | pop
  | swap
  | jump
  | jumpEq0I
  | jumpNe0I
  | jumpEq0A
  | jumpNe0A
  | throw
  | ret
  | retA
  deriving DecidableEq, Repr, Inhabited, Hashable

namespace Opcode

/-- Every opcode, in the order of their bytes. -/
def all : List Opcode :=
  [.nop, .pushNull, .loadCpr, .loadA, .storeA, .loadStaticField, .storeStaticField,
    .loadInstanceField, .storeInstanceField, .invokeSpecial, .invokeVirtual, .invokeDynamic,
    .invokeStatic, .new, .duplicate, .duplicateX1, .duplicate2, .pop, .swap, .jump, .jumpEq0I,
    .jumpNe0I, .jumpEq0A, .jumpNe0A, .throw, .ret, .retA]

/-- The byte that encodes an opcode. Related opcodes share a high nibble: loads and stores of
locals `1x`, invocations `2x`, stack shuffles `3x`, jumps `4x`, exits `5x`. -/
def toByte : Opcode → UInt8
  | .nop => 0x00
  | .pushNull => 0x01
  | .loadCpr => 0x10
  | .loadA => 0x11
  | .storeA => 0x12
  | .loadStaticField => 0x18
  | .storeStaticField => 0x19
  | .loadInstanceField => 0x1A
  | .storeInstanceField => 0x1B
  | .invokeSpecial => 0x20
  | .invokeVirtual => 0x21
  | .invokeDynamic => 0x22
  | .invokeStatic => 0x23
  | .new => 0x28
  | .duplicate => 0x30
  | .duplicateX1 => 0x31
  | .duplicate2 => 0x32
  | .pop => 0x33
  | .swap => 0x34
  | .jump => 0x40
  | .jumpEq0I => 0x41
  | .jumpNe0I => 0x42
  | .jumpEq0A => 0x43
  | .jumpNe0A => 0x44
  | .throw => 0x50
  | .ret => 0x51
  | .retA => 0x52

/-- The opcode a byte encodes, if any. -/
def ofByte? (byte : UInt8) : Option Opcode :=
  all.find? (·.toByte == byte)

/-- The name of an opcode, as listings and error messages show it. -/
def name : Opcode → String
  | .nop => "Nop"
  | .pushNull => "PushNull"
  | .loadCpr => "LoadCpr"
  | .loadA => "LoadA"
  | .storeA => "StoreA"
  | .loadStaticField => "LoadStaticField"
  | .storeStaticField => "StoreStaticField"
  | .loadInstanceField => "LoadInstanceField"
  | .storeInstanceField => "StoreInstanceField"
  | .invokeSpecial => "InvokeSpecial"
  | .invokeVirtual => "InvokeVirtual"
  | .invokeDynamic => "InvokeDynamic"
  | .invokeStatic => "InvokeStatic"
  | .new => "New"
  | .duplicate => "Duplicate"
  | .duplicateX1 => "DuplicateX1"
  | .duplicate2 => "Duplicate2"
  | .pop => "Pop"
  | .swap => "Swap"
  | .jump => "Jump"
  | .jumpEq0I => "JumpEq0I"
  | .jumpNe0I => "JumpNe0I"
  | .jumpEq0A => "JumpEq0A"
  | .jumpNe0A => "JumpNe0A"
  | .throw => "Throw"
  | .ret => "Return"
  | .retA => "ReturnA"

/-- The opcode with a given name, if any. -/
def ofName? (text : String) : Option Opcode :=
  all.find? (·.name == text)

/-- Operand widths, in order. Locals are addressed by one byte; pool indices and jump targets
take two. -/
def operands : Opcode → List OperandWidth
  | .loadA | .storeA => [.u8]
  | .loadCpr | .loadStaticField | .storeStaticField | .loadInstanceField | .storeInstanceField
  | .invokeSpecial | .invokeVirtual | .invokeDynamic | .invokeStatic | .new => [.u16]
  | .jump | .jumpEq0I | .jumpNe0I | .jumpEq0A | .jumpNe0A => [.u16]
  | _ => []

/-- Encoded length of an instruction with this opcode, in bytes. -/
def length (op : Opcode) : Nat :=
  1 + (op.operands.map OperandWidth.bytes).foldr (· + ·) 0

/-- Does the instruction take a jump target as operand? -/
def isJump : Opcode → Bool
  | .jump | .jumpEq0I | .jumpNe0I | .jumpEq0A | .jumpNe0A => true
  | _ => false

/-- Does the instruction never fall through to the next one? -/
def isUnconditional : Opcode → Bool
  | .jump | .throw | .ret | .retA => true
  | _ => false

/-- Is this one of the four invocations? -/
def isInvoke : Opcode → Bool
  | .invokeSpecial | .invokeVirtual | .invokeDynamic | .invokeStatic => true
  | _ => false

/-- Change of the operand stack depth. Invocations depend on the descriptor of the function
they call, so they have none here. -/
def stackEffect : Opcode → Option Int
  | .nop | .swap | .jump | .ret | .loadInstanceField => some 0
  | .pushNull | .loadCpr | .loadA | .loadStaticField | .new | .duplicate | .duplicateX1 => some 1
  | .duplicate2 => some 2
  | .storeA | .storeStaticField | .pop | .jumpEq0I | .jumpNe0I | .jumpEq0A | .jumpNe0A
  | .throw | .retA => some (-1)
  | .storeInstanceField => some (-2)
  | .invokeSpecial | .invokeVirtual | .invokeDynamic | .invokeStatic => none

theorem ofByte?_toByte (op : Opcode) : ofByte? op.toByte = some op := by
  cases op <;> rfl

theorem toByte_injective {a b : Opcode} (same : a.toByte = b.toByte) : a = b := by
  have h := congrArg ofByte? same
  rwa [ofByte?_toByte, ofByte?_toByte, Option.some.injEq] at h

theorem ofName?_name (op : Opcode) : ofName? op.name = some op := by
  cases op <;> rfl

theorem length_eq (op : Opcode) : op.length = 1 ∨ op.length = 2 ∨ op.length = 3 := by
  cases op <;> simp [length, operands, OperandWidth.bytes]

theorem mem_all (op : Opcode) : op ∈ all := by
  cases op <;> simp [all]

end Opcode

end Febc
