import Febc.Bytecode.Opcode

/-!
# Instruction streams

Encoding writes an opcode byte and then each operand big-endian in its width. Decoding walks a
byte image from offset zero with the operand table, and stops at the first byte that is no
opcode or at an instruction cut short by the end of the image.

Main statement: `decode_nil`, the empty image decodes to no instructions.
-/

namespace Febc

namespace OperandWidth

/-- Big-endian bytes of an operand in this width; higher bits are dropped. -/
def encode : OperandWidth → Nat → List UInt8
  | .u8, v => [v.toUInt8]
  | .u16, v => [(v / 256).toUInt8, v.toUInt8]

/-- The operand value of big-endian bytes, which must be exactly `w.bytes` long. -/
def value : List UInt8 → Nat
  | [] => 0
  | b :: rest => b.toNat * Nat.pow 256 rest.length + value rest

theorem length_encode (w : OperandWidth) (v : Nat) : (w.encode v).length = w.bytes := by
  cases w <;> rfl

end OperandWidth

/-- Big-endian bytes of several operands, one after the other. -/
def encodeOperands : List OperandWidth → List Nat → List UInt8
  | w :: ws, v :: vs => w.encode v ++ encodeOperands ws vs
  | _, _ => []

/-- The bytes of one instruction: the opcode, then its operands. -/
def encodeInstruction (op : Opcode) (operands : List Nat) : List UInt8 :=
  op.toByte :: encodeOperands op.operands operands

/-- One decoded instruction. -/
structure Instruction where
  /-- Byte offset of the opcode in the stream. -/
  offset : Nat
  opcode : Opcode
  operands : List Nat
  deriving DecidableEq, Repr, Inhabited

namespace Instruction

/-- The target of a jump instruction: its first operand. -/
def jumpTarget? (i : Instruction) : Option Nat :=
  if i.opcode.isJump then i.operands.head? else none

/-- Bytes this instruction encodes to. -/
def bytes (i : Instruction) : List UInt8 :=
  encodeInstruction i.opcode i.operands

/-- Listing line: the offset right-aligned in five columns, a colon, the opcode name and each
operand after a blank. -/
def text (i : Instruction) : String :=
  let offset := toString i.offset
  let pad := "".pushn ' ' (5 - offset.length)
  i.operands.foldl (fun acc v => acc ++ " " ++ toString v) (pad ++ offset ++ ": " ++ i.opcode.name)

end Instruction

/-- Why a byte image is not an instruction stream. -/
inductive DecodeError where
  /-- The byte at `offset` is no opcode. -/
  | malformed (offset : Nat) (byte : UInt8)
  /-- The instruction at `offset` runs past the end of the image. -/
  | truncated (offset : Nat)
  deriving DecidableEq, Repr, Inhabited

/-- Read operands of the given widths from the front of a byte list. -/
def readOperands : List OperandWidth → List UInt8 → List Nat
  | [], _ => []
  | w :: ws, bytes => OperandWidth.value (bytes.take w.bytes) :: readOperands ws (bytes.drop w.bytes)

/-- Decode the rest of an image whose first byte lies at `offset`, after the instructions `acc`
decoded before it. -/
def decodeFrom (offset : Nat) (acc : Array Instruction) (bytes : List UInt8) :
    Except DecodeError (Array Instruction) :=
  match bytes with
  | [] => .ok acc
  | b :: rest =>
    match Opcode.ofByte? b with
    | none => .error (.malformed offset b)
    | some op =>
      let operandBytes := rest.take (op.length - 1)
      if operandBytes.length < op.length - 1 then .error (.truncated offset)
      else
        let insn : Instruction := ⟨offset, op, readOperands op.operands operandBytes⟩
        decodeFrom (offset + op.length) (acc.push insn) (rest.drop (op.length - 1))
termination_by bytes.length
decreasing_by
  simp only [List.length_drop, List.length_cons]
  omega

/-- Decode a whole byte image from offset zero. -/
def decode (bytes : List UInt8) : Except DecodeError (List Instruction) :=
  (decodeFrom 0 #[] bytes).map Array.toList

theorem decode_nil : decode [] = .ok [] := by
  rw [decode, decodeFrom]
  rfl

end Febc
