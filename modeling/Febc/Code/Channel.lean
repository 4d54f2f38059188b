import Febc.Error

/-!
# Channels

A channel set holds several growing byte buffers, the channels, at most one of them active.
Instructions are emitted into the active channel; a channel can be patched in place, read, and
removed, which hands back its bytes. Channels are numbered in the order they were opened, and
clearing the set closes all of them and starts the numbering again.

Naming a channel that is not open, or emitting with none active, is a `Violation`; the set is
then left as it was.

Every operation takes the set apart before it changes a buffer, so that a buffer held only by the
set is updated in place.

Main statements:
* `emit_offset`: an emission answers the size of the active channel before it;
* `openCount_add`: opening a channel adds one open channel.
-/

namespace Febc

/-- Numbered byte buffers, each open or closed, and the active one. -/
structure ChannelSet where
  slots : Array (Option (Array UInt8)) := #[]
  active : Option Nat := none
  deriving Inhabited

/-- Steps on a channel set. -/
abbrev ChannelM := ExceptT Halt (StateM ChannelSet)

namespace ChannelSet

/-- The bytes of an open channel. -/
def bytes? (cs : ChannelSet) (id : Nat) : Outcome (Array UInt8) :=
  match cs.slots[id]? with
  | some (some b) => .ok b
  | _ => violate (.channelNotOpen id)

/-- Number of open channels. -/
def openCount (cs : ChannelSet) : Nat :=
  cs.slots.toList.countP Option.isSome

/-- Open a new, empty channel and answer its number. -/
def add : ChannelM Nat := ExceptT.mk fun ⟨slots, active⟩ =>
  (.ok slots.size, ⟨slots.push (some #[]), active⟩)

/-- The bytes of an open channel. -/
def bytes (id : Nat) : ChannelM (Array UInt8) := ExceptT.mk fun cs => (cs.bytes? id, cs)

/-- The size of an open channel. -/
def size (id : Nat) : ChannelM Nat := ExceptT.mk fun cs => ((cs.bytes? id).map Array.size, cs)

/-- Close a channel and hand back its bytes; it stops being active if it was. -/
def remove (id : Nat) : ChannelM (Array UInt8) := ExceptT.mk fun ⟨slots, active⟩ =>
  match slots[id]? with
  | some (some b) => (.ok b, ⟨slots.set! id none, if active = some id then none else active⟩)
  | _ => (violate (.channelNotOpen id), ⟨slots, active⟩)

/-- Make an open channel the active one. -/
def setActive (id : Nat) : ChannelM Unit := ExceptT.mk fun ⟨slots, active⟩ =>
  match slots[id]? with
  | some (some _) => (.ok (), ⟨slots, some id⟩)
  | _ => (violate (.channelNotOpen id), ⟨slots, active⟩)

/-- Close every channel and forget the numbering. -/
def clear : ChannelM Unit := ExceptT.mk fun _ => (.ok (), {})

/-- Check operands against the widths of an opcode: their number first, then each one-byte
operand's size. -/
def checkOperands (op : Opcode) (operands : List Nat) : Outcome Unit :=
  if op.operands.length ≠ operands.length then violate (.operandCount op)
  else
    match (op.operands.zip operands).find? fun (w, v) => w = .u8 ∧ v > 255 with
    | some (_, v) => violate (.operandTooWide v op)
    | none => .ok ()

/-- Emit one instruction into the active channel and answer the offset of its opcode. -/
def emit (op : Opcode) (operands : List Nat) : ChannelM Nat := ExceptT.mk fun ⟨slots, active⟩ =>
  if op.operands.length ≠ operands.length then (violate (.operandCount op), ⟨slots, active⟩)
  else
    match active with
    | none => (violate .noActiveChannel, ⟨slots, active⟩)
    | some id =>
      match slots[id]? with
      | some (some b) =>
        let offset := b.size
        match checkOperands op operands with
        | .ok () =>
          let data := (encodeInstruction op operands).toArray
          (.ok offset, ⟨slots.modify id (Option.map (· ++ data)), active⟩)
        | .error h => (.error h, ⟨slots, active⟩)
      | _ => (violate (.channelNotOpen id), ⟨slots, active⟩)

/-- Offsets are machine words: every offset lies below this bound. -/
def offsetBound : Nat := Nat.pow 2 64

/-- Overwrite two bytes of an open channel with a big-endian value. The end of the two bytes
must itself be an offset, and lie inside the channel. -/
def patch (id offset value : Nat) : ChannelM Unit := ExceptT.mk fun ⟨slots, active⟩ =>
  match slots[id]? with
  | some (some b) =>
    let size := b.size
    if offset + 2 ≥ offsetBound then (violate .offsetOverflow, ⟨slots, active⟩)
    else if offset + 2 > size then (violate (.patchOutside offset size), ⟨slots, active⟩)
    else
      let overwrite := fun (bs : Array UInt8) =>
        (bs.set! offset (value / 256).toUInt8).set! (offset + 1) value.toUInt8
      (.ok (), ⟨slots.modify id (Option.map overwrite), active⟩)
  | _ => (violate (.channelNotOpen id), ⟨slots, active⟩)

theorem openCount_add (cs : ChannelSet) : ((add.run cs).run.2).openCount = cs.openCount + 1 := by
  simp [add, openCount, ExceptT.run, ExceptT.mk, Id.run]

theorem emit_offset (cs : ChannelSet) (op : Opcode) (operands : List Nat) (offset : Nat)
    (h : ((emit op operands).run cs).run.1 = .ok offset) :
    ∃ id b, cs.active = some id ∧ cs.bytes? id = .ok b ∧ offset = b.size := by
  obtain ⟨slots, active⟩ := cs
  simp only [emit, ExceptT.run, ExceptT.mk, Id.run] at h
  by_cases hn : op.operands.length ≠ operands.length
  · simp [hn, violate] at h
  · rw [if_neg hn] at h
    cases active with
    | none => simp [violate] at h
    | some id =>
      simp only at h
      cases hs : slots[id]? with
      | none => simp [hs, violate] at h
      | some slot =>
        cases slot with
        | none => simp [hs, violate] at h
        | some b =>
          simp only [hs] at h
          cases hc : checkOperands op operands with
          | error e => simp [hc] at h
          | ok u =>
            simp only [hc, Except.ok.injEq] at h
            exact ⟨id, b, rfl, by simp [bytes?, hs], h.symm⟩

end ChannelSet

end Febc
