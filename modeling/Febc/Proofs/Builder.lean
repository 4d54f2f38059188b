import Febc.Code.Builder
import Febc.Proofs.Image

/-!
# What each step of a code builder does

A code builder writes into one channel of a channel set. While that channel is open and active
(`Live`), every step of the builder has a closed form: the bytes it appends or overwrites, and
the fields it changes. This module states those forms, one equation per step, together with the
views later proofs read a builder through: its code, the instructions the code decodes to, and its
size.

Main statements:
* `runStep_pushInstruction`, `runStep_pushJump`, `runStep_placeLabel`: the closed forms of the
  steps that emit code and resolve labels;
* `encoded_write`: appending an encoded instruction appends it to the decoded code.
-/

namespace Febc

section Steps

variable {ε σ α β : Type}

@[simp] theorem runStep_throw (e : ε) (s : σ) :
    runStep (throw e : ExceptT ε (StateM σ) α) s = (.error e, s) := rfl

@[simp] theorem runStep_modify (f : σ → σ) (s : σ) :
    runStep (modify f : ExceptT ε (StateM σ) Unit) s = (.ok (), f s) := rfl

@[simp] theorem runStep_get (s : σ) :
    runStep (get : ExceptT ε (StateM σ) σ) s = (.ok s, s) := rfl

@[simp] theorem runStep_modifyGet (f : σ → α × σ) (s : σ) :
    runStep (modifyGet f : ExceptT ε (StateM σ) α) s = (.ok (f s).1, (f s).2) := rfl

@[simp] theorem runStep_mk (f : σ → Except ε α × σ) (s : σ) :
    runStep (ExceptT.mk f : ExceptT ε (StateM σ) α) s = f s := rfl

end Steps


namespace CodeBuilder

/-! ## Views -/

/-- The bytes of the builder's channel; empty once the channel is closed. -/
def code (b : CodeBuilder) : Array UInt8 :=
  match b.channels.slots[b.channel]? with
  | some (some bytes) => bytes
  | _ => #[]

/-- The instructions the code decodes to; none if it does not decode. -/
def instructions (b : CodeBuilder) : List Instruction :=
  match decode b.code.toList with
  | .ok is => is
  | .error _ => []

/-- The builder's channel is open and active, so that emitting writes to it. -/
def Live (b : CodeBuilder) : Prop :=
  b.channels.active = some b.channel ∧ ∃ bytes, b.channels.slots[b.channel]? = some (some bytes)

/-- The code is the image of its instructions, laid out from zero, each fitting its opcode. -/
def Encoded (b : CodeBuilder) : Prop :=
  b.code.toList = image b.instructions ∧ Laid 0 b.instructions ∧ ∀ i ∈ b.instructions, i.Fits

theorem instructions_eq_of_image {b : CodeBuilder} {is : List Instruction}
    (same : b.code.toList = image is) (laid : Laid 0 is) (fits : ∀ i ∈ is, i.Fits) :
    b.instructions = is := by
  simp [instructions, same, decode_image is laid fits]

theorem size_eq_length_image {b : CodeBuilder} (encoded : b.Encoded) :
    b.code.size = (image b.instructions).length := by
  rw [← encoded.1, Array.length_toList]

/-! ## Spec-side forms of the state changes -/

/-- Append bytes to the builder's channel. -/
def write (b : CodeBuilder) (data : List UInt8) : CodeBuilder :=
  { b with channels := { b.channels with
      slots := b.channels.slots.modify b.channel (Option.map (· ++ data.toArray)) } }

/-- Overwrite the two bytes at an offset of the builder's channel with a big-endian value. -/
def overwrite (b : CodeBuilder) (offset value : Nat) : CodeBuilder :=
  { b with channels := { b.channels with
      slots := b.channels.slots.modify b.channel (Option.map fun bytes =>
        (bytes.set! offset (value / 256).toUInt8).set! (offset + 1) value.toUInt8) } }

/-- The depth after an effect: from the depth here, zero where unreachable, and never below
zero. -/
def depthAfter (b : CodeBuilder) (effect : Int) : Nat := (Int.ofNat (b.depth.getD 0) + effect).toNat

/-- The builder after a change of the stack depth. -/
def adjusted (b : CodeBuilder) (effect : Int) : CodeBuilder :=
  { b with depth := some (b.depthAfter effect), maxDepth := max b.maxDepth (b.depthAfter effect) }

/-- The builder after an instruction: unreachable if it never falls through. -/
def stopping (b : CodeBuilder) (op : Opcode) : CodeBuilder :=
  if op.isUnconditional then { b with depth := none } else b

@[simp] theorem write_labels (b : CodeBuilder) (d : List UInt8) : (b.write d).labels = b.labels := rfl
@[simp] theorem write_depth (b : CodeBuilder) (d : List UInt8) : (b.write d).depth = b.depth := rfl
@[simp] theorem write_maxDepth (b : CodeBuilder) (d : List UInt8) :
    (b.write d).maxDepth = b.maxDepth := rfl
@[simp] theorem write_handlers (b : CodeBuilder) (d : List UInt8) :
    (b.write d).handlers = b.handlers := rfl
@[simp] theorem write_channel (b : CodeBuilder) (d : List UInt8) : (b.write d).channel = b.channel := rfl
@[simp] theorem write_previousActive (b : CodeBuilder) (d : List UInt8) :
    (b.write d).previousActive = b.previousActive := rfl
@[simp] theorem write_active (b : CodeBuilder) (d : List UInt8) :
    (b.write d).channels.active = b.channels.active := rfl
@[simp] theorem write_localCount (b : CodeBuilder) (d : List UInt8) :
    (b.write d).localCount = b.localCount := rfl
@[simp] theorem write_depthAfter (b : CodeBuilder) (d : List UInt8) (e : Int) :
    (b.write d).depthAfter e = b.depthAfter e := rfl

@[simp] theorem overwrite_labels (b : CodeBuilder) (o v : Nat) : (b.overwrite o v).labels = b.labels := rfl
@[simp] theorem overwrite_depth (b : CodeBuilder) (o v : Nat) : (b.overwrite o v).depth = b.depth := rfl
@[simp] theorem overwrite_maxDepth (b : CodeBuilder) (o v : Nat) :
    (b.overwrite o v).maxDepth = b.maxDepth := rfl
@[simp] theorem overwrite_handlers (b : CodeBuilder) (o v : Nat) :
    (b.overwrite o v).handlers = b.handlers := rfl
@[simp] theorem overwrite_channel (b : CodeBuilder) (o v : Nat) :
    (b.overwrite o v).channel = b.channel := rfl
@[simp] theorem overwrite_previousActive (b : CodeBuilder) (o v : Nat) :
    (b.overwrite o v).previousActive = b.previousActive := rfl
@[simp] theorem overwrite_active (b : CodeBuilder) (o v : Nat) :
    (b.overwrite o v).channels.active = b.channels.active := rfl
@[simp] theorem overwrite_localCount (b : CodeBuilder) (o v : Nat) :
    (b.overwrite o v).localCount = b.localCount := rfl

@[simp] theorem adjusted_labels (b : CodeBuilder) (e : Int) : (b.adjusted e).labels = b.labels := rfl
@[simp] theorem adjusted_depth (b : CodeBuilder) (e : Int) :
    (b.adjusted e).depth = some (b.depthAfter e) := rfl
@[simp] theorem adjusted_maxDepth (b : CodeBuilder) (e : Int) :
    (b.adjusted e).maxDepth = max b.maxDepth (b.depthAfter e) := rfl
@[simp] theorem adjusted_handlers (b : CodeBuilder) (e : Int) :
    (b.adjusted e).handlers = b.handlers := rfl
@[simp] theorem adjusted_channels (b : CodeBuilder) (e : Int) :
    (b.adjusted e).channels = b.channels := rfl
@[simp] theorem adjusted_channel (b : CodeBuilder) (e : Int) : (b.adjusted e).channel = b.channel := rfl
@[simp] theorem adjusted_previousActive (b : CodeBuilder) (e : Int) :
    (b.adjusted e).previousActive = b.previousActive := rfl
@[simp] theorem adjusted_localCount (b : CodeBuilder) (e : Int) :
    (b.adjusted e).localCount = b.localCount := rfl

@[simp] theorem stopping_labels (b : CodeBuilder) (op : Opcode) : (b.stopping op).labels = b.labels := by
  unfold stopping; split <;> rfl
@[simp] theorem stopping_depth (b : CodeBuilder) (op : Opcode) :
    (b.stopping op).depth = if op.isUnconditional then none else b.depth := by
  unfold stopping; split <;> rfl
@[simp] theorem stopping_maxDepth (b : CodeBuilder) (op : Opcode) :
    (b.stopping op).maxDepth = b.maxDepth := by
  unfold stopping; split <;> rfl
@[simp] theorem stopping_handlers (b : CodeBuilder) (op : Opcode) :
    (b.stopping op).handlers = b.handlers := by
  unfold stopping; split <;> rfl
@[simp] theorem stopping_channels (b : CodeBuilder) (op : Opcode) :
    (b.stopping op).channels = b.channels := by
  unfold stopping; split <;> rfl
@[simp] theorem stopping_channel (b : CodeBuilder) (op : Opcode) :
    (b.stopping op).channel = b.channel := by
  unfold stopping; split <;> rfl
@[simp] theorem stopping_previousActive (b : CodeBuilder) (op : Opcode) :
    (b.stopping op).previousActive = b.previousActive := by
  unfold stopping; split <;> rfl
@[simp] theorem stopping_localCount (b : CodeBuilder) (op : Opcode) :
    (b.stopping op).localCount = b.localCount := by
  unfold stopping; split <;> rfl

@[simp] theorem code_adjusted (b : CodeBuilder) (e : Int) : (b.adjusted e).code = b.code := rfl
@[simp] theorem code_stopping (b : CodeBuilder) (op : Opcode) : (b.stopping op).code = b.code := by
  simp [code]
@[simp] theorem instructions_adjusted (b : CodeBuilder) (e : Int) :
    (b.adjusted e).instructions = b.instructions := rfl
@[simp] theorem instructions_stopping (b : CodeBuilder) (op : Opcode) :
    (b.stopping op).instructions = b.instructions := by
  simp [instructions]

theorem write_slots_ne (b : CodeBuilder) (d : List UInt8) {c : Nat} (other : c ≠ b.channel) :
    (b.write d).channels.slots[c]? = b.channels.slots[c]? := by
  simp [write, Array.getElem?_modify, Ne.symm other]

/-! Builders that share their channels share what is read from them. -/

theorem code_congr {b b' : CodeBuilder} (channels : b'.channels = b.channels) (channel : b'.channel = b.channel) :
    b'.code = b.code := by
  simp [code, channels, channel]

theorem instructions_congr {b c : CodeBuilder} (channels : c.channels = b.channels)
    (channel : c.channel = b.channel) : c.instructions = b.instructions := by
  simp [instructions, code_congr channels channel]

theorem live_congr {b b' : CodeBuilder} (channels : b'.channels = b.channels) (channel : b'.channel = b.channel) :
    b'.Live ↔ b.Live := by
  simp [Live, channels, channel]

theorem encoded_congr {b b' : CodeBuilder} (channels : b'.channels = b.channels)
    (channel : b'.channel = b.channel) : b'.Encoded ↔ b.Encoded := by
  simp [Encoded, code_congr channels channel, instructions_congr channels channel]

theorem live_write {b : CodeBuilder} (live : b.Live) (d : List UInt8) : (b.write d).Live := by
  obtain ⟨active, bytes, slot⟩ := live
  exact ⟨active, bytes ++ d.toArray, by simp [write, Array.getElem?_modify, slot]⟩

theorem code_write {b : CodeBuilder} (live : b.Live) (d : List UInt8) :
    (b.write d).code = b.code ++ d.toArray := by
  obtain ⟨_, bytes, slot⟩ := live
  simp [code, write, Array.getElem?_modify, slot]

theorem live_overwrite {b : CodeBuilder} (live : b.Live) (o v : Nat) : (b.overwrite o v).Live := by
  obtain ⟨active, bytes, slot⟩ := live
  exact ⟨active, (bytes.set! o (v / 256).toUInt8).set! (o + 1) v.toUInt8,
    by simp [overwrite, Array.getElem?_modify, slot]⟩

theorem code_overwrite {b : CodeBuilder} (live : b.Live) (o v : Nat) :
    (b.overwrite o v).code = (b.code.set! o (v / 256).toUInt8).set! (o + 1) v.toUInt8 := by
  obtain ⟨_, bytes, slot⟩ := live
  simp [code, overwrite, Array.getElem?_modify, slot]

theorem runStep_onChannels {α : Type} (step : Nat → ChannelM α) (b : CodeBuilder) :
    runStep (onChannels step) b =
      ((runStep (step b.channel) b.channels).1, { b with channels := (runStep (step b.channel) b.channels).2 }) := by
  obtain ⟨cs, channel, previous, labels, depth, maxDepth, handlers, localCount⟩ := b
  rfl

theorem code_of_slot {b : CodeBuilder} {bytes : Array UInt8}
    (slot : b.channels.slots[b.channel]? = some (some bytes)) : b.code = bytes := by
  simp [code, slot]

theorem runStep_size {b : CodeBuilder} (live : b.Live) :
    runStep (onChannels ChannelSet.size) b = (.ok b.code.size, b) := by
  obtain ⟨_, bytes, slot⟩ := live
  simp [runStep_onChannels, ChannelSet.size, ChannelSet.bytes?, slot, code_of_slot slot, Except.map]

theorem runStep_currentOffset {b : CodeBuilder} (live : b.Live) :
    runStep currentOffset b =
      if b.code.size > maxWord then (.error (.error (.codeTooLong b.code.size)), b)
      else (.ok b.code.size, b) := by
  simp only [currentOffset, runStep_bind, runStep_size live]
  split <;> rfl

theorem runStep_freshLabel (b : CodeBuilder) :
    runStep freshLabel b = (.ok b.labels.size, { b with labels := b.labels.push (.unplaced #[] none) }) :=
  rfl

/-- The operands of an instruction that a plain step can emit: their number, and every local slot
within one byte. -/
def Addressable (op : Opcode) (xs : List Nat) : Prop :=
  ∀ slot ∈ xs.head?, (op = .loadA ∨ op = .storeA) → slot ≤ maxLocal

theorem checkOperands_ok (op : Opcode) (xs : List Nat) (count : xs.length = op.operands.length)
    (narrow : ∀ p ∈ op.operands.zip xs, p.1 = .u8 → p.2 ≤ 255) : ChannelSet.checkOperands op xs = .ok () := by
  unfold ChannelSet.checkOperands
  rw [if_neg (by omega)]
  split
  · rename_i w v found
    have hit := List.mem_of_find?_eq_some found
    have holds := List.find?_some found
    simp only [decide_eq_true_eq] at holds
    exact absurd (narrow _ hit holds.1) (by omega)
  · rfl

theorem runStep_emit {b : CodeBuilder} (live : b.Live) (op : Opcode) (xs : List Nat)
    (count : xs.length = op.operands.length) (narrow : ChannelSet.checkOperands op xs = .ok ()) :
    runStep (emit op xs) b = (.ok b.code.size, b.write (encodeInstruction op xs)) := by
  obtain ⟨active, bytes, slot⟩ := live
  rw [emit, runStep_onChannels]
  simp only [ChannelSet.emit, runStep_mk, count, ne_eq, not_true_eq_false, if_false, active, slot, narrow]
  rw [code_of_slot slot, ← active]
  rfl

theorem operands_u8 {op : Opcode} (wide : OperandWidth.u8 ∈ op.operands) :
    (op = .loadA ∨ op = .storeA) ∧ op.operands = [.u8] := by
  cases op <;> simp_all [Opcode.operands]

theorem checkOperands_addressable {op : Opcode} {xs : List Nat} (count : xs.length = op.operands.length)
    (narrow : Addressable op xs) : ChannelSet.checkOperands op xs = .ok () := by
  apply checkOperands_ok op xs count
  intro p mem wide
  have inWidths : OperandWidth.u8 ∈ op.operands := wide ▸ (List.of_mem_zip mem).1
  obtain ⟨which, single⟩ := operands_u8 inWidths
  rw [single] at mem
  cases xs with
  | nil => simp at mem
  | cons x rest =>
    simp only [List.zip_cons_cons, List.zip_nil_left, List.mem_singleton] at mem
    subst mem
    simpa [maxLocal] using narrow x (by simp) which

theorem stackEffect_of_plain {op : Opcode} (plain : op.isInvoke = false) :
    op.stackEffect = some (op.stackEffect.getD 0) := by
  cases op <;> simp_all [Opcode.stackEffect, Opcode.isInvoke]

theorem runStep_adjust (b : CodeBuilder) (e : Int) : runStep (adjust e) b = (.ok (), b.adjusted e) := rfl

theorem runStep_endIfUnconditional (b : CodeBuilder) (op : Opcode) :
    runStep (endIfUnconditional op) b = (.ok (), b.stopping op) := by
  unfold endIfUnconditional stopping
  split <;> rfl

theorem runStep_pushInstruction {b : CodeBuilder} (live : b.Live) {op : Opcode} {xs : List Nat}
    (plain : op.isJump = false ∧ op.isInvoke = false) (count : xs.length = op.operands.length)
    (narrow : Addressable op xs) :
    runStep (pushInstruction op xs) b =
      (.ok (), ((b.write (encodeInstruction op xs)).adjusted (op.stackEffect.getD 0)).stopping op) := by
  have checked := checkOperands_addressable count narrow
  have emitted : runStep (do
      let _ ← emit op xs
      adjust (op.stackEffect.getD 0)
      endIfUnconditional op) b =
        (.ok (), ((b.write (encodeInstruction op xs)).adjusted (op.stackEffect.getD 0)).stopping op) := by
    simp only [runStep_bind, runStep_emit live op xs count checked, runStep_adjust,
      runStep_endIfUnconditional]
  simp only [pushInstruction, plain, Bool.or_false, Bool.false_eq_true, if_false]
  rw [stackEffect_of_plain plain.2]
  split
  · rename_i local_
    cases head : xs.head? with
    | none => simpa using emitted
    | some slot =>
      have small := narrow slot (by simp [head]) (by simpa using local_)
      simp only [show ¬ slot > maxLocal by omega, if_false]
      simpa using emitted
  · simpa using emitted

theorem runStep_pushInstruction_wide {b : CodeBuilder} {op : Opcode} {xs : List Nat}
    (plain : op.isJump = false ∧ op.isInvoke = false) (wide : ¬ Addressable op xs) :
    ∃ slot, runStep (pushInstruction op xs) b = (.error (.error (.localsOverflow slot)), b) := by
  cases head : xs.head? with
  | none => exact absurd (fun slot mem => by simp [head] at mem) wide
  | some slot =>
    have local_ : op = .loadA ∨ op = .storeA :=
      Classical.byContradiction fun other => wide fun _ _ which => absurd which other
    have big : slot > maxLocal :=
      Classical.byContradiction fun small =>
        wide fun s mem _ => by simp only [head, Option.mem_def, Option.some.injEq] at mem; omega
    refine ⟨slot, ?_⟩
    simp only [pushInstruction, plain, Bool.or_false, Bool.false_eq_true, if_false]
    have which : (decide (op = .loadA) || decide (op = .storeA)) = true := by simpa using local_
    rw [if_pos which]
    simp only [head, big, if_true, runStep_bind, runStep_throw]

theorem operands_of_invoke {op : Opcode} (invoke : op.isInvoke = true) : op.operands = [.u16] := by
  cases op <;> simp_all [Opcode.operands, Opcode.isInvoke]

theorem operands_of_jump {op : Opcode} (jump : op.isJump = true) : op.operands = [.u16] := by
  cases op <;> simp_all [Opcode.operands, Opcode.isJump]

theorem checkOperands_wide {op : Opcode} (wide : op.operands = [.u16]) (v : Nat) :
    ChannelSet.checkOperands op [v] = .ok () := by
  apply checkOperands_ok op [v] (by simp [wide])
  intro p mem narrow
  simp [wide] at mem
  simp [mem] at narrow

/-- The stack effect of an invocation of a function with a descriptor: its arguments, and its
receiver unless it is static, are taken, and its result pushed. -/
def invokeEffect (op : Opcode) (descriptor : FunctionDescriptor) : Int :=
  descriptor.stackEffect - (if op = .invokeStatic then 0 else 1)

theorem runStep_pushInvoke {b : CodeBuilder} (live : b.Live) {op : Opcode} (invoke : op.isInvoke = true)
    (function : Nat) (descriptor : FunctionDescriptor) :
    runStep (pushInvoke op function descriptor) b =
      (.ok (), (b.write (encodeInstruction op [function])).adjusted (invokeEffect op descriptor)) := by
  have wide := operands_of_invoke invoke
  simp only [pushInvoke, invoke, Bool.not_true, Bool.false_eq_true, if_false, runStep_bind,
    runStep_emit live op [function] (by simp [wide]) (checkOperands_wide wide function), runStep_adjust,
    invokeEffect]

/-- Where a jump to a label is written to go: a placed label's offset, or zero until it is
placed. -/
def labelTarget (b : CodeBuilder) (label : Nat) : Nat :=
  match b.labels[label]? with
  | some (.placed offset) => offset
  | _ => 0

@[simp] theorem addFixup_size (b : CodeBuilder) (l operand : Nat) :
    (b.addFixup l operand).labels.size = b.labels.size := by
  simp [addFixup]

@[simp] theorem addFixup_channels (b : CodeBuilder) (l operand : Nat) :
    (b.addFixup l operand).channels = b.channels := rfl

@[simp] theorem addFixup_channel (b : CodeBuilder) (l operand : Nat) :
    (b.addFixup l operand).channel = b.channel := rfl

@[simp] theorem addFixup_previousActive (b : CodeBuilder) (l operand : Nat) :
    (b.addFixup l operand).previousActive = b.previousActive := rfl

@[simp] theorem addFixup_handlers (b : CodeBuilder) (l operand : Nat) :
    (b.addFixup l operand).handlers = b.handlers := rfl

@[simp] theorem addFixup_depth (b : CodeBuilder) (l operand : Nat) :
    (b.addFixup l operand).depth = b.depth := rfl

@[simp] theorem addFixup_maxDepth (b : CodeBuilder) (l operand : Nat) :
    (b.addFixup l operand).maxDepth = b.maxDepth := rfl

theorem addFixup_ne (b : CodeBuilder) {l j : Nat} (other : j ≠ l) (operand : Nat) :
    (b.addFixup l operand).labels[j]? = b.labels[j]? := by
  simp [addFixup, Array.getElem?_modify, Ne.symm other]

/-- The first jump to wait for a label records the depth it leaves. -/
theorem addFixup_unplaced (b : CodeBuilder) {l : Nat} {fixups : Array Nat} {r : Option Nat}
    (unplaced : b.labels[l]? = some (.unplaced fixups r)) (operand : Nat) :
    (b.addFixup l operand).labels[l]? =
      some (.unplaced (fixups.push operand) (if r.isNone then b.depth else r)) := by
  simp [addFixup, Array.getElem?_modify, unplaced]

/-- Recording a jump at a placed label changes nothing: the label already has its offset. -/
theorem addFixup_of_placed {b : CodeBuilder} {l p : Nat} (placed : b.labels[l]? = some (.placed p))
    (operand : Nat) : b.addFixup l operand = b := by
  obtain ⟨channels, channel, previous, labels, depth, maxDepth, handlers, localCount⟩ := b
  simp only [addFixup, CodeBuilder.mk.injEq, and_true, true_and]
  apply Array.ext_getElem?
  intro j
  rw [Array.getElem?_modify]
  split
  · rename_i same
    subst same
    simp only at placed
    rw [placed]
    rfl
  · rfl

theorem runStep_pushJump {b : CodeBuilder} (live : b.Live) {op : Opcode} (jump : op.isJump = true)
    (label : Nat) :
    runStep (pushJump op label) b =
      (.ok (), ((((b.write (encodeInstruction op [b.labelTarget label])).adjusted
        (op.stackEffect.getD 0)).addFixup label (b.code.size + 1))).stopping op) := by
  have wide := operands_of_jump jump
  simp only [pushJump, jump, Bool.not_true, Bool.false_eq_true, if_false, runStep_bind, runStep_get]
  unfold labelTarget
  cases hl : b.labels[label]? with
  | none =>
    simp only [runStep_emit live op [_] (by simp [wide]) (checkOperands_wide wide _),
      runStep_adjust, runStep_modify, runStep_endIfUnconditional]
  | some st =>
    cases st <;>
    simp only [runStep_emit live op [_] (by simp [wide]) (checkOperands_wide wide _),
      runStep_adjust, runStep_modify, runStep_endIfUnconditional]

theorem runStep_pushJumpPlaceholder {b : CodeBuilder} (live : b.Live) {op : Opcode}
    (jump : op.isJump = true) :
    runStep (pushJumpPlaceholder op) b =
      (.ok (b.code.size + 1), ((b.write (encodeInstruction op [0])).adjusted
        (op.stackEffect.getD 0)).stopping op) := by
  have wide := operands_of_jump jump
  simp only [pushJumpPlaceholder, jump, Bool.not_true, Bool.false_eq_true, if_false, runStep_bind,
    runStep_emit live op [0] (by simp [wide]) (checkOperands_wide wide 0), runStep_adjust,
    runStep_endIfUnconditional, runStep_pure]

theorem runStep_patch {b : CodeBuilder} (live : b.Live) {offset : Nat} (value : Nat)
    (inside : offset + 2 ≤ b.code.size) (short : b.code.size ≤ maxWord) :
    runStep (patch offset value) b = (.ok (), b.overwrite offset value) := by
  obtain ⟨active, bytes, slot⟩ := live
  have bound : ChannelSet.offsetBound = 18446744073709551616 := rfl
  have written := code_of_slot slot
  rw [written] at inside short
  simp only [maxWord] at short
  rw [patch, runStep_onChannels]
  simp only [ChannelSet.patch, runStep_mk, slot]
  rw [if_neg (by omega), if_neg (by omega)]
  rfl

theorem code_size_overwrite {b : CodeBuilder} (live : b.Live) (o v : Nat) :
    (b.overwrite o v).code.size = b.code.size := by
  simp [code_overwrite live]

/-- Overwrite several two-byte operands with one value. -/
def overwriteAll (b : CodeBuilder) (value : Nat) (offsets : List Nat) : CodeBuilder :=
  offsets.foldl (fun c o => c.overwrite o value) b

theorem live_overwriteAll {b : CodeBuilder} (live : b.Live) (value : Nat) (offsets : List Nat) :
    (b.overwriteAll value offsets).Live := by
  induction offsets generalizing b with
  | nil => exact live
  | cons o rest ih => exact ih (live_overwrite live o value)

theorem code_size_overwriteAll {b : CodeBuilder} (live : b.Live) (value : Nat) (offsets : List Nat) :
    (b.overwriteAll value offsets).code.size = b.code.size := by
  induction offsets generalizing b with
  | nil => rfl
  | cons o rest ih =>
    simp only [overwriteAll, List.foldl_cons] at ih ⊢
    rw [ih (live_overwrite live o value), code_size_overwrite live]

theorem runStep_patchAll {b : CodeBuilder} (live : b.Live) (value : Nat) (offsets : List Nat)
    (inside : ∀ o ∈ offsets, o + 2 ≤ b.code.size) (short : b.code.size ≤ maxWord) :
    runStep (patchAll value offsets) b = (.ok (), b.overwriteAll value offsets) := by
  induction offsets generalizing b with
  | nil => rfl
  | cons o rest ih =>
    have same := code_size_overwrite live o value
    simp only [patchAll, runStep_bind, runStep_patch live value (inside o (by simp)) short]
    rw [ih (live_overwrite live o value) (fun o' mem => same ▸ inside o' (by simp [mem])) (same ▸ short)]
    rfl

/-- Placing a label makes unreachable code reachable, with the depth the label recorded. -/
def reached (b : CodeBuilder) (depth : Option Nat) : CodeBuilder :=
  if b.depth.isNone then { b with depth := some (depth.getD 0) } else b

theorem overwriteAll_eq (b : CodeBuilder) (v : Nat) (offsets : List Nat) :
    b.overwriteAll v offsets = { b with channels := (b.overwriteAll v offsets).channels } := by
  induction offsets generalizing b with
  | nil => rfl
  | cons o rest ih =>
    show (b.overwrite o v).overwriteAll v rest = _
    rw [ih]
    rfl

@[simp] theorem overwriteAll_channel (b : CodeBuilder) (v : Nat) (offsets : List Nat) :
    (b.overwriteAll v offsets).channel = b.channel := by
  rw [overwriteAll_eq]

@[simp] theorem overwriteAll_labels (b : CodeBuilder) (v : Nat) (offsets : List Nat) :
    (b.overwriteAll v offsets).labels = b.labels := by
  rw [overwriteAll_eq]

@[simp] theorem overwriteAll_depth (b : CodeBuilder) (v : Nat) (offsets : List Nat) :
    (b.overwriteAll v offsets).depth = b.depth := by
  rw [overwriteAll_eq]

@[simp] theorem overwriteAll_handlers (b : CodeBuilder) (v : Nat) (offsets : List Nat) :
    (b.overwriteAll v offsets).handlers = b.handlers := by
  rw [overwriteAll_eq]

theorem overwriteAll_slots_ne (b : CodeBuilder) (v : Nat) (offsets : List Nat) {c : Nat}
    (other : c ≠ b.channel) : (b.overwriteAll v offsets).channels.slots[c]? = b.channels.slots[c]? := by
  induction offsets generalizing b with
  | nil => rfl
  | cons o rest ih =>
    show ((b.overwrite o v).overwriteAll v rest).channels.slots[c]? = _
    rw [ih (b.overwrite o v) other]
    simp [overwrite, Array.getElem?_modify, Ne.symm other]

theorem reached_eq (b : CodeBuilder) (depth : Option Nat) :
    b.reached depth = { b with depth := if b.depth.isNone then some (depth.getD 0) else b.depth } := by
  unfold reached
  split <;> simp_all

theorem runStep_placeLabel {b : CodeBuilder} (live : b.Live) {label : Nat} {fixups : Array Nat}
    {depth : Option Nat} (unplaced : b.labels[label]? = some (.unplaced fixups depth))
    (inside : ∀ o ∈ fixups.toList, o + 2 ≤ b.code.size) (short : b.code.size ≤ maxWord) :
    runStep (placeLabel label) b =
      (.ok (), (({ b with labels := b.labels.set! label (.placed b.code.size) }).overwriteAll
        b.code.size fixups.toList).reached depth) := by
  simp only [placeLabel, runStep_bind, runStep_currentOffset live, show ¬ b.code.size > maxWord by omega,
    if_false, runStep_get, runStep_modify, unplaced]
  rw [runStep_patchAll (b := { b with labels := b.labels.set! label (.placed b.code.size) }) live _ _
    inside short]
  rfl

theorem runStep_placeLabel_long {b : CodeBuilder} (live : b.Live) (label : Nat)
    (long : b.code.size > maxWord) :
    runStep (placeLabel label) b = (.error (.error (.codeTooLong b.code.size)), b) := by
  simp only [placeLabel, runStep_bind, runStep_currentOffset live, long, if_true]

theorem runStep_enterHandler (b : CodeBuilder) :
    runStep enterHandler b = (.ok (), ({ b with depth := some 0 }).adjusted 1) := rfl

theorem runStep_addHandler {b : CodeBuilder} (live : b.Live) {start stop handler : Nat}
    (catchClass : Option Nat) (wellFormed : start < stop ∧ stop ≤ b.code.size ∧ handler < b.code.size) :
    runStep (addHandler start stop handler catchClass) b =
      (.ok (), { b with handlers := b.handlers.push ⟨start, stop, handler, catchClass⟩ }) := by
  simp only [addHandler, runStep_bind, runStep_size live, wellFormed, and_self, if_true, runStep_modify]

theorem runStep_setLocalCount (b : CodeBuilder) (count : Nat) :
    runStep (setLocalCount count) b = (.ok (), { b with localCount := count }) := rfl


theorem encoded_write {b : CodeBuilder} (live : b.Live) (encoded : b.Encoded) {i : Instruction}
    (at_ : i.offset = b.code.size) (fits : i.Fits) :
    (b.write i.bytes).Encoded ∧ (b.write i.bytes).instructions = b.instructions ++ [i] := by
  obtain ⟨same, laid, allFit⟩ := encoded
  have fitsAll : ∀ j ∈ b.instructions ++ [i], j.Fits := by
    intro j mem
    rcases List.mem_append.mp mem with old | new
    · exact allFit j old
    · simp only [List.mem_singleton] at new; exact new ▸ fits
  have laidAll : Laid 0 (b.instructions ++ [i]) := by
    rw [laid_concat allFit]
    refine ⟨laid, ?_⟩
    rw [at_, ← same, Array.length_toList, Nat.zero_add]
  have written : (b.write i.bytes).code.toList = image (b.instructions ++ [i]) := by
    simp [code_write live, same]
  have decoded := instructions_eq_of_image written laidAll fitsAll
  exact ⟨⟨decoded ▸ written, decoded ▸ laidAll, decoded ▸ fitsAll⟩, decoded⟩

theorem encoded_overwrite {b : CodeBuilder} (live : b.Live) (encoded : b.Encoded)
    {pre post : List Instruction} {j : Instruction} (split : b.instructions = pre ++ j :: post)
    (width : j.opcode.operands = [.u16]) (v : Nat) (wide : v ≤ 65535) :
    (b.overwrite (j.offset + 1) v).Encoded ∧
      (b.overwrite (j.offset + 1) v).instructions = pre ++ j.retarget v :: post := by
  obtain ⟨same, laid, allFit⟩ := encoded
  have fitsJ : j.Fits := allFit j (by simp [split])
  have before := length_image_pre split laid allFit
  have fitsAll : ∀ k ∈ pre ++ j.retarget v :: post, k.Fits := by
    intro k mem
    simp only [List.mem_append, List.mem_cons] at mem
    rcases mem with old | rfl | old
    · exact allFit k (by simp [split, old])
    · exact ⟨by simp [width], by simp [width, OperandWidth.max, wide]⟩
    · exact allFit k (by simp [split, old])
  have laidAll : Laid 0 (pre ++ j.retarget v :: post) := by
    have fitsPre : ∀ k ∈ pre, k.Fits := fun k mem => allFit k (by simp [split, mem])
    rw [split, laid_append fitsPre] at laid
    rw [laid_append fitsPre]
    exact ⟨laid.1, by simpa [Laid] using laid.2⟩
  have written : (b.overwrite (j.offset + 1) v).code.toList = image (pre ++ j.retarget v :: post) := by
    rw [code_overwrite live, Array.set!_eq_setIfInBounds, Array.set!_eq_setIfInBounds,
      Array.toList_setIfInBounds, Array.toList_setIfInBounds, same, split,
      ← image_retarget v width fitsJ before]
  have decoded := instructions_eq_of_image written laidAll fitsAll
  exact ⟨⟨decoded ▸ written, decoded ▸ laidAll, decoded ▸ fitsAll⟩, decoded⟩

theorem instructions_overwrite {b : CodeBuilder} (live : b.Live) (encoded : b.Encoded) {j : Instruction}
    (mem : j ∈ b.instructions) (jump : j.opcode.isJump = true) (v : Nat) (wide : v ≤ 65535) :
    (b.overwrite (j.offset + 1) v).Encoded ∧
      (b.overwrite (j.offset + 1) v).instructions = b.instructions.map (Instruction.patch [j.offset + 1] v) := by
  obtain ⟨pre, post, split⟩ := List.mem_iff_append.mp mem
  have laid := encoded.2.1
  rw [split] at laid
  rw [split, map_patch_single laid v]
  exact encoded_overwrite live encoded split (operands_of_jump jump) v wide

/-- Patching jump operands at several offsets with one value retargets exactly those jumps. -/
theorem encoded_overwriteAll {b : CodeBuilder} (live : b.Live) (encoded : b.Encoded) (v : Nat)
    (wide : v ≤ 65535) (offsets : List Nat)
    (jumps : ∀ f ∈ offsets, ∃ j ∈ b.instructions, j.opcode.isJump = true ∧ j.offset + 1 = f) :
    (b.overwriteAll v offsets).Encoded ∧
      (b.overwriteAll v offsets).instructions = b.instructions.map (Instruction.patch offsets v) := by
  induction offsets generalizing b with
  | nil => exact ⟨encoded, by simp [overwriteAll]⟩
  | cons f rest ih =>
    obtain ⟨j, mem, jump, rfl⟩ := jumps f (by simp)
    obtain ⟨encoded₁, patched₁⟩ := instructions_overwrite live encoded mem jump v wide
    have jumps₁ : ∀ f ∈ rest, ∃ k ∈ (b.overwrite (j.offset + 1) v).instructions,
        k.opcode.isJump = true ∧ k.offset + 1 = f := by
      intro f later
      obtain ⟨k, memK, jumpK, at_⟩ := jumps f (by simp [later])
      exact ⟨k.patch [j.offset + 1] v, by rw [patched₁]; exact List.mem_map_of_mem memK, by simpa using jumpK,
        by simpa using at_⟩
    obtain ⟨encoded₂, patched₂⟩ := ih (live_overwrite live _ v) encoded₁ jumps₁
    refine ⟨encoded₂, ?_⟩
    rw [show b.overwriteAll v ((j.offset + 1) :: rest) = (b.overwrite (j.offset + 1) v).overwriteAll v rest from rfl,
      patched₂, patched₁, List.map_map]
    exact List.map_congr_left fun i _ => Instruction.patch_patch _ rest v i

end CodeBuilder

end Febc
