import Febc.Code.Channel
import Febc.Entity.Attribute
import Febc.Descriptor

/-!
# Building the code of one function

A code builder owns a channel of a channel set and writes one function's instructions into it.
It hands out labels, which jumps may name before they are placed: such a jump is written with
target zero and remembered as a fixup, and placing the label patches every fixup. It tracks the
depth of the operand stack along the straight-line code, and its maximum; after an instruction
that never falls through the code is unreachable until a label is placed, which takes the depth
recorded by the first jump to it. It collects the exception table.

Finishing the code closes the channel, re-activates the channel that was active before (unless it
was the builder's own), and checks the format's limits: every label that a jump names is placed,
the stack bound and the code size fit in two bytes, and the code decodes with every jump target
inside it.
-/

namespace Febc

/-- Where a label stands. -/
inductive LabelState where
  /-- Not yet placed: operand offsets of the jumps that wait for it, and the stack depth at the
  first of them. -/
  | unplaced (fixups : Array Nat) (depth : Option Nat)
  /-- Placed at an offset of the code. -/
  | placed (offset : Nat)
  deriving Inhabited

/-- The state of a function's code under construction, with the channels it writes into. -/
structure CodeBuilder where
  channels : ChannelSet
  /-- The builder's own channel. -/
  channel : Nat
  /-- The channel that was active when the builder started. -/
  previousActive : Option Nat
  labels : Array LabelState := #[]
  /-- Operand stack depth here, or none where the code is unreachable. -/
  depth : Option Nat := some 0
  maxDepth : Nat := 0
  handlers : Array HandlerSite := #[]
  localCount : Nat := 0
  deriving Inhabited

/-- Steps of building code. A step that fails still leaves a state behind: the caller may go on
after an error. -/
abbrev CodeM := ExceptT Halt (StateM CodeBuilder)

/-- Run a step of the channel layer inside a computation. -/
def liftOutcome {m : Type → Type} [Monad m] [MonadExcept Halt m] {α : Type} (x : Outcome α) :
    m α :=
  match x with
  | .ok a => pure a
  | .error h => throw h

namespace CodeBuilder

/-- The largest local slot a one-byte operand can address. -/
def maxLocal : Nat := 255

/-- The largest offset, stack depth and code size the format can count. -/
def maxWord : Nat := 65535

/-- Run a step on the builder's channels, given the builder's own channel. The builder is taken
apart first, so that a channel held only by it is changed in place. -/
def onChannels {α : Type} (step : Nat → ChannelM α) : CodeM α := ExceptT.mk fun b =>
  match b with
  | ⟨cs, channel, previous, labels, depth, maxDepth, handlers, localCount⟩ =>
    let (r, cs) := runStep (step channel) cs
    (r, ⟨cs, channel, previous, labels, depth, maxDepth, handlers, localCount⟩)

/-- Start building on an open channel, making it the active one. -/
def onChannel (cs : ChannelSet) (channel : Nat) : Outcome CodeBuilder :=
  let previous := cs.active
  match runStep (ChannelSet.setActive channel) cs with
  | (.ok (), cs) => .ok { channels := cs, channel := channel, previousActive := previous }
  | (.error h, _) => .error h

/-- Start building on a new channel. -/
def start (cs : ChannelSet) : Outcome CodeBuilder :=
  match runStep ChannelSet.add cs with
  | (.ok channel, cs) => onChannel cs channel
  | (.error h, _) => .error h

/-- Is the code at the current position reachable? -/
def isReachable (b : CodeBuilder) : Bool := b.depth.isSome

/-- The offset the next instruction will take; fails once the code outgrows a two-byte offset. -/
def currentOffset : CodeM Nat := do
  let size ← onChannels ChannelSet.size
  if size > maxWord then throw (.error (.codeTooLong size)) else pure size

/-- A new, unplaced label. -/
def freshLabel : CodeM Nat :=
  modifyGet fun b => (b.labels.size, { b with labels := b.labels.push (.unplaced #[] none) })

/-- Does the builder know this label? -/
def hasLabel (b : CodeBuilder) (label : Nat) : Bool := label < b.labels.size

/-- Overwrite a two-byte operand of the code. -/
def patch (offset value : Nat) : CodeM Unit :=
  onChannels fun channel => ChannelSet.patch channel offset value

/-- Patch every fixup of a label with its offset. -/
def patchAll (offset : Nat) : List Nat → CodeM Unit
  | [] => pure ()
  | f :: rest => do patch f offset; patchAll offset rest

/-- Place a label at the current offset. Placing it twice fails, and the label then stands at
the later offset. Unreachable code becomes reachable with the depth of the first jump to the
label, or an empty stack. -/
def placeLabel (label : Nat) : CodeM Unit := do
  let offset ← currentOffset
  let previous := (← get).labels[label]?
  modify fun b => { b with labels := b.labels.set! label (.placed offset) }
  match previous with
  | none => pure ()
  | some (.placed _) => throw (.error (.duplicateLabel label))
  | some (.unplaced fixups depth) =>
    patchAll offset fixups.toList
    modify fun b => if b.depth.isNone then { b with depth := some (depth.getD 0) } else b

/-- Change the stack depth by an effect; the depth never goes below zero. -/
def adjust (effect : Int) : CodeM Unit :=
  modify fun b =>
    let depth := (Int.ofNat (b.depth.getD 0) + effect).toNat
    { b with depth := some depth, maxDepth := max b.maxDepth depth }

/-- Emit into the builder's channels and answer the opcode's offset. -/
def emit (op : Opcode) (operands : List Nat) : CodeM Nat :=
  onChannels fun _ => ChannelSet.emit op operands

/-- After an instruction that never falls through, the code is unreachable. -/
def endIfUnconditional (op : Opcode) : CodeM Unit :=
  if op.isUnconditional then modify fun b => { b with depth := none } else pure ()

/-- Append an instruction that neither jumps nor invokes. A local slot past `maxLocal` fails
before anything is written. -/
def pushInstruction (op : Opcode) (operands : List Nat) : CodeM Unit := do
  if op.isJump || op.isInvoke then throw (.violation (.needsDedicatedMethod op))
  if op = .loadA || op = .storeA then
    if let some slot := operands.head? then
      if slot > maxLocal then throw (.error (.localsOverflow slot))
  let _ ← emit op operands
  if let some effect := op.stackEffect then adjust effect
  endIfUnconditional op

/-- Append an invocation of a function entry; the stack loses the arguments, and the receiver
unless the call is static, and gains the result. -/
def pushInvoke (op : Opcode) (function : Nat) (descriptor : FunctionDescriptor) : CodeM Unit := do
  if !op.isInvoke then throw (.violation (.notInvocation op))
  let receiver : Int := if op = .invokeStatic then 0 else 1
  let _ ← emit op [function]
  adjust (descriptor.stackEffect - receiver)

/-- Record a jump operand waiting for an unplaced label, and the depth at the first such jump. -/
def addFixup (label operand : Nat) (b : CodeBuilder) : CodeBuilder :=
  { b with labels := b.labels.modify label fun
      | .unplaced fixups depth =>
        .unplaced (fixups.push operand) (if depth.isNone then b.depth else depth)
      | placed => placed }

/-- Append a jump to a label. A placed label is the target at once; otherwise the operand is
zero and waits in the label's fixups, and the label remembers the depth if it has none yet. -/
def pushJump (op : Opcode) (label : Nat) : CodeM Unit := do
  if !op.isJump then throw (.violation (.notJump op))
  let target := match (← get).labels[label]? with
    | some (.placed offset) => offset
    | _ => 0
  let opAt ← emit op [target]
  adjust (op.stackEffect.getD 0)
  modify (addFixup label (opAt + 1))
  endIfUnconditional op

/-- Append a jump whose target is patched later; answers the offset of its operand. -/
def pushJumpPlaceholder (op : Opcode) : CodeM Nat := do
  if !op.isJump then throw (.violation (.notJump op))
  let opAt ← emit op [0]
  adjust (op.stackEffect.getD 0)
  endIfUnconditional op
  pure (opAt + 1)

/-- Set the target of a placeholder jump. -/
def patchJump (operand target : Nat) : CodeM Unit := patch operand target

/-- Start a handler: the stack holds exactly the caught exception. -/
def enterHandler : CodeM Unit := do
  modify fun b => { b with depth := some 0 }
  adjust 1

/-- Add a row to the exception table; the range must be non-empty and inside the code, and the
handler must start inside it. -/
def addHandler (start stop handler : Nat) (catchClass : Option Nat) : CodeM Unit := do
  let size ← onChannels ChannelSet.size
  if start < stop ∧ stop ≤ size ∧ handler < size then
    modify fun b => { b with handlers := b.handlers.push ⟨start, stop, handler, catchClass⟩ }
  else throw (.violation (.malformedSite start stop handler size))

/-- Record the number of local slots the function uses. -/
def setLocalCount (count : Nat) : CodeM Unit :=
  modify fun b => { b with localCount := count }

/-- Labels that jumps still wait for, in the order they were handed out. -/
def unplacedLabels (b : CodeBuilder) : List Nat :=
  (List.range b.labels.size).filter fun l =>
    match b.labels[l]? with
    | some (.unplaced fixups _) => !fixups.isEmpty
    | _ => false

/-- Check that every jump of decoded code targets an offset inside it. -/
def checkTargets (size : Nat) : List Instruction → Outcome Unit
  | [] => .ok ()
  | i :: rest =>
    match i.jumpTarget? with
    | some target => if target > size then violate (.jumpPastEnd i.offset target)
      else checkTargets size rest
    | none => checkTargets size rest

/-- Finish the code: close the channel, re-activate the previous one, and check the limits. -/
def result : CodeM InstructionAttribute := do
  let code ← onChannels ChannelSet.remove
  let b ← get
  if let some previous := b.previousActive then
    if previous ≠ b.channel then onChannels fun _ => ChannelSet.setActive previous
  let unplaced := b.unplacedLabels
  if !unplaced.isEmpty then throw (.error (.unplacedLabels unplaced))
  if b.maxDepth > maxWord then throw (.error (.stackTooDeep b.maxDepth))
  if code.size > maxWord then throw (.error (.codeTooLong code.size))
  let insns ← match decode code.toList with
    | .ok insns => pure insns
    | .error e => throw (.error (.decode e))
  liftOutcome (checkTargets code.size insns)
  pure ⟨b.maxDepth, b.localCount, code.toList, b.handlers.toList⟩

end CodeBuilder

end Febc
