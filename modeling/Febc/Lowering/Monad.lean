import Febc.Code.Builder
import Febc.Lowering.Diagnostic
import Febc.Lowering.Intrinsic
import Febc.Lowering.Layout
import Febc.Lowering.Locals
import Febc.Lowering.LoopStack
import Febc.SymbolTable

/-!
# The lowering of one function body

Lowering a function body reads a fixed environment (the symbol table, the class layout, whether
the function is static or an initializer, and the innermost scope) and changes a state: the code
builder with its channels, the constant pool, the diagnostics, the private local slots and the
open loops. A step may stop with a `Halt`; the state it leaves behind is kept, so diagnostics
reported before an error survive it.

The code builder and the pool are changed only through `onCode` and `onPool`, which take the
state apart first: the byte channels and the pool entries are then held by one owner and are
updated in place.

Main statements:
* `runStep_report`: reporting appends one diagnostic and changes nothing else;
* `runStep_freshLabel`: a fresh label is the number of labels handed out before.
-/

namespace Febc

/-- What lowering a function body reads and never changes. -/
structure FunctionEnv where
  symbols : SymbolTable
  layout : ClassLayout
  isStatic : Bool
  /-- An initializer returns nothing. -/
  isInitializer : Bool
  /-- The innermost scope names are resolved in. -/
  scope : Nat
  deriving Inhabited

/-- What lowering a function body changes. -/
structure Lowering where
  code : CodeBuilder
  pool : ConstantPool
  diagnostics : Array Diagnostic
  locals : LocalsLayout
  loops : LoopStack
  deriving Inhabited

/-- Steps of lowering a function body. -/
abbrev LowerM := ReaderT FunctionEnv (ExceptT Halt (StateM Lowering))

namespace Lowering

/-! ## Lifting the layers below -/

/-- Run a step of the code builder. -/
def onCode {α : Type} (m : CodeM α) : LowerM α := fun _ =>
  ExceptT.mk fun ⟨code, pool, diagnostics, locals, loops⟩ =>
    let (r, code) := runStep m code
    (r, ⟨code, pool, diagnostics, locals, loops⟩)

/-- Run a step of the constant pool; its errors stop the lowering. -/
def onPool {α : Type} (m : PoolM α) : LowerM α := fun _ =>
  ExceptT.mk fun ⟨code, pool, diagnostics, locals, loops⟩ =>
    let (r, pool) := runStep m pool
    (r.mapError .error, ⟨code, pool, diagnostics, locals, loops⟩)

/-- Stop with an error. -/
def stop {α : Type} (e : Error) : LowerM α := throw (.error e)

/-- Stop with a violated promise. -/
def refuse {α : Type} (v : Violation) : LowerM α := throw (.violation v)

/-- Run a step with another innermost scope, if one is given. -/
def withScope {α : Type} (scope : Option Nat) (m : LowerM α) : LowerM α :=
  match scope with
  | some s => withReader (fun env => { env with scope := s }) m
  | none => m

/-- The symbol a name stands for in the innermost scope. -/
def resolve (name : String) : LowerM (Option Symbol) := do
  let env ← read
  pure (env.symbols.resolve env.scope name)

/-- Report a problem of the source and go on. -/
def report (kind : DiagnosticKind) (pos : Position) (message : String) : LowerM Unit :=
  modify fun s => { s with diagnostics := s.diagnostics.push ⟨kind, pos, message⟩ }

/-- Report an expression that is assigned to but denotes no place. -/
def reportInvalidTarget (pos : Position) : LowerM Unit :=
  report .invalidAssignmentTarget pos "expression cannot be assigned to"

/-- A source name used as a field or function name; it must be a valid member name. -/
def memberName (name : Ident) : LowerM String :=
  match checkUnqualified name.text with
  | .ok () => pure name.text
  | .error e => stop (.malformedName e)

/-! ## Emitting code -/

/-- Append an instruction that neither jumps nor invokes. -/
def op (o : Opcode) (operands : List Nat) : LowerM Unit :=
  onCode (CodeBuilder.pushInstruction o operands)

/-- The offset of the next instruction. -/
def offset : LowerM Nat := onCode CodeBuilder.currentOffset

/-- A new label. -/
def freshLabel : LowerM Nat := onCode CodeBuilder.freshLabel

/-- Place a label here. -/
def place (label : Nat) : LowerM Unit := onCode (CodeBuilder.placeLabel label)

/-- Jump to a label. -/
def jump (o : Opcode) (label : Nat) : LowerM Unit := onCode (CodeBuilder.pushJump o label)

/-- Start the code of an exception handler. -/
def enterHandler : LowerM Unit := onCode CodeBuilder.enterHandler

/-- Add a row to the exception table. -/
def addHandler (start stop handler : Nat) (catchClass : Option Nat) : LowerM Unit :=
  onCode (CodeBuilder.addHandler start stop handler catchClass)

/-- Invoke a function entry whose arguments (and receiver) are on the stack. -/
def invokeEntry (o : Opcode) (ref : FunctionRef) : LowerM Unit := do
  let index ← onPool ref.intern
  onCode (CodeBuilder.pushInvoke o index ref.descriptor)

/-- Call an intrinsic whose arguments are on the stack. -/
def callIntrinsic (f : Intrinsic) : LowerM Unit := invokeEntry f.invocation f.reference

/-- Push one of the two boolean constants. -/
def loadBoolean (b : BooleanField) : LowerM Unit := do
  let index ← onPool b.reference.intern
  op .loadStaticField [index]

/-- Push a pool entry. -/
def loadConstant (index : Nat) : LowerM Unit := op .loadCpr [index]

/-- Push a string constant. -/
def loadString (text : String) : LowerM Unit := do
  let index ← onPool (ConstantData.string text).intern
  loadConstant index

/-- Replace the value on the stack by whether it is true: zero or one, for the conditional
jumps. -/
def testTruth : LowerM Unit := callIntrinsic .isTrue

/-- Jump to a label if the value on the stack is not true. -/
def jumpUnlessTrue (label : Nat) : LowerM Unit := do
  testTruth
  jump .jumpEq0I label

/-! ## Private slots and loops -/

/-- Take a private local slot. -/
def takeSlot : LowerM Nat := fun _ => ExceptT.mk fun s =>
  match s.locals.pushPrivate with
  | .ok (slot, locals) => (.ok slot, { s with locals := locals })
  | .error e => (.error (.error e), s)

/-- Release the last private slot taken. -/
def releaseSlot : LowerM Unit := fun _ => ExceptT.mk fun s =>
  match s.locals.popPrivate with
  | some locals => (.ok (), { s with locals := locals })
  | none => (.error (.violation .slotUnderflow), s)

/-- Enter a loop whose `continue` jumps to a label. -/
def enterLoop (label : Option Ident) (continueLabel : Nat) : LowerM Unit :=
  modify fun s => { s with loops := (s.loops.push (label.map (·.text)) continueLabel).2 }

/-- The loop a `break` or `continue` with an optional label leaves. -/
def findLoop (label : Option Ident) : LowerM (Option LoopFrame) := do
  pure ((← get).loops.find? (label.map (·.text)))

/-- Is some loop open? -/
def inLoop : LowerM Bool := do pure !(← get).loops.isEmpty

/-- Remember a `break` of a loop, by the operand of its jump. -/
def recordBreak (loop operand : Nat) : LowerM Unit :=
  modify fun s => { s with loops := s.loops.recordBreak loop operand }

/-- Leave the innermost loop, answering the `break` records that wait for its exit. -/
def leaveLoop : LowerM (List BreakRecord) := fun _ => ExceptT.mk fun s =>
  match s.loops.pop with
  | some (records, loops) => (.ok records, { s with loops := loops })
  | none => (.error (.violation .noLoop), s)

/-! ## Laws -/

theorem runStep_report (env : FunctionEnv) (s : Lowering) (kind : DiagnosticKind)
    (pos : Position) (message : String) :
    runStep ((report kind pos message).run env) s =
      (.ok (), { s with diagnostics := s.diagnostics.push ⟨kind, pos, message⟩ }) := rfl

theorem runStep_freshLabel (env : FunctionEnv) (s : Lowering) :
    (runStep (freshLabel.run env) s).1 = .ok s.code.labels.size := rfl

end Lowering

end Febc
