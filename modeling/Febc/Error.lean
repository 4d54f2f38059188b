import Febc.Entity.Constant
import Febc.SymbolTable

/-!
# Why building an entity stops

Two kinds of stop are kept apart. An `Error` is a limit of the entity format or a fault of the
input that the caller is told about: a pool or a text that is too large, code that is too long,
a slot past the last addressable local, an unplaced label, a malformed name. A `Violation` is a
broken promise between the layers of the compiler itself, such as emitting with no active
channel; the compiler never commits one on well-formed input, and a caller that does gets it back
as the reason the run ended.

Each constructor has one message; the wording lives only in `Error.message` and
`Violation.message`.

Main statement: `runStep_bind`, running two steps in sequence threads the state, and stops at
the first `Halt`.
-/

namespace Febc

/-- Why the file system refuses to open a path, by the kind of the operating system's error. -/
inductive IoFault where
  /-- A directory on the path does not exist. -/
  | notFound
  /-- The path holds a NUL character, which no path may hold. -/
  | invalidInput
  /-- A segment of the path, or the whole path, is longer than the file system allows. -/
  | invalidFilename
  deriving DecidableEq, Repr, Inhabited

/-- The name of the kind of the error. -/
def IoFault.name : IoFault → String
  | .notFound => "NotFound"
  | .invalidInput => "InvalidInput"
  | .invalidFilename => "InvalidFilename"

/-- A limit of the format, or a fault of the input, that stops building an entity. -/
inductive Error where
  /-- The pool already holds the largest index a reference can name. -/
  | poolOverflow (constant : Constant) (offset : Nat)
  /-- A text has more UTF-8 bytes than its two-byte length can count. -/
  | utf8TooLong (bytes : Nat)
  /-- The code of a function has more bytes than a jump can address. -/
  | codeTooLong (size : Nat)
  /-- The operand stack grows deeper than its two-byte bound. -/
  | stackTooDeep (depth : Nat)
  /-- A local slot lies past the last one a one-byte operand can address. -/
  | localsOverflow (slot : Nat)
  /-- Jumps still wait for these labels when the code is finished. -/
  | unplacedLabels (labels : List Nat)
  /-- A label is placed a second time. -/
  | duplicateLabel (label : Nat)
  /-- The finished code does not decode. -/
  | decode (e : DecodeError)
  /-- An entity file cannot be written. -/
  | io (fault : IoFault)
  /-- A declared name is not a valid member name. -/
  | malformedName (e : NameError)
  deriving Repr, Inhabited

namespace Error

/-- The name of the kind of error. -/
def kind : Error → String
  | .poolOverflow .. => "ConstantPoolOverflow"
  | .utf8TooLong _ => "Utf8TooLong"
  | .codeTooLong _ => "InstructionOverflow"
  | .stackTooDeep _ => "MaxStackOverflow"
  | .localsOverflow _ => "LocalsOverflow"
  | .unplacedLabels _ => "CodeNotFinished"
  | .duplicateLabel _ => "DuplicateLabel"
  | .decode (.malformed ..) => "MalformedInstruction"
  | .decode (.truncated _) => "TruncatedInstruction"
  | .io _ => "IoError"
  | .malformedName _ => "MalformedName"

/-- How a label is written: `l` and its number. -/
def labelText (label : Nat) : String := "l" ++ toString label

/-- The full text of the error. -/
def message : Error → String
  | .poolOverflow c offset =>
    "ConstantPoolOverflow \x7b constant: " ++ c.describe ++ ", offset: " ++ toString offset ++
      " \x7d"
  | .utf8TooLong n => "Utf8TooLong(" ++ toString n ++ ")"
  | .codeTooLong n => "InstructionOverflow(" ++ toString n ++ ")"
  | .stackTooDeep n => "MaxStackOverflow(" ++ toString n ++ ")"
  | .localsOverflow n => "LocalsOverflow(" ++ toString n ++ ")"
  | .unplacedLabels labels =>
    "CodeNotFinished \x7b unplaced_labels: [" ++ ", ".intercalate (labels.map labelText) ++
      "] \x7d"
  | .duplicateLabel l => "DuplicateLabel(" ++ labelText l ++ ")"
  | .decode (.malformed offset byte) =>
    "MalformedInstruction \x7b offset: " ++ toString offset ++ ", byte: " ++
      toString byte.toNat ++ " \x7d"
  | .decode (.truncated offset) =>
    "TruncatedInstruction \x7b offset: " ++ toString offset ++ " \x7d"
  | .io fault => fault.name
  | .malformedName e => e.message

end Error

/-- A broken promise between the layers of the compiler. -/
inductive Violation where
  /-- A channel number that is not (or no longer) open. -/
  | channelNotOpen (channel : Nat)
  /-- Emitting while no channel is active. -/
  | noActiveChannel
  /-- An instruction with the wrong number of operands. -/
  | operandCount (op : Opcode)
  /-- An operand too large for its width. -/
  | operandTooWide (value : Nat) (op : Opcode)
  /-- A two-byte patch that does not lie inside the channel. -/
  | patchOutside (offset size : Nat)
  /-- A jump or invocation pushed as a plain instruction. -/
  | needsDedicatedMethod (op : Opcode)
  /-- A non-invocation pushed as an invocation. -/
  | notInvocation (op : Opcode)
  /-- A non-jump pushed as a jump. -/
  | notJump (op : Opcode)
  /-- A handler site whose range is empty or outside the code, or whose handler is past it. -/
  | malformedSite (start stop handler size : Nat)
  /-- A jump whose target lies past the end of the finished code. -/
  | jumpPastEnd (offset target : Nat)
  /-- Leaving a loop while none is open. -/
  | noLoop
  /-- Releasing a private local slot that was never taken. -/
  | slotUnderflow
  /-- An offset so large that the offset two bytes past it is no machine word. -/
  | offsetOverflow
  /-- A class whose scope is no class scope. -/
  | classScope (name : String) (kind : ScopeKind)
  /-- A function whose scope is no function scope. -/
  | functionScope (name : String) (kind : ScopeKind)
  /-- A function body finished while `break` records still wait for their loop. -/
  | breaksOutlived
  /-- A class assembled while some channel is still open. -/
  | channelsLeftOpen (name : String)
  deriving Repr, Inhabited

/-- The text of a violation. -/
def Violation.message : Violation → String
  | .channelNotOpen c => "channel ChannelId(" ++ toString c ++ ") is not open"
  | .noActiveChannel => "emitting bytecode with no active channel"
  | .operandCount op => "wrong number of operands for " ++ op.name
  | .operandTooWide v op => "operand " ++ toString v ++ " of " ++ op.name ++ " exceeds u8"
  | .patchOutside offset size =>
    "patch at " ++ toString offset ++ " is outside channel of " ++ toString size ++ " bytes"
  | .needsDedicatedMethod op => op.name ++ " must be pushed through its dedicated method"
  | .notInvocation op => op.name ++ " is not an invocation"
  | .notJump op => op.name ++ " is not a jump"
  | .malformedSite start stop handler size =>
    "malformed handler site [" ++ toString start ++ ", " ++ toString stop ++ ") -> " ++
      toString handler ++ " in " ++ toString size ++ " bytes"
  | .jumpPastEnd offset target =>
    "jump at " ++ toString offset ++ " targets " ++ toString target ++ " past the end"
  | .noLoop => "no loop to leave"
  | .slotUnderflow => "attempt to subtract with overflow"
  | .offsetOverflow => "attempt to add with overflow"
  | .classScope name kind => "class '" ++ name ++ "' has a " ++ kind.describe ++ " scope"
  | .functionScope name kind => "function '" ++ name ++ "' has a " ++ kind.describe ++ " scope"
  | .breaksOutlived => "break records outlived their loops"
  | .channelsLeftOpen name => "channels left open after translating '" ++ name ++ "'"

/-- Why a computation stopped: an error to report, or a violated promise. -/
inductive Halt where
  | error (e : Error)
  | violation (v : Violation)
  deriving Repr, Inhabited

/-- Computations that may stop with a `Halt`. -/
abbrev Outcome := Except Halt

/-- Stop with an error. -/
def fail {α : Type} (e : Error) : Outcome α := .error (.error e)

/-- Stop with a violated promise. -/
def violate {α : Type} (v : Violation) : Outcome α := .error (.violation v)

/-- Run a step on a state, answering its outcome and the state after it. -/
def runStep {ε σ α : Type} (m : ExceptT ε (StateM σ) α) (s : σ) : Except ε α × σ :=
  m.run.run s

/-- A step followed by another runs the second on the state the first leaves, unless the first
stops. -/
theorem runStep_bind {ε σ α β : Type} (m : ExceptT ε (StateM σ) α) (f : α → ExceptT ε (StateM σ) β)
    (s : σ) :
    runStep (m >>= f) s = match runStep m s with
      | (.ok a, next) => runStep (f a) next
      | (.error e, next) => (.error e, next) := by
  unfold runStep ExceptT.run StateT.run
  simp only [bind, ExceptT.bind, ExceptT.mk, StateT.bind, ExceptT.bindCont]
  cases m s with
  | mk r next => cases r <;> rfl

theorem runStep_pure {ε σ α : Type} (a : α) (s : σ) :
    runStep (pure a : ExceptT ε (StateM σ) α) s = (.ok a, s) := rfl

/-- A sequence of two steps that answers went through both. -/
theorem runStep_bind_eq_ok {ε σ α β : Type} {m : ExceptT ε (StateM σ) α} {f : α → ExceptT ε (StateM σ) β}
    {s s' : σ} {b : β} (ran : runStep (m >>= f) s = (.ok b, s')) :
    ∃ a s₁, runStep m s = (.ok a, s₁) ∧ runStep (f a) s₁ = (.ok b, s') := by
  rw [runStep_bind] at ran
  split at ran
  · exact ⟨_, _, ‹_›, ran⟩
  · cases ran

theorem runStep_bind_of_ok {ε σ α β : Type} {m : ExceptT ε (StateM σ) α} {f : α → ExceptT ε (StateM σ) β}
    {s s₁ : σ} {a : α} (first : runStep m s = (.ok a, s₁)) : runStep (m >>= f) s = runStep (f a) s₁ := by
  rw [runStep_bind, first]

end Febc
