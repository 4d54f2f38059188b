import Febc.Lowering.Monad
import Febc.Syntax.Expr

/-!
# Places and calls

A name, `this`, a member or a subscript denotes a place. Lowering the place pushes what is needed
to reach it (a receiver, a member name, an object and an index) and answers an `Access`; loading
or storing through the access is then one more step. The same syntax is read and assigned to, so
only the last step differs.

Names resolve through the symbol table: a local is a slot, a field of a class a field entry, a
function or a class a constant to load. Members of `this` and of a class name are resolved
statically; every other member is reached through the kernel by its name.

Calls are bound the same way. A function the symbol table knows is called by its owner and
slot, statically or on `this`; `Class.f(...)` is a static call; any other member call dispatches
on the receiver by name; and any other value is called through the kernel.

Main statements:
* `addressSize_load_le`: only the three address shapes put anything below the value;
* `tableIndex_foreign`: a function of another class is bound by name, in slot zero.
-/

namespace Febc

/-- The place an expression denotes, once what reaches it is on the stack. -/
inductive Access where
  /-- A local slot. -/
  | slot (index : Nat)
  /-- A static field, by its field entry. -/
  | staticField (field : Nat)
  /-- A field of the receiver on the stack. -/
  | instanceField (field : Nat)
  /-- A member of the object on the stack, by the name on the stack above it. -/
  | dynamicMember
  /-- An element of the object on the stack, by the index above it. -/
  | subscript
  /-- A value already on the stack, which cannot be assigned to. -/
  | value
  /-- A reported error: nothing is on the stack. -/
  | invalid
  deriving DecidableEq, Repr, Inhabited

namespace Access

/-- How many stack values reach the place. -/
def addressSize : Access → Nat
  | .instanceField _ => 1
  | .dynamicMember | .subscript => 2
  | _ => 0

theorem addressSize_load_le (a : Access) : a.addressSize ≤ 2 := by
  cases a <;> simp [addressSize]

open Lowering

/-- Load the value of the place. An invalid place loads null. -/
def load : Access → LowerM Unit
  | .slot i => op .loadA [i]
  | .staticField f => op .loadStaticField [f]
  | .instanceField f => op .loadInstanceField [f]
  | .dynamicMember => callIntrinsic .loadField
  | .subscript => callIntrinsic .loadSubscript
  | .value => pure ()
  | .invalid => op .pushNull []

/-- Store the value on the stack into the place, keeping a copy of it: an assignment is an
expression. -/
def store : Access → LowerM Unit
  | .slot i => do op .duplicate []; op .storeA [i]
  | .staticField f => do op .duplicate []; op .storeStaticField [f]
  | .instanceField f => do op .duplicateX1 []; op .storeInstanceField [f]
  | .dynamicMember => callIntrinsic .storeField
  | .subscript => callIntrinsic .storeSubscript
  | .value | .invalid => pure ()

/-- Copy what reaches the place, so that it can be both loaded and stored. -/
def duplicateAddress (a : Access) : LowerM Unit :=
  match a.addressSize with
  | 0 => pure ()
  | 1 => op .duplicate []
  | _ => op .duplicate2 []

end Access

namespace Lowering

/-! ## Names -/

/-- The field entry of a field of a class, by a source name. -/
def fieldEntry (owner : BinaryName) (name : Ident) : LowerM Nat := do
  let text ← memberName name
  onPool (FieldRef.intern ⟨owner, text, .anyObject⟩)

/-- The slot of a function in its class's table: known for the class being compiled, and
zero, to be bound when loaded, for every other class. -/
def tableIndexOf (layout : ClassLayout) (owner : BinaryName) (name : String) (arity : Nat) : Nat :=
  if owner = layout.name then (layout.tableIndex? name arity).getD 0 else 0

theorem tableIndex_foreign (layout : ClassLayout) (owner : BinaryName) (name : String)
    (arity : Nat) (other : owner ≠ layout.name) : tableIndexOf layout owner name arity = 0 := by
  simp [tableIndexOf, other]

/-- The reference to a function of a class, called with some number of arguments. -/
def functionRef (owner : BinaryName) (name : Ident) (arity : Nat) : LowerM FunctionRef := do
  let text ← memberName name
  let env ← read
  pure ⟨owner, text, .dynamic arity, tableIndexOf env.layout owner name.text arity⟩

/-- The place of a variable stored in a slot or a field. An instance field of a static function
is an error. -/
def accessVariable (name : Ident) : Storage → LowerM Access
  | .slot i => pure (.slot i)
  | .field owner isStatic => do
    let field ← fieldEntry owner name
    if isStatic then pure (.staticField field)
    else if (← read).isStatic then
      report .instanceReferenceFromStatic name.pos
        ("instance field '" ++ name.text ++ "' used in a static context")
      pure .invalid
    else
      op .loadA [0]
      pure (.instanceField field)

/-- The place a name denotes, to read or to assign to. Functions and classes are values; a
constant, a function and a class cannot be assigned to, and an overloaded function is no
value. -/
def accessName (name : Ident) (forWrite : Bool) : LowerM Access := do
  match ← resolve name.text with
  | none =>
    report .unresolvedSymbol name.pos ("cannot resolve '" ++ name.text ++ "'")
    pure .invalid
  | some (.const storage) =>
    if forWrite then
      report .assignmentToConstant name.pos ("cannot assign to constant '" ++ name.text ++ "'")
      pure .invalid
    else accessVariable name storage
  | some (.var storage) => accessVariable name storage
  | some (.function owner _ arities) =>
    if forWrite then
      reportInvalidTarget name.pos
      pure .invalid
    else if arities.length > 1 then
      report .overloadedFunctionReference name.pos
        ("'" ++ name.text ++ "' is overloaded and cannot be used as a value")
      pure .invalid
    else
      let ref ← functionRef owner name (arities.headD 0)
      let index ← onPool ref.intern
      loadConstant index
      pure .value
  | some (.type cls) =>
    if forWrite then
      reportInvalidTarget name.pos
      pure .invalid
    else
      let index ← onPool cls.intern
      loadConstant index
      pure .value

/-- The place `this` denotes: the receiver, which cannot be assigned to and does not exist in a
static function. -/
def accessSelf (pos : Position) (forWrite : Bool) : LowerM Access := do
  if forWrite then
    reportInvalidTarget pos
    pure .invalid
  else if (← read).isStatic then
    report .instanceReferenceFromStatic pos "'this' used in a static context"
    pure .invalid
  else
    op .loadA [0]
    pure .value

/-- A member reached without the kernel: a field of the class on `this`, outside static
functions, or a field of a named class. -/
def staticMember? (obj : Expr) (name : Ident) : LowerM (Option Access) := do
  let env ← read
  match obj with
  | .self _ =>
    if env.isStatic then pure none
    else
      match env.symbols.resolve env.layout.scope name.text with
      | some (.var (.field owner isStatic)) => some <$> accessVariable name (.field owner isStatic)
      | _ => pure none
  | .ident cls =>
    match env.symbols.resolve env.scope cls.text with
    | some (.type owner) => do
      let field ← fieldEntry owner name
      pure (some (.staticField field))
    | _ => pure none
  | _ => pure none

/-! ## Literals and operators -/

/-- Push a literal: a boxed primitive, a string, a boolean constant or null. -/
def lowerLiteral : Literal → LowerM Unit
  | .integer v => boxed (.integer v) .newInteger
  | .long v => boxed (.long v) .newLong
  | .float bits => boxed (.float bits) .newFloat
  | .double bits => boxed (.double bits) .newDouble
  | .string text => loadString text
  | .boolean true => loadBoolean .trueValue
  | .boolean false => loadBoolean .falseValue
  | .null => op .pushNull []
where
  boxed (data : ConstantData) (box : Intrinsic) : LowerM Unit := do
    let index ← onPool data.intern
    loadConstant index
    callIntrinsic box

/-- Apply a binary operator to the two values on the stack. -/
def evaluateBinary (o : BinaryOp) : LowerM Unit := do
  loadString o.symbol
  callIntrinsic .evaluateBinary

/-- Apply a unary operator to the value on the stack. -/
def evaluateUnary (o : UnaryOp) : LowerM Unit := do
  loadString o.symbol
  callIntrinsic .evaluateUnary

/-- Create an empty list or map. -/
def construct (cls : BinaryName) (init : Intrinsic) : LowerM Unit := do
  let index ← onPool cls.intern
  op .new [index]
  op .duplicate []
  callIntrinsic init

/-! ## Calls -/

/-- Push the arguments, then invoke (any receiver is already on the stack). -/
def invoke (o : Opcode) (ref : FunctionRef) (args : LowerM Unit) : LowerM Unit := do
  args
  invokeEntry o ref

/-- Call a function the symbol table knows, with `arity` arguments pushed by `args`. No
overload with that many parameters, or an instance function called from a static one, is an
error, and the call then pushes null without its arguments. -/
def callFunction (owner : BinaryName) (isStatic : Bool) (arities : List Nat) (name : Ident)
    (arity : Nat) (args : LowerM Unit) : LowerM Unit := do
  if !arities.contains arity then
    report .noMatchingOverload name.pos
      ("no overload of '" ++ name.text ++ "' takes " ++ toString arity ++ " argument(s)")
    op .pushNull []
  else
    let ref ← functionRef owner name arity
    if isStatic then invoke .invokeStatic ref args
    else if (← read).isStatic then
      report .instanceReferenceFromStatic name.pos
        ("instance function '" ++ name.text ++ "' called from a static context")
      op .pushNull []
    else
      op .loadA [0]
      invoke .invokeVirtual ref args

/-- How a call of a member is bound. -/
inductive MemberCall where
  /-- `Class.f(...)`: a static call of the named class. -/
  | ofClass (ref : FunctionRef)
  /-- `this.f(...)` of an instance function of the class. -/
  | onSelf (owner : BinaryName) (arities : List Nat)
  /-- Dispatched on the receiver by name. -/
  | dispatch
  deriving Inhabited

/-- Decide how a call of `obj.name` with `arity` arguments is bound. -/
def bindMemberCall (obj : Expr) (name : Ident) (arity : Nat) : LowerM MemberCall := do
  let env ← read
  match obj with
  | .self _ =>
    match env.symbols.resolve env.layout.scope name.text with
    | some (.function owner false arities) => pure (.onSelf owner arities)
    | _ => pure .dispatch
  | .ident cls =>
    match env.symbols.resolve env.scope cls.text with
    | some (.type owner) => do
      let text ← memberName name
      pure (.ofClass ⟨owner, text, .dynamic arity, tableIndexOf env.layout owner name.text arity⟩)
    | _ => pure .dispatch
  | _ => pure .dispatch

/-- Report a name that resolves to no class in `new`, and push null. -/
def unresolvedClass (cls : Ident) : LowerM Unit := do
  report .unresolvedSymbol cls.pos ("cannot resolve class '" ++ cls.text ++ "'")
  op .pushNull []

/-- Report a called name that resolves to nothing, and push null. -/
def unresolvedFunction (name : Ident) : LowerM Unit := do
  report .unresolvedSymbol name.pos ("cannot resolve function '" ++ name.text ++ "'")
  op .pushNull []

end Lowering

end Febc
