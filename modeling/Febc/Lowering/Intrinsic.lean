import Febc.Entity.Reference
import Febc.Bytecode.Opcode

/-!
# Intrinsics: the core library functions that compiled code calls

Compiled code is dynamically typed: it never applies an operator itself but asks the kernel of
the core library to evaluate it, boxes every primitive literal, and reaches fields, subscripts,
iterators, locks and resources through fixed functions. Each such function is an `Intrinsic`,
with the class that declares it, its name, its descriptor, and how it is invoked (static calls,
dynamic calls on an object, virtual calls, and the special calls of initializers).

All intrinsics sit in slot zero of their class's function table.
-/

namespace Febc

/-- A core library function that compiled code calls by a fixed reference. -/
inductive Intrinsic where
  | evaluateBinary
  | evaluateUnary
  | isTrue
  | newInteger
  | newLong
  | newFloat
  | newDouble
  | loadField
  | storeField
  | loadSubscript
  | storeSubscript
  | getIterator
  | hasNext
  | getNext
  | acquire
  | release
  | close
  | suppress
  /-- Calling a function value with this many arguments. -/
  | invoke (arity : Nat)
  | listInitialize
  | listAdd
  | mapInitialize
  | mapPut
  deriving DecidableEq, Repr, Inhabited

namespace Intrinsic

/-- How the intrinsic is invoked. -/
def invocation : Intrinsic → Opcode
  | .evaluateBinary | .evaluateUnary | .isTrue | .newInteger | .newLong | .newFloat | .newDouble
  | .loadField | .storeField | .loadSubscript | .storeSubscript => .invokeStatic
  | .getIterator | .hasNext | .getNext | .close | .invoke _ => .invokeDynamic
  | .acquire | .release | .suppress | .listAdd | .mapPut => .invokeVirtual
  | .listInitialize | .mapInitialize => .invokeSpecial

/-- The `newInstance` function that boxes a primitive into its class. -/
def boxing (cls : BinaryName) (primitive : BaseType) : FunctionRef :=
  ⟨cls, "newInstance", ⟨[.base primitive], some (.object cls)⟩, 0⟩

/-- The reference to the intrinsic's function. -/
def reference : Intrinsic → FunctionRef
  | .evaluateBinary =>
    ⟨.kernel, "evaluate", ⟨[.anyObject, .anyObject, .object .string], some .anyObject⟩, 0⟩
  | .evaluateUnary => ⟨.kernel, "evaluate", ⟨[.anyObject, .object .string], some .anyObject⟩, 0⟩
  | .isTrue => ⟨.kernel, "isTrue", ⟨[.anyObject], some (.base .boolean)⟩, 0⟩
  | .newInteger => boxing .integer .integer
  | .newLong => boxing .long .long
  | .newFloat => boxing .float .float
  | .newDouble => boxing .double .double
  | .loadField => ⟨.kernel, "loadField", ⟨[.anyObject, .object .string], some .anyObject⟩, 0⟩
  | .storeField =>
    ⟨.kernel, "storeField", ⟨[.anyObject, .object .string, .anyObject], some .anyObject⟩, 0⟩
  | .loadSubscript => ⟨.kernel, "loadSubscript", ⟨[.anyObject, .anyObject], some .anyObject⟩, 0⟩
  | .storeSubscript =>
    ⟨.kernel, "storeSubscript", ⟨[.anyObject, .anyObject, .anyObject], some .anyObject⟩, 0⟩
  | .getIterator => ⟨.object, "getIterator", ⟨[], some .anyObject⟩, 0⟩
  | .hasNext => ⟨.object, "hasNext", ⟨[], some .anyObject⟩, 0⟩
  | .getNext => ⟨.object, "getNext", ⟨[], some .anyObject⟩, 0⟩
  | .acquire => ⟨.object, "acquire", ⟨[], none⟩, 0⟩
  | .release => ⟨.object, "release", ⟨[], none⟩, 0⟩
  | .close => ⟨.object, "close", ⟨[], some .anyObject⟩, 0⟩
  | .suppress => ⟨.exception, "suppress", ⟨[.object .exception], none⟩, 0⟩
  | .invoke arity => ⟨.object, "invoke", FunctionDescriptor.dynamic arity, 0⟩
  | .listInitialize => ⟨.list, initializeName, ⟨[], none⟩, 0⟩
  | .listAdd => ⟨.list, "add", ⟨[.anyObject], none⟩, 0⟩
  | .mapInitialize => ⟨.map, initializeName, ⟨[], none⟩, 0⟩
  | .mapPut => ⟨.map, "putValue", ⟨[.anyObject, .anyObject], none⟩, 0⟩

end Intrinsic

/-- The two boolean constants of the core library. -/
inductive BooleanField where
  | trueValue
  | falseValue
  deriving DecidableEq, Repr, Inhabited

/-- The static field that holds a boolean constant. -/
def BooleanField.reference : BooleanField → FieldRef
  | .trueValue => ⟨.boolean, "TRUE", .object .boolean⟩
  | .falseValue => ⟨.boolean, "FALSE", .object .boolean⟩

end Febc
