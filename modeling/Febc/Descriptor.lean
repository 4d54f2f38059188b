import Febc.Name

/-!
# Type descriptors

A descriptor is the text that types a field or a function in the constant pool. A base type is
one letter (`z i l f d`), an object type is `@` + its binary name + `;`, and a function is its
parameter types in parentheses followed by its result, with `v` for none.

Main statement: `FunctionDescriptor.stackEffect_dynamic`, a dynamic call of arity `n` leaves
`1 - n` more values on the stack.
-/

namespace Febc

/-- Primitive value types. -/
inductive BaseType where
  | boolean
  | integer
  | long
  | float
  | double
  deriving DecidableEq, Repr, Inhabited, Hashable

/-- The letter of a base type. -/
def BaseType.letter : BaseType → Char
  | .boolean => 'z'
  | .integer => 'i'
  | .long => 'l'
  | .float => 'f'
  | .double => 'd'

/-- The type of a field, parameter or result. -/
inductive FieldType where
  | base (b : BaseType)
  | object (cls : BinaryName)
  deriving DecidableEq, Repr, Inhabited, Hashable

namespace FieldType

/-- The type of every dynamically typed value. -/
def anyObject : FieldType := .object .object

/-- The descriptor text of a field type. -/
def render : FieldType → String
  | .base b => b.letter.toString
  | .object cls => "@" ++ cls.text ++ ";"

end FieldType

/-- Parameter types and optional result type of a function. -/
structure FunctionDescriptor where
  params : List FieldType
  ret : Option FieldType
  deriving DecidableEq, Repr, Inhabited, Hashable

namespace FunctionDescriptor

/-- `n` objects in, one object out: the shape of every dynamically typed call. -/
def dynamic (arity : Nat) : FunctionDescriptor :=
  ⟨List.replicate arity FieldType.anyObject, some FieldType.anyObject⟩

/-- `n` objects in, nothing out: the shape of every initializer. -/
def initializer (arity : Nat) : FunctionDescriptor :=
  ⟨List.replicate arity FieldType.anyObject, none⟩

/-- Values a call with this descriptor leaves on the stack, less those it takes. -/
def stackEffect (d : FunctionDescriptor) : Int :=
  (if d.ret.isSome then 1 else 0) - d.params.length

/-- The descriptor text: `(` parameters `)` result, `v` when there is no result. -/
def render (d : FunctionDescriptor) : String :=
  "(" ++ String.join (d.params.map FieldType.render) ++ ")" ++
    match d.ret with
    | none => "v"
    | some t => t.render

theorem stackEffect_dynamic (arity : Nat) : (dynamic arity).stackEffect = 1 - arity := by
  simp [dynamic, stackEffect]

theorem stackEffect_initializer (arity : Nat) : (initializer arity).stackEffect = -arity := by
  simp [initializer, stackEffect]

end FunctionDescriptor

end Febc
