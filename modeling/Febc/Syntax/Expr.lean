/-!
# Expressions of the source language

The syntax tree the compiler lowers is already resolved: identifiers carry their position, and
blocks, functions and classes name the scope of the symbol table they open. Expressions are
dynamically typed; operators are named by the symbol the kernel evaluates them by.

`Expr.pos` is the position a diagnostic about an expression points at: the position of its
leftmost part for operators, assignments, subscripts and calls, and of its name for members and
`new`.
-/

namespace Febc

/-- A line and column of the source. -/
structure Position where
  line : Nat
  column : Nat
  deriving DecidableEq, Repr, Inhabited

/-- `line:column`. -/
def Position.text (p : Position) : String := toString p.line ++ ":" ++ toString p.column

/-- A name as written, with its position. -/
structure Ident where
  text : String
  pos : Position
  deriving DecidableEq, Repr, Inhabited

/-- Binary operators, evaluated by the kernel. -/
inductive BinaryOp where
  | add | subtract | multiply | divide | modulo
  | shiftLeft | shiftRight | shiftRightUnsigned
  | bitAnd | bitOr | bitXor
  | equal | notEqual | less | lessOrEqual | greater | greaterOrEqual
  | is
  deriving DecidableEq, Repr, Inhabited

/-- The symbol by which the kernel knows a binary operator. -/
def BinaryOp.symbol : BinaryOp → String
  | .add => "+"
  | .subtract => "-"
  | .multiply => "*"
  | .divide => "/"
  | .modulo => "%"
  | .shiftLeft => "<<"
  | .shiftRight => ">>"
  | .shiftRightUnsigned => ">>>"
  | .bitAnd => "&"
  | .bitOr => "|"
  | .bitXor => "^"
  | .equal => "=="
  | .notEqual => "!="
  | .less => "<"
  | .lessOrEqual => "<="
  | .greater => ">"
  | .greaterOrEqual => ">="
  | .is => "is"

/-- Every binary operator. -/
def BinaryOp.all : List BinaryOp :=
  [.add, .subtract, .multiply, .divide, .modulo, .shiftLeft, .shiftRight, .shiftRightUnsigned,
    .bitAnd, .bitOr, .bitXor, .equal, .notEqual, .less, .lessOrEqual, .greater, .greaterOrEqual,
    .is]

/-- The binary operator with a symbol. -/
def BinaryOp.ofSymbol? (s : String) : Option BinaryOp := BinaryOp.all.find? (·.symbol == s)

/-- Unary operators, evaluated by the kernel. -/
inductive UnaryOp where
  | plus | minus | not | bitNot
  deriving DecidableEq, Repr, Inhabited

/-- The symbol by which the kernel knows a unary operator. -/
def UnaryOp.symbol : UnaryOp → String
  | .plus => "+"
  | .minus => "-"
  | .not => "!"
  | .bitNot => "~"

/-- The unary operator with a symbol. -/
def UnaryOp.ofSymbol? (s : String) : Option UnaryOp :=
  [UnaryOp.plus, .minus, .not, .bitNot].find? (·.symbol == s)

/-- Literal values. Floating-point literals are kept as their bit patterns. -/
inductive Literal where
  | integer (v : Int32)
  | long (v : Int64)
  | float (bits : UInt32)
  | double (bits : UInt64)
  | string (text : String)
  | boolean (b : Bool)
  | null
  deriving DecidableEq, Repr, Inhabited

/-- Short-circuit operators. -/
inductive LogicalOp where
  | and | or
  deriving DecidableEq, Repr, Inhabited

/-- Expressions. -/
inductive Expr where
  | literal (lit : Literal) (pos : Position)
  | ident (name : Ident)
  /-- The receiver of an instance function. -/
  | self (pos : Position)
  | list (items : List Expr) (pos : Position)
  | map (entries : List (Expr × Expr)) (pos : Position)
  /-- `target = value`, or `target op= value`. -/
  | assign (target : Expr) (op : Option BinaryOp) (value : Expr)
  | cond (test thenValue elseValue : Expr)
  | logical (op : LogicalOp) (left right : Expr)
  | binary (op : BinaryOp) (left right : Expr)
  | unary (op : UnaryOp) (operand : Expr) (pos : Position)
  | member (obj : Expr) (name : Ident)
  | index (obj key : Expr)
  | call (callee : Expr) (args : List Expr)
  | new (cls : Ident) (args : List Expr)
  deriving Repr, Inhabited

/-- The position a diagnostic about an expression points at. -/
def Expr.pos : Expr → Position
  | .literal _ pos | .self pos | .list _ pos | .map _ pos | .unary _ _ pos => pos
  | .ident name => name.pos
  | .assign target _ _ => target.pos
  | .cond test _ _ => test.pos
  | .logical _ left _ | .binary _ left _ => left.pos
  | .member _ name => name.pos
  | .index obj _ => obj.pos
  | .call callee _ => callee.pos
  | .new cls _ => cls.pos

end Febc
