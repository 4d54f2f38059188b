import Febc.Syntax.Expr

/-!
# Statements of the source language

Statements and blocks are mutually nested: a block is a list of statements and, optionally, the
scope it opens; loops, guarded blocks and resource blocks hold blocks.
-/

namespace Febc

mutual

/-- Statements. -/
inductive Stmt where
  | block (b : Block)
  /-- A declaration of variables or constants, each with an optional initial value. -/
  | declare (isConstant : Bool) (decls : List (Ident × Option Expr))
  | eval (e : Expr)
  /-- An `if` with its `else if` clauses, and an optional `else` block. -/
  | ifChain (clauses : List (Expr × Block)) (otherwise : Option Block)
  | whileLoop (label : Option Ident) (test : Expr) (body : Block)
  | forEach (label : Option Ident) (var : Ident) (iterable : Expr) (body : Block)
  | breakLoop (label : Option Ident) (pos : Position)
  | continueLoop (label : Option Ident) (pos : Position)
  | returnValue (value : Option Expr) (pos : Position)
  | throwValue (e : Expr) (pos : Position)
  /-- A guarded block with its catch clauses and an optional block run on every exit. -/
  | guarded (body : Block) (catches : List Catch) (always : Option Block)
  /-- A block run while holding the lock of an object. -/
  | synchronized (lock : Expr) (body : Block)
  /-- A block over resources that are closed on every exit, the last opened first. -/
  | withResources (resources : List (Option Ident × Expr)) (body : Block)
  | empty

/-- A list of statements, and the scope it opens, if any. -/
inductive Block where
  | mk (stmts : List Stmt) (scope : Option Nat)

/-- A catch clause: the exception classes it catches (any, if none), the name that receives the
exception, and its block. -/
inductive Catch where
  | mk (filters : List Ident) (param : Ident) (body : Block)

end

instance : Inhabited Stmt := ⟨.empty⟩

instance : Inhabited Block := ⟨.mk [] none⟩

/-- The statements of a block. -/
def Block.stmts : Block → List Stmt
  | .mk stmts _ => stmts

/-- The scope a block opens. -/
def Block.scope : Block → Option Nat
  | .mk _ scope => scope

end Febc
