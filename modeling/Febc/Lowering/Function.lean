import Febc.Lowering.Stmt
import Febc.Syntax.Class
import Febc.Entity.File

/-!
# Function bodies

A function body ends with an implicit return where its end is reachable: nothing from an
initializer, null from any other function. Finishing the body records the private slots in the
local count and hands the code to the builder's checks.

An initializer first calls the superclass's initializer on `this`, then stores the initial value
of every instance field that has one; the static initializer stores those of the static fields.
Field initializers are resolved in the class scope.

Main statement: `isStaticField_iff`, a field declaration is static exactly when its modifiers
carry the static bit.
-/

namespace Febc

namespace Lowering

/-- Does a field declaration declare static fields? -/
def isStaticField (decl : FieldDecl) : Bool := decl.mods &&& AccessFlag.staticBit != 0

theorem isStaticField_iff (decl : FieldDecl) :
    isStaticField decl = true ↔ decl.mods &&& 8 ≠ 0 := by
  simp [isStaticField, AccessFlag.staticBit]

/-- Close the body: return if the end is reachable, record the local count, and check the
code. -/
def finish : LowerM InstructionAttribute := do
  if (← get).code.isReachable then
    if (← read).isInitializer then op .ret []
    else
      op .pushNull []
      op .retA []
  if (← get).loops.pending ≠ 0 then refuse .breaksOutlived
  let count := (← get).locals.count
  onCode (CodeBuilder.setLocalCount count)
  onCode CodeBuilder.result

/-- Store the initial value of each declarator that has one into its field of the class. -/
def initializeDeclarators (isStatic : Bool) : List (Ident × Option Expr) → LowerM Unit
  | [] => pure ()
  | (_, none) :: rest => initializeDeclarators isStatic rest
  | (name, some init) :: rest => do
    let owner := (← read).layout.name
    let field ← fieldEntry owner name
    if isStatic then
      lowerExpr init
      op .storeStaticField [field]
    else
      op .loadA [0]
      lowerExpr init
      op .storeInstanceField [field]
    initializeDeclarators isStatic rest

/-- Store the initial values of the static fields, or of the instance fields, in the class
scope. -/
def initializeFields (fields : List FieldDecl) (isStatic : Bool) : LowerM Unit := do
  let scope := (← read).layout.scope
  withScope (some scope) (go fields)
where
  go : List FieldDecl → LowerM Unit
    | [] => pure ()
    | decl :: rest => do
      if isStaticField decl == isStatic then initializeDeclarators isStatic decl.decls
      go rest

/-- Call the superclass's initializer on `this`, then initialize the instance fields. -/
def initializeInstance (fields : List FieldDecl) : LowerM Unit := do
  let layout := (← read).layout
  let ref : FunctionRef := ⟨layout.superclass, initializeName, .initializer 0, 0⟩
  let index ← onPool ref.intern
  op .loadA [0]
  onCode (CodeBuilder.pushInvoke .invokeSpecial index ref.descriptor)
  initializeFields fields false

end Lowering

end Febc
