import Febc.Lowering.Access

/-!
# Lowering expressions

An expression is lowered into code that leaves its value on the stack. Operators, truth tests,
literals and collections go through the kernel; places go through `Access`; calls are bound as
`bindMemberCall` and `callFunction` decide. Short-circuit operators keep their left operand when
it decides the result, and a conditional expression jumps over the branch it does not take.

The lowering is one structural recursion over expressions, the lists of arguments and items, the
entries of a map, and assignment targets, so each of these has its own function in one mutual
block.

Main statement: `lowerArgs_append`, the arguments of a call are lowered left to right.
-/

namespace Febc

namespace Lowering

mutual

/-- Push the value of an expression. -/
def lowerExpr : Expr → LowerM Unit
  | .literal lit _ => lowerLiteral lit
  | .ident name => do (← accessName name false).load
  | .self pos => do (← accessSelf pos false).load
  | .member obj name => do (← lowerMember obj name).load
  | .index obj key => do
    lowerExpr obj
    lowerExpr key
    Access.subscript.load
  | .list items _ => do
    construct .list .listInitialize
    lowerItems items
  | .map entries _ => do
    construct .map .mapInitialize
    lowerEntries entries
  | .assign target o value => do
    let place ← lowerTarget target
    match o with
    | none => lowerExpr value
    | some o => do
      place.duplicateAddress
      place.load
      lowerExpr value
      evaluateBinary o
    place.store
  | .cond test thenValue elseValue => do
    let otherwise ← freshLabel
    let done ← freshLabel
    lowerExpr test
    jumpUnlessTrue otherwise
    lowerExpr thenValue
    jump .jump done
    place otherwise
    lowerExpr elseValue
    place done
  | .logical o left right => do
    let done ← freshLabel
    lowerExpr left
    op .duplicate []
    testTruth
    jump (match o with | .and => .jumpEq0I | .or => .jumpNe0I) done
    op .pop []
    lowerExpr right
    place done
  | .binary o left right => do
    lowerExpr left
    lowerExpr right
    evaluateBinary o
  | .unary o operand _ => do
    lowerExpr operand
    evaluateUnary o
  | .call (.ident name) args => do
    match ← resolve name.text with
    | some (.function owner isStatic arities) =>
      callFunction owner isStatic arities name args.length (lowerArgs args)
    | none => unresolvedFunction name
    | some _ => do
      (← accessName name false).load
      lowerArgs args
      callIntrinsic (.invoke args.length)
  | .call (.member obj name) args => do
    match ← bindMemberCall obj name args.length with
    | .ofClass ref => invoke .invokeStatic ref (lowerArgs args)
    | .onSelf owner arities => callFunction owner false arities name args.length (lowerArgs args)
    | .dispatch => do
      lowerExpr obj
      let text ← memberName name
      invoke .invokeDynamic ⟨.object, text, .dynamic args.length, 0⟩ (lowerArgs args)
  | .call callee args => do
    lowerExpr callee
    lowerArgs args
    callIntrinsic (.invoke args.length)
  | .new cls args => do
    match ← resolve cls.text with
    | some (.type name) => do
      let index ← onPool name.intern
      op .new [index]
      op .duplicate []
      invoke .invokeSpecial ⟨name, initializeName, .initializer args.length, 0⟩ (lowerArgs args)
    | _ => unresolvedClass cls

/-- Push every argument, left to right. -/
def lowerArgs : List Expr → LowerM Unit
  | [] => pure ()
  | e :: rest => do
    lowerExpr e
    lowerArgs rest

/-- Add every item to the list on the stack, keeping the list. -/
def lowerItems : List Expr → LowerM Unit
  | [] => pure ()
  | e :: rest => do
    op .duplicate []
    lowerExpr e
    callIntrinsic .listAdd
    lowerItems rest

/-- Put every entry into the map on the stack, keeping the map. -/
def lowerEntries : List (Expr × Expr) → LowerM Unit
  | [] => pure ()
  | (key, value) :: rest => do
    op .duplicate []
    lowerExpr key
    lowerExpr value
    callIntrinsic .mapPut
    lowerEntries rest

/-- Reach a member of an object: statically where `staticMember?` can, otherwise through the
kernel by the member's name. -/
def lowerMember (obj : Expr) (name : Ident) : LowerM Access := do
  match ← staticMember? obj name with
  | some place => pure place
  | none => do
    lowerExpr obj
    loadString name.text
    pure .dynamicMember

/-- Reach the place an assignment stores into. Only names, members and subscripts are places. -/
def lowerTarget : Expr → LowerM Access
  | .ident name => accessName name true
  | .self pos => accessSelf pos true
  | .member obj name => lowerMember obj name
  | .index obj key => do
    lowerExpr obj
    lowerExpr key
    pure .subscript
  | e => do
    reportInvalidTarget e.pos
    pure .invalid

end

/-- Lower a condition: fall through when it holds, jump to a label when it does not. -/
def lowerCondition (test : Expr) (otherwise : Nat) : LowerM Unit := do
  lowerExpr test
  jumpUnlessTrue otherwise

theorem lowerArgs_append (xs ys : List Expr) :
    lowerArgs (xs ++ ys) = (do lowerArgs xs; lowerArgs ys) := by
  induction xs with
  | nil => simp [lowerArgs]
  | cons x xs ih => simp [lowerArgs, ih]

end Lowering

end Febc
