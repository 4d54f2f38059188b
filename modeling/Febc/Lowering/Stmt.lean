import Febc.Lowering.Handler
import Febc.Syntax.Stmt

/-!
# Lowering statements

Structured control flow becomes jumps. An `if` chain tests each clause in turn and jumps past the
chain after each taken clause but the last; a `while` loop tests at its head and jumps back; a
`for` loop runs an iterator kept in a private slot. A `break` jumps to a target that is patched
when its loop is left, and a `continue` jumps to its loop's head. A `break` or `continue` with
no loop to leave is an error, and emits nothing.

A guarded block runs its body, then each catch clause as a handler of the body's range, then the
`finally` block on the normal path and as a handler of the body and of every clause.

Main statement: `lowerStmts_append`, a list of statements is lowered one after the other.
-/

namespace Febc

namespace Lowering

/-- Declare variables: push each initial value, or null, and pop it into its local. -/
def lowerDecls : List (Ident × Option Expr) → LowerM Unit
  | [] => pure ()
  | (name, init) :: rest => do
    match init with
    | some e => lowerExpr e
    | none => op .pushNull []
    storeDeclared (← read).scope name
    lowerDecls rest

/-- Report a `break` or `continue` that leaves no loop: its label names no open loop, or no loop
is open at all. -/
def reportMissingLoop (isBreak : Bool) (label : Option Ident) (pos : Position) : LowerM Unit := do
  let keyword := if isBreak then "break" else "continue"
  let outside : LowerM Unit :=
    report (if isBreak then .breakOutsideLoop else .continueOutsideLoop) pos
      ("'" ++ keyword ++ "' outside of a loop")
  match label with
  | some l =>
    if ← inLoop then
      report .unknownLoopLabel l.pos ("no enclosing loop is labeled '" ++ l.text ++ "'")
    else outside
  | none => outside

/-- Jump out of a loop, to its exit once it is known. -/
def lowerBreak (label : Option Ident) (pos : Position) : LowerM Unit := do
  match ← findLoop label with
  | some frame => do
    let operand ← onCode (CodeBuilder.pushJumpPlaceholder .jump)
    recordBreak frame.identifier operand
  | none => reportMissingLoop true label pos

/-- Jump to the head of a loop. -/
def lowerContinue (label : Option Ident) (pos : Position) : LowerM Unit := do
  match ← findLoop label with
  | some frame => jump .jump frame.continueLabel
  | none => reportMissingLoop false label pos

/-- Return from the function. An initializer returns nothing: a value given to it is a warning,
and is computed and dropped. Any other function returns null if no value is given. -/
def lowerReturn (value : Option Expr) (pos : Position) : LowerM Unit := do
  if (← read).isInitializer then
    match value with
    | some v => do
      report .returnValueFromInitializer pos "initializers cannot return a value"
      lowerExpr v
      op .pop []
    | none => pure ()
    op .ret []
  else
    match value with
    | some v => lowerExpr v
    | none => op .pushNull []
    op .retA []

mutual

/-- Lower a statement. -/
def lowerStmt : Stmt → LowerM Unit
  | .block b => lowerBlock b
  | .declare _ decls => lowerDecls decls
  | .eval e => do
    lowerExpr e
    op .pop []
  | .ifChain clauses otherwise => do
    let after ← freshLabel
    lowerClauses after otherwise.isSome clauses
    match otherwise with
    | some b => lowerBlock b
    | none => pure ()
    place after
  | .whileLoop label test body => do
    let start ← freshLabel
    let exit ← freshLabel
    place start
    lowerCondition test exit
    enterLoop label start
    lowerBlock body
    jump .jump start
    place exit
    resolveBreaks
  | .forEach label var iterable body => do
    lowerExpr iterable
    callIntrinsic .getIterator
    let iterator ← takeSlot
    op .storeA [iterator]
    let start ← freshLabel
    let exit ← freshLabel
    place start
    op .loadA [iterator]
    callIntrinsic .hasNext
    jumpUnlessTrue exit
    op .loadA [iterator]
    callIntrinsic .getNext
    storeDeclared (← blockScope body.scope) var
    enterLoop label start
    lowerBlock body
    jump .jump start
    place exit
    resolveBreaks
    releaseSlot
  | .breakLoop label pos => lowerBreak label pos
  | .continueLoop label pos => lowerContinue label pos
  | .returnValue value pos => lowerReturn value pos
  | .throwValue e _ => do
    lowerExpr e
    op .throw []
  | .guarded body catches none =>
    lowerTry (lowerBlock body) (fun tryStart tryStop afterHandlers => lowerCatches tryStart tryStop afterHandlers catches)
      (!catches.isEmpty) none
  | .guarded body catches (some fin) =>
    lowerTry (lowerBlock body) (fun tryStart tryStop afterHandlers => lowerCatches tryStart tryStop afterHandlers catches)
      (!catches.isEmpty) (some (lowerBlock fin))
  | .synchronized lock body => lowerSynchronized (lowerExpr lock) (lowerBlock body)
  | .withResources resources body => lowerWith resources body.scope (lowerBlock body)
  | .empty => pure ()

/-- Lower statements one after the other. -/
def lowerStmts : List Stmt → LowerM Unit
  | [] => pure ()
  | s :: rest => do
    lowerStmt s
    lowerStmts rest

/-- Lower a block in the scope it opens. -/
def lowerBlock : Block → LowerM Unit
  | .mk stmts scope => withScope scope (lowerStmts stmts)

/-- Lower the clauses of an `if` chain. A false condition skips to the next clause; a taken
clause jumps past the chain, unless it is the last thing of the chain. -/
def lowerClauses (after : Nat) (hasElse : Bool) : List (Expr × Block) → LowerM Unit
  | [] => pure ()
  | (test, body) :: rest => do
    let next ← freshLabel
    lowerCondition test next
    lowerBlock body
    if !(rest.isEmpty && !hasElse) then jump .jump after
    place next
    lowerClauses after hasElse rest

/-- Lower catch clauses as handlers of the range a guarded body takes; each clause but the last
jumps to `afterHandlers`. Answers the range of each clause's code. -/
def lowerCatches (tryStart tryStop afterHandlers : Nat) : List Catch → LowerM (List (Nat × Nat))
  | [] => pure []
  | .mk filters param body :: rest => do
    let classes ← catchFilters filters
    let handler ← offset
    enterHandler
    storeDeclared (← blockScope body.scope) param
    lowerBlock body
    let handlerStop ← offset
    if !rest.isEmpty then jump .jump afterHandlers
    if tryStart < tryStop then guardRange tryStart tryStop handler classes
    let ranges ← lowerCatches tryStart tryStop afterHandlers rest
    pure ((handler, handlerStop) :: ranges)

end

theorem lowerStmts_append (xs ys : List Stmt) :
    lowerStmts (xs ++ ys) = (do lowerStmts xs; lowerStmts ys) := by
  induction xs with
  | nil => simp [lowerStmts]
  | cons x xs ih => simp [lowerStmts, ih]

end Lowering

end Febc
