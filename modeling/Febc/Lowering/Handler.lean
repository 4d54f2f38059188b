import Febc.Lowering.Expr

/-!
# Exception handlers

Blocks that must run something on every exit are lowered with rows of the exception table. A
`finally` block is lowered twice: once on the normal path, and once as a handler that saves the
exception in a private slot, runs the block and throws the exception again. A synchronized block
releases its lock the same way, and a resource block closes its resources, the last opened
first; an exception thrown by closing is attached to the one that caused the close.

A row is added only for a non-empty range, and only after the code it points to is emitted.
Leaving such a block by `return`, `break` or `continue` jumps out directly and runs none of
this.

Main statement: `catchFilters_nil`, a clause without filters catches everything.
-/

namespace Febc

namespace Lowering

/-- Pop the value on the stack into a local that a scope declares. A name that is no local is an
error, and the value is dropped. -/
def storeDeclared (scope : Nat) (name : Ident) : LowerM Unit := do
  match (← read).symbols.resolve scope name.text with
  | some (.var (.slot i)) | some (.const (.slot i)) => op .storeA [i]
  | _ =>
    report .unresolvedSymbol name.pos ("'" ++ name.text ++ "' is not a local variable")
    op .pop []

/-- The scope a block declares its names in: its own, or else the innermost. -/
def blockScope (scope : Option Nat) : LowerM Nat := do
  pure (scope.getD (← read).scope)

/-- The exception classes a clause catches, by their class entries; a name that is no class is
an error and catches nothing. -/
def filterClasses : List Ident → LowerM (List (Option Nat))
  | [] => pure []
  | f :: rest => do
    match ← resolve f.text with
    | some (.type cls) => do
      let index ← onPool cls.intern
      let more ← filterClasses rest
      pure (some index :: more)
    | _ => do
      report .malformedCatchFilter f.pos ("'" ++ f.text ++ "' is not an exception class")
      filterClasses rest

/-- What a catch clause catches: with no filters, every exception (`none`). -/
def catchFilters (filters : List Ident) : LowerM (List (Option Nat)) :=
  match filters with
  | [] => pure [none]
  | _ => filterClasses filters

theorem catchFilters_nil : catchFilters [] = pure [none] := rfl

/-- Guard a range with one handler per caught class. -/
def guardRange (start stop handler : Nat) : List (Option Nat) → LowerM Unit
  | [] => pure ()
  | c :: rest => do
    addHandler start stop handler c
    guardRange start stop handler rest

/-- Guard each range with a handler that catches everything. -/
def guardAll (handler : Nat) : List (Nat × Nat) → LowerM Unit
  | [] => pure ()
  | (start, stop) :: rest => do
    addHandler start stop handler none
    guardAll handler rest

/-- Patch every jump in a list of `break` records to a target. -/
def patchBreaks (target : Nat) : List BreakRecord → LowerM Unit
  | [] => pure ()
  | r :: rest => do
    onCode (CodeBuilder.patchJump r.operand target)
    patchBreaks target rest

/-- Leave the innermost loop, pointing its breaks here. -/
def resolveBreaks : LowerM Unit := do
  let exit ← offset
  let records ← leaveLoop
  patchBreaks exit records

/-! ## Synchronized blocks -/

/-- Lower a block run while holding the lock of the object `lock` pushes. The lock is released
on the normal path, and by a handler that covers the block and its own release. -/
def lowerSynchronized (lock body : LowerM Unit) : LowerM Unit := do
  let exit ← freshLabel
  lock
  op .duplicate []
  let held ← takeSlot
  op .storeA [held]
  callIntrinsic .acquire
  let bodyStart ← offset
  body
  let bodyStop ← offset
  op .loadA [held]
  callIntrinsic .release
  jump .jump exit
  let handler ← offset
  enterHandler
  let exception ← takeSlot
  op .storeA [exception]
  op .loadA [held]
  callIntrinsic .release
  let handlerStop ← offset
  op .loadA [exception]
  op .throw []
  releaseSlot
  releaseSlot
  if bodyStart < bodyStop then addHandler bodyStart bodyStop handler none
  addHandler handler handlerStop handler none
  place exit

/-! ## Resource blocks -/

/-- Close the resource on the stack, dropping what closing answers. -/
def closeResource : LowerM Unit := do
  callIntrinsic .close
  op .pop []

/-- Open each resource: push it, bind it if it is named, and keep it in a private slot.
Answers each slot with the offset where its protected range starts. -/
def openResources (scope : Nat) : List (Option Ident × Expr) → LowerM (List (Nat × Nat))
  | [] => pure []
  | (binding, e) :: rest => do
    lowerExpr e
    match binding with
    | some name => do
      op .duplicate []
      storeDeclared scope name
    | none => pure ()
    let slot ← takeSlot
    op .storeA [slot]
    let start ← offset
    let more ← openResources scope rest
    pure ((slot, start) :: more)

/-- Close the open resources, in the order given. Each gets a handler that closes it when an
exception escapes, and one that attaches an exception of that close to the escaping one; the
slots `primary` and `secondary` hold those two exceptions. -/
def closeResources (primary secondary : Nat) : List (Nat × Nat) → LowerM Unit
  | [] => pure ()
  | (slot, start) :: rest => do
    let stop ← offset
    let after ← freshLabel
    op .loadA [slot]
    closeResource
    jump .jump after
    let closeHandler ← offset
    enterHandler
    op .storeA [primary]
    op .loadA [slot]
    closeResource
    let closeStop ← offset
    op .loadA [primary]
    op .throw []
    let suppressHandler ← offset
    enterHandler
    op .storeA [secondary]
    op .loadA [primary]
    op .loadA [secondary]
    callIntrinsic .suppress
    op .loadA [primary]
    op .throw []
    if start < stop then addHandler start stop closeHandler none
    addHandler closeHandler closeStop suppressHandler none
    place after
    releaseSlot
    closeResources primary secondary rest

/-- Lower a block over resources; the block's names are declared in `scope` or else the
innermost scope. -/
def lowerWith (resources : List (Option Ident × Expr)) (scope : Option Nat) (body : LowerM Unit) :
    LowerM Unit := do
  let primary ← takeSlot
  let secondary ← takeSlot
  let bodyScope ← blockScope scope
  let opened ← openResources bodyScope resources
  body
  closeResources primary secondary opened.reverse
  releaseSlot
  releaseSlot

/-! ## Guarded blocks -/

/-- Lower a guarded block: its body, then its clauses as handlers of the body's range, which
`clauses` lowers from the range and the label they jump to and answers the range of each clause's
code; a body with clauses jumps past their handlers. A `finally` block runs on the normal path,
and as a handler of the body and of every clause that keeps the exception in a private slot and
throws it again. -/
def lowerTry (body : LowerM Unit) (clauses : Nat → Nat → Nat → LowerM (List (Nat × Nat))) (hasClauses : Bool)
    (always : Option (LowerM Unit)) : LowerM Unit := do
  let exit ← freshLabel
  let normal ← match always with
    | some _ => some <$> freshLabel
    | none => pure none
  let afterHandlers := normal.getD exit
  let tryStart ← offset
  body
  let tryStop ← offset
  if hasClauses then jump .jump afterHandlers
  let ranges ← clauses tryStart tryStop afterHandlers
  match always, normal with
  | some fin, some normal => do
    place normal
    fin
    jump .jump exit
    let handler ← offset
    enterHandler
    let exception ← takeSlot
    op .storeA [exception]
    fin
    op .loadA [exception]
    op .throw []
    releaseSlot
    if tryStart < tryStop then addHandler tryStart tryStop handler none
    guardAll handler ranges
  | _, _ => pure ()
  place exit

end Lowering

end Febc
