import Febc.Lowering.Class

/-!
# The problems of a class, read off its syntax

Lowering reports the problems of the source while it emits code. Which problems it reports, and
in which order, depends only on the syntax, the symbol table, the kind of function being lowered
and the loops open around each statement. This module states that rule on its own, as lists of
diagnostics computed from the syntax tree: `ProblemContext.exprProblems` for expressions,
`ProblemContext.stmtProblems` for statements, `Session.classProblems` for a whole class.

The lists follow the lowering and not the tree: a node lowered twice is reported twice. A
`finally` block is lowered on the normal path and again as a handler, so its problems appear
twice; the instance field initializers are lowered into every initializer, so their problems
appear once per initializer; and the arguments of a call that is itself an error are not
lowered, so their problems do not appear.
-/

namespace Febc

/-- What decides the problems of a function body: the symbol table, the class's scope, whether
the function is static or an initializer, and the innermost scope. -/
structure ProblemContext where
  symbols : SymbolTable
  classScope : Nat
  isStatic : Bool
  isInitializer : Bool
  scope : Nat

/-- The problem context of a lowering environment. -/
def FunctionEnv.context (env : FunctionEnv) : ProblemContext :=
  ⟨env.symbols, env.layout.scope, env.isStatic, env.isInitializer, env.scope⟩

/-- An assignment to an expression that denotes no place. -/
def Diagnostic.invalidTarget (pos : Position) : Diagnostic :=
  ⟨.invalidAssignmentTarget, pos, "expression cannot be assigned to"⟩

/-- How a call of a member binds, as far as its problems go: statically to a function of a named
class, to an instance function of the class on `this`, or by dispatch on the receiver. -/
inductive CallBinding where
  | ofClass
  | onSelf (arities : List Nat)
  | dispatch

namespace ProblemContext

/-! ## Expressions -/

section Expressions

variable (ctx : ProblemContext)

/-- The symbol a name stands for in the innermost scope. -/
def resolve (name : String) : Option Symbol := ctx.symbols.resolve ctx.scope name

/-- The context inside a block, which may open a scope. -/
def within (scope : Option Nat) : ProblemContext := { ctx with scope := scope.getD ctx.scope }

/-- Reaching a variable: an instance field is out of reach of a static function. -/
def variableProblems (name : Ident) : Storage → List Diagnostic
  | .field _ false =>
    if ctx.isStatic then
      [⟨.instanceReferenceFromStatic, name.pos,
        "instance field '" ++ name.text ++ "' used in a static context"⟩]
    else []
  | _ => []

/-- Reading a name, or assigning to it. -/
def nameProblems (name : Ident) (forWrite : Bool) : List Diagnostic :=
  match ctx.resolve name.text with
  | none => [⟨.unresolvedSymbol, name.pos, "cannot resolve '" ++ name.text ++ "'"⟩]
  | some (.const storage) =>
    if forWrite then
      [⟨.assignmentToConstant, name.pos, "cannot assign to constant '" ++ name.text ++ "'"⟩]
    else ctx.variableProblems name storage
  | some (.var storage) => ctx.variableProblems name storage
  | some (.function _ _ arities) =>
    if forWrite then [.invalidTarget name.pos]
    else if arities.length > 1 then
      [⟨.overloadedFunctionReference, name.pos,
        "'" ++ name.text ++ "' is overloaded and cannot be used as a value"⟩]
    else []
  | some (.type _) => if forWrite then [.invalidTarget name.pos] else []

/-- Reading `this`, or assigning to it. -/
def selfProblems (pos : Position) (forWrite : Bool) : List Diagnostic :=
  if forWrite then [.invalidTarget pos]
  else if ctx.isStatic then [⟨.instanceReferenceFromStatic, pos, "'this' used in a static context"⟩]
  else []

/-- Is `obj.name` reached without its object: a field of the class on `this` in an instance
function, or a member of a named class? -/
def reachesStatically (obj : Expr) (name : Ident) : Bool :=
  match obj with
  | .self _ =>
    !ctx.isStatic &&
      match ctx.symbols.resolve ctx.classScope name.text with
      | some (.var (.field _ _)) => true
      | _ => false
  | .ident cls =>
    match ctx.resolve cls.text with
    | some (.type _) => true
    | _ => false
  | _ => false

/-- How `obj.name(...)` binds. -/
def binding (obj : Expr) (name : Ident) : CallBinding :=
  match obj with
  | .self _ =>
    match ctx.symbols.resolve ctx.classScope name.text with
    | some (.function _ false arities) => .onSelf arities
    | _ => .dispatch
  | .ident cls =>
    match ctx.resolve cls.text with
    | some (.type _) => .ofClass
    | _ => .dispatch
  | _ => .dispatch

/-- Calling a function the symbol table knows, with `arity` arguments whose problems are `args`:
no overload of that arity, or an instance function called from a static one, is reported in
place of the arguments. -/
def callProblems (isStatic : Bool) (arities : List Nat) (name : Ident) (arity : Nat)
    (args : List Diagnostic) : List Diagnostic :=
  if !arities.contains arity then
    [⟨.noMatchingOverload, name.pos,
      "no overload of '" ++ name.text ++ "' takes " ++ toString arity ++ " argument(s)"⟩]
  else if isStatic then args
  else if ctx.isStatic then
    [⟨.instanceReferenceFromStatic, name.pos,
      "instance function '" ++ name.text ++ "' called from a static context"⟩]
  else args

mutual

/-- The problems of an expression, in the order lowering meets them. -/
def exprProblems : Expr → List Diagnostic
  | .literal _ _ => []
  | .ident name => ctx.nameProblems name false
  | .self pos => ctx.selfProblems pos false
  | .member obj name => if ctx.reachesStatically obj name then [] else exprProblems obj
  | .index obj key => exprProblems obj ++ exprProblems key
  | .list items _ => argsProblems items
  | .map entries _ => entriesProblems entries
  | .assign target _ value => targetProblems target ++ exprProblems value
  | .cond test thenValue elseValue =>
    exprProblems test ++ exprProblems thenValue ++ exprProblems elseValue
  | .logical _ left right => exprProblems left ++ exprProblems right
  | .binary _ left right => exprProblems left ++ exprProblems right
  | .unary _ operand _ => exprProblems operand
  | .call (.ident name) args =>
    match ctx.resolve name.text with
    | some (.function _ isStatic arities) =>
      ctx.callProblems isStatic arities name args.length (argsProblems args)
    | none => [⟨.unresolvedSymbol, name.pos, "cannot resolve function '" ++ name.text ++ "'"⟩]
    | some _ => ctx.nameProblems name false ++ argsProblems args
  | .call (.member obj name) args =>
    match ctx.binding obj name with
    | .ofClass => argsProblems args
    | .onSelf arities => ctx.callProblems false arities name args.length (argsProblems args)
    | .dispatch => exprProblems obj ++ argsProblems args
  | .call callee args => exprProblems callee ++ argsProblems args
  | .new cls args =>
    match ctx.resolve cls.text with
    | some (.type _) => argsProblems args
    | _ => [⟨.unresolvedSymbol, cls.pos, "cannot resolve class '" ++ cls.text ++ "'"⟩]

/-- The problems of a list of expressions, left to right. -/
def argsProblems : List Expr → List Diagnostic
  | [] => []
  | e :: rest => exprProblems e ++ argsProblems rest

/-- The problems of the entries of a map, each key before its value. -/
def entriesProblems : List (Expr × Expr) → List Diagnostic
  | [] => []
  | (key, value) :: rest => exprProblems key ++ exprProblems value ++ entriesProblems rest

/-- The problems of an expression assigned to: only names, members and subscripts are places. -/
def targetProblems : Expr → List Diagnostic
  | .ident name => ctx.nameProblems name true
  | .self pos => ctx.selfProblems pos true
  | .member obj name => if ctx.reachesStatically obj name then [] else exprProblems obj
  | .index obj key => exprProblems obj ++ exprProblems key
  | e => [.invalidTarget e.pos]

end

end Expressions

/-! ## Statements -/

section Statements

variable (ctx : ProblemContext)

/-- Popping a value into a local that a scope declares: a name that is no local is an error. -/
def storeProblems (scope : Nat) (name : Ident) : List Diagnostic :=
  match ctx.symbols.resolve scope name.text with
  | some (.var (.slot _)) | some (.const (.slot _)) => []
  | _ => [⟨.unresolvedSymbol, name.pos, "'" ++ name.text ++ "' is not a local variable"⟩]

/-- The problems of a declaration: each initial value, then the local it is stored in. -/
def declsProblems : List (Ident × Option Expr) → List Diagnostic
  | [] => []
  | (name, init) :: rest =>
    (match init with
      | some e => ctx.exprProblems e
      | none => []) ++ ctx.storeProblems ctx.scope name ++ declsProblems rest

/-- A name in a catch clause that is no class. -/
def filterProblems (filter : Ident) : List Diagnostic :=
  match ctx.resolve filter.text with
  | some (.type _) => []
  | _ => [⟨.malformedCatchFilter, filter.pos, "'" ++ filter.text ++ "' is not an exception class"⟩]

/-- Returning: a value given to an initializer is a warning, and the value is still lowered. -/
def returnProblems (value : Option Expr) (pos : Position) : List Diagnostic :=
  match value with
  | some v =>
    (if ctx.isInitializer then
      [⟨.returnValueFromInitializer, pos, "initializers cannot return a value"⟩]
    else []) ++ ctx.exprProblems v
  | none => []

/-- The problems of the resources of a resource block, whose names are declared in `scope`. -/
def resourcesProblems (scope : Nat) : List (Option Ident × Expr) → List Diagnostic
  | [] => []
  | (binding, e) :: rest =>
    ctx.exprProblems e ++
      (match binding with
        | some name => ctx.storeProblems scope name
        | none => []) ++ resourcesProblems scope rest

end Statements

/-- Does a `break` or `continue` with this label leave an open loop, when the open loops carry
`labels`, innermost last? -/
def leavesLoop (labels : List (Option String)) : Option Ident → Bool
  | none => !labels.isEmpty
  | some l => labels.contains (some l.text)

/-- The problem of a `break` or `continue` that leaves no loop: its label names no open loop, or
no loop is open at all. -/
def missingLoopProblems (labels : List (Option String)) (isBreak : Bool) (label : Option Ident)
    (pos : Position) : List Diagnostic :=
  let keyword := if isBreak then "break" else "continue"
  let outside : Diagnostic :=
    ⟨if isBreak then .breakOutsideLoop else .continueOutsideLoop, pos,
      "'" ++ keyword ++ "' outside of a loop"⟩
  match label with
  | some l =>
    if labels.isEmpty then [outside]
    else [⟨.unknownLoopLabel, l.pos, "no enclosing loop is labeled '" ++ l.text ++ "'"⟩]
  | none => [outside]

/-- The problems of a `break` or `continue`. -/
def jumpProblems (labels : List (Option String)) (isBreak : Bool) (label : Option Ident)
    (pos : Position) : List Diagnostic :=
  if leavesLoop labels label then [] else missingLoopProblems labels isBreak label pos

mutual

/-- The problems of a statement, the open loops carrying `labels`. -/
def stmtProblems (ctx : ProblemContext) (labels : List (Option String)) : Stmt → List Diagnostic
  | .block b => blockProblems ctx labels b
  | .declare _ decls => ctx.declsProblems decls
  | .eval e => ctx.exprProblems e
  | .ifChain clauses otherwise =>
    clausesProblems ctx labels clauses ++
      (match otherwise with
        | some b => blockProblems ctx labels b
        | none => [])
  | .whileLoop label test body =>
    ctx.exprProblems test ++ blockProblems ctx (labels ++ [label.map (·.text)]) body
  | .forEach label var iterable body =>
    ctx.exprProblems iterable ++ ctx.storeProblems (body.scope.getD ctx.scope) var ++
      blockProblems ctx (labels ++ [label.map (·.text)]) body
  | .breakLoop label pos => jumpProblems labels true label pos
  | .continueLoop label pos => jumpProblems labels false label pos
  | .returnValue value pos => ctx.returnProblems value pos
  | .throwValue e _ => ctx.exprProblems e
  | .guarded body catches none => blockProblems ctx labels body ++ catchesProblems ctx labels catches
  | .guarded body catches (some fin) =>
    -- the `finally` block is lowered on the normal path and again as the handler
    blockProblems ctx labels body ++ catchesProblems ctx labels catches ++
      blockProblems ctx labels fin ++ blockProblems ctx labels fin
  | .synchronized lock body => ctx.exprProblems lock ++ blockProblems ctx labels body
  | .withResources resources body =>
    ctx.resourcesProblems (body.scope.getD ctx.scope) resources ++ blockProblems ctx labels body
  | .empty => []

/-- The problems of statements, one after the other. -/
def stmtsProblems (ctx : ProblemContext) (labels : List (Option String)) : List Stmt → List Diagnostic
  | [] => []
  | s :: rest => stmtProblems ctx labels s ++ stmtsProblems ctx labels rest

/-- The problems of a block, in the scope it opens. -/
def blockProblems (ctx : ProblemContext) (labels : List (Option String)) : Block → List Diagnostic
  | .mk stmts scope => stmtsProblems (ctx.within scope) labels stmts

/-- The problems of the clauses of an `if` chain: each condition, then its block. -/
def clausesProblems (ctx : ProblemContext) (labels : List (Option String)) :
    List (Expr × Block) → List Diagnostic
  | [] => []
  | (test, body) :: rest =>
    ctx.exprProblems test ++ blockProblems ctx labels body ++ clausesProblems ctx labels rest

/-- The problems of catch clauses: each clause's filters, the local that receives the
exception, and its block. -/
def catchesProblems (ctx : ProblemContext) (labels : List (Option String)) :
    List Catch → List Diagnostic
  | [] => []
  | .mk filters param body :: rest =>
    filters.flatMap ctx.filterProblems ++ ctx.storeProblems (body.scope.getD ctx.scope) param ++
      blockProblems ctx labels body ++ catchesProblems ctx labels rest

end

/-! ## Field initializers -/

/-- The problems of the initial values of declarators. -/
def initProblems (ctx : ProblemContext) (decls : List (Ident × Option Expr)) : List Diagnostic :=
  decls.flatMap fun decl =>
    match decl.2 with
    | some init => ctx.exprProblems init
    | none => []

/-- The problems of the initial values of the static fields, or of the instance fields, lowered
in the class scope. -/
def fieldProblems (ctx : ProblemContext) (fields : List FieldDecl) (isStatic : Bool) :
    List Diagnostic :=
  (fields.filter (Lowering.isStaticField · == isStatic)).flatMap fun decl =>
    (ctx.within (some ctx.classScope)).initProblems decl.decls

end ProblemContext

/-! ## Classes -/

namespace Session

/-- A superclass name that is no class in the scope the superclasses resolve in. -/
def superProblems (c : Compiler) (scope : Nat) (super : Ident) : List Diagnostic :=
  match c.symbols.resolve scope super.text with
  | some (.type _) => []
  | _ => [⟨.unresolvedSymbol, super.pos, "cannot resolve superclass '" ++ super.text ++ "'"⟩]

/-- The problem context of a declared function of the class with scope `classScope`. -/
def functionContext (c : Compiler) (classScope : Nat) (f : FunctionDecl) : ProblemContext :=
  ⟨c.symbols, classScope,
    (match c.symbols.kind f.scope with
      | .function isStatic _ => isStatic
      | _ => false), f.isInitializer, f.scope⟩

/-- The problems of a declared function: none without a body; a declared initializer first
lowers the instance field initializers. -/
def functionProblems (c : Compiler) (classScope : Nat) (fields : List FieldDecl) (f : FunctionDecl) :
    List Diagnostic :=
  match f.body with
  | none => []
  | some body =>
    let ctx := functionContext c classScope f
    (if f.isInitializer then ctx.fieldProblems fields false else []) ++ ctx.blockProblems [] body

/-- The problem context of an initializer the class does not declare. -/
def initializerContext (c : Compiler) (classScope : Nat) (isStatic : Bool) : ProblemContext :=
  ⟨c.symbols, classScope, isStatic, true, classScope⟩

/-- The problems of the initializers a class does not declare: the default initializer's, then
the static initializer's. -/
def implicitProblems (c : Compiler) (classScope : Nat) (fields : List FieldDecl)
    (needsDefault needsStatic : Bool) : List Diagnostic :=
  (if needsDefault then (initializerContext c classScope false).fieldProblems fields false else []) ++
    (if needsStatic then (initializerContext c classScope true).fieldProblems fields true else [])

/-- The problems of a class, in the order compiling it meets them: its superclasses, its
declared functions, then the default initializer if it declares none, then the static
initializer if a static field has an initial value. -/
def classProblems (c : Compiler) (cls : ClassDecl) : List Diagnostic :=
  let fields := fieldDecls cls.members
  let functions := functionDecls cls.members
  cls.supers.flatMap (superProblems c ((c.symbols.parent cls.scope).getD cls.scope)) ++
    functions.flatMap (functionProblems c cls.scope fields) ++
    implicitProblems c cls.scope fields (functions.all (!·.isInitializer))
      (fields.any fun f => Lowering.isStaticField f && f.decls.any (·.2.isSome))

end Session

end Febc
