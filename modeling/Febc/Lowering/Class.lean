import Febc.Lowering.Function

/-!
# Compiling classes into entities

Each class of a compilation unit becomes one entity file. The constant pool starts empty for
every class; the diagnostics collect over the whole session; the channels are shared, and closed
all at once when a class fails.

A class's superclasses resolve in the scope around the class; one that is no class is an error,
and a class with none extends the default superclass. The function table gives a slot to each
declared function, then to the default initializer when the class declares no initializer, then
to the static initializer when some static field has an initial value. The static initializer's
code is built on the class's primary channel, which is opened before any function.

A class stops at the first error, and a unit at its first failing class.

Main statement: `fieldDecls_append`, the field declarations of a class are those of its members,
in order.
-/

namespace Febc

/-- How entities are produced. -/
structure Settings where
  /-- The directory entity files are written under, as a path from the root of the file system. -/
  outputDirectory : String := "/out"
  /-- The format version stamped on every entity. -/
  version : Version := Version.initial
  /-- The superclass of a class that declares none. -/
  defaultSuperclass : BinaryName := .object
  /-- Write no entity for a class that had errors. -/
  suppressOnError : Bool := true
  /-- Create the directories of packages as needed. -/
  createDirectories : Bool := true
  deriving Inhabited

/-- What compiling reads and never changes. -/
structure Compiler where
  settings : Settings
  symbols : SymbolTable
  deriving Inhabited

/-- What compiling changes, from class to class. -/
structure Session where
  pool : ConstantPool := {}
  channels : ChannelSet := {}
  diagnostics : Array Diagnostic := #[]
  deriving Inhabited

/-- Steps of compiling classes. -/
abbrev CompileM := ReaderT Compiler (ExceptT Halt (StateM Session))

/-- An entity compiled from a class, with the errors reported while compiling it. -/
structure CompiledEntity where
  name : BinaryName
  entity : EntityFile
  errorCount : Nat
  deriving Inhabited

/-- The shape of a function whose body is lowered. -/
structure FunctionShape where
  /-- The scope names are first resolved in. -/
  scope : Nat
  isStatic : Bool
  isInitializer : Bool
  /-- The local slots taken by `this`, the parameters and the declared locals. -/
  localsBase : Nat

namespace Session

/-! ## Lifting the layers below -/

/-- Run a step of the constant pool. -/
def onPool {α : Type} (m : PoolM α) : CompileM α := fun _ =>
  ExceptT.mk fun ⟨pool, channels, diagnostics⟩ =>
    let (r, pool) := runStep m pool
    (r.mapError .error, ⟨pool, channels, diagnostics⟩)

/-- Run a step of the channels. -/
def onChannels {α : Type} (m : ChannelM α) : CompileM α := fun _ =>
  ExceptT.mk fun ⟨pool, channels, diagnostics⟩ =>
    let (r, channels) := runStep m channels
    (r, ⟨pool, channels, diagnostics⟩)

/-- Report a problem of the source and go on. -/
def report (kind : DiagnosticKind) (pos : Position) (message : String) : CompileM Unit :=
  modify fun s => { s with diagnostics := s.diagnostics.push ⟨kind, pos, message⟩ }

/-- The number of errors reported so far. -/
def errorsSoFar : CompileM Nat := do pure (errorCount (← get).diagnostics.toList)

/-- A declared name used as a member name. -/
def memberName (name : Ident) : CompileM String :=
  match checkUnqualified name.text with
  | .ok () => pure name.text
  | .error e => throw (.error (.malformedName e))

/-- The name a function is emitted under: an initializer's is fixed. -/
def functionName (f : FunctionDecl) : CompileM String :=
  if f.isInitializer then pure initializeName else memberName f.name

/-! ## Function bodies -/

/-- Lower a function body into a code attribute: on a new channel, or on an open one if given. -/
def lowerBody (layout : ClassLayout) (shape : FunctionShape) (channel : Option Nat)
    (body : LowerM Unit) : CompileM Attribute := fun c =>
  ExceptT.mk fun ⟨pool, channels, diagnostics⟩ =>
    let started := match channel with
      | some ch => CodeBuilder.onChannel channels ch
      | none => CodeBuilder.start channels
    match started with
    | .error h => (.error h, ⟨pool, channels, diagnostics⟩)
    | .ok code =>
      let env : FunctionEnv := ⟨c.symbols, layout, shape.isStatic, shape.isInitializer, shape.scope⟩
      let start : Lowering := ⟨code, pool, diagnostics, .ofBase shape.localsBase, {}⟩
      match runStep ((do body; Lowering.finish).run env) start with
      | (.error h, ⟨code, pool, diagnostics, _, _⟩) => (.error h, ⟨pool, code.channels, diagnostics⟩)
      | (.ok insns, ⟨code, pool, diagnostics, _, _⟩) =>
        let (r, pool) := runStep insns.intern pool
        (r.mapError .error, ⟨pool, code.channels, diagnostics⟩)

/-! ## Members -/

/-- The field declarations among a class's members. -/
def fieldDecls : List MemberDecl → List FieldDecl
  | [] => []
  | .field f :: rest => f :: fieldDecls rest
  | .function _ :: rest => fieldDecls rest

/-- The function declarations among a class's members. -/
def functionDecls : List MemberDecl → List FunctionDecl
  | [] => []
  | .field _ :: rest => functionDecls rest
  | .function f :: rest => f :: functionDecls rest

theorem fieldDecls_append (xs ys : List MemberDecl) :
    fieldDecls (xs ++ ys) = fieldDecls xs ++ fieldDecls ys := by
  induction xs with
  | nil => rfl
  | cons x xs ih => cases x <;> simp [fieldDecls, ih]

/-- The entries of the declarators of one field declaration, numbered from `next`; a number is
kept in two bytes, modulo 65536. -/
def declaratorMembers (flags descriptor : Nat) :
    Nat → List (Ident × Option Expr) → CompileM (List Member)
  | _, [] => pure []
  | next, (name, _) :: rest => do
    let text ← memberName name
    let nameIndex ← onPool (ConstantPool.internUtf8 text)
    let more ← declaratorMembers flags descriptor (next + 1) rest
    pure (⟨flags, nameIndex, descriptor, next % 65536, []⟩ :: more)

/-- The entries of field declarations, numbered from `next`. -/
def declMembers (descriptor : Nat) : Nat → List FieldDecl → CompileM (List Member)
  | _, [] => pure []
  | next, decl :: rest => do
    let flags := decl.mods ||| (if decl.isConstant then AccessFlag.finalBit else 0)
    let here ← declaratorMembers flags descriptor next decl.decls
    let more ← declMembers descriptor (next + here.length) rest
    pure (here ++ more)

/-- The field entries of a class: every declarator of every field declaration, numbered in
order, all of the object type. A constant field is final. -/
def fieldMembers (fields : List FieldDecl) : CompileM (List Member) := do
  let descriptor ← onPool (ConstantPool.internUtf8 FieldType.anyObject.render)
  declMembers descriptor 0 fields

/-- The entry of a declared function, with its code if it has a body. An initializer first
calls the superclass's initializer and initializes the instance fields. -/
def functionMember (layout : ClassLayout) (fields : List FieldDecl) (f : FunctionDecl) :
    CompileM Member := do
  let c ← read
  let (isStatic, base) ← match c.symbols.kind f.scope with
    | .function isStatic count => pure (isStatic, count)
    | other => throw (.violation (.functionScope f.name.text other))
  let arity := f.params.length
  let name ← functionName f
  let descriptor := if f.isInitializer then FunctionDescriptor.initializer arity
    else FunctionDescriptor.dynamic arity
  let attributes ← match f.body with
    | none => pure []
    | some body => do
      let shape : FunctionShape := ⟨f.scope, isStatic, f.isInitializer, base⟩
      let code ← lowerBody layout shape none do
        if f.isInitializer then Lowering.initializeInstance fields
        Lowering.lowerBlock body
      pure [code]
  let nameIndex ← onPool (ConstantPool.internUtf8 name)
  let descriptorIndex ← onPool (ConstantPool.internUtf8 descriptor.render)
  pure ⟨f.mods, nameIndex, descriptorIndex, (layout.tableIndex? name arity).getD 0, attributes⟩

/-- The initializer of a class that declares none: it calls the superclass's initializer and
initializes the instance fields. -/
def defaultInitializer (layout : ClassLayout) (fields : List FieldDecl) : CompileM Member := do
  let code ← lowerBody layout ⟨layout.scope, false, true, 1⟩ none
    (Lowering.initializeInstance fields)
  let nameIndex ← onPool (ConstantPool.internUtf8 initializeName)
  let descriptorIndex ← onPool (ConstantPool.internUtf8 (FunctionDescriptor.initializer 0).render)
  pure ⟨AccessFlag.publicBit, nameIndex, descriptorIndex,
    (layout.tableIndex? initializeName 0).getD 0, [code]⟩

/-- The static initializer, built on the primary channel: it initializes the static fields. -/
def staticInitializer (layout : ClassLayout) (fields : List FieldDecl) (primary : Nat) :
    CompileM Member := do
  let code ← lowerBody layout ⟨layout.scope, true, true, 0⟩ (some primary)
    (Lowering.initializeFields fields true)
  let nameIndex ← onPool (ConstantPool.internUtf8 staticInitializerName)
  let descriptorIndex ← onPool (ConstantPool.internUtf8 (FunctionDescriptor.initializer 0).render)
  pure ⟨AccessFlag.staticBit, nameIndex, descriptorIndex,
    (layout.tableIndex? staticInitializerName 0).getD 0, [code]⟩

/-! ## Classes -/

/-- The superclasses among some names that resolve to classes in a scope; each other name is
reported. -/
def resolveClasses (scope : Nat) : List Ident → CompileM (List BinaryName)
  | [] => pure []
  | super :: rest => do
    match (← read).symbols.resolve scope super.text with
    | some (.type name) => do
      let more ← resolveClasses scope rest
      pure (name :: more)
    | _ => do
      report .unresolvedSymbol super.pos ("cannot resolve superclass '" ++ super.text ++ "'")
      resolveClasses scope rest

/-- Resolve the superclasses in the scope around the class; with none, the default. -/
def resolveSuperclasses (cls : ClassDecl) : CompileM (List BinaryName) := do
  let c ← read
  let found ← resolveClasses ((c.symbols.parent cls.scope).getD cls.scope) cls.supers
  pure (if found.isEmpty then [c.settings.defaultSuperclass] else found)

/-- Give each function a slot of the function table. -/
def assignFunctions (layout : ClassLayout) : List FunctionDecl → CompileM ClassLayout
  | [] => pure layout
  | f :: rest => do
    let name ← functionName f
    assignFunctions (layout.assign name f.params.length) rest

/-- Give each function a slot of the table, then the implicit initializers that the class
needs. -/
def assignTable (layout : ClassLayout) (functions : List FunctionDecl)
    (needsDefault needsStatic : Bool) : CompileM ClassLayout := do
  let layout ← assignFunctions layout functions
  let layout := if needsDefault then layout.assign initializeName 0 else layout
  pure (if needsStatic then layout.assign staticInitializerName 0 else layout)

/-- The entries of the declared functions, in order. -/
def functionMembers (layout : ClassLayout) (fields : List FieldDecl) :
    List FunctionDecl → CompileM (List Member)
  | [] => pure []
  | f :: rest => do
    let entry ← functionMember layout fields f
    let more ← functionMembers layout fields rest
    pure (entry :: more)

/-- The implicit initializers a class needs: the default initializer, then the static
initializer on the primary channel. Without a static initializer the primary channel is
closed unused. -/
def implicitMembers (layout : ClassLayout) (fields : List FieldDecl) (primary : Nat)
    (needsDefault needsStatic : Bool) : CompileM (List Member) := do
  let instanceInit ← if needsDefault then (fun m => [m]) <$> defaultInitializer layout fields
    else pure []
  if needsStatic then
    let init ← staticInitializer layout fields primary
    pure (instanceInit ++ [init])
  else
    let _ ← onChannels (ChannelSet.remove primary)
    pure instanceInit

/-- Compile a class into an entity. -/
def assembleClass (cls : ClassDecl) : CompileM CompiledEntity := do
  let errorsBefore ← errorsSoFar
  modify fun s => { s with pool := {} }
  let c ← read
  let name ← match c.symbols.kind cls.scope with
    | .type name => pure name
    | other => throw (.violation (.classScope cls.name.text other))
  let superNames ← resolveSuperclasses cls
  let self ← onPool name.intern
  let supers ← superNames.mapM fun s => onPool s.intern
  let fields := fieldDecls cls.members
  let functions := functionDecls cls.members
  let needsDefault := functions.all (!·.isInitializer)
  let needsStatic := fields.any fun f => Lowering.isStaticField f && f.decls.any (·.2.isSome)
  let layout ← assignTable ⟨name, superNames.headD c.settings.defaultSuperclass, cls.scope, []⟩
    functions needsDefault needsStatic
  let primary ← onChannels ChannelSet.add
  onChannels (ChannelSet.setActive primary)
  let fieldEntries ← fieldMembers fields
  let declared ← functionMembers layout fields functions
  let implicit ← implicitMembers layout fields primary needsDefault needsStatic
  if (← get).channels.openCount ≠ 0 then throw (.violation (.channelsLeftOpen name.text))
  let constants := (← get).pool.entries
  let errorsAfter ← errorsSoFar
  let entity : EntityFile :=
    { version := c.settings.version
      constants := constants
      flags := cls.mods
      self := self
      supers := supers
      fields := fieldEntries
      functions := declared ++ implicit }
  pure ⟨name, entity, errorsAfter - errorsBefore⟩

/-- Compile a class; when it fails with an error, every channel is closed. -/
def compileClass (cls : ClassDecl) : CompileM CompiledEntity :=
  tryCatch (assembleClass cls) fun h => do
    match h with
    | .error _ => modify fun s => { s with channels := {} }
    | .violation _ => pure ()
    throw h

/-- Compile every class of a unit, stopping at the first that fails. -/
def compileUnit (unit : CompilationUnit) : CompileM (List CompiledEntity) :=
  unit.classes.mapM compileClass

end Session

end Febc
