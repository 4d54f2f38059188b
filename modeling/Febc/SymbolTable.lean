import Febc.Name

/-!
# Scopes and symbols

A symbol table is a forest of scopes, numbered in the order they were added; each scope may name
an earlier scope as its parent and binds names to symbols. A name resolves in the innermost
scope on the path from a scope to its root that binds it.

`addScope?` accepts a parent only if it is an earlier scope, so every path to a root strictly
decreases the scope numbers, and `ancestors` terminates by that measure.

Main statements:
* `ancestors_head`: the path of a scope starts at the scope itself;
* `resolve_define_self`: a name just defined in a scope resolves there to its new symbol.
-/

namespace Febc

/-- What a scope belongs to. -/
inductive ScopeKind where
  /-- A compilation unit. -/
  | unit
  /-- The body of a class. -/
  | type (name : BinaryName)
  /-- A function; its first `localCount` slots hold its parameters and declared locals. -/
  | function (isStatic : Bool) (localCount : Nat)
  /-- A block inside a function. -/
  | block
  deriving DecidableEq, Repr, Inhabited

/-- Where a variable lives. -/
inductive Storage where
  /-- A slot of the running function's locals. -/
  | slot (index : Nat)
  /-- A field of a class, static or per instance. -/
  | field (owner : BinaryName) (isStatic : Bool)
  deriving DecidableEq, Repr, Inhabited

/-- What a name stands for. -/
inductive Symbol where
  | var (storage : Storage)
  | const (storage : Storage)
  /-- A function of a class, with one arity per overload. -/
  | function (owner : BinaryName) (isStatic : Bool) (arities : List Nat)
  | type (name : BinaryName)
  deriving DecidableEq, Repr, Inhabited

namespace Symbol

def isVariable : Symbol → Bool
  | .var _ => true
  | _ => false

def isConstant : Symbol → Bool
  | .const _ => true
  | _ => false

def isFunction : Symbol → Bool
  | .function .. => true
  | _ => false

def isClass : Symbol → Bool
  | .type _ => true
  | _ => false

/-- Does the symbol exist without an instance? Locals are per call, classes always static. -/
def isStatic : Symbol → Bool
  | .var (.slot _) | .const (.slot _) => false
  | .var (.field _ s) | .const (.field _ s) => s
  | .function _ s _ => s
  | .type _ => true

/-- A function with more than one overload cannot be used as a value. -/
def isOverloaded : Symbol → Bool
  | .function _ _ arities => decide (arities.length > 1)
  | _ => false

end Symbol

/-- One scope: its kind, its parent, and its bindings, the latest definition first. -/
structure Scope where
  kind : ScopeKind
  parent : Option Nat
  bindings : List (String × Symbol)
  deriving Inhabited

/-- The symbol a scope binds to a name. -/
def Scope.lookup (s : Scope) (name : String) : Option Symbol :=
  (s.bindings.find? (·.1 == name)).map (·.2)

/-- A numbered forest of scopes. -/
structure SymbolTable where
  scopes : Array Scope := #[]
  deriving Inhabited

namespace SymbolTable

/-- Number of scopes added so far. -/
def size (t : SymbolTable) : Nat := t.scopes.size

/-- Add a scope under an earlier scope (or as a root), answering its number; a parent that is
no earlier scope is refused. -/
def addScope? (t : SymbolTable) (kind : ScopeKind) (parent : Option Nat) :
    Option (SymbolTable × Nat) :=
  match parent with
  | some p => if p < t.size then some (⟨t.scopes.push ⟨kind, parent, []⟩⟩, t.size) else none
  | none => some (⟨t.scopes.push ⟨kind, none, []⟩⟩, t.size)

/-- The scope with a number, if it exists. -/
def scope? (t : SymbolTable) (s : Nat) : Option Scope := t.scopes[s]?

/-- The kind of a scope; an unknown number reads as a block. -/
def kind (t : SymbolTable) (s : Nat) : ScopeKind := ((t.scope? s).map (·.kind)).getD .block

/-- The parent of a scope. -/
def parent (t : SymbolTable) (s : Nat) : Option Nat := (t.scope? s).bind (·.parent)

/-- The symbol a scope itself binds to a name. -/
def lookup (t : SymbolTable) (s : Nat) (name : String) : Option Symbol :=
  (t.scope? s).bind (·.lookup name)

/-- Bind a name in a scope, answering the symbol it replaced. -/
def define (t : SymbolTable) (s : Nat) (name : String) (sym : Symbol) :
    SymbolTable × Option Symbol :=
  (⟨t.scopes.modify s fun sc => { sc with bindings := (name, sym) :: sc.bindings }⟩,
    t.lookup s name)

/-- A scope and its ancestors, innermost first. -/
def ancestors (t : SymbolTable) (s : Nat) : List Nat :=
  s :: match t.parent s with
    | some p => if p < s then t.ancestors p else []
    | none => []
termination_by s

/-- The innermost binding of a name, seen from a scope. -/
def resolve (t : SymbolTable) (s : Nat) (name : String) : Option Symbol :=
  (t.ancestors s).findSome? (t.lookup · name)

/-- The innermost class around a scope. -/
def enclosingClass (t : SymbolTable) (s : Nat) : Option BinaryName :=
  (t.ancestors s).findSome? fun a =>
    match t.kind a with
    | .type name => some name
    | _ => none

/-- The innermost function scope around a scope. -/
def enclosingFunction (t : SymbolTable) (s : Nat) : Option Nat :=
  (t.ancestors s).find? fun a =>
    match t.kind a with
    | .function .. => true
    | _ => false

theorem ancestors_head (t : SymbolTable) (s : Nat) : (t.ancestors s).head? = some s := by
  rw [ancestors]; rfl

theorem lookup_define_self (t : SymbolTable) (s : Nat) (name : String) (sym : Symbol)
    (h : s < t.size) : (t.define s name sym).1.lookup s name = some sym := by
  simp only [size] at h
  simp [define, lookup, scope?, Scope.lookup, Array.getElem_modify, h]

theorem resolve_define_self (t : SymbolTable) (s : Nat) (name : String) (sym : Symbol)
    (h : s < t.size) : (t.define s name sym).1.resolve s name = some sym := by
  rw [resolve, ancestors]
  simp only [List.findSome?_cons]
  rw [lookup_define_self t s name sym h]

end SymbolTable

/-- How a scope kind is written in messages. -/
def ScopeKind.describe : ScopeKind → String
  | .unit => "Unit"
  | .block => "Local"
  | .type name => "Class \x7b qualified_name: " ++ name.text ++ " \x7d"
  | .function isStatic count =>
    "Function \x7b is_static: " ++ toString isStatic ++ ", local_variable_count: " ++
      toString count ++ " \x7d"

end Febc
