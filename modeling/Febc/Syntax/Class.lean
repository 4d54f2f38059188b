import Febc.Syntax.Stmt

/-!
# Classes and compilation units

A compilation unit is a list of classes and the scope they are declared in. A class has a name,
modifier bits, the names of its superclasses, and its members: field declarations and functions.
Modifier bits are the access flags of the entity format; bits a kind of declaration does not
define are dropped where it is written.
-/

namespace Febc

/-- Fields declared together, with shared modifiers. -/
structure FieldDecl where
  mods : Nat
  isConstant : Bool
  decls : List (Ident × Option Expr)
  deriving Inhabited

/-- A function, or an initializer (a constructor of instances). -/
structure FunctionDecl where
  name : Ident
  isInitializer : Bool
  mods : Nat
  params : List Ident
  /-- None for a function declared without code. -/
  body : Option Block
  scope : Nat
  deriving Inhabited

/-- Members of a class. -/
inductive MemberDecl where
  | field (decl : FieldDecl)
  | function (decl : FunctionDecl)
  deriving Inhabited

/-- A class declaration. -/
structure ClassDecl where
  name : Ident
  mods : Nat
  supers : List Ident
  members : List MemberDecl
  scope : Nat
  deriving Inhabited

/-- A compilation unit. -/
structure CompilationUnit where
  classes : List ClassDecl
  scope : Nat
  deriving Inhabited

end Febc
