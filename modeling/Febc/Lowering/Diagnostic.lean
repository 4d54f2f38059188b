import Febc.Syntax.Expr

/-!
# Diagnostics

A diagnostic reports a problem of the source at a position and lets the compiler go on. Only a
value returned from an initializer is a warning; every other kind is an error, and a class with
errors is not written out.
-/

namespace Febc

/-- Kinds of problems the compiler reports. -/
inductive DiagnosticKind where
  | unresolvedSymbol
  | breakOutsideLoop
  | continueOutsideLoop
  | unknownLoopLabel
  | overloadedFunctionReference
  | noMatchingOverload
  | invalidAssignmentTarget
  | assignmentToConstant
  | instanceReferenceFromStatic
  | malformedCatchFilter
  | returnValueFromInitializer
  deriving DecidableEq, Repr, Inhabited

namespace DiagnosticKind

/-- Every kind, in a fixed order. -/
def all : List DiagnosticKind :=
  [.unresolvedSymbol, .breakOutsideLoop, .continueOutsideLoop, .unknownLoopLabel,
    .overloadedFunctionReference, .noMatchingOverload, .invalidAssignmentTarget,
    .assignmentToConstant, .instanceReferenceFromStatic, .malformedCatchFilter,
    .returnValueFromInitializer]

/-- The name of a kind. -/
def name : DiagnosticKind → String
  | .unresolvedSymbol => "UnresolvedSymbol"
  | .breakOutsideLoop => "BreakOutsideLoop"
  | .continueOutsideLoop => "ContinueOutsideLoop"
  | .unknownLoopLabel => "UnknownLoopLabel"
  | .overloadedFunctionReference => "OverloadedFunctionReference"
  | .noMatchingOverload => "NoMatchingOverload"
  | .invalidAssignmentTarget => "InvalidAssignmentTarget"
  | .assignmentToConstant => "AssignmentToConstant"
  | .instanceReferenceFromStatic => "InstanceReferenceFromStatic"
  | .malformedCatchFilter => "MalformedCatchFilter"
  | .returnValueFromInitializer => "ReturnValueFromInitializer"

/-- The kind with a name. -/
def ofName? (s : String) : Option DiagnosticKind := all.find? (·.name == s)

/-- Is a problem of this kind an error (rather than a warning)? -/
def isError : DiagnosticKind → Bool
  | .returnValueFromInitializer => false
  | _ => true

end DiagnosticKind

/-- A reported problem. -/
structure Diagnostic where
  kind : DiagnosticKind
  pos : Position
  message : String
  deriving DecidableEq, Repr, Inhabited

namespace Diagnostic

/-- The name of the severity. -/
def severity (d : Diagnostic) : String := if d.kind.isError then "Error" else "Warning"

/-- `line:column: error: message`, or `warning`. -/
def text (d : Diagnostic) : String :=
  d.pos.text ++ ": " ++ (if d.kind.isError then "error" else "warning") ++ ": " ++ d.message

end Diagnostic

/-- Number of errors (not warnings) among diagnostics. -/
def errorCount (ds : List Diagnostic) : Nat := ds.countP (·.kind.isError)

theorem errorCount_append (a b : List Diagnostic) :
    errorCount (a ++ b) = errorCount a + errorCount b := by
  simp [errorCount, List.countP_append]

end Febc
