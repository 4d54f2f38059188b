import Febc.Lowering.Class

/-!
# Writing entities out

Each compiled class is written as `<qualified name>.feb` under the output directory, its package
segments becoming directories. A class with errors is skipped when the settings say so. The
summary of a unit lists every file written, in order, with the bytes the file holds once the
whole unit is written: a class written twice under one name leaves the later entity in both
entries.

The file system refuses a path in the order it looks at it. A path holding a NUL character is
refused before it is looked at (`invalidInput`). A path longer than `pathLimit` bytes, or one
whose directories or file name have a segment longer than `segmentLimit` bytes, is too long
(`invalidFilename`). When directories may be created, the directories of a package are made
first, and only then the file; when they may not, the first directory of a package is missing
(`notFound`), unless its name is already too long. Writing a unit stops at the first file that
cannot be written.

Main statement: `write_errorCount`, the errors of a written unit are those of its classes.
-/

namespace Febc

/-- The file name extension of entity files. -/
def entityExtension : String := "feb"

/-- The most bytes one segment of a path may have. -/
def segmentLimit : Nat := 255

/-- The most bytes a whole path may have. -/
def pathLimit : Nat := 4095

/-- The path of an entity file, relative to the output directory. -/
def CompiledEntity.path (e : CompiledEntity) : String := e.name.text ++ "." ++ entityExtension

/-- The package segments of an entity's name, the directories its file lies in. -/
def CompiledEntity.packages (e : CompiledEntity) : List String :=
  (e.name.text.splitOn "/").dropLast

/-- The file name of an entity, in its package's directory. -/
def CompiledEntity.fileName (e : CompiledEntity) : String :=
  ((e.name.text.splitOn "/").getLastD "") ++ "." ++ entityExtension

/-- Is a segment of a path too long? -/
def segmentTooLong (segment : String) : Bool := segment.utf8ByteSize > segmentLimit

/-- Why a whole path is refused before any of its segments is looked at. -/
def pathFault? (path : String) : Option IoFault :=
  if path.contains '\x00' then some .invalidInput
  else if path.utf8ByteSize > pathLimit then some .invalidFilename
  else none

/-- Why the directories of a package cannot all be made under the output directory. -/
def makeDirectoriesFault? (directory : String) (packages : List String) : Option IoFault :=
  match pathFault? (directory ++ "/" ++ "/".intercalate packages) with
  | some fault => some fault
  | none => if packages.any segmentTooLong then some .invalidFilename else none

/-- Why an entity's file cannot be made, its directories made first when the settings allow. -/
def writeFault? (settings : Settings) (e : CompiledEntity) : Option IoFault :=
  let made : Option IoFault :=
    if settings.createDirectories && !e.packages.isEmpty then
      makeDirectoriesFault? settings.outputDirectory e.packages
    else none
  match made with
  | some fault => some fault
  | none =>
    match pathFault? (settings.outputDirectory ++ "/" ++ e.path) with
    | some fault => some fault
    | none =>
      match e.packages with
      | first :: _ =>
        if settings.createDirectories then
          if segmentTooLong e.fileName then some .invalidFilename else none
        else if segmentTooLong first then some .invalidFilename
        else some .notFound
      | [] => if segmentTooLong e.fileName then some .invalidFilename else none

/-- What writing a unit did: the files written with their bytes, the classes skipped for their
errors, and the errors over the whole unit. -/
structure Summary where
  written : List (String × List UInt8) := []
  suppressed : List BinaryName := []
  errorCount : Nat := 0
  deriving Inhabited

namespace Summary

/-- Record a file written with its bytes: earlier entries of the same file now hold them too. -/
def record (written : List (String × List UInt8)) (path : String) (bytes : List UInt8) :
    List (String × List UInt8) :=
  written.map (fun w => if w.1 == path then (w.1, bytes) else w) ++ [(path, bytes)]

/-- Write the compiled classes of a unit, in order, after what is already written. -/
def write (settings : Settings) : Summary → List CompiledEntity → Except Error Summary
  | s, [] => .ok s
  | s, e :: rest =>
    let s := { s with errorCount := s.errorCount + e.errorCount }
    if e.errorCount > 0 && settings.suppressOnError then
      write settings { s with suppressed := s.suppressed ++ [e.name] } rest
    else match writeFault? settings e with
      | some fault => .error (.io fault)
      | none =>
        write settings { s with written := record s.written e.path e.entity.serialize } rest

theorem record_length (written : List (String × List UInt8)) (path : String)
    (bytes : List UInt8) : (record written path bytes).length = written.length + 1 := by
  simp [record]

theorem write_errorCount (settings : Settings) (s r : Summary) (es : List CompiledEntity)
    (h : write settings s es = .ok r) :
    r.errorCount = s.errorCount + (es.map (·.errorCount)).foldr (· + ·) 0 := by
  induction es generalizing s with
  | nil => simp [write] at h; subst h; simp
  | cons e rest ih =>
    simp only [write] at h
    split at h
    · rw [ih _ h]; simp; omega
    · split at h
      · cases h
      · rw [ih _ h]; simp; omega

end Summary

namespace Session

/-- Compile a unit and write its entities. -/
def generate (unit : CompilationUnit) : CompileM Summary := do
  let entities ← compileUnit unit
  match Summary.write (← read).settings {} entities with
  | .ok s => pure s
  | .error e => throw (.error e)

end Session

end Febc
