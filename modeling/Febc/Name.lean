/-!
# Names of entities and their members

An *unqualified* name is one segment: non-empty, and free of the characters that descriptors
and qualified names use as punctuation (`.`, `;`, `@`, `/`, `(`, `)`, `<`, `>`). A *binary*
name is a non-empty `/`-separated path of unqualified names, such as `zen/core/Object`.

The special member names `<initialize>` and `<staticInitializer>` fail the unqualified check on
purpose: no source declaration can take them, so the compiler alone introduces them.

Main statements: `checkUnqualified_eq_ok_iff` and `checkBinary_eq_ok_iff` say exactly which texts
each check accepts.
-/

namespace Febc

/-- Why a text is not a name. -/
inductive NameError where
  /-- A segment holds a punctuation character. -/
  | illegalCharacter (text : String)
  /-- A segment is empty. -/
  | emptySegment
  /-- A binary name is the empty text. -/
  | emptyBinary
  deriving DecidableEq, Repr, Inhabited

/-- The message a rejected name reports. -/
def NameError.message : NameError → String
  | .illegalCharacter text => "Unqualified name '" ++ text ++ "' contains an illegal character"
  | .emptySegment => "Unqualified name '' is empty"
  | .emptyBinary => "Binary name '' is empty"

/-- Characters that separate the parts of descriptors and qualified names. -/
def isNamePunctuation (c : Char) : Bool :=
  c == '.' || c == ';' || c == '@' || c == '/' || c == '(' || c == ')' || c == '<' || c == '>'

/-- Check one segment: a punctuation character is reported before emptiness. -/
def checkUnqualified (text : String) : Except NameError Unit :=
  if text.toList.any isNamePunctuation then .error (.illegalCharacter text)
  else if text.isEmpty then .error .emptySegment
  else .ok ()

/-- Check each segment in order and report the first that fails. -/
def checkSegments : List String → Except NameError Unit
  | [] => .ok ()
  | s :: rest => do checkUnqualified s; checkSegments rest

/-- The segments between the slashes of a text, empty ones included: `k` slashes make `k + 1`
segments. -/
def slashSegments (text : String) : List String :=
  text.splitToList (· == '/')

/-- Check a binary name: the empty text, then each `/`-separated segment. -/
def checkBinary (text : String) : Except NameError Unit :=
  if text.isEmpty then .error .emptyBinary
  else checkSegments (slashSegments text)

theorem checkUnqualified_eq_ok_iff (text : String) :
    checkUnqualified text = .ok () ↔
      (∀ c ∈ text.toList, isNamePunctuation c = false) ∧ text ≠ "" := by
  unfold checkUnqualified
  by_cases hp : text.toList.any isNamePunctuation = true
  · simp only [hp, if_true]
    constructor
    · intro h; cases h
    · rintro ⟨hall, -⟩
      obtain ⟨c, hc, hpc⟩ := List.any_eq_true.mp hp
      simp [hall c hc] at hpc
  · rw [if_neg hp]
    have hall : ∀ c ∈ text.toList, isNamePunctuation c = false := by
      intro c hc
      cases h : isNamePunctuation c
      · rfl
      · exact absurd (List.any_eq_true.mpr ⟨c, hc, h⟩) hp
    by_cases he : text.isEmpty = true
    · simp only [he, if_true]
      simp only [String.isEmpty_iff] at he
      constructor
      · intro h; cases h
      · rintro ⟨-, hne⟩; exact absurd he hne
    · rw [if_neg he]
      simp only [String.isEmpty_iff] at he
      exact ⟨fun _ => ⟨hall, he⟩, fun _ => rfl⟩

theorem checkSegments_eq_ok_iff (segments : List String) :
    checkSegments segments = .ok () ↔ ∀ s ∈ segments, checkUnqualified s = .ok () := by
  induction segments with
  | nil => simp [checkSegments]
  | cons s rest ih =>
    simp only [checkSegments, List.mem_cons, forall_eq_or_imp]
    cases h : checkUnqualified s with
    | error e => simp [bind, Except.bind]
    | ok u => cases u; simp [bind, Except.bind, ih]

theorem checkBinary_eq_ok_iff (text : String) :
    checkBinary text = .ok () ↔
      text ≠ "" ∧ ∀ s ∈ slashSegments text, checkUnqualified s = .ok () := by
  unfold checkBinary
  by_cases he : text.isEmpty = true
  · simp only [he, if_true]
    simp only [String.isEmpty_iff] at he
    constructor
    · intro h; cases h
    · rintro ⟨hne, -⟩; exact absurd he hne
  · rw [if_neg he, checkSegments_eq_ok_iff]
    simp only [String.isEmpty_iff] at he
    exact ⟨fun h => ⟨he, h⟩, fun h => h.2⟩

/-- A qualified, `/`-separated name of an entity, such as `zen/core/Object`. Values built by
`BinaryName.ofString?` passed `checkBinary`; the well-known names below pass it too. -/
structure BinaryName where
  text : String
  deriving DecidableEq, Repr, Inhabited, Hashable

namespace BinaryName

/-- Accept a text as a binary name if it passes `checkBinary`. -/
def ofString? (text : String) : Except NameError BinaryName :=
  (checkBinary text).map fun _ => ⟨text⟩

/-- Join package segments and a last name with `/`, then check the result. -/
def qualify (package : List String) (name : String) : Except NameError BinaryName :=
  ofString? (package.foldr (fun segment rest => segment ++ "/" ++ rest) name)

def boolean : BinaryName := ⟨"zen/core/Boolean"⟩
def double : BinaryName := ⟨"zen/core/Double"⟩
def exception : BinaryName := ⟨"zen/core/Exception"⟩
def float : BinaryName := ⟨"zen/core/Float"⟩
def integer : BinaryName := ⟨"zen/core/Integer"⟩
def kernel : BinaryName := ⟨"zen/core/ZenKernel"⟩
def list : BinaryName := ⟨"zen/core/List"⟩
def long : BinaryName := ⟨"zen/core/Long"⟩
def map : BinaryName := ⟨"zen/core/Map"⟩
def object : BinaryName := ⟨"zen/core/Object"⟩
def string : BinaryName := ⟨"zen/core/String"⟩

theorem ofString?_eq_ok_iff (text : String) (name : BinaryName) :
    ofString? text = .ok name ↔ checkBinary text = .ok () ∧ name = ⟨text⟩ := by
  unfold ofString?
  cases h : checkBinary text with
  | error e => simp [Except.map]
  | ok u => cases u; simp [Except.map, eq_comm]

end BinaryName

/-- Member names the compiler gives to initializers; they fail `checkUnqualified` on purpose. -/
def initializeName : String := "<initialize>"
def staticInitializerName : String := "<staticInitializer>"

end Febc
