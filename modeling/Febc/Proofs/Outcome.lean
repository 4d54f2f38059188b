import Febc.Lowering.Monad
import Febc.Proofs.Builder

/-!
# Runs and the stops they may end in

A run of a step either returns a value in a new state or stops. Only some stops are legitimate:
a limit of the format (a pool, a text, code, the stack or the locals that grow too large) or a
malformed name in the source. Every other error, and every violated promise between the layers,
is a fault of the compiler itself. `Returns allowed r post` says that the run `r` either stops
with an allowed error or returns with `post`; sequencing runs composes these statements.

The constant pool is read through `ConstantPool.Consistent`: its index agrees with its entries,
which fit two-byte references. Interning keeps it consistent, only appends entries, and answers
an index that names the interned constant; a reference interns its parts the same way, and the
entry of a function reference names the text of its descriptor.

Main statements:
* `returns_bind`: a step followed by another returns what the second returns from every state
  the first returns;
* `ConstantPool.returns_intern`: interning answers the index of the constant;
* `ConstantPool.interns_functionRef`: a function reference interns to an entry that names its
  descriptor.
-/

namespace Febc

/-- The errors that a limit of the format, or a malformed name in the source, causes. -/
def Error.Allowed : Error → Prop
  | .poolOverflow .. | .utf8TooLong _ | .codeTooLong _ | .stackTooDeep _ | .localsOverflow _
  | .malformedName _ => True
  | .unplacedLabels _ | .duplicateLabel _ | .decode _ | .io _ => False

/-- A stop is allowed when it is an allowed error; a violated promise never is. -/
def Halt.Allowed : Halt → Prop
  | .error e => e.Allowed
  | .violation _ => False

/-- The run either stopped with an allowed error, or returned a value and state with `post`. -/
def Returns {ε σ α : Type} (allowed : ε → Prop) (r : Except ε α × σ) (post : α → σ → Prop) : Prop :=
  match r with
  | (.ok a, s) => post a s
  | (.error e, _) => allowed e

section Returns

variable {ε σ α β : Type} {allowed : ε → Prop}

@[simp] theorem returns_ok (a : α) (s : σ) (post : α → σ → Prop) :
    Returns allowed (.ok a, s) post ↔ post a s := Iff.rfl

@[simp] theorem returns_error (e : ε) (s : σ) (post : α → σ → Prop) :
    Returns allowed (.error e, s) post ↔ allowed e := Iff.rfl

theorem Returns.mono {r : Except ε α × σ} {post post' : α → σ → Prop}
    (h : Returns allowed r post) (weaker : ∀ a s, post a s → post' a s) : Returns allowed r post' := by
  match r, h with
  | (.ok a, s), h => exact weaker a s h
  | (.error _, _), h => exact h

theorem returns_bind {m : ExceptT ε (StateM σ) α} {f : α → ExceptT ε (StateM σ) β} {s : σ}
    {post : β → σ → Prop}
    (h : Returns allowed (runStep m s) fun a s' => Returns allowed (runStep (f a) s') post) :
    Returns allowed (runStep (m >>= f) s) post := by
  rw [runStep_bind]
  match hm : runStep m s, h with
  | (.ok a, s'), h => exact h
  | (.error e, s'), h => exact h

theorem returns_pure (a : α) {s : σ} {post : α → σ → Prop} (h : post a s) :
    Returns allowed (runStep (pure a : ExceptT ε (StateM σ) α) s) post := h

end Returns

/-! ## The constant pool -/

/-- The pool entry at an index is a function whose descriptor entry is the text of `d`. -/
def Describes (entries : Array Constant) (index : Nat) (d : FunctionDescriptor) : Prop :=
  1 ≤ index ∧ ∃ owner descriptor name slot : Nat,
    entries[index - 1]? = some (.function owner descriptor name slot) ∧
    1 ≤ descriptor ∧ entries[descriptor - 1]? = some (.utf8 d.render)

namespace Constant

/-- Is the entry a text? -/
def isUtf8 : Constant → Bool
  | .utf8 _ => true
  | _ => false

/-- Is the entry a class? -/
def isClassRef : Constant → Bool
  | .classRef _ => true
  | _ => false

/-- Is the entry a field? -/
def isField : Constant → Bool
  | .field .. => true
  | _ => false

/-- Is the entry a function? -/
def isFunction : Constant → Bool
  | .function .. => true
  | _ => false

/-- Can a `LoadCpr` load the entry: a number, a string, a function or a class. -/
def isLoadable : Constant → Bool
  | .utf8 _ | .field .. => false
  | _ => true

end Constant

/-- The index `j`, counted from one, names an entry of the pool of the given kind. -/
def Names (entries : Array Constant) (j : Nat) (kind : Constant → Bool) : Prop :=
  1 ≤ j ∧ ∃ c, entries[j - 1]? = some c ∧ kind c = true

/-- The references of an entry at index `i` each name an entry before it, of the kind they ask
for: a string and a class name a text, a field and a function name a class and two texts. -/
def Constant.PointsBelow (entries : Array Constant) (i : Nat) : Constant → Prop
  | .string text | .classRef text => text < i ∧ Names entries text Constant.isUtf8
  | .field owner descriptor name | .function owner descriptor name _ =>
    owner < i ∧ descriptor < i ∧ name < i ∧ Names entries owner Constant.isClassRef ∧
      Names entries descriptor Constant.isUtf8 ∧ Names entries name Constant.isUtf8
  | _ => True

namespace ConstantPool

/-- The pool's index agrees with its entries, which fit two-byte references and refer only to
entries before them. -/
structure Consistent (p : ConstantPool) : Prop where
  bounded : p.entries.size ≤ maxIndex
  indexed : ∀ c i, p.index[c]? = some i → 1 ≤ i ∧ p.entries[i - 1]? = some c
  refers : ∀ (j : Nat) (c : Constant), p.entries[j]? = some c → c.PointsBelow p.entries (j + 1)

theorem consistent_empty : ({} : ConstantPool).Consistent :=
  ⟨by simp [maxIndex], by simp, by simp⟩

/-- An entry of a pool stays where it is as the pool grows. -/
theorem entry_of_prefix {entries entries' : Array Constant} (grown : entries.toList <+: entries'.toList)
    {j : Nat} {c : Constant} (found : entries[j]? = some c) : entries'[j]? = some c := by
  rw [← Array.getElem?_toList] at found ⊢
  obtain ⟨below, rfl⟩ := List.getElem?_eq_some_iff.mp found
  exact List.prefix_iff_getElem?.mp grown j below

end ConstantPool

theorem Names.mono {entries entries' : Array Constant} {j : Nat} {kind : Constant → Bool}
    (names : Names entries j kind) (grown : entries.toList <+: entries'.toList) : Names entries' j kind := by
  obtain ⟨one, c, entry, isKind⟩ := names
  exact ⟨one, c, ConstantPool.entry_of_prefix grown entry, isKind⟩

/-- An index that names an entry lies within the pool. -/
theorem Names.le_size {entries : Array Constant} {j : Nat} {kind : Constant → Bool} (names : Names entries j kind) :
    j ≤ entries.size := by
  obtain ⟨one, c, entry, -⟩ := names
  have := (Array.getElem?_eq_some_iff.mp entry).1
  omega

theorem Constant.PointsBelow.mono {entries entries' : Array Constant} {i : Nat} {c : Constant}
    (points : c.PointsBelow entries i) (grown : entries.toList <+: entries'.toList) : c.PointsBelow entries' i := by
  cases c with
  | string text | classRef text =>
    obtain ⟨below, names⟩ := points
    exact ⟨below, names.mono grown⟩
  | field owner descriptor name | function owner descriptor name _ =>
    obtain ⟨b₁, b₂, b₃, n₁, n₂, n₃⟩ := points
    exact ⟨b₁, b₂, b₃, n₁.mono grown, n₂.mono grown, n₃.mono grown⟩
  | integer | long | float | double | utf8 => trivial

namespace ConstantPool

/-- What a pool step returns: the pool stays consistent and only grows, and the answer is an
index of a two-byte reference. -/
def Grows (p : ConstantPool) (i : Nat) (p' : ConstantPool) : Prop :=
  p'.Consistent ∧ p.entries.toList <+: p'.entries.toList ∧ 1 ≤ i ∧ i ≤ maxIndex

theorem index_le {p : ConstantPool} (consistent : p.Consistent) {c : Constant} {i : Nat}
    (found : p.index[c]? = some i) : i ≤ p.entries.size := by
  obtain ⟨_, entry⟩ := consistent.indexed c i found
  have := (Array.getElem?_eq_some_iff.mp entry).1
  omega

/-- Appending a new constant whose references name entries already there keeps the pool
consistent. -/
theorem Consistent.push {entries : Array Constant} {index : Std.HashMap Constant Nat}
    (consistent : Consistent ⟨entries, index⟩) {c : Constant} (fits : entries.size + 1 ≤ maxIndex)
    (refers : c.PointsBelow entries (entries.size + 1)) :
    Consistent ⟨entries.push c, index.insert c (entries.size + 1)⟩ := by
  have grown : entries.toList <+: (entries.push c).toList := by simp
  refine ⟨by simpa using fits, fun d j hit => ?_, fun j d found => ?_⟩
  · rw [Std.HashMap.getElem?_insert] at hit
    split at hit
    · rename_i same
      simp only [Option.some.injEq] at hit
      subst hit
      simp only [beq_iff_eq] at same
      subst same
      simp
    · obtain ⟨one, entry⟩ := consistent.indexed d j hit
      exact ⟨one, entry_of_prefix grown entry⟩
  · rw [Array.getElem?_push] at found
    split at found
    · rename_i last
      obtain rfl := Option.some.inj found
      rw [last]
      exact refers.mono grown
    · exact (consistent.refers j d found).mono grown

/-- Interning a constant whose references name entries of the pool answers an index that names
the constant, in a pool that only grew. -/
theorem returns_intern {p : ConstantPool} (consistent : p.Consistent) (c : Constant)
    (refers : c.PointsBelow p.entries (p.entries.size + 1)) :
    Returns Error.Allowed (runStep (intern c) p) fun i p' => Grows p i p' ∧ p'.entries[i - 1]? = some c := by
  obtain ⟨entries, index⟩ := p
  simp only [runStep, intern, ExceptT.run, ExceptT.mk, StateT.run]
  cases found : index[c]? with
  | some i =>
    have bound := index_le consistent found
    obtain ⟨one, entry⟩ := consistent.indexed c i found
    exact ⟨⟨consistent, List.prefix_refl _, one, by have := consistent.bounded; simp_all; omega⟩, entry⟩
  | none =>
    simp only
    split
    · trivial
    · rename_i fits
      simp only [maxIndex, Nat.not_lt, gt_iff_lt] at fits
      exact ⟨⟨consistent.push (by simp [maxIndex]; omega) refers, by simp, by omega, by simp [maxIndex]; omega⟩,
        by simp⟩

theorem Grows.after {p p₁ p₂ : ConstantPool} {j i : Nat} (first : Grows p j p₁) (second : Grows p₁ i p₂) :
    Grows p i p₂ :=
  ⟨second.1, first.2.1.trans second.2.1, second.2.2⟩

/-- A pool step that, from a consistent pool, stops with an allowed error or answers an index of a
two-byte reference into a pool that only grew, with `post` of the index and the new pool. -/
def Interns (m : PoolM Nat) (post : Nat → ConstantPool → Prop) : Prop :=
  ∀ p, p.Consistent → Returns Error.Allowed (runStep m p) fun i p' => Grows p i p' ∧ post i p'

theorem interns_utf8 (text : String) : Interns (internUtf8 text) fun i p => p.entries[i - 1]? = some (.utf8 text) := by
  intro p consistent
  unfold internUtf8
  split
  · trivial
  · exact returns_intern consistent _ trivial

/-- An interned text is named by its index. -/
theorem Grows.texts {p p' : ConstantPool} {i : Nat} {text : String} (grown : Grows p i p')
    (entry : p'.entries[i - 1]? = some (.utf8 text)) : Names p'.entries i Constant.isUtf8 :=
  ⟨grown.2.2.1, _, entry, rfl⟩

/-- An interned text is named by its index, at which it stands. -/
theorem interns_text (text : String) :
    Interns (internUtf8 text) fun i p => Names p.entries i Constant.isUtf8 ∧ p.entries[i - 1]? = some (.utf8 text) :=
  fun p consistent => (interns_utf8 text p consistent).mono fun _ _ ⟨grown, entry⟩ => ⟨grown, grown.texts entry, entry⟩

theorem interns_binaryName (name : BinaryName) :
    Interns name.intern fun i p => Names p.entries i Constant.isClassRef := by
  intro p consistent
  apply returns_bind
  apply (interns_utf8 name.text p consistent).mono
  rintro text p₁ ⟨grown₁, entry₁⟩
  have named := grown₁.texts entry₁
  apply (returns_intern grown₁.1 (.classRef text) ⟨by have := named.le_size; omega, named⟩).mono
  rintro i p₂ ⟨grown₂, entry⟩
  exact ⟨grown₁.after grown₂, grown₂.2.2.1, _, entry, rfl⟩

/-- The parts of a field or function reference, interned in turn, name entries that the
reference may point at. -/
theorem parts_pointBelow {p₁ p₂ p₃ : ConstantPool} {owner descriptor name : Nat}
    (owners : Names p₁.entries owner Constant.isClassRef) (grown₂ : Grows p₁ descriptor p₂)
    (descriptors : Names p₂.entries descriptor Constant.isUtf8) (grown₃ : Grows p₂ name p₃)
    (names : Names p₃.entries name Constant.isUtf8) :
    owner < p₃.entries.size + 1 ∧ descriptor < p₃.entries.size + 1 ∧ name < p₃.entries.size + 1 ∧
      Names p₃.entries owner Constant.isClassRef ∧ Names p₃.entries descriptor Constant.isUtf8 ∧
      Names p₃.entries name Constant.isUtf8 := by
  have owners₃ := owners.mono (grown₂.2.1.trans grown₃.2.1)
  have descriptors₃ := descriptors.mono grown₃.2.1
  have := owners₃.le_size
  have := descriptors₃.le_size
  have := names.le_size
  exact ⟨by omega, by omega, by omega, owners₃, descriptors₃, names⟩

theorem interns_fieldRef (r : FieldRef) : Interns r.intern fun i p => Names p.entries i Constant.isField := by
  intro p consistent
  apply returns_bind
  apply (interns_binaryName r.owner p consistent).mono
  rintro owner p₁ ⟨grown₁, owners⟩
  apply returns_bind
  apply (interns_utf8 r.descriptor.render p₁ grown₁.1).mono
  rintro descriptor p₂ ⟨grown₂, entry₂⟩
  apply returns_bind
  apply (interns_utf8 r.name p₂ grown₂.1).mono
  rintro name p₃ ⟨grown₃, entry₃⟩
  apply (returns_intern grown₃.1 (.field owner descriptor name)
    (parts_pointBelow owners grown₂ (grown₂.texts entry₂) grown₃ (grown₃.texts entry₃))).mono
  rintro i p₄ ⟨grown₄, entry⟩
  exact ⟨grown₁.after (grown₂.after (grown₃.after grown₄)), grown₄.2.2.1, _, entry, rfl⟩

/-- A function reference interns to an entry whose descriptor entry is the text of its
descriptor: what an invocation of it takes from the stack can be read off the pool. -/
theorem interns_functionRef (r : FunctionRef) :
    Interns r.intern fun i p => Describes p.entries i r.descriptor := by
  intro p consistent
  apply returns_bind
  apply (interns_binaryName r.owner p consistent).mono
  rintro owner p₁ ⟨grown₁, owners⟩
  apply returns_bind
  apply (interns_utf8 r.descriptor.render p₁ grown₁.1).mono
  rintro descriptor p₂ ⟨grown₂, text⟩
  apply returns_bind
  apply (interns_utf8 r.name p₂ grown₂.1).mono
  rintro name p₃ ⟨grown₃, entry₃⟩
  apply (returns_intern grown₃.1 (.function owner descriptor name r.tableIndex)
    (parts_pointBelow owners grown₂ (grown₂.texts text) grown₃ (grown₃.texts entry₃))).mono
  rintro i p₄ ⟨grown₄, entry⟩
  refine ⟨grown₁.after (grown₂.after (grown₃.after grown₄)), grown₄.2.2.1, owner, descriptor, name,
    r.tableIndex, entry, grown₂.2.2.1, ?_⟩
  exact entry_of_prefix (grown₃.after grown₄).2.1 text

theorem interns_constantData (d : ConstantData) :
    Interns d.intern fun i p => Names p.entries i Constant.isLoadable := by
  intro p consistent
  cases d with
  | string text =>
    apply returns_bind
    apply (interns_utf8 text p consistent).mono
    rintro utf8 p₁ ⟨grown₁, entry₁⟩
    have named := grown₁.texts entry₁
    apply (returns_intern grown₁.1 (.string utf8) ⟨by have := named.le_size; omega, named⟩).mono
    rintro i p₂ ⟨grown₂, entry⟩
    exact ⟨grown₁.after grown₂, grown₂.2.2.1, _, entry, rfl⟩
  | integer | long | float | double =>
    apply (returns_intern consistent _ ?_).mono
    · exact fun _ _ interned => ⟨interned.1, interned.1.2.2.1, _, interned.2, rfl⟩
    · trivial

end ConstantPool

/-- An entry of one kind is one of every kind that takes it in. -/
theorem Names.weaken {entries : Array Constant} {j : Nat} {kind kind' : Constant → Bool}
    (names : Names entries j kind) (includes : ∀ c, kind c = true → kind' c = true) : Names entries j kind' := by
  obtain ⟨one, c, entry, isKind⟩ := names
  exact ⟨one, c, entry, includes c isKind⟩

/-- A class can be loaded as a value. -/
theorem Names.loadable_of_class {entries : Array Constant} {j : Nat} (names : Names entries j Constant.isClassRef) :
    Names entries j Constant.isLoadable :=
  names.weaken fun c => by cases c <;> simp [Constant.isClassRef, Constant.isLoadable]

/-- The entry an invocation's descriptor is read from is a function of the pool. -/
theorem Describes.names {entries : Array Constant} {index : Nat} {d : FunctionDescriptor}
    (describes : Describes entries index d) : Names entries index Constant.isFunction := by
  obtain ⟨one, owner, descriptor, name, slot, entry, -⟩ := describes
  exact ⟨one, _, entry, rfl⟩

/-- A function can be loaded as a value. -/
theorem Describes.loadable {entries : Array Constant} {index : Nat} {d : FunctionDescriptor}
    (describes : Describes entries index d) : Names entries index Constant.isLoadable :=
  describes.names.weaken fun c => by cases c <;> simp [Constant.isFunction, Constant.isLoadable]

theorem Describes.mono {entries entries' : Array Constant} {index : Nat} {d : FunctionDescriptor}
    (describes : Describes entries index d) (grown : entries.toList <+: entries'.toList) :
    Describes entries' index d := by
  obtain ⟨one, owner, descriptor, name, slot, entry, one', text⟩ := describes
  exact ⟨one, owner, descriptor, name, slot, ConstantPool.entry_of_prefix grown entry, one',
    ConstantPool.entry_of_prefix grown text⟩

end Febc
