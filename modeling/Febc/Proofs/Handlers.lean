import Febc.Proofs.Loops

/-!
# Exception handlers

A handler starts where the code before it cannot fall through: entering it puts the caught
exception alone on the stack, and its first instruction stores that exception. Such an offset is
`HandlerAt`: an instruction starts there, noted at height one, and the rows of the exception table
that name it keep the state sound. Rows are added only over non-empty ranges inside the code.

A synchronized block holds its lock in a private slot; the handler that covers the block and its
own release keeps the exception in a second slot, releases the lock and throws the exception again.

Main statements:
* `runs_guardRange`, `runs_guardAll`: rows over ranges already emitted change nothing else;
* `leaves_synchronized`: a synchronized block leaves the stack as it found it, releases both of
  its slots and places its exit.
-/

namespace Febc

namespace Lowering

open CodeBuilder

/-- An instruction noted at height one starts at `q`: a handler can start there. -/
def HandlerAt (s : Lowering) (h : Nat → Nat) (q : Nat) : Prop :=
  Starts s.code.instructions q ∧ h q = 1 ∧ q < s.code.code.size

section Rows

variable {env : FunctionEnv} {s : Lowering} {h : Nat → Nat}

theorem Grows.starts {s' : Lowering} {h' : Nat → Nat} (grown : Grows s h s' h') {o : Nat}
    (starts : Starts s.code.instructions o) : Starts s'.code.instructions o := by
  obtain ⟨i, mem, offset⟩ := starts
  obtain ⟨j, memJ, offsetJ, -⟩ := grown.persists i mem
  exact ⟨j, memJ, offsetJ.trans offset⟩

theorem Grows.covers {s' : Lowering} {h' : Nat → Nat} (grown : Grows s h s' h') {start stop : Nat}
    (covers : s.code.Covers start stop) : s'.code.Covers start stop :=
  covers.extend grown.size (fun _ => grown.starts) grown.appended

theorem HandlerAt.grow {s' : Lowering} {h' : Nat → Nat} {q : Nat} (at_ : HandlerAt s h q)
    (grown : Grows s h s' h') : HandlerAt s' h' q := by
  obtain ⟨starts, height, below⟩ := at_
  exact ⟨grown.starts starts, by rw [grown.heights q (Or.inl below)]; exact height,
    Nat.lt_of_lt_of_le below grown.size⟩

/-- A handler entered where the code ended, whose first instruction is the next one appended. -/
theorem HandlerAt.of_store {init : Bool} {s' : Lowering} {h' : Nat → Nat} (sound : Sound init s h)
    (sound' : Sound init s' h') (grown : Grows s h s' h') (entered : s.code.depth = some 1) {i : Instruction}
    (at_ : i.offset = s.code.code.size) (stored : s'.code.instructions = s.code.instructions ++ [i]) :
    HandlerAt s' h' s.code.code.size := by
  refine ⟨⟨i, by rw [stored]; simp, at_⟩, ?_, ?_⟩
  · rw [grown.heights _ (Or.inr ⟨rfl, by simp [entered]⟩)]
    exact sound.current 1 entered
  · have := length_pos i.opcode
    rw [size_of_append sound sound' stored]
    omega

theorem Grows.boundary {s' : Lowering} {h' : Nat → Nat} (grown : Grows s h s' h') {o : Nat}
    (boundary : s.code.Boundary o) : s'.code.Boundary o := by
  rcases boundary with starts | at_end
  · exact Or.inl (grown.starts starts)
  · rcases Nat.lt_or_eq_of_le grown.size with grew | same
    · exact Or.inl (at_end ▸ grown.appended grew)
    · exact Or.inr (at_end.trans same)

/-- A range from a boundary of the code to where the code ends is made of whole instructions in
every state after. -/
theorem Grows.covers_upto {s' : Lowering} {h' : Nat → Nat} (grown : Grows s h s' h') {start : Nat}
    (boundary : s.code.Boundary start) (nonempty : start < s.code.code.size) :
    s'.code.Covers start s.code.code.size :=
  grown.covers ⟨nonempty, Nat.le_refl _, boundary.resolve_right (Nat.ne_of_lt nonempty), Or.inr rfl⟩

/-- A range from where the code ended in one state to where it ended in a later one is made of
whole instructions in every state after. -/
theorem covers_of_grows {s₁ s₂ : Lowering} {h₁ h₂ : Nat → Nat} (first : Grows s h s₁ h₁)
    (second : Grows s₁ h₁ s₂ h₂) (nonempty : s.code.code.size < s₁.code.code.size) :
    s₂.code.Covers s.code.code.size s₁.code.code.size :=
  second.covers_upto (first.boundary (Or.inr rfl)) nonempty

/-! ## Offsets that no row straddles

A row may be added over a range only if every row before it lies inside the range or apart from
it, that is, if no row straddles either end of the range. An offset where the code ended stays
unstraddled while whole constructs are lowered after it, since the rows they add cover only their
own code. -/

/-- No row of the exception table straddles `o`: each stops by it or starts at or after it. -/
def Clear (s : Lowering) (o : Nat) : Prop :=
  ∀ row ∈ s.code.handlers.toList, row.stop ≤ o ∨ o ≤ row.start

theorem Sound.clear {init : Bool} (sound : Sound init s h) : s.Clear s.code.code.size :=
  fun row mem => Or.inl (sound.ranges row mem).2.1

theorem Clear.keep {s' : Lowering} {o low : Nat} (clear : s.Clear o) (rows : RowsFrom low s s')
    (before : o ≤ low) : s'.Clear o := by
  intro row mem
  rcases rows.mem row mem with old | ⟨start, -⟩
  · exact clear row old
  · exact Or.inr (Nat.le_trans before start)

theorem Clear.append {s' : Lowering} {o : Nat} {added : List HandlerSite} (clear : s.Clear o)
    (handlers : s'.code.handlers.toList = s.code.handlers.toList ++ added)
    (apart : ∀ row ∈ added, row.stop ≤ o ∨ o ≤ row.start) : s'.Clear o := by
  intro row mem
  rw [handlers, List.mem_append] at mem
  rcases mem with old | new
  · exact clear row old
  · exact apart row new

theorem Clear.spans {s' : Lowering} {o : Nat} (clear : s.Clear o) (handlers : s'.code.handlers = s.code.handlers) :
    s'.Clear o := by
  intro row mem
  rw [handlers] at mem
  exact clear row mem

/-- Where neither end of a range is straddled, every row lies inside the range or apart from it. -/
theorem within_of_clear {start stop : Nat} (first : s.Clear start) (second : s.Clear stop) :
    ∀ row ∈ s.code.handlers.toList, row.Within start stop := by
  intro row mem
  rcases first row mem with before | after
  · exact Or.inl before
  · rcases second row mem with inside | beyond
    · exact Or.inr (Or.inr ⟨after, inside⟩)
    · exact Or.inr (Or.inl beyond)

/-- A row added over a range that ends by `o` does not straddle it. -/
theorem Clear.append_before {s' : Lowering} {o start stop handler : Nat} {catchClass : Option Nat}
    (clear : s.Clear o) (handlers : s'.code.handlers.toList = s.code.handlers.toList ++
      (if start < stop then [⟨start, stop, handler, catchClass⟩] else []))
    (before : stop ≤ o) : s'.Clear o := by
  refine clear.append handlers fun row mem => ?_
  split at mem
  · rw [List.mem_singleton] at mem
    subst mem
    exact Or.inl before
  · cases mem

/-- Offsets where the ranges of later rows may start: each lies between `low` and the end of the
code, at a boundary of it, and no row straddles it. -/
def Marks (s : Lowering) (low : Nat) (offsets : List Nat) : Prop :=
  ∀ o ∈ offsets, low ≤ o ∧ o ≤ s.code.code.size ∧ s.code.Boundary o ∧ s.Clear o

/-- Marks stay marks while the code grows and the rows added start after them. -/
theorem Marks.keep {s' : Lowering} {h' : Nat → Nat} {low low' : Nat} {offsets : List Nat}
    (marks : s.Marks low offsets) (grown : Grows s h s' h') (rows : RowsFrom low' s s')
    (below : ∀ o ∈ offsets, o ≤ low') : s'.Marks low offsets := by
  intro o mem
  obtain ⟨above, inside, boundary, clear⟩ := marks o mem
  exact ⟨above, Nat.le_trans inside grown.size, grown.boundary boundary, clear.keep rows (below o mem)⟩

theorem Marks.grow {s' : Lowering} {h' : Nat → Nat} {low : Nat} {offsets : List Nat}
    (marks : s.Marks low offsets) (grown : Grows s h s' h') (rows : RowsSince s s') : s'.Marks low offsets :=
  marks.keep grown rows fun o mem => (marks o mem).2.1

/-! ## Rows -/

/-- The classes some rows catch are classes of the pool. -/
def ClassEntries (entries : Array Constant) (classes : List (Option Nat)) : Prop :=
  ∀ c ∈ classes, ∀ i, c = some i → Names entries i Constant.isClassRef

theorem ClassEntries.mono {entries entries' : Array Constant} {classes : List (Option Nat)}
    (named : ClassEntries entries classes) (grown : entries.toList <+: entries'.toList) :
    ClassEntries entries' classes :=
  fun c mem i same => (named c mem i same).mono grown

/-- The pool entry at `i` is the class `name`: a class entry whose name is that text. -/
def ClassEntry (entries : Array Constant) (i : Nat) (name : BinaryName) : Prop :=
  1 ≤ i ∧ ∃ text, 1 ≤ text ∧ entries[i - 1]? = some (.classRef text) ∧ entries[text - 1]? = some (.utf8 name.text)

theorem ClassEntry.mono {entries entries' : Array Constant} {i : Nat} {name : BinaryName}
    (entry : ClassEntry entries i name) (grown : entries.toList <+: entries'.toList) : ClassEntry entries' i name := by
  obtain ⟨one, text, named, cls, utf8⟩ := entry
  exact ⟨one, text, named, ConstantPool.entry_of_prefix grown cls, ConstantPool.entry_of_prefix grown utf8⟩

theorem ClassEntry.names {entries : Array Constant} {i : Nat} {name : BinaryName} (entry : ClassEntry entries i name) :
    Names entries i Constant.isClassRef := by
  obtain ⟨one, text, -, cls, -⟩ := entry
  exact ⟨one, _, cls, rfl⟩

/-- Interning a class name answers the class entry of that name. -/
theorem interns_classEntry (name : BinaryName) :
    ConstantPool.Interns name.intern fun i p => ClassEntry p.entries i name := by
  intro p consistent
  apply returns_bind
  apply (ConstantPool.interns_utf8 name.text p consistent).mono
  rintro text p₁ ⟨grown₁, entry₁⟩
  have named := grown₁.texts entry₁
  apply (ConstantPool.returns_intern grown₁.1 (.classRef text) ⟨by have := named.le_size; omega, named⟩).mono
  rintro i p₂ ⟨grown₂, entry⟩
  exact ⟨grown₁.after grown₂, grown₂.2.2.1, text, named.1, entry, ConstantPool.entry_of_prefix grown₂.2.1 entry₁⟩

/-- The classes that the filters of a catch clause name, in order, by their pool entries; a
filter that names no class adds none. -/
def FilterClasses (env : FunctionEnv) (entries : Array Constant) : List Ident → List (Option Nat) → Prop
  | [], classes => classes = []
  | f :: rest, classes =>
    match env.symbols.resolve env.scope f.text with
    | some (.type cls) => ∃ i more, classes = some i :: more ∧ ClassEntry entries i cls ∧
      FilterClasses env entries rest more
    | _ => FilterClasses env entries rest classes

/-- What a catch clause catches: every exception (`none`) if it has no filters, else the classes
its filters name. -/
def Catches (env : FunctionEnv) (entries : Array Constant) (filters : List Ident) (classes : List (Option Nat)) :
    Prop :=
  match filters with
  | [] => classes = [none]
  | _ :: _ => FilterClasses env entries filters classes

/-- The problems a clause's filters report: one for each filter that names no class. -/
def filterProblems (env : FunctionEnv) : List Ident → List Diagnostic
  | [] => []
  | f :: rest =>
    match env.symbols.resolve env.scope f.text with
    | some (.type _) => filterProblems env rest
    | _ => ⟨.malformedCatchFilter, f.pos, "'" ++ f.text ++ "' is not an exception class"⟩ :: filterProblems env rest

section Filters

variable {env : FunctionEnv} {entries : Array Constant} {f : Ident} {rest : List Ident} {classes : List (Option Nat)}

theorem filterClasses_cons_class {cls : BinaryName} (found : env.symbols.resolve env.scope f.text = some (.type cls)) :
    FilterClasses env entries (f :: rest) classes =
      ∃ i more, classes = some i :: more ∧ ClassEntry entries i cls ∧ FilterClasses env entries rest more := by
  rw [FilterClasses, found]

theorem filterClasses_cons_other (other : ∀ cls, env.symbols.resolve env.scope f.text ≠ some (.type cls)) :
    FilterClasses env entries (f :: rest) classes = FilterClasses env entries rest classes := by
  rw [FilterClasses]
  split
  · rename_i cls found
    exact absurd found (other cls)
  · rfl

theorem filterProblems_cons_class {cls : BinaryName}
    (found : env.symbols.resolve env.scope f.text = some (.type cls)) :
    filterProblems env (f :: rest) = filterProblems env rest := by
  rw [filterProblems, found]

theorem filterProblems_cons_other (other : ∀ cls, env.symbols.resolve env.scope f.text ≠ some (.type cls)) :
    filterProblems env (f :: rest) =
      ⟨.malformedCatchFilter, f.pos, "'" ++ f.text ++ "' is not an exception class"⟩ :: filterProblems env rest := by
  rw [filterProblems]
  split
  · rename_i cls found
    exact absurd found (other cls)
  · rfl

theorem FilterClasses.mono {entries' : Array Constant} (grown : entries.toList <+: entries'.toList) :
    ∀ {filters : List Ident} {classes : List (Option Nat)}, FilterClasses env entries filters classes →
      FilterClasses env entries' filters classes
  | [], _, named => named
  | f :: rest, classes, named => by
    by_cases named' : ∃ cls, env.symbols.resolve env.scope f.text = some (.type cls)
    · obtain ⟨cls, found⟩ := named'
      rw [filterClasses_cons_class found] at named ⊢
      obtain ⟨i, more, rfl, entry, others⟩ := named
      exact ⟨i, more, rfl, entry.mono grown, FilterClasses.mono grown others⟩
    · have other : ∀ cls, env.symbols.resolve env.scope f.text ≠ some (.type cls) := fun cls found =>
        named' ⟨cls, found⟩
      rw [filterClasses_cons_other other] at named ⊢
      exact FilterClasses.mono grown named

theorem Catches.mono {entries' : Array Constant} {filters : List Ident} (caught : Catches env entries filters classes)
    (grown : entries.toList <+: entries'.toList) : Catches env entries' filters classes := by
  cases filters with
  | nil => exact caught
  | cons f rest => exact FilterClasses.mono grown caught

/-- The classes filters name are classes of the pool. -/
theorem FilterClasses.names :
    ∀ {filters : List Ident} {classes : List (Option Nat)}, FilterClasses env entries filters classes →
      ClassEntries entries classes
  | [], _, named => by
    rw [FilterClasses] at named
    subst named
    exact nofun
  | f :: rest, classes, named => by
    by_cases named' : ∃ cls, env.symbols.resolve env.scope f.text = some (.type cls)
    · obtain ⟨cls, found⟩ := named'
      rw [filterClasses_cons_class found] at named
      obtain ⟨i, more, rfl, entry, others⟩ := named
      intro c mem j same
      rcases List.mem_cons.mp mem with rfl | later
      · cases same
        exact entry.names
      · exact FilterClasses.names others c later j same
    · rw [filterClasses_cons_other fun cls found => named' ⟨cls, found⟩] at named
      exact FilterClasses.names named

end Filters

/-- Rows over a range of whole instructions whose ends no row straddles, each for one caught class,
appended in the order of the classes; nothing else changes. -/
theorem runs_guardRange {start stop handler : Nat} (classes : List (Option Nat))
    (covers : s.code.Covers start stop) (first : s.Clear start) (second : s.Clear stop)
    (at_ : HandlerAt s h handler) (named : ClassEntries s.pool.entries classes) :
    Runs env s h (guardRange start stop handler classes) fun _ s' h' =>
      Spans [] s s' ∧ s'.locals = s.locals ∧ s'.code.depth = s.code.depth ∧
        s'.code.code.size = s.code.code.size ∧ h' = h ∧
        s'.code.handlers.toList = s.code.handlers.toList ++ classes.map (⟨start, stop, handler, ·⟩) := by
  induction classes generalizing s with
  | nil => exact runs_pure () ⟨.refl [] s, rfl, rfl, rfl, rfl, by simp⟩
  | cons c rest ih =>
    rw [guardRange]
    apply Runs.bind (runs_addHandler c covers (within_of_clear first second) at_.1 at_.2.1
      (named c (List.mem_cons_self ..)))
    rintro _ s₁ h₁ - grown₁ ⟨spans₁, locals₁, handlers₁, depth₁, size₁, rfl⟩
    have added : s₁.code.handlers.toList = s.code.handlers.toList ++ [⟨start, stop, handler, c⟩] := by
      rw [handlers₁, Array.toList_push]
    apply (ih (grown₁.covers covers) (first.append added (by simp)) (second.append added (by simp))
      (at_.grow grown₁) (ClassEntries.mono (fun c' mem => named c' (List.mem_cons_of_mem _ mem)) grown₁.pool)).mono
    rintro _ s₂ h₂ - - ⟨spans₂, locals₂, depth₂, size₂, same₂, handlers₂⟩
    exact ⟨spans₁.trans spans₂, locals₂.trans locals₁, depth₂.trans depth₁, size₂.trans size₁, same₂,
      by rw [handlers₂, added]; simp⟩

/-- One row that catches everything over each of some disjoint ranges of whole instructions whose
ends no row straddles, appended in the order of the ranges; nothing else changes. -/
theorem runs_guardAll {handler : Nat} (ranges : List (Nat × Nat))
    (covers : ∀ r ∈ ranges, s.code.Covers r.1 r.2) (clear : ∀ r ∈ ranges, s.Clear r.1 ∧ s.Clear r.2)
    (disjoint : ranges.Pairwise fun r r' => r.2 ≤ r'.1 ∨ r'.2 ≤ r.1) (at_ : HandlerAt s h handler) :
    Runs env s h (guardAll handler ranges) fun _ s' h' =>
      Spans [] s s' ∧ s'.locals = s.locals ∧ s'.code.depth = s.code.depth ∧
        s'.code.code.size = s.code.code.size ∧ h' = h ∧
        s'.code.handlers.toList = s.code.handlers.toList ++ ranges.map fun r => ⟨r.1, r.2, handler, none⟩ := by
  induction ranges generalizing s with
  | nil => exact runs_pure () ⟨.refl [] s, rfl, rfl, rfl, rfl, by simp⟩
  | cons r rest ih =>
    rw [guardAll]
    obtain ⟨first, second⟩ := clear r (List.mem_cons_self ..)
    apply Runs.bind (runs_addHandler none (covers r (List.mem_cons_self ..)) (within_of_clear first second) at_.1
      at_.2.1 nofun)
    rintro _ s₁ h₁ - grown₁ ⟨spans₁, locals₁, handlers₁, depth₁, size₁, rfl⟩
    have added : s₁.code.handlers.toList = s.code.handlers.toList ++ [⟨r.1, r.2, handler, none⟩] := by
      rw [handlers₁, Array.toList_push]
    obtain ⟨apart, rest_disjoint⟩ := List.pairwise_cons.mp disjoint
    -- the row just added lies apart from every later range
    have clear₁ : ∀ r' ∈ rest, s₁.Clear r'.1 ∧ s₁.Clear r'.2 := by
      intro r' mem
      obtain ⟨first', second'⟩ := clear r' (List.mem_cons_of_mem _ mem)
      have nonempty := (covers r' (List.mem_cons_of_mem _ mem)).1
      rcases apart r' mem with before | after
      · exact ⟨first'.append added (by simp; omega), second'.append added (by simp; omega)⟩
      · exact ⟨first'.append added (by simp; omega), second'.append added (by simp; omega)⟩
    apply (ih (fun r' mem => grown₁.covers (covers r' (List.mem_cons_of_mem _ mem))) clear₁ rest_disjoint
      (at_.grow grown₁)).mono
    rintro _ s₂ h₂ - - ⟨spans₂, locals₂, depth₂, size₂, same₂, handlers₂⟩
    exact ⟨spans₁.trans spans₂, locals₂.trans locals₁, depth₂.trans depth₁, size₂.trans size₁, same₂,
      by rw [handlers₂, added]; simp⟩

/-- A step taken only under a condition, followed by the rest: where the condition fails, the rest
runs from the same state. -/
theorem Runs.bind_ite {β : Type} {c : Prop} [Decidable c] {m : LowerM Unit} {k : Unit → LowerM β}
    {mid : Unit → Lowering → (Nat → Nat) → Prop} {post : β → Lowering → (Nat → Nat) → Prop}
    (first : Runs env s h (if c then m else pure ()) mid)
    (rest : ∀ a s' h', Sound env.isInitializer s' h' → Grows s h s' h' → mid a s' h' → Runs env s' h' (k a) post) :
    Runs env s h (if c then m >>= k else k ()) post := by
  split
  · rename_i yes
    rw [if_pos yes] at first
    exact Runs.bind first rest
  · rename_i no
    rw [if_neg no] at first
    simpa using Runs.bind first rest

/-- A row over a range that may be empty: none is added for an empty one. -/
theorem runs_addHandlerIf {start stop handler : Nat} (catchClass : Option Nat)
    (covers : start < stop → s.code.Covers start stop) (first : s.Clear start) (second : s.Clear stop)
    (at_ : HandlerAt s h handler) (catches : ∀ c, catchClass = some c → Names s.pool.entries c Constant.isClassRef) :
    Runs env s h (if start < stop then addHandler start stop handler catchClass else pure ()) fun _ s' h' =>
      Spans [] s s' ∧ s'.locals = s.locals ∧ s'.code.depth = s.code.depth ∧
        s'.code.code.size = s.code.code.size ∧ h' = h ∧
        s'.code.handlers.toList = s.code.handlers.toList ++
          (if start < stop then [⟨start, stop, handler, catchClass⟩] else []) := by
  split
  · rename_i nonempty
    apply (runs_addHandler catchClass (covers nonempty) (within_of_clear first second) at_.1 at_.2.1 catches).mono
    rintro _ s' h' - - ⟨spans, locals, handlers, depth, size, same⟩
    exact ⟨spans, locals, depth, size, same, by rw [handlers, Array.toList_push]⟩
  · exact runs_pure () ⟨.refl [] s, rfl, rfl, rfl, rfl, by simp⟩

/-- The classes a catch clause names are interned, in order, and names that are no class
reported, one problem each. -/
theorem runs_filterClasses (filters : List Ident) :
    Runs env s h (filterClasses filters) fun classes s' h' =>
      Still s s' ∧ h' = h ∧ FilterClasses env s'.pool.entries filters classes ∧
        s'.diagnostics.toList = s.diagnostics.toList ++ filterProblems env filters := by
  induction filters generalizing s with
  | nil => exact runs_pure _ ⟨.refl s, rfl, rfl, by simp [filterProblems]⟩
  | cons f rest ih =>
    rw [filterClasses, resolve_bind]
    apply Runs.read_bind
    split
    · rename_i cls found
      apply Runs.bind (runs_onPool (interns_classEntry _))
      rintro index s₁ h₁ - - ⟨still₁, diagnostics₁, same, -, -, entry₁⟩
      subst h₁
      apply Runs.bind ih
      rintro more s₂ h₂ - grown₂ ⟨still₂, same₂, named₂, diagnostics₂⟩
      refine runs_pure _ ⟨still₁.trans still₂, same₂, ?_, ?_⟩
      · rw [filterClasses_cons_class found]
        exact ⟨index, more, rfl, entry₁.mono grown₂.pool, named₂⟩
      · rw [diagnostics₂, diagnostics₁, filterProblems_cons_class found]
    · rename_i other
      apply Runs.bind (runs_report _ _ _)
      rintro _ s₁ h₁ - - ⟨still₁, diagnostics₁, same⟩
      subst h₁
      apply ih.mono
      rintro classes s₂ h₂ - - ⟨still₂, same₂, named₂, diagnostics₂⟩
      refine ⟨still₁.trans still₂, same₂, by rw [filterClasses_cons_other other]; exact named₂, ?_⟩
      rw [diagnostics₂, diagnostics₁, filterProblems_cons_other other]
      simp

/-- A clause catches what its filters name, or everything without filters; each filter that
names no class reports one problem. -/
theorem runs_catchFilters (filters : List Ident) :
    Runs env s h (catchFilters filters) fun classes s' h' =>
      Still s s' ∧ h' = h ∧ ClassEntries s'.pool.entries classes ∧ Catches env s'.pool.entries filters classes ∧
        s'.diagnostics.toList = s.diagnostics.toList ++ filterProblems env filters := by
  unfold catchFilters
  split
  · exact runs_pure _ ⟨.refl s, rfl, fun c mem i found => by simp_all, rfl, by simp [filterProblems]⟩
  · rename_i nonempty
    apply (runs_filterClasses filters).mono
    rintro classes s' h' - - ⟨still, same, named, diagnostics⟩
    refine ⟨still, same, named.names, ?_, diagnostics⟩
    cases filters with
    | nil => exact absurd rfl nonempty
    | cons f rest => exact named

end Rows

section Synchronized

variable {env : FunctionEnv} {s : Lowering} {h : Nat → Nat}

/-- The handler of a synchronized block, lowered where the block's normal path has jumped to its
exit: it keeps the exception in a fresh slot, releases the lock held in slot `held` and throws the
exception again; rows make it the handler of the block's range and of its own release. It
releases its own slot and the lock's, and places the exit. The rows it adds cover the block's
range and its own code. -/
theorem runs_releaseHandler {held exit bodyStart bodyStop : Nat} {fixups : Array Nat}
    (unreached : s.code.depth = none) (waiting : s.code.labels[exit]? = some (.unplaced fixups (some 0)))
    (covers : bodyStart < bodyStop → s.code.Covers bodyStart bodyStop) (first : s.Clear bodyStart)
    (second : s.Clear bodyStop) (low : bodyStart ≤ bodyStop) (high : bodyStop ≤ s.code.code.size)
    (taken : s.locals.next ≠ 0) :
    Runs env s h (do
      let handler ← offset
      enterHandler
      let exception ← takeSlot
      op .storeA [exception]
      op .loadA [held]
      callIntrinsic .release
      let handlerStop ← offset
      op .loadA [exception]
      op .throw []
      releaseSlot
      releaseSlot
      if bodyStart < bodyStop then addHandler bodyStart bodyStop handler none
      addHandler handler handlerStop handler none
      place exit) fun _ s' _ =>
      s'.Holds 0 ∧ Spans [exit] s s' ∧ s'.locals.next = s.locals.next - 1 ∧
        (∃ p, s'.code.labels[exit]? = some (.placed p)) ∧ s.code.code.size ≤ s'.code.code.size ∧
        RowsFrom bodyStart s s' := by
  apply Runs.bind runs_offset
  rintro _ t g sound - ⟨rfl, -, same, same'⟩
  subst t g
  apply Runs.bind (runs_enterHandler unreached)
  rintro _ s₁ h₁ - grown₁ ⟨contained₁, depth₁, -, size₁, -⟩
  apply Runs.bind runs_takeSlot
  rintro _ s₂ h₂ sound₂ grown₂ ⟨rfl, -, slots₂, code₂, loops₂, same₂⟩
  subst h₂
  have entered : s₂.code.depth = some 1 := by rw [code₂]; exact depth₁
  apply Runs.bind (runs_storeAAt _ (k := 0) (Or.inl entered))
  rintro _ s₃ h₃ sound₃ grown₃ ⟨contained₃, stored₃, -, depth₃, -⟩
  have at₃ : HandlerAt s₃ h₃ s.code.code.size := by
    rw [← size₁, ← code₂]
    exact HandlerAt.of_store sound₂ sound₃ grown₃ entered rfl stored₃
  apply Runs.bind (leaves_loadA held 0 s₃ h₃ (Or.inl depth₃))
  rintro _ s₄ h₄ - grown₄ ⟨holds₄, contained₄⟩
  apply Runs.bind (leaves_callIntrinsic .release 0 s₄ h₄ holds₄)
  rintro _ s₅ h₅ sound₅ grown₅ ⟨holds₅, contained₅⟩
  apply Runs.bind runs_offset
  rintro _ t g - - ⟨rfl, -, same, same'⟩
  subst t g
  apply Runs.bind (leaves_loadA _ 0 s₅ h₅ holds₅)
  rintro _ s₆ h₆ - grown₆ ⟨holds₆, contained₆⟩
  apply Runs.bind (runs_throwAt (k := 0) holds₆)
  rintro _ s₇ h₇ - grown₇ ⟨contained₇, -, -, depth₇, -⟩
  have handled := contained₃.trans contained₄ |>.trans contained₅ |>.trans contained₆ |>.trans contained₇
  apply Runs.bind (runs_releaseSlot (by rw [handled.slots, slots₂]; exact Nat.succ_ne_zero _))
  rintro _ s₈ h₈ - grown₈ ⟨slots₈, code₈, loops₈, same₈⟩
  subst h₈
  have back₈ : s₈.locals.next = s.locals.next := by
    rw [slots₈, handled.slots, slots₂, Nat.add_sub_cancel, contained₁.slots]
  apply Runs.bind (runs_releaseSlot (by rw [back₈]; exact taken))
  rintro _ s₉ h₉ - grown₉ ⟨slots₉, code₉, loops₉, same₉⟩
  subst h₉
  have rows₉ : RowsSince s s₉ := by
    have sized : s₂.code.code.size = s.code.code.size := by rw [code₂, size₁]
    exact (contained₁.rows.trans (.of_code code₂) contained₁.grown).trans
      (handled.rows.trans (.of_code (by rw [code₉, code₈])) handled.grown) (Nat.le_of_eq sized.symm)
  have rows₅₉ : RowsSince s₅ s₉ :=
    (contained₆.trans contained₇).rows.trans (.of_code (by rw [code₉, code₈])) (contained₆.trans contained₇).grown
  have later : Grows s₃ h₃ s₉ h₇ := grown₄.trans grown₅ |>.trans grown₆ |>.trans grown₇ |>.trans grown₈
    |>.trans grown₉
  have toHandler : Grows s h s₅ h₅ := grown₁.trans grown₂ |>.trans grown₃ |>.trans grown₄ |>.trans grown₅
  have fromStop : Grows s₅ h₅ s₉ h₇ := grown₆.trans grown₇ |>.trans grown₈ |>.trans grown₉
  have below : bodyStart ≤ s.code.code.size := Nat.le_trans low high
  dsimp only
  apply Runs.bind_ite (runs_addHandlerIf none (fun nonempty => (toHandler.trans fromStop).covers (covers nonempty))
    (first.keep rows₉ below) (second.keep rows₉ high) (at₃.grow later) nofun)
  rintro _ s₁₀ h₁₀ - grown₁₀ ⟨spans₁₀, locals₁₀, depth₁₀, size₁₀, same₁₀, handlers₁₀⟩
  subst h₁₀
  have handlerStart : s.code.code.size < s₅.code.code.size :=
    Nat.lt_of_lt_of_le at₃.2.2 (Nat.le_trans grown₄.size grown₅.size)
  apply Runs.bind (runs_addHandler none (covers_of_grows toHandler (fromStop.trans grown₁₀) handlerStart)
    (within_of_clear ((sound.clear.keep rows₉ (Nat.le_refl _)).append_before handlers₁₀ high)
      ((sound₅.clear.keep rows₅₉ (Nat.le_refl _)).append_before handlers₁₀
        (Nat.le_trans high (Nat.le_of_lt handlerStart))))
    (at₃.grow (later.trans grown₁₀)).1 (at₃.grow (later.trans grown₁₀)).2.1 nofun)
  rintro _ s₁₁ h₁₁ - grown₁₁ ⟨spans₁₁, locals₁₁, handlers₁₁, depth₁₁, -, same₁₁⟩
  subst h₁₁
  -- the exit is reached only by the normal path's jump, which left the stack empty
  have waiting₁₁ : s₁₁.code.labels[exit]? = some (.unplaced fixups (some 0)) := by
    refine spans₁₁.keeps (spans₁₀.keeps ?_ List.not_mem_nil) List.not_mem_nil
    rw [code₉, code₈]
    exact handled.keeps (by rw [code₂]; exact contained₁.keeps waiting List.not_mem_nil) (by simp)
  have unreached₁₁ : s₁₁.code.depth = none := by
    rw [depth₁₁, depth₁₀, code₉, code₈, depth₇]
  apply (runs_place waiting₁₁ (fun _ _ reached _ => by simp [unreached₁₁] at reached)).mono
  rintro _ s₁₂ h₁₂ - grown₁₂ ⟨contained₁₂, placed₁₂, depth₁₂, -, -, -⟩
  refine ⟨Or.inl (by rw [depth₁₂, unreached₁₁]; rfl), ?_, ?_, ⟨_, placed₁₂⟩,
    (toHandler.trans fromStop |>.trans grown₁₀ |>.trans grown₁₁ |>.trans grown₁₂).size, ?_⟩
  · have before := contained₁.toSpans.trans (Spans.of_kept (by rw [code₂]) loops₂ : Spans [] s₁ s₂) |>.trans
      handled.toSpans
    have after := (Spans.of_kept (by rw [code₉, code₈]) (by rw [loops₉, loops₈]) : Spans [] s₇ s₉).trans
      spans₁₀ |>.trans spans₁₁ |>.trans contained₁₂.toSpans
    exact (before.trans after).widen fun l mine => by simpa using mine
  · rw [contained₁₂.slots, locals₁₁, locals₁₀, slots₉, back₈]
  · have pushed : s₁₁.code.handlers.toList = s₁₀.code.handlers.toList ++ [⟨s.code.code.size,
        s₅.code.code.size, s.code.code.size, none⟩] := by
      rw [handlers₁₁, Array.toList_push]
    have grownAll := (toHandler.trans fromStop |>.trans grown₁₀ |>.trans grown₁₁).size
    exact (((rows₉.mono below).append handlers₁₀ (by split <;> simp)).append pushed (by simp [below])).trans
      contained₁₂.rows (Nat.le_trans below grownAll) grownAll

/-- A synchronized block leaves the stack as it found it: the lock is pushed, kept in a private
slot and acquired; the block runs; the lock is released on the normal path, and by the handler on
every exception. -/
theorem leaves_synchronized {lock body : LowerM Unit} (locks : Leaves env lock 0 1)
    (bodies : Leaves env body 0 0) : Leaves env (lowerSynchronized lock body) 0 0 := by
  intro s h holds
  unfold lowerSynchronized
  apply Runs.bind runs_freshLabel
  rintro exit s₁ h₁ - grown₁ ⟨rfl, fresh₁, contained₁, depth₁, -, -⟩
  apply Runs.bind (locks s₁ h₁ (by unfold Holds; rw [depth₁]; exact holds))
  rintro _ s₂ h₂ - grown₂ ⟨holds₂, contained₂⟩
  apply Runs.bind (leaves_duplicate 0 s₂ h₂ holds₂)
  rintro _ s₃ h₃ - grown₃ ⟨holds₃, contained₃⟩
  apply Runs.bind runs_takeSlot
  rintro _ s₄ h₄ - grown₄ ⟨rfl, -, slots₄, code₄, loops₄, same₄⟩
  subst h₄
  apply Runs.bind (leaves_storeA _ 1 s₄ h₃ (by unfold Holds; rw [code₄]; exact holds₃))
  rintro _ s₅ h₅ - grown₅ ⟨holds₅, contained₅⟩
  apply Runs.bind (leaves_callIntrinsic .acquire 0 s₅ h₅ holds₅)
  rintro _ s₆ h₆ sound₆ grown₆ ⟨holds₆, contained₆⟩
  apply Runs.bind runs_offset
  rintro _ t g - - ⟨rfl, -, same, same'⟩
  subst t g
  apply Runs.bind (bodies s₆ h₆ holds₆)
  rintro _ s₇ h₇ sound₇ grown₇ ⟨holds₇, contained₇⟩
  apply Runs.bind runs_offset
  rintro _ t g - - ⟨rfl, -, same, same'⟩
  subst t g
  apply Runs.bind (leaves_loadA _ 0 s₇ h₇ holds₇)
  rintro _ s₈ h₈ - grown₈ ⟨holds₈, contained₈⟩
  apply Runs.bind (leaves_callIntrinsic .release 0 s₈ h₈ holds₈)
  rintro _ s₉ h₉ - grown₉ ⟨holds₉, contained₉⟩
  have path := contained₅.trans contained₆ |>.trans contained₇ |>.trans contained₈ |>.trans contained₉
  have unplaced₉ : s₉.code.labels[s.code.labels.size]? = some (.unplaced #[] none) :=
    path.keeps (by rw [code₄]; exact contained₃.keeps (contained₂.keeps fresh₁ List.not_mem_nil) List.not_mem_nil)
      (by simp)
  apply Runs.bind (runs_jump_unplaced (o := .jump) rfl unplaced₉ holds₉ (Nat.zero_le _)
    (show ((0 : Nat) : Int) = ((0 : Nat) : Int) + _ by simp [Opcode.stackEffect]) nofun)
  rintro _ s₁₀ h₁₀ - grown₁₀ ⟨contained₁₀, waiting₁₀, -, depth₁₀⟩
  have slots₁₀ : s₁₀.locals.next = s.locals.next + 1 := by
    rw [contained₁₀.slots, path.slots, slots₄, contained₃.slots, contained₂.slots, contained₁.slots]
  have after := contained₈.trans contained₉ |>.trans contained₁₀
  apply (runs_releaseHandler (by rw [depth₁₀]; rfl) waiting₁₀
    (fun nonempty => covers_of_grows grown₇ (grown₈.trans grown₉ |>.trans grown₁₀) nonempty)
    (sound₆.clear.keep (contained₇.trans after).rows (Nat.le_refl _)) (sound₇.clear.keep after.rows (Nat.le_refl _))
    contained₇.grown after.grown (by rw [slots₁₀]; exact Nat.succ_ne_zero _)).mono
  rintro _ s' h' - - ⟨holds', spans', slots', placed', grown', rows'⟩
  have whole := contained₁.toSpans.trans contained₂.toSpans |>.trans contained₃.toSpans
    |>.trans (Spans.of_kept (by rw [code₄]) loops₄ : Spans [] s₃ s₄) |>.trans path.toSpans
    |>.trans contained₁₀.toSpans |>.trans spans'
  have mine : ∀ l, l ∈ [s.code.labels.size] ++ [] ++ [] ++ [] ++
      ([] ++ [] ++ [] ++ [] ++ []) ++ [s.code.labels.size] ++ [s.code.labels.size] → l = s.code.labels.size := by
    intro l mem
    simpa using mem
  have rows₁₀ : RowsSince s s₁₀ :=
    ((contained₁.trans contained₂ |>.trans contained₃).rows.trans (.of_code code₄)
      (contained₁.trans contained₂ |>.trans contained₃).grown).trans (path.trans contained₁₀).rows
      (by rw [code₄]; exact (contained₁.trans contained₂ |>.trans contained₃).grown)
  have start₆ : s.code.code.size ≤ s₆.code.code.size := (grown₁.trans grown₂ |>.trans grown₃ |>.trans grown₄
    |>.trans grown₅ |>.trans grown₆).size
  have size₁₀ : s.code.code.size ≤ s₁₀.code.code.size := Nat.le_trans start₆ (Nat.le_trans contained₇.grown after.grown)
  refine ⟨holds', { whole.close (fun l mem => ?_) (fun l mem => ?_) with slots := ?_, grown := ?_, rows := ?_ }⟩
  · exact Nat.le_of_eq (mine l mem).symm
  · rw [mine l mem]
    exact placed'
  · rw [slots', slots₁₀, Nat.add_sub_cancel]
  · exact Nat.le_trans size₁₀ grown'
  · exact RowsFrom.trans rows₁₀ rows' start₆ size₁₀

end Synchronized

end Lowering

end Febc
