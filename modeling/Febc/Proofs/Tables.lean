import Mathlib
import Febc.Proofs.Isolation

/-!
# Member tables

An entity numbers its members for the tables they are slotted into. The fields take the slots
0, 1, …, n − 1 in declaration order, one per declarator. The functions take the slots of a table
of pairs of an emitted name and a parameter count, numbered in the order the pairs are first
declared, the implicit initializers last, so two functions share a slot exactly when they share
the pair. Before each member list the entity file writes the table size, one past the largest
index and at most 65535. The entity lists one superclass entry per superclass name that resolves
to a class, or the default superclass's when none does.

Nothing bounds the number of members or superclasses of a class. Every count and index is kept
in two bytes, modulo 65536: a slot past 65535 starts again from 0, and so does a count.

Main statements: `compileUnit_numbers_members`, and `superclass_count_wraps_to_zero`, a class
with 65536 superclasses whose superclass count is written as 0.
-/

namespace Febc

/-- The pair a function's slot belongs to: the name it is emitted under and its parameter count. -/
def FunctionDecl.slotKey (f : FunctionDecl) : String × Nat :=
  (if f.isInitializer then initializeName else f.name.text, f.params.length)

namespace ClassDecl

/-- A class that declares no initializer is given the default one. -/
def needsDefault (cls : ClassDecl) : Bool :=
  (Session.functionDecls cls.members).all (!·.isInitializer)

/-- A class with a static field that has an initial value is given a static initializer. -/
def needsStatic (cls : ClassDecl) : Bool :=
  (Session.fieldDecls cls.members).any fun f => Lowering.isStaticField f && f.decls.any (·.2.isSome)

/-- The pairs of a class's function entries, in order: its declared functions, then the implicit
initializers it is given. -/
def slotKeys (cls : ClassDecl) : List (String × Nat) :=
  (Session.functionDecls cls.members).map FunctionDecl.slotKey ++
    ((if cls.needsDefault then [(initializeName, 0)] else []) ++
      (if cls.needsStatic then [(staticInitializerName, 0)] else []))

/-- The class a superclass name resolves to in `scope`, if it names one. -/
def resolvedClass (symbols : SymbolTable) (scope : Nat) (super : Ident) : Option BinaryName :=
  match symbols.resolve scope super.text with
  | some (.type name) => some name
  | _ => none

/-- The superclasses an entity of the class lists: those its superclass names resolve to in the
scope around the class, in order, or the default superclass when none does. -/
def superclasses (c : Compiler) (cls : ClassDecl) : List BinaryName :=
  let found := cls.supers.filterMap (resolvedClass c.symbols ((c.symbols.parent cls.scope).getD cls.scope))
  if found.isEmpty then [c.settings.defaultSuperclass] else found

/-- A class that names superclasses, each of which resolves to a class, lists one entry per
name, however many it names. -/
theorem length_superclasses {c : Compiler} {cls : ClassDecl} (named : cls.supers ≠ [])
    (classes : ∀ super ∈ cls.supers,
      (resolvedClass c.symbols ((c.symbols.parent cls.scope).getD cls.scope) super).isSome) :
    (cls.superclasses c).length = cls.supers.length := by
  have all := List.filterMap_length_eq_length.mpr classes
  unfold superclasses
  dsimp only
  split
  next empty =>
    rw [List.isEmpty_iff] at empty
    rw [empty, List.length_nil] at all
    exact absurd (List.length_eq_zero_iff.mp all.symm) named
  next => exact all

end ClassDecl

/-! ## The function table -/

namespace ClassLayout

/-- The slot an entry of a pair is written with; zero for a pair without one. -/
def slot (l : ClassLayout) (key : String × Nat) : Nat := (l.tableIndex? key.1 key.2).getD 0

/-- Give each pair of a list a slot, in order. -/
def assignAll (l : ClassLayout) (keys : List (String × Nat)) : ClassLayout :=
  keys.foldl (fun l key => l.assign key.1 key.2) l

@[simp] theorem assignAll_nil (l : ClassLayout) : l.assignAll [] = l := rfl

@[simp] theorem assignAll_cons (l : ClassLayout) (key : String × Nat) (keys : List (String × Nat)) :
    l.assignAll (key :: keys) = (l.assign key.1 key.2).assignAll keys := rfl

theorem assignAll_append (l : ClassLayout) (keys keys' : List (String × Nat)) :
    l.assignAll (keys ++ keys') = (l.assignAll keys).assignAll keys' :=
  List.foldl_append

theorem mem_assign_table {l : ClassLayout} {name : String} {arity : Nat} {key : String × Nat} :
    key ∈ (l.assign name arity).table ↔ key ∈ l.table ∨ key = (name, arity) := by
  unfold assign
  split
  · next known =>
    refine ⟨.inl, ?_⟩
    rintro (mem | rfl)
    · exact mem
    · simpa using known
  · simp

theorem nodup_assign_table {l : ClassLayout} (nodup : l.table.Nodup) (name : String) (arity : Nat) :
    (l.assign name arity).table.Nodup := by
  unfold assign
  split
  · exact nodup
  · next fresh =>
    have absent : (name, arity) ∉ l.table := by simpa using fresh
    refine List.nodup_append.mpr ⟨nodup, by simp, fun key mem other same => ?_⟩
    rw [List.mem_singleton] at same
    subst same
    exact fun eq => absent (eq ▸ mem)

theorem mem_assignAll_table {l : ClassLayout} {keys : List (String × Nat)} {key : String × Nat} :
    key ∈ (l.assignAll keys).table ↔ key ∈ l.table ∨ key ∈ keys := by
  induction keys generalizing l with
  | nil => simp
  | cons first rest ih => simp [ih, mem_assign_table, or_assoc]

theorem nodup_assignAll_table {l : ClassLayout} (nodup : l.table.Nodup) (keys : List (String × Nat)) :
    (l.assignAll keys).table.Nodup := by
  induction keys generalizing l with
  | nil => exact nodup
  | cons first rest ih => exact ih (nodup_assign_table nodup _ _)

/-- A pair of the table is written with its position, modulo 65536. -/
theorem slot_of_mem {l : ClassLayout} {key : String × Nat} (mem : key ∈ l.table) :
    l.slot key = l.table.idxOf key % 65536 := by
  have found : l.table.idxOf? key = some (l.table.idxOf key) := by
    rw [List.idxOf?, List.idxOf, List.findIdx?_eq_some_iff_findIdx_eq]
    exact ⟨by simpa using mem, rfl⟩
  rw [slot, tableIndex?, found, Option.map_some, Option.getD_some]

end ClassLayout

/-! ## Table sizes -/

section TableSize

/-- The running size of a table only grows. -/
theorem le_foldl_tableSize (indices : List Nat) (acc : Nat) :
    acc ≤ indices.foldl (fun acc i => max acc (min (i + 1) 65535)) acc := by
  induction indices generalizing acc with
  | nil => exact Nat.le_refl acc
  | cons i rest ih => exact Nat.le_trans (Nat.le_max_left _ _) (ih _)

/-- Every index counts towards the table size, up to the cap. -/
theorem le_tableSize {indices : List Nat} {i : Nat} (mem : i ∈ indices) : min (i + 1) 65535 ≤ tableSize indices := by
  unfold tableSize
  generalize 0 = acc
  induction indices generalizing acc with
  | nil => cases mem
  | cons j rest ih =>
    rcases List.mem_cons.mp mem with rfl | later
    · exact Nat.le_trans (Nat.le_max_right _ _) (le_foldl_tableSize rest _)
    · exact ih later _

/-- A bound on every index, capped, bounds the table size. -/
theorem tableSize_le {indices : List Nat} {bound : Nat} (below : ∀ i ∈ indices, min (i + 1) 65535 ≤ bound) :
    tableSize indices ≤ bound := by
  unfold tableSize
  have start : 0 ≤ bound := Nat.zero_le _
  generalize 0 = acc at start
  induction indices generalizing acc with
  | nil => exact start
  | cons i rest ih =>
    exact ih (fun j mem => below j (List.mem_cons_of_mem _ mem)) _ (Nat.max_le.mpr ⟨start, below i (by simp)⟩)

/-- Indices below `n` that hit every slot below `n` give the table size `n`, capped. -/
theorem tableSize_of_covers {indices : List Nat} {n : Nat} (below : ∀ i ∈ indices, i < n)
    (covers : ∀ i < n, i ∈ indices) : tableSize indices = min n 65535 := by
  apply Nat.le_antisymm
  · exact tableSize_le fun i mem => by have := below i mem; omega
  · cases n with
    | zero => simp
    | succ n => exact le_tableSize (covers n (Nat.lt_succ_self n))

/-- Slots counted from zero and kept modulo 65536: the table size is their number, capped. -/
theorem tableSize_range_mod (n : Nat) : tableSize ((List.range n).map (· % 65536)) = min n 65535 := by
  have below : ∀ i ∈ (List.range n).map (· % 65536), i < min n 65536 := by
    intro i mem
    obtain ⟨j, listed, rfl⟩ := List.mem_map.mp mem
    have := List.mem_range.mp listed
    omega
  have covers : ∀ i < min n 65536, i ∈ (List.range n).map (· % 65536) := fun i lt =>
    List.mem_map.mpr ⟨i, List.mem_range.mpr (by omega), by omega⟩
  rw [tableSize_of_covers below covers]
  omega

/-- Slots of pairs drawn from a table without repeats, every pair of the table among them, kept
modulo 65536: the table size is the table's length, capped. -/
theorem tableSize_idxOf {keys table : List (String × Nat)} (nodup : table.Nodup)
    (same : ∀ key, key ∈ table ↔ key ∈ keys) :
    tableSize (keys.map fun key => table.idxOf key % 65536) = min table.length 65535 := by
  have below : ∀ i ∈ keys.map (fun key => table.idxOf key % 65536), i < min table.length 65536 := by
    intro i mem
    obtain ⟨key, listed, rfl⟩ := List.mem_map.mp mem
    have := List.idxOf_lt_length_of_mem ((same key).mpr listed)
    omega
  have covers : ∀ i < min table.length 65536, i ∈ keys.map (fun key => table.idxOf key % 65536) := by
    intro i lt
    have inside : i < table.length := by omega
    exact List.mem_map.mpr ⟨table[i], (same _).mp (List.getElem_mem inside),
      by rw [nodup.idxOf_getElem i inside]; omega⟩
  rw [tableSize_of_covers below covers]
  omega

end TableSize

/-- A stop is admitted and every answer satisfies the post: nothing is to be shown. -/
theorem Returns.of_forall {ε σ α : Type} {r : Except ε α × σ} {post : α → σ → Prop} (holds : ∀ a s, post a s) :
    Returns (fun _ => True) r post := by
  obtain ⟨_ | a, s⟩ := r
  · trivial
  · exact holds a s

/-! ## Slots along the compilation of a class -/

namespace Session

variable {α β : Type} {c : Compiler} {s : Session}

/-- A step whose answer the post does not depend on. -/
theorem returns_bind_of_forall {m : CompileM α} {f : α → CompileM β} {post : β → Session → Prop}
    (rest : ∀ a s', Returns (fun _ => True) (runStep ((f a).run c) s') post) :
    Returns (fun _ => True) (runStep ((m >>= f).run c) s) post :=
  returns_compile_bind (Returns.of_forall rest)

/-- Declarators take consecutive slots from `next`, modulo 65536. -/
theorem numbers_declaratorMembers (flags descriptor next : Nat) (decls : List (Ident × Option Expr)) :
    Returns (fun _ => True) (runStep ((declaratorMembers flags descriptor next decls).run c) s) fun ms _ =>
      ms.map (·.tableIndex) = (List.range' next ms.length).map (· % 65536) := by
  induction decls generalizing s next with
  | nil => rfl
  | cons decl rest ih =>
    obtain ⟨name, init⟩ := decl
    unfold declaratorMembers
    refine returns_bind_of_forall fun _ _ => ?_
    refine returns_bind_of_forall fun _ _ => ?_
    apply returns_compile_bind
    apply (ih (next + 1)).mono
    intro more _ numbered
    exact returns_pure _ (by simp [numbered, List.range'_succ])

/-- Field declarations take consecutive slots from `next`, declarator after declarator, modulo
65536. -/
theorem numbers_declMembers (descriptor next : Nat) (fields : List FieldDecl) :
    Returns (fun _ => True) (runStep ((declMembers descriptor next fields).run c) s) fun ms _ =>
      ms.map (·.tableIndex) = (List.range' next ms.length).map (· % 65536) := by
  induction fields generalizing s next with
  | nil => rfl
  | cons decl rest ih =>
    unfold declMembers
    apply returns_compile_bind
    apply (numbers_declaratorMembers _ _ next decl.decls).mono
    intro here _ numberedHere
    apply returns_compile_bind
    apply (ih (next + here.length)).mono
    intro more _ numberedMore
    refine returns_pure _ ?_
    rw [List.map_append, numberedHere, numberedMore, ← List.map_append, List.length_append, List.range'_append_1]

/-- The fields of a class take the slots from zero on, modulo 65536. -/
theorem numbers_fieldMembers (fields : List FieldDecl) :
    Returns (fun _ => True) (runStep ((fieldMembers fields).run c) s) fun ms _ =>
      ms.map (·.tableIndex) = (List.range ms.length).map (· % 65536) := by
  unfold fieldMembers
  refine returns_bind_of_forall fun _ _ => ?_
  exact (numbers_declMembers _ 0 fields).mono fun _ _ numbered => by rw [numbered, List.range_eq_range']

/-- A function is emitted under the name of its pair. -/
theorem slotKey_functionName (f : FunctionDecl) :
    Returns (fun _ => True) (runStep ((functionName f).run c) s) fun name _ => name = f.slotKey.1 := by
  unfold functionName FunctionDecl.slotKey
  split
  · exact returns_pure _ rfl
  · exact (returns_memberName (fun _ _ => trivial) f.name).mono fun _ _ named => named.2

/-- The table is built from the pairs of the declared functions, in order. -/
theorem assignFunctions_assignAll (layout : ClassLayout) (functions : List FunctionDecl) :
    Returns (fun _ => True) (runStep ((assignFunctions layout functions).run c) s) fun l _ =>
      l = layout.assignAll (functions.map FunctionDecl.slotKey) := by
  induction functions generalizing s layout with
  | nil => rfl
  | cons f rest ih =>
    unfold assignFunctions
    apply returns_compile_bind
    apply (slotKey_functionName f).mono
    rintro _ _ rfl
    exact ih _

/-- Then the pairs of the implicit initializers the class needs. -/
theorem assignTable_assignAll (layout : ClassLayout) (functions : List FunctionDecl) (needsDefault needsStatic : Bool) :
    Returns (fun _ => True) (runStep ((assignTable layout functions needsDefault needsStatic).run c) s) fun l _ =>
      l = layout.assignAll (functions.map FunctionDecl.slotKey ++
        ((if needsDefault then [(initializeName, 0)] else []) ++
          (if needsStatic then [(staticInitializerName, 0)] else []))) := by
  unfold assignTable
  apply returns_compile_bind
  apply (assignFunctions_assignAll layout functions).mono
  rintro _ _ rfl
  refine returns_pure _ ?_
  rw [ClassLayout.assignAll_append]
  cases needsDefault <;> cases needsStatic <;> rfl

/-- A declared function is written with the slot of its pair. -/
theorem slot_functionMember (layout : ClassLayout) (fields : List FieldDecl) (f : FunctionDecl) :
    Returns (fun _ => True) (runStep ((functionMember layout fields f).run c) s) fun m _ =>
      m.tableIndex = layout.slot f.slotKey := by
  unfold functionMember
  apply returns_compile_read_bind
  dsimp only
  split
  · simp only [pure_bind]
    apply returns_compile_bind
    apply (slotKey_functionName f).mono
    rintro _ _ rfl
    split
    · refine returns_bind_of_forall fun _ _ => ?_
      refine returns_bind_of_forall fun _ _ => ?_
      exact returns_pure _ rfl
    · refine returns_bind_of_forall fun _ _ => ?_
      refine returns_bind_of_forall fun _ _ => ?_
      refine returns_bind_of_forall fun _ _ => ?_
      exact returns_pure _ rfl
  · trivial

theorem slots_functionMembers (layout : ClassLayout) (fields : List FieldDecl) (functions : List FunctionDecl) :
    Returns (fun _ => True) (runStep ((functionMembers layout fields functions).run c) s) fun ms _ =>
      ms.map (·.tableIndex) = (functions.map FunctionDecl.slotKey).map layout.slot := by
  induction functions generalizing s with
  | nil => rfl
  | cons f rest ih =>
    unfold functionMembers
    apply returns_compile_bind
    apply (slot_functionMember layout fields f).mono
    intro m _ slotted
    apply returns_compile_bind
    apply ih.mono
    intro more _ slots
    exact returns_pure _ (by simp [slotted, slots])

theorem slot_defaultInitializer (layout : ClassLayout) (fields : List FieldDecl) :
    Returns (fun _ => True) (runStep ((defaultInitializer layout fields).run c) s) fun m _ =>
      m.tableIndex = layout.slot (initializeName, 0) := by
  unfold defaultInitializer
  refine returns_bind_of_forall fun _ _ => ?_
  refine returns_bind_of_forall fun _ _ => ?_
  refine returns_bind_of_forall fun _ _ => ?_
  exact returns_pure _ rfl

theorem slot_staticInitializer (layout : ClassLayout) (fields : List FieldDecl) (primary : Nat) :
    Returns (fun _ => True) (runStep ((staticInitializer layout fields primary).run c) s) fun m _ =>
      m.tableIndex = layout.slot (staticInitializerName, 0) := by
  unfold staticInitializer
  refine returns_bind_of_forall fun _ _ => ?_
  refine returns_bind_of_forall fun _ _ => ?_
  refine returns_bind_of_forall fun _ _ => ?_
  exact returns_pure _ rfl

/-- The implicit initializers are written with the slots of their pairs, the default one first. -/
theorem slots_implicitMembers (layout : ClassLayout) (fields : List FieldDecl) (primary : Nat)
    (needsDefault needsStatic : Bool) :
    Returns (fun _ => True) (runStep ((implicitMembers layout fields primary needsDefault needsStatic).run c) s)
      fun ms _ => ms.map (·.tableIndex) = ((if needsDefault then [(initializeName, 0)] else []) ++
        (if needsStatic then [(staticInitializerName, 0)] else [])).map layout.slot := by
  unfold implicitMembers
  dsimp only
  have rest : ∀ (defaultKeys : List (String × Nat)) (instanceInit : List Member) (s₁ : Session),
      instanceInit.map (·.tableIndex) = defaultKeys.map layout.slot →
      Returns (fun _ => True) (runStep ((if needsStatic then do
          let init ← staticInitializer layout fields primary
          pure (instanceInit ++ [init])
        else do
          let _ ← onChannels (ChannelSet.remove primary)
          pure instanceInit).run c) s₁) fun ms _ =>
        ms.map (·.tableIndex) = (defaultKeys ++
          (if needsStatic then [(staticInitializerName, 0)] else [])).map layout.slot := by
    intro defaultKeys instanceInit s₁ slots
    split
    · apply returns_compile_bind
      apply (slot_staticInitializer layout fields primary).mono
      intro m _ slotted
      exact returns_pure _ (by simp [slots, slotted])
    · next unneeded =>
      refine returns_bind_of_forall fun _ _ => ?_
      exact returns_pure _ (by simpa [unneeded] using slots)
  split
  · rw [map_eq_pure_bind]
    apply returns_compile_bind
    apply returns_compile_bind
    apply (slot_defaultInitializer layout fields).mono
    intro m s₁ slotted
    exact returns_pure _ (rest [(initializeName, 0)] [m] s₁ (by simp [slotted]))
  · exact rest [] [] s rfl

/-- The superclass names resolve to the classes `resolvedClass` finds, in order; the others are
reported and skipped. -/
theorem superclasses_resolveClasses (scope : Nat) (supers : List Ident) :
    Returns (fun _ => True) (runStep ((resolveClasses scope supers).run c) s) fun names _ =>
      names = supers.filterMap (ClassDecl.resolvedClass c.symbols scope) := by
  induction supers generalizing s with
  | nil => rfl
  | cons super rest ih =>
    unfold resolveClasses
    apply returns_compile_read_bind
    split
    next name found =>
      apply returns_compile_bind
      apply ih.mono
      intro names _ same
      exact returns_pure _ (by simp [ClassDecl.resolvedClass, found, same])
    next notClass =>
      have skipped : ClassDecl.resolvedClass c.symbols scope super = none := by
        unfold ClassDecl.resolvedClass
        split
        next name found => exact absurd found (notClass name)
        next => rfl
      refine returns_bind_of_forall fun _ _ => ih.mono fun names _ same => ?_
      simp [skipped, same]

theorem superclasses_resolveSuperclasses (cls : ClassDecl) :
    Returns (fun _ => True) (runStep ((resolveSuperclasses cls).run c) s) fun names _ =>
      names = cls.superclasses c := by
  unfold resolveSuperclasses
  apply returns_compile_read_bind
  apply returns_compile_bind
  apply (superclasses_resolveClasses _ _).mono
  intro found _ same
  exact returns_pure _ (by rw [same]; rfl)

/-- Interning class names gives one entry per name. -/
theorem length_internNames (names : List BinaryName) :
    Returns (fun _ => True) (runStep ((names.mapM fun n => onPool n.intern).run c) s) fun is _ =>
      is.length = names.length := by
  induction names generalizing s with
  | nil => rfl
  | cons n rest ih =>
    rw [List.mapM_cons]
    refine returns_bind_of_forall fun _ _ => ?_
    apply returns_compile_bind
    apply ih.mono
    intro is _ counted
    exact returns_pure _ (by simp [counted])

/-- A class lists one superclass entry per superclass; its fields take the slots from zero on,
and its functions the slots of their pairs in a table of exactly the class's pairs, each once,
all modulo 65536. -/
theorem slots_assembleClass (cls : ClassDecl) :
    Returns (fun _ => True) (runStep ((assembleClass cls).run c) s) fun e _ =>
      e.entity.supers.length = (cls.superclasses c).length ∧
      e.entity.fields.map (·.tableIndex) = (List.range e.entity.fields.length).map (· % 65536) ∧
      ∃ layout : ClassLayout, layout.table.Nodup ∧ (∀ key, key ∈ layout.table ↔ key ∈ cls.slotKeys) ∧
        e.entity.functions.map (·.tableIndex) = cls.slotKeys.map layout.slot := by
  unfold assembleClass
  refine returns_bind_of_forall fun _ _ => ?_
  refine returns_bind_of_forall fun _ _ => ?_
  apply returns_compile_read_bind
  dsimp only
  split
  · apply returns_compile_pure_bind
    apply returns_compile_bind
    apply (superclasses_resolveSuperclasses cls).mono
    rintro superNames _ rfl
    refine returns_bind_of_forall fun _ _ => ?_
    apply returns_compile_bind
    apply (length_internNames _).mono
    intro supers _ counted
    apply returns_compile_bind
    apply (assignTable_assignAll _ _ _ _).mono
    intro layout _ built
    refine returns_bind_of_forall fun _ _ => ?_
    refine returns_bind_of_forall fun _ _ => ?_
    apply returns_compile_bind
    apply (numbers_fieldMembers _).mono
    intro fieldEntries _ numbered
    apply returns_compile_bind
    apply (slots_functionMembers _ _ _).mono
    intro declared _ declaredSlots
    apply returns_compile_bind
    apply (slots_implicitMembers _ _ _ _ _).mono
    intro implicit _ implicitSlots
    apply returns_compile_get_bind
    split
    · trivial
    · have fromPairs : layout = ClassLayout.assignAll ⟨_, _, cls.scope, []⟩ cls.slotKeys := built
      refine ⟨counted, numbered, layout, ?_, fun key => ?_, ?_⟩
      · rw [fromPairs]
        exact ClassLayout.nodup_assignAll_table List.nodup_nil _
      · rw [fromPairs, ClassLayout.mem_assignAll_table]
        simp
      · rw [List.map_append, declaredSlots, implicitSlots, ← List.map_append]
        rfl
  · trivial

theorem slots_compileClass (cls : ClassDecl) :
    Returns (fun _ => True) (runStep ((compileClass cls).run c) s) fun e _ =>
      e.entity.supers.length = (cls.superclasses c).length ∧
      e.entity.fields.map (·.tableIndex) = (List.range e.entity.fields.length).map (· % 65536) ∧
      ∃ layout : ClassLayout, layout.table.Nodup ∧ (∀ key, key ∈ layout.table ↔ key ∈ cls.slotKeys) ∧
        e.entity.functions.map (·.tableIndex) = cls.slotKeys.map layout.slot :=
  returns_compileClass_of_assembleClass (slots_assembleClass cls)

end Session

open Session

/-- The member tables of every entity a unit compiles to. The entity lists one superclass
entry per superclass name that resolves to a class. The fields take the slots 0, 1, …, n − 1 in
order, modulo 65536, and the table size written for them is their number, capped at 65535. The
functions take the slots of a table of the class's distinct pairs of emitted name and parameter
count, modulo 65536, so below 65536 pairs two functions share a slot exactly when they share the
pair, and the table size written for them is the number of pairs, capped at 65535. No step bounds
these numbers: each is written in two bytes, exactly while it is below 65536. -/
theorem compileUnit_numbers_members (c : Compiler) (unit : CompilationUnit) (s : Session) :
    Returns (fun _ => True) (runStep ((compileUnit unit).run c) s) fun entities _ =>
      List.Forall₂ (fun cls e =>
        e.entity.supers.length = (cls.superclasses c).length ∧
        e.entity.fields.map (·.tableIndex) = (List.range e.entity.fields.length).map (· % 65536) ∧
        tableSize (e.entity.fields.map (·.tableIndex)) = min e.entity.fields.length 65535 ∧
        ∃ table : List (String × Nat), table.Nodup ∧ (∀ key, key ∈ table ↔ key ∈ cls.slotKeys) ∧
          e.entity.functions.map (·.tableIndex) = cls.slotKeys.map (fun key => table.idxOf key % 65536) ∧
          tableSize (e.entity.functions.map (·.tableIndex)) = min table.length 65535)
        unit.classes entities := by
  unfold compileUnit
  induction unit.classes generalizing s with
  | nil => exact List.Forall₂.nil
  | cons cls rest ih =>
    rw [List.mapM_cons]
    apply returns_compile_bind
    apply (slots_compileClass cls).mono
    rintro e _ ⟨supers, numbered, layout, nodup, same, slotted⟩
    -- every pair of the class is in the table, so its slot is its position there
    have written : e.entity.functions.map (·.tableIndex) =
        cls.slotKeys.map (fun key => layout.table.idxOf key % 65536) := by
      rw [slotted]
      exact List.map_congr_left fun key listed => ClassLayout.slot_of_mem ((same key).mpr listed)
    apply returns_compile_bind
    apply (ih _).mono
    intro entities _ later
    refine returns_pure _ (.cons ⟨supers, numbered, ?_, layout.table, nodup, same, written, ?_⟩ later)
    · rw [numbered, tableSize_range_mod]
    · rw [written, tableSize_idxOf nodup same]

/-- A class that names the superclass `S` 65536 times. Every name resolves, so its entity lists
65536 superclass entries, and the count written before them, kept in two bytes, is that of no
superclass at all. -/
theorem superclass_count_wraps_to_zero :
    Returns (fun _ => True)
      (runStep ((compileUnit ⟨[⟨⟨"A", ⟨1, 7⟩⟩, 0, List.replicate 65536 ⟨"S", ⟨1, 17⟩⟩, [], 1⟩], 0⟩).run
        ⟨{}, ⟨#[⟨.unit, none, [("S", .type ⟨"demo/S"⟩)]⟩, ⟨.type ⟨"demo/A"⟩, some 0, []⟩]⟩⟩) {})
      fun entities _ => ∀ e ∈ entities,
        e.entity.supers.length = 65536 ∧ (counted beU16 e.entity.supers).take 2 = beU16 0 := by
  unfold compileUnit
  rw [List.mapM_cons]
  apply returns_compile_bind
  apply (slots_compileClass _).mono
  rintro e _ ⟨supers, -⟩
  apply returns_compile_bind
  refine returns_pure _ fun e' listed => ?_
  obtain rfl : e = e' := by simpa [eq_comm] using listed
  have many : e.entity.supers.length = 65536 := by
    rw [supers, ClassDecl.length_superclasses (List.ne_nil_of_mem (List.mem_replicate.mpr ⟨by decide, rfl⟩))
      fun super mem => ?_, List.length_replicate]
    rw [List.eq_of_mem_replicate mem]
    decide +kernel
  refine ⟨many, ?_⟩
  rw [counted, many]
  rfl

end Febc
