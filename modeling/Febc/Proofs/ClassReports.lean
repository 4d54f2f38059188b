import Febc.Proofs.StatementReports
import Febc.Proofs.Classes

/-!
# Compiling a class reports the problems of the class

Compiling a class appends to the session's diagnostics exactly the problems `classProblems` reads
off the class, and counts the errors among them as the entity's errors; a class that stops has
appended the first few of them. The problems follow the lowering and not the syntax, so a node
lowered twice is reported twice: the problems of a `finally` block appear twice, and those of the
instance field initializers once per initializer.

`Session.Reports c D m ds answer` says this of one step `m` of compiling with `c`, run from any
session whose diagnostics so far are `D`: it appends `ds` and answers a value that satisfies
`answer`, or it stops having appended a prefix of `ds`. The diagnostics so far are an index
because the entity's error count is read off them. The steps of the constant pool, the channels
and the function table are `Quiet`, and a function body reports what its lowering reports.

Main statement: `class_diagnostics_follow_translations`.
-/

namespace Febc

namespace Lowering

/-- The code of a declared function reports the instance field initializers first, if it is an
initializer, then its body, lowered outside every loop. -/
theorem reports_functionBody (env : FunctionEnv) (isInitializer : Bool) (fields : List FieldDecl) (body : Block) :
    Reports env [] [] (if isInitializer then do initializeInstance fields; lowerBlock body else lowerBlock body)
      ((if isInitializer then env.context.fieldProblems fields false else []) ++ env.context.blockProblems [] body)
      fun _ => True := by
  cases isInitializer
  · exact reports_lowerBlock body env []
  · exact (reports_initializeInstance fields).bind fun _ _ => reports_lowerBlock body env []

end Lowering

theorem ClassLayout.scope_assign (l : ClassLayout) (name : String) (arity : Nat) :
    (l.assign name arity).scope = l.scope := by
  unfold ClassLayout.assign
  split <;> rfl

namespace Session

/-! ## Steps that report -/

/-- Compiling with `c` from any session whose diagnostics are `D`, the step `m` appends the
diagnostics `ds` and answers a value that satisfies `answer`; or it stops, having appended the
first few of `ds`. -/
def Reports {α : Type} (c : Compiler) (D : List Diagnostic) (m : CompileM α) (ds : List Diagnostic)
    (answer : α → Prop) : Prop :=
  ∀ s : Session, s.diagnostics.toList = D →
    Appends Session.diagnostics s ds (fun a _ => answer a) (runStep (m.run c) s)

/-- A step of compiling that appends no diagnostic, whether it answers or stops. -/
def Quiet {α : Type} (m : CompileM α) : Prop :=
  ∀ c s, (runStep (m.run c) s).2.diagnostics = s.diagnostics

section Reports

variable {α β : Type} {c : Compiler} {D ds ds₁ ds₂ : List Diagnostic} {P Q : α → Prop}

theorem Reports.bind {m : CompileM α} {k : α → CompileM β} {Q : β → Prop}
    (first : Reports c D m ds₁ P) (rest : ∀ a, P a → Reports c (D ++ ds₁) (k a) ds₂ Q) :
    Reports c D (m >>= k) (ds₁ ++ ds₂) Q := by
  intro s before
  have split : (m >>= k).run c = m.run c >>= fun a => (k a).run c := rfl
  rw [split]
  exact (first s before).bind fun a s₁ appended holds => rest a holds s₁ (by rw [appended, before])

theorem Reports.of_eq {m : CompileM α} (reports : Reports c D m ds P) (same : ds = ds₂) :
    Reports c D m ds₂ P :=
  same ▸ reports

theorem Reports.mono {m : CompileM α} (reports : Reports c D m ds P) (weaker : ∀ a, P a → Q a) :
    Reports c D m ds Q := by
  intro s before
  have holds := reports s before
  generalize runStep (m.run c) s = r at holds
  obtain ⟨_ | a, s'⟩ := r
  · exact holds
  · exact ⟨holds.1, weaker a holds.2⟩

theorem Quiet.reports {m : CompileM α} (quiet : Quiet m) : Reports c D m [] fun _ => True := by
  intro s _
  have same := quiet c s
  generalize runStep (m.run c) s = r at same
  obtain ⟨_ | a, s'⟩ := r
  · exact ⟨[], List.nil_prefix, by simp only at same; simp [same]⟩
  · simp only at same
    exact ⟨by simp [same], trivial⟩

/-- A quiet step, then a step that reports. -/
theorem Reports.quiet_bind {m : CompileM α} {k : α → CompileM β} {Q : β → Prop} (first : Quiet m)
    (rest : ∀ a, Reports c D (k a) ds Q) : Reports c D (m >>= k) ds Q :=
  (first.reports.bind fun a _ => (List.append_nil D).symm ▸ rest a).of_eq (List.nil_append ds)

/-- A step that appends nothing but answers, then a step that reports. -/
theorem Reports.bind_nil {m : CompileM α} {k : α → CompileM β} {Q : β → Prop} (first : Reports c D m [] P)
    (rest : ∀ a, P a → Reports c D (k a) ds Q) : Reports c D (m >>= k) ds Q :=
  (first.bind fun a holds => (List.append_nil D).symm ▸ rest a holds).of_eq (List.nil_append ds)

theorem reports_pure (a : α) : Reports c D (pure a) [] (· = a) :=
  fun _ _ => ⟨by simp, rfl⟩

theorem reports_throw_bind (h : Halt) {k : α → CompileM β} {Q : β → Prop} :
    Reports c D (throw h >>= k) ds Q := by
  intro s _
  have stops : runStep ((throw h >>= k).run c) s = (.error h, s) := rfl
  rw [stops]
  exact ⟨[], List.nil_prefix, by simp⟩

theorem Reports.get_bind {k : Session → CompileM α} (rest : ∀ s, Reports c D (k s) ds P) :
    Reports c D (get >>= k) ds P :=
  fun s before => rest s s before

theorem Reports.read_bind {k : Compiler → CompileM α} (reports : Reports c D (k c) ds P) :
    Reports c D (read >>= k) ds P :=
  reports

/-- A conditional reports what its branch reports. -/
theorem Reports.ite {p : Prop} [Decidable p] {yes no : CompileM α} {dsYes dsNo : List Diagnostic}
    (onYes : Reports c D yes dsYes P) (onNo : Reports c D no dsNo P) :
    Reports c D (if p then yes else no) (if p then dsYes else dsNo) P := by
  split
  · exact onYes
  · exact onNo

theorem Reports.map {m : CompileM α} (f : α → β) (reports : Reports c D m ds P) :
    Reports c D (f <$> m) ds fun b => ∃ a, P a ∧ b = f a := by
  rw [← bind_pure_comp]
  exact (reports.bind fun a holds => (reports_pure (f a)).mono fun b same => ⟨a, holds, same⟩).of_eq
    (List.append_nil ds)

theorem reports_report (kind : DiagnosticKind) (pos : Position) (message : String) :
    Reports c D (report kind pos message) [⟨kind, pos, message⟩] fun _ => True :=
  fun _ _ => ⟨by simp, trivial⟩

/-- The error count so far is that of the diagnostics so far. -/
theorem reports_errorsSoFar : Reports c D errorsSoFar [] (· = errorCount D) :=
  fun _ before => ⟨by simp, congrArg errorCount before⟩

end Reports

/-! ## Quiet steps -/

section Quiet

variable {α β : Type}

theorem Quiet.bind {m : CompileM α} {k : α → CompileM β} (first : Quiet m) (rest : ∀ a, Quiet (k a)) :
    Quiet (m >>= k) := by
  intro c s
  have split : (m >>= k).run c = m.run c >>= fun a => (k a).run c := rfl
  rw [split, runStep_bind]
  have same := first c s
  generalize runStep (m.run c) s = r at same
  obtain ⟨_ | a, s₁⟩ := r
  · exact same
  · exact (rest a c s₁).trans same

theorem quiet_pure (a : α) : Quiet (pure a : CompileM α) := fun _ _ => rfl

theorem quiet_throw (h : Halt) : Quiet (throw h : CompileM α) := fun _ _ => rfl

theorem Quiet.ite {p : Prop} [Decidable p] {yes no : CompileM α} (onYes : Quiet yes) (onNo : Quiet no) :
    Quiet (if p then yes else no) := by
  split
  · exact onYes
  · exact onNo

theorem quiet_get_bind {k : Session → CompileM α} (rest : ∀ s, Quiet (k s)) : Quiet (get >>= k) :=
  fun c s => rest s c s

theorem quiet_modify {f : Session → Session} (keeps : ∀ s, (f s).diagnostics = s.diagnostics) :
    Quiet (modify f) :=
  fun _ s => keeps s

theorem quiet_onPool (m : PoolM α) : Quiet (onPool m) := by
  intro c s
  obtain ⟨pool, channels, diagnostics⟩ := s
  rfl

theorem quiet_onChannels (m : ChannelM α) : Quiet (onChannels m) := by
  intro c s
  obtain ⟨pool, channels, diagnostics⟩ := s
  rfl

theorem quiet_mapM {f : β → CompileM α} (each : ∀ b, Quiet (f b)) : ∀ bs : List β, Quiet (bs.mapM f)
  | [] => quiet_pure []
  | b :: bs => by
    rw [List.mapM_cons]
    exact (each b).bind fun _ => (quiet_mapM each bs).bind fun _ => quiet_pure _

theorem quiet_memberName (name : Ident) : Quiet (memberName name) := by
  unfold memberName
  split
  · exact quiet_pure _
  · exact quiet_throw _

theorem quiet_functionName (f : FunctionDecl) : Quiet (functionName f) := by
  unfold functionName
  split
  · exact quiet_pure _
  · exact quiet_memberName _

theorem quiet_declaratorMembers (flags descriptor : Nat) :
    ∀ next decls, Quiet (declaratorMembers flags descriptor next decls)
  | _, [] => quiet_pure []
  | next, (name, _) :: rest => by
    rw [declaratorMembers]
    exact (quiet_memberName name).bind fun _ => (quiet_onPool _).bind fun _ =>
      (quiet_declaratorMembers flags descriptor (next + 1) rest).bind fun _ => quiet_pure _

theorem quiet_declMembers (descriptor : Nat) : ∀ next fields, Quiet (declMembers descriptor next fields)
  | _, [] => quiet_pure []
  | next, decl :: rest => by
    rw [declMembers]
    exact (quiet_declaratorMembers _ _ _ _).bind fun here =>
      (quiet_declMembers descriptor (next + here.length) rest).bind fun _ => quiet_pure _

theorem quiet_fieldMembers (fields : List FieldDecl) : Quiet (fieldMembers fields) :=
  (quiet_onPool _).bind fun _ => quiet_declMembers _ _ _

/-- The last steps of every function entry intern its name and its descriptor. -/
theorem quiet_functionEntry (flags table : Nat) (name : String) (d : FunctionDescriptor) (attrs : List Attribute) :
    Quiet (do
      let nameIndex ← onPool (ConstantPool.internUtf8 name)
      let descriptorIndex ← onPool (ConstantPool.internUtf8 d.render)
      pure (⟨flags, nameIndex, descriptorIndex, table, attrs⟩ : Member)) :=
  (quiet_onPool _).bind fun _ => (quiet_onPool _).bind fun _ => quiet_pure _

end Quiet

/-! ## The function table and the superclasses -/

section Table

variable {c : Compiler}

theorem reports_assignFunctions (layout : ClassLayout) :
    ∀ functions {D : List Diagnostic},
      Reports c D (assignFunctions layout functions) [] (·.scope = layout.scope)
  | [] => (reports_pure layout).mono fun _ same => by rw [same]
  | f :: rest => by
    rw [assignFunctions]
    exact Reports.quiet_bind (quiet_functionName f) fun name =>
      (reports_assignFunctions _ rest).mono fun _ same => same.trans (ClassLayout.scope_assign _ _ _)

/-- Giving the functions their slots keeps the class's scope. -/
theorem reports_assignTable {D : List Diagnostic} (layout : ClassLayout) (functions : List FunctionDecl)
    (needsDefault needsStatic : Bool) :
    Reports c D (assignTable layout functions needsDefault needsStatic) [] (·.scope = layout.scope) := by
  unfold assignTable
  refine ((reports_assignFunctions layout functions).bind fun assigned same => ?_).of_eq (List.append_nil _)
  refine (reports_pure _).mono fun _ answered => ?_
  rw [answered]
  cases needsDefault <;> cases needsStatic <;> simp [same, ClassLayout.scope_assign]

/-- Each superclass name that is no class is reported, in order. -/
theorem reports_resolveClasses (scope : Nat) :
    ∀ supers {D : List Diagnostic},
      Reports c D (resolveClasses scope supers) (supers.flatMap (superProblems c scope)) fun _ => True
  | [] => (quiet_pure []).reports
  | super :: rest => by
    unfold resolveClasses
    refine Reports.read_bind ?_
    split
    next name found =>
      exact ((reports_resolveClasses scope rest).bind fun _ _ => (quiet_pure _).reports).of_eq
        (by simp [superProblems, found])
    next notClass =>
      have reported : superProblems c scope super =
          [⟨.unresolvedSymbol, super.pos, "cannot resolve superclass '" ++ super.text ++ "'"⟩] := by
        unfold superProblems
        split
        next name found => exact absurd found (notClass name)
        next => rfl
      exact ((reports_report _ _ _).bind fun _ _ => reports_resolveClasses scope rest).of_eq
        (by simp [reported])

theorem reports_resolveSuperclasses {D : List Diagnostic} (cls : ClassDecl) :
    Reports c D (resolveSuperclasses cls)
      (cls.supers.flatMap (superProblems c ((c.symbols.parent cls.scope).getD cls.scope))) fun _ => True :=
  Reports.read_bind (((reports_resolveClasses _ _).bind fun _ _ => (quiet_pure _).reports).of_eq
    (List.append_nil _))

end Table

/-! ## Function bodies and members -/

section Members

variable {c : Compiler} {D : List Diagnostic}

/-- A body reports what its lowering reports: it is lowered outside every loop, and closing it and
interning its code report nothing. -/
theorem reports_lowerBody (layout : ClassLayout) (shape : FunctionShape) (channel : Option Nat)
    {body : LowerM Unit} {ds : List Diagnostic}
    (lowers : Lowering.Reports ⟨c.symbols, layout, shape.isStatic, shape.isInitializer, shape.scope⟩ [] []
      body ds fun _ => True) :
    Reports c D (lowerBody layout shape channel body) ds fun _ => True := by
  rintro ⟨pool, channels, diagnostics⟩ -
  cases channel
  case' none =>
    simp only [lowerBody, ReaderT.run, runStep_mk]
    generalize CodeBuilder.start channels = started
  case' some ch =>
    simp only [lowerBody, ReaderT.run, runStep_mk]
    generalize CodeBuilder.onChannel channels ch = started
  all_goals
    cases started with
    | error h => exact ⟨[], List.nil_prefix, by simp⟩
    | ok code =>
      dsimp only
      have finished := ((lowers.bind fun _ _ => Lowering.quiet_finish.reports).of_eq (List.append_nil ds))
        ⟨code, pool, diagnostics, .ofBase shape.localsBase, {}⟩ rfl
      simp only [ReaderT.run] at finished
      generalize runStep _ _ = lowering at finished ⊢
      obtain ⟨_ | insns, ⟨code', pool', diagnostics', _, _⟩⟩ := lowering
      · exact finished
      · dsimp only
        generalize runStep insns.intern pool' = interned
        obtain ⟨_ | _, _⟩ := interned
        · exact ⟨ds, List.prefix_refl ds, finished.1⟩
        · exact ⟨finished.1, trivial⟩

/-- A declared function reports the problems of its body, if it has one, in its own context. -/
theorem reports_functionMember (layout : ClassLayout) (fields : List FieldDecl) (f : FunctionDecl) :
    Reports c D (functionMember layout fields f) (functionProblems c layout.scope fields f) fun _ => True := by
  unfold functionMember
  refine Reports.read_bind ?_
  dsimp only
  split
  next isStatic base kind =>
    simp only [pure_bind]
    refine Reports.quiet_bind (quiet_functionName f) fun name => ?_
    have context : functionContext c layout.scope f =
        (⟨c.symbols, layout, isStatic, f.isInitializer, f.scope⟩ : FunctionEnv).context := by
      simp [functionContext, FunctionEnv.context, kind]
    split
    next none =>
      exact (Reports.quiet_bind (quiet_pure ([] : List Attribute)) fun _ => (quiet_functionEntry _ _ _ _ _).reports).of_eq
        (by simp [functionProblems, none])
    next body some =>
      refine ((reports_lowerBody layout _ none (Lowering.reports_functionBody _ _ fields body)).bind fun _ _ =>
        (quiet_functionEntry _ _ _ _ _).reports).of_eq ?_
      simp only [functionProblems, some, context, List.append_nil]
  next other notFunction =>
    exact reports_throw_bind _

theorem reports_functionMembers (layout : ClassLayout) (fields : List FieldDecl) {classScope : Nat}
    (inClass : layout.scope = classScope) :
    ∀ functions {D : List Diagnostic}, Reports c D (functionMembers layout fields functions)
      (functions.flatMap (functionProblems c classScope fields)) fun _ => True
  | [] => (quiet_pure []).reports
  | f :: rest => by
    rw [functionMembers]
    exact ((reports_functionMember layout fields f).bind fun _ _ =>
      (reports_functionMembers layout fields inClass rest).bind fun _ _ => (quiet_pure _).reports).of_eq
      (by simp [inClass])

theorem reports_defaultInitializer (layout : ClassLayout) (fields : List FieldDecl) :
    Reports c D (defaultInitializer layout fields)
      ((initializerContext c layout.scope false).fieldProblems fields false) fun _ => True := by
  unfold defaultInitializer
  exact ((reports_lowerBody layout _ none (Lowering.reports_initializeInstance fields)).bind fun _ _ =>
    (quiet_functionEntry _ _ _ _ _).reports).of_eq (List.append_nil _)

theorem reports_staticInitializer (layout : ClassLayout) (fields : List FieldDecl) (primary : Nat) :
    Reports c D (staticInitializer layout fields primary)
      ((initializerContext c layout.scope true).fieldProblems fields true) fun _ => True := by
  unfold staticInitializer
  exact ((reports_lowerBody layout _ (some primary) (Lowering.reports_initializeFields fields true)).bind
    fun _ _ => (quiet_functionEntry _ _ _ _ _).reports).of_eq (List.append_nil _)

/-- The implicit initializers report the field initializers they lower: the instance ones for the
default initializer, then the static ones for the static initializer. -/
theorem reports_implicitMembers (layout : ClassLayout) (fields : List FieldDecl) (primary : Nat)
    (needsDefault needsStatic : Bool) {classScope : Nat} (inClass : layout.scope = classScope) :
    Reports c D (implicitMembers layout fields primary needsDefault needsStatic)
      (implicitProblems c classScope fields needsDefault needsStatic) fun _ => True := by
  unfold implicitMembers implicitProblems
  rw [← inClass]
  extract_lets continuing
  have continues : ∀ {D : List Diagnostic} ms, Reports c D (continuing ms)
      (if needsStatic then (initializerContext c layout.scope true).fieldProblems fields true else [])
      fun _ => True := fun _ =>
    Reports.ite (((reports_staticInitializer layout fields primary).bind fun _ _ => (quiet_pure _).reports).of_eq
      (List.append_nil _)) ((quiet_onChannels _).bind fun _ => quiet_pure _).reports
  cases needsDefault
  · exact (quiet_pure []).reports.bind fun ms _ => continues ms
  · exact ((reports_defaultInitializer layout fields).map _).bind fun ms _ => continues ms

end Members

/-! ## Classes -/

section Classes

variable {c : Compiler} {D : List Diagnostic}

/-- Assembling a class reports its superclasses, its declared functions and its implicit
initializers, in order, and counts the errors among them. -/
theorem reports_assembleClass (cls : ClassDecl) :
    Reports c D (assembleClass cls) (classProblems c cls) fun e =>
      e.errorCount = errorCount (classProblems c cls) := by
  unfold assembleClass
  refine (reports_errorsSoFar.bind fun errorsBefore before => ?_).of_eq (List.nil_append _)
  refine Reports.quiet_bind (quiet_modify fun _ => rfl) fun _ => Reports.read_bind ?_
  dsimp only
  split
  next name kind =>
    simp only [pure_bind, classProblems, List.append_assoc]
    refine (reports_resolveSuperclasses cls).bind fun superNames _ => ?_
    refine Reports.quiet_bind (quiet_onPool _) fun self => ?_
    refine Reports.quiet_bind (quiet_mapM (fun _ => quiet_onPool _) _) fun supers => ?_
    refine (reports_assignTable _ _ _ _).bind_nil fun layout inClass => ?_
    refine Reports.quiet_bind (quiet_onChannels _) fun primary => ?_
    refine Reports.quiet_bind (quiet_onChannels _) fun _ => ?_
    refine Reports.quiet_bind (quiet_fieldMembers _) fun fieldEntries => ?_
    refine (reports_functionMembers layout _ inClass _).bind fun declared _ => ?_
    refine ((reports_implicitMembers layout _ _ _ _ inClass).bind fun implicit _ => ?_).of_eq (List.append_nil _)
    refine Reports.get_bind fun _ => (Reports.ite (reports_throw_bind _) ?_).of_eq (ite_self _)
    refine Reports.get_bind fun _ => reports_errorsSoFar.bind_nil fun errorsAfter after =>
      (reports_pure _).mono fun e answered => ?_
    rw [answered, after, before]
    simp [errorCount_append]
  next other notClass =>
    exact reports_throw_bind _

/-- The handler of a failed class only closes the channels: the diagnostics stay those of the
failed assembly. -/
theorem reports_compileClass (cls : ClassDecl) :
    Reports c D (compileClass cls) (classProblems c cls) fun e =>
      e.errorCount = errorCount (classProblems c cls) := by
  intro s before
  unfold compileClass
  rw [runStep_tryCatch]
  have assembled := reports_assembleClass (c := c) cls s before
  generalize runStep ((assembleClass cls).run c) s = r at assembled
  obtain ⟨_ | e, s'⟩ := r
  · obtain ⟨p, reached, appended⟩ := assembled
    dsimp only
    split <;> exact ⟨p, reached, appended⟩
  · exact assembled

end Classes

/-- Compiling a class appends to the session's diagnostics the problems of the class in the order
its translation meets them, so a node translated twice is reported twice, and the entity counts
the errors among them; a class that stops has appended the first few of them. -/
theorem class_diagnostics_follow_translations (c : Compiler) (cls : ClassDecl) (s : Session) :
    ∃ p, p <+: classProblems c cls ∧
      (runStep ((compileClass cls).run c) s).2.diagnostics.toList = s.diagnostics.toList ++ p ∧
      ∀ e, (runStep ((compileClass cls).run c) s).1 = .ok e →
        p = classProblems c cls ∧ e.errorCount = errorCount (classProblems c cls) := by
  have reported := reports_compileClass (c := c) cls s rfl
  generalize runStep ((compileClass cls).run c) s = r at reported ⊢
  obtain ⟨_ | e, s'⟩ := r
  · obtain ⟨p, reached, appended⟩ := reported
    exact ⟨p, reached, appended, fun _ stopped => by cases stopped⟩
  · obtain ⟨appended, counted⟩ := reported
    refine ⟨classProblems c cls, List.prefix_refl _, appended, fun e' answered => ?_⟩
    cases answered
    exact ⟨rfl, counted⟩

/-- A `break` in a `finally` block of a function outside any loop is reported twice: the block is
lowered on the normal path and again as the handler, and the entity counts both errors. Compiled
in a new session, the class leaves exactly these two diagnostics if it answers, and the first few
of them if it stops. -/
theorem break_in_finally_reported_twice :
    Appends Session.diagnostics {}
      [⟨.breakOutsideLoop, ⟨3, 5⟩, "'break' outside of a loop"⟩,
        ⟨.breakOutsideLoop, ⟨3, 5⟩, "'break' outside of a loop"⟩]
      (fun e _ => e.errorCount = 2)
      (runStep ((compileClass ⟨⟨"Main", ⟨1, 1⟩⟩, 0, [], [.function ⟨⟨"init", ⟨1, 1⟩⟩, true, 0, [], none, 2⟩,
        .function ⟨⟨"f", ⟨1, 1⟩⟩, false, 8, [],
          some (.mk [.guarded (.mk [] none) [] (some (.mk [.breakLoop none ⟨3, 5⟩] none))] none), 2⟩], 1⟩).run
        ⟨{}, ⟨#[⟨.unit, none, []⟩, ⟨.type ⟨"demo/Main"⟩, some 0, []⟩, ⟨.function true 0, some 1, []⟩]⟩⟩) {}) := by
  have twice : classProblems ⟨{}, ⟨#[⟨.unit, none, []⟩, ⟨.type ⟨"demo/Main"⟩, some 0, []⟩,
      ⟨.function true 0, some 1, []⟩]⟩⟩
      ⟨⟨"Main", ⟨1, 1⟩⟩, 0, [], [.function ⟨⟨"init", ⟨1, 1⟩⟩, true, 0, [], none, 2⟩,
        .function ⟨⟨"f", ⟨1, 1⟩⟩, false, 8, [],
          some (.mk [.guarded (.mk [] none) [] (some (.mk [.breakLoop none ⟨3, 5⟩] none))] none), 2⟩], 1⟩ =
      [⟨.breakOutsideLoop, ⟨3, 5⟩, "'break' outside of a loop"⟩,
        ⟨.breakOutsideLoop, ⟨3, 5⟩, "'break' outside of a loop"⟩] := by
    decide
  rw [← twice]
  refine (Reports.mono (reports_compileClass _) fun e counted => ?_) {} rfl
  rw [counted, twice]
  rfl

end Session

end Febc
