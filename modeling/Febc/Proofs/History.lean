import Febc.Lowering.Output
import Febc.Proofs.ShiftLowering
import Febc.Proofs.Isolation

/-!
# Classes are compiled independently of the history

A session compiles class after class, and keeps three things from one to the next: the pool,
which every class empties first; the channels, where each class leaves the channels it opened
closed but numbered; and the diagnostics, which only grow. So a class compiled after others
runs as in a new session, on channels numbered `n` higher, after the earlier diagnostics
(`Session.shift n D`), and it answers what it answers in a new session.

The steps of compiling a class are related to their runs in a new session by `Session.Shifted`,
the session counterpart of `Renames`: most steps are related to themselves, and the steps that
name the class's primary channel name it `n` higher. Counting the errors reported so far reads
the earlier diagnostics, but a class counts only those reported while it is compiled.

Main statements:
* `Session.shifted_assembleClass`: assembling a class on a renumbered session, after earlier
  diagnostics, does what it does on the session itself;
* `Session.Reached.idle`: between classes, no channel is open and none is active.
-/

namespace Febc

/-- Channels none of which is open, none active, are the new channels renumbered after the closed
ones. -/
theorem ChannelSet.eq_shift_of_idle {cs : ChannelSet} (idle : cs.Idle) (inactive : cs.active = none) :
    cs = ({} : ChannelSet).shift cs.slots.size := by
  obtain ⟨slots, active⟩ := cs
  cases inactive
  simp only [ChannelSet.shift, Array.append_empty, Option.map_none, mk.injEq, and_true]
  apply Array.ext
  · simp
  · intro i inside _
    rw [Array.getElem_replicate]
    cases found : slots[i] with
    | none => rfl
    | some bytes => exact absurd (by rw [Array.getElem?_eq_getElem inside, found]) (idle i bytes)

namespace Session

/-- The same session on channels renumbered `n` higher, after the diagnostics `D`. -/
def shift (n : Nat) (D : Array Diagnostic) (s : Session) : Session :=
  { s with channels := s.channels.shift n, diagnostics := D ++ s.diagnostics }

/-- Compiling with `m'` on the renumbered session does what `m` does on the session itself. -/
def Shifted {α : Type} (n : Nat) (D : Array Diagnostic) (m' m : CompileM α) : Prop :=
  ∀ c, Renames (shift n D) (Halt.shift n) (m'.run c) (m.run c)

section Shifted

variable {α β : Type} {n : Nat} {D : Array Diagnostic}

theorem Shifted.bind {m' m : CompileM α} {k' k : α → CompileM β} (first : Shifted n D m' m)
    (rest : ∀ a, Shifted n D (k' a) (k a)) : Shifted n D (m' >>= k') (m >>= k) :=
  fun c => (first c).bind fun a => rest a c

theorem shifted_pure (a : α) : Shifted n D (pure a : CompileM α) (pure a) := fun _ => renames_pure a

theorem shifted_throw_bind {h : Halt} (fixed : Halt.shift n h = h) {k' k : α → CompileM β} :
    Shifted n D (throw h >>= k') (throw h >>= k) := by
  intro c
  show Renames _ _ (throw h >>= fun a => (k' a).run c) (throw h >>= fun a => (k a).run c)
  exact renames_throw_bind fixed

theorem shifted_throw {h : Halt} (fixed : Halt.shift n h = h) : Shifted n D (throw h : CompileM α) (throw h) :=
  fun _ => renames_throw fixed

theorem Shifted.map {m' m : CompileM α} (f : α → β) (shifted : Shifted n D m' m) : Shifted n D (f <$> m') (f <$> m) := by
  rw [← bind_pure_comp, ← bind_pure_comp]
  exact shifted.bind fun a => shifted_pure (f a)

theorem shifted_ite {c : Prop} [Decidable c] {yes' yes no' no : CompileM α} (onYes : Shifted n D yes' yes)
    (onNo : Shifted n D no' no) : Shifted n D (if c then yes' else no') (if c then yes else no) := by
  split
  · exact onYes
  · exact onNo

theorem shifted_read_bind {k' k : Compiler → CompileM α} (rest : ∀ c, Shifted n D (k' c) (k c)) :
    Shifted n D (read >>= k') (read >>= k) :=
  fun c => rest c c

/-- Reading the session: what follows on the renumbered session is related to what follows on the
session itself. -/
theorem shifted_get_bind {k' k : Session → CompileM α} (rest : ∀ s, Shifted n D (k' (s.shift n D)) (k s)) :
    Shifted n D (get >>= k') (get >>= k) :=
  fun c => renames_get_bind fun s => rest s c

theorem shifted_modify {h : Session → Session} (swap : ∀ s, h (s.shift n D) = (h s).shift n D) :
    Shifted n D (modify h : CompileM PUnit) (modify h) :=
  fun _ => renames_modify swap

/-- A step of the pool, which renumbering and diagnostics leave alone. -/
theorem shifted_onPool (m : PoolM α) : Shifted n D (onPool m) (onPool m) := by
  intro c s
  obtain ⟨pool, channels, diagnostics⟩ := s
  simp only [onPool, ReaderT.run, runStep_mk, shift]
  generalize runStep m pool = q
  obtain ⟨_ | _, _⟩ := q <;> rfl

/-- A step of the channels, on renumbered channels. -/
theorem shifted_onChannels {m' m : ChannelM α} (renames : Renames (ChannelSet.shift n) (Halt.shift n) m' m) :
    Shifted n D (onChannels m') (onChannels m) := by
  intro c s
  obtain ⟨pool, channels, diagnostics⟩ := s
  simp only [onChannels, ReaderT.run, runStep_mk, shift]
  rw [renames channels]

/-- Opening the primary channel numbers it `n` higher. -/
theorem shifted_add_bind {k' k : Nat → CompileM α} (rest : ∀ p, Shifted n D (k' (p + n)) (k p)) :
    Shifted n D (onChannels ChannelSet.add >>= k') (onChannels ChannelSet.add >>= k) := by
  intro c s
  obtain ⟨pool, channels, diagnostics⟩ := s
  rw [ReaderT.run_bind, ReaderT.run_bind, runStep_bind, runStep_bind]
  simp only [onChannels, ReaderT.run, runStep_mk, shift, ChannelSet.runStep_add_shift]
  exact rest channels.slots.size c ⟨pool, (runStep ChannelSet.add channels).2, diagnostics⟩

theorem shifted_report (kind : DiagnosticKind) (pos : Position) (message : String) :
    Shifted n D (report kind pos message) (report kind pos message) :=
  shifted_modify fun s => by simp [shift]

/-- Counting the errors so far counts the earlier ones too. -/
theorem shifted_errorsSoFar_bind {k' k : Nat → CompileM α}
    (rest : ∀ e, Shifted n D (k' (errorCount D.toList + e)) (k e)) :
    Shifted n D (errorsSoFar >>= k') (errorsSoFar >>= k) := by
  intro c s
  have counted : runStep (errorsSoFar.run c) (s.shift n D) =
      (.ok (errorCount (D ++ s.diagnostics).toList), s.shift n D) := rfl
  rw [ReaderT.run_bind, ReaderT.run_bind, runStep_bind, runStep_bind, counted, Array.toList_append,
    errorCount_append]
  exact rest _ c s

/-- A function body, on the renumbered channel or on a new one: the builder starts renumbered, the
lowering renames itself, and the code is interned in the same pool. -/
theorem shifted_lowerBody (layout : ClassLayout) (shape : FunctionShape) (channel : Option Nat)
    {body : LowerM Unit} (lowers : Lowering.Lowers body) :
    Shifted n D (lowerBody layout shape (channel.map (· + n)) body) (lowerBody layout shape channel body) := by
  intro c s
  obtain ⟨pool, channels, diagnostics⟩ := s
  cases channel
  case' none =>
    simp only [lowerBody, ReaderT.run, runStep_mk, shift, Option.map_none, CodeBuilder.start_shift]
    generalize CodeBuilder.start channels = started
  case' some ch =>
    simp only [lowerBody, ReaderT.run, runStep_mk, shift, Option.map_some, CodeBuilder.onChannel_shift]
    generalize CodeBuilder.onChannel channels ch = started
  all_goals
    cases started with
    | error h => rfl
    | ok code =>
      have lowered := (lowers.bind fun _ => Lowering.lowers_finish) ⟨c.symbols, layout, shape.isStatic,
        shape.isInitializer, shape.scope⟩ n D ⟨code, pool, diagnostics, .ofBase shape.localsBase, {}⟩
      simp only [ReaderT.run, Lowering.shift] at lowered
      simp only [Except.map, Except.mapError]
      rw [lowered]
      generalize runStep ((body >>= fun _ => Lowering.finish) ⟨c.symbols, layout, shape.isStatic, shape.isInitializer,
        shape.scope⟩) ⟨code, pool, diagnostics, .ofBase shape.localsBase, {}⟩ = lowering
      obtain ⟨_ | insns, ⟨code', pool', diagnostics', _, _⟩⟩ := lowering
      · rfl
      · dsimp only [Except.mapError]
        generalize runStep insns.intern pool' = interned
        obtain ⟨_ | _, _⟩ := interned <;> rfl

/-! ## Members -/

theorem shifted_memberName (name : Ident) : Shifted n D (memberName name) (memberName name) := by
  unfold memberName
  split
  · exact shifted_pure _
  · exact shifted_throw rfl

theorem shifted_functionName (f : FunctionDecl) : Shifted n D (functionName f) (functionName f) :=
  shifted_ite (shifted_pure _) (shifted_memberName _)

theorem shifted_declaratorMembers (flags descriptor : Nat) :
    ∀ next decls, Shifted n D (declaratorMembers flags descriptor next decls) (declaratorMembers flags descriptor next decls)
  | _, [] => shifted_pure _
  | next, (name, _) :: rest => (shifted_memberName name).bind fun _ => (shifted_onPool _).bind fun _ =>
    (shifted_declaratorMembers flags descriptor (next + 1) rest).bind fun _ => shifted_pure _

theorem shifted_declMembers (descriptor : Nat) :
    ∀ next fields, Shifted n D (declMembers descriptor next fields) (declMembers descriptor next fields)
  | _, [] => shifted_pure _
  | next, decl :: rest => (shifted_declaratorMembers _ descriptor next decl.decls).bind fun here =>
    (shifted_declMembers descriptor (next + here.length) rest).bind fun _ => shifted_pure _

theorem shifted_fieldMembers (fields : List FieldDecl) : Shifted n D (fieldMembers fields) (fieldMembers fields) :=
  (shifted_onPool _).bind fun descriptor => shifted_declMembers descriptor 0 fields

theorem shifted_functionMember (layout : ClassLayout) (fields : List FieldDecl) (f : FunctionDecl) :
    Shifted n D (functionMember layout fields f) (functionMember layout fields f) := by
  unfold functionMember
  refine shifted_read_bind fun c => ?_
  extract_lets arity descriptor continuing
  have continues : ∀ kind, Shifted n D (continuing kind) (continuing kind) := by
    rintro ⟨isStatic, base⟩
    dsimp -zeta only [continuing]
    refine (shifted_functionName f).bind fun name => ?_
    extract_lets finishing
    have finishes : ∀ attributes, Shifted n D (finishing attributes) (finishing attributes) := fun _ =>
      (shifted_onPool _).bind fun _ => (shifted_onPool _).bind fun _ => shifted_pure _
    split
    · exact (shifted_pure _).bind finishes
    · extract_lets blocking
      exact (shifted_lowerBody layout _ none (Lowering.lowers_ite ((Lowering.lowers_initializeInstance fields).bind
        fun _ => Lowering.lowers_lowerBlock _) (Lowering.lowers_lowerBlock _))).bind fun _ => (shifted_pure _).bind finishes
  split
  · exact (shifted_pure _).bind continues
  · exact shifted_throw_bind rfl

theorem shifted_functionMembers (layout : ClassLayout) (fields : List FieldDecl) :
    ∀ functions, Shifted n D (functionMembers layout fields functions) (functionMembers layout fields functions)
  | [] => shifted_pure _
  | f :: rest => (shifted_functionMember layout fields f).bind fun _ =>
    (shifted_functionMembers layout fields rest).bind fun _ => shifted_pure _

theorem shifted_defaultInitializer (layout : ClassLayout) (fields : List FieldDecl) :
    Shifted n D (defaultInitializer layout fields) (defaultInitializer layout fields) :=
  (shifted_lowerBody layout _ none (Lowering.lowers_initializeInstance fields)).bind fun _ =>
    (shifted_onPool _).bind fun _ => (shifted_onPool _).bind fun _ => shifted_pure _

/-- The static initializer, built on the primary channel, whatever its number. -/
theorem shifted_staticInitializer (layout : ClassLayout) (fields : List FieldDecl) (primary : Nat) :
    Shifted n D (staticInitializer layout fields (primary + n)) (staticInitializer layout fields primary) :=
  (shifted_lowerBody layout _ (some primary) (Lowering.lowers_initializeFields fields true)).bind fun _ =>
    (shifted_onPool _).bind fun _ => (shifted_onPool _).bind fun _ => shifted_pure _

/-- The implicit initializers, and the primary channel closed unused without a static one. -/
theorem shifted_implicitMembers (layout : ClassLayout) (fields : List FieldDecl) (primary : Nat)
    (needsDefault needsStatic : Bool) :
    Shifted n D (implicitMembers layout fields (primary + n) needsDefault needsStatic)
      (implicitMembers layout fields primary needsDefault needsStatic) := by
  unfold implicitMembers
  extract_lets closing' closing
  have closes : ∀ instanceInit, Shifted n D (closing' instanceInit) (closing instanceInit) := fun _ =>
    shifted_ite ((shifted_staticInitializer layout fields primary).bind fun _ => shifted_pure _)
      ((shifted_onChannels (ChannelSet.renumbers_remove n primary)).bind fun _ => shifted_pure _)
  exact shifted_ite (((shifted_defaultInitializer layout fields).map _).bind closes) ((shifted_pure _).bind closes)

/-! ## Classes -/

theorem shifted_resolveClasses (scope : Nat) :
    ∀ supers, Shifted n D (resolveClasses scope supers) (resolveClasses scope supers)
  | [] => shifted_pure _
  | super :: rest => by
    rw [resolveClasses]
    refine shifted_read_bind fun c => ?_
    split
    · exact (shifted_resolveClasses scope rest).bind fun _ => shifted_pure _
    · exact (shifted_report _ _ _).bind fun _ => shifted_resolveClasses scope rest

theorem shifted_resolveSuperclasses (cls : ClassDecl) :
    Shifted n D (resolveSuperclasses cls) (resolveSuperclasses cls) :=
  shifted_read_bind fun _ => (shifted_resolveClasses _ _).bind fun _ => shifted_pure _

theorem shifted_assignFunctions :
    ∀ (layout : ClassLayout) functions, Shifted n D (assignFunctions layout functions) (assignFunctions layout functions)
  | _, [] => shifted_pure _
  | layout, f :: rest => (shifted_functionName f).bind fun name =>
    shifted_assignFunctions (layout.assign name f.params.length) rest

theorem shifted_assignTable (layout : ClassLayout) (functions : List FunctionDecl) (needsDefault needsStatic : Bool) :
    Shifted n D (assignTable layout functions needsDefault needsStatic)
      (assignTable layout functions needsDefault needsStatic) :=
  (shifted_assignFunctions layout functions).bind fun _ => shifted_pure _

theorem shifted_internNames :
    ∀ names : List BinaryName, Shifted n D (names.mapM fun s => onPool s.intern) (names.mapM fun s => onPool s.intern)
  | [] => by
    rw [List.mapM_nil]
    exact shifted_pure _
  | name :: rest => by
    rw [List.mapM_cons]
    exact (shifted_onPool _).bind fun _ => (shifted_internNames rest).bind fun _ => shifted_pure _

/-- Assembling a class on the renumbered session after earlier diagnostics does what it does on the
session itself: its primary channel is numbered `n` higher, the check for open channels sees only
the class's own, and its error count leaves the earlier errors out. -/
theorem shifted_assembleClass (cls : ClassDecl) : Shifted n D (assembleClass cls) (assembleClass cls) := by
  unfold assembleClass
  refine shifted_errorsSoFar_bind fun errorsBefore => ?_
  refine (shifted_modify fun _ => by rfl).bind fun _ => shifted_read_bind fun c => ?_
  extract_lets fields functions needsDefault needsStatic building' building
  have builds : ∀ name, Shifted n D (building' name) (building name) := by
    intro name
    dsimp -zeta only [building', building]
    refine (shifted_resolveSuperclasses cls).bind fun superNames => (shifted_onPool _).bind fun _ =>
      (shifted_internNames superNames).bind fun _ => (shifted_assignTable _ _ _ _).bind fun layout =>
      shifted_add_bind fun primary => ?_
    refine (shifted_onChannels (ChannelSet.renumbers_setActive n primary)).bind fun _ =>
      (shifted_fieldMembers _).bind fun _ => (shifted_functionMembers _ _ _).bind fun _ =>
      (shifted_implicitMembers _ _ primary _ _).bind fun _ => shifted_get_bind fun s => ?_
    extract_lets finishing' finishing
    -- the class counts only the errors reported while it was compiled
    have finishes : ∀ u, Shifted n D (finishing' u) (finishing u) := by
      intro u
      dsimp -zeta only [finishing', finishing]
      refine shifted_get_bind fun s' => shifted_errorsSoFar_bind fun errorsAfter => ?_
      rw [Nat.add_sub_add_left]
      exact shifted_pure _
    -- the channels put before are closed, so only the class's own can be open
    rw [show (s.shift n D).channels.openCount = s.channels.openCount from ChannelSet.openCount_shift n s.channels]
    exact shifted_ite (shifted_throw_bind rfl) (finishes ())
  split
  · exact (shifted_pure _).bind builds
  · exact shifted_throw_bind rfl

end Shifted

/-! ## Sessions reached by compiling classes -/

/-- The sessions a compiler reaches from a new one by compiling classes one after another, none of
which breaks a promise: the histories of units compiled by one session. -/
inductive Reached (c : Compiler) : Session → Prop
  | new : Reached c {}
  | compiled {s s' : Session} {r : Except Halt CompiledEntity} (cls : ClassDecl) (reached : Reached c s)
      (ran : runStep ((compileClass cls).run c) s = (r, s')) (proper : ∀ v, r ≠ .error (.violation v)) :
      Reached c s'

variable {c : Compiler}

/-- Between classes no channel is open and none is active. -/
theorem Reached.idle {s : Session} (reached : s.Reached c) : s.channels.Idle ∧ s.channels.active = none := by
  induction reached with
  | new => exact ⟨ChannelSet.idle_empty, rfl⟩
  | compiled cls _ ran proper ih => exact compileClass_idle cls ih.1 ran proper

/-- Compiling a unit compiles its classes one after another, so a unit that breaks no promise
leaves a reached session. -/
theorem Reached.compileUnit (unit : CompilationUnit) {s s' : Session} {r : Except Halt (List CompiledEntity)}
    (reached : s.Reached c) (ran : runStep ((Session.compileUnit unit).run c) s = (r, s'))
    (proper : ∀ v, r ≠ .error (.violation v)) : s'.Reached c := by
  unfold Session.compileUnit at ran
  generalize unit.classes = classes at ran
  induction classes generalizing s r with
  | nil =>
    cases ran
    exact reached
  | cons cls rest ih =>
    rw [List.mapM_cons, ReaderT.run_bind, runStep_bind] at ran
    generalize compiled : runStep ((compileClass cls).run c) s = first at ran
    obtain ⟨_ | e, s₁⟩ := first
    · cases ran
      exact .compiled cls reached compiled fun v stop => proper v (by cases stop; rfl)
    · dsimp only at ran
      rw [ReaderT.run_bind, runStep_bind] at ran
      generalize more : runStep ((rest.mapM compileClass).run c) s₁ = others at ran
      obtain ⟨_ | es, s₂⟩ := others
      · cases ran
        exact ih (.compiled cls reached compiled nofun) proper more
      · cases ran
        refine ih (.compiled cls reached compiled nofun) ?_ more
        exact fun _ => nofun

/-- Generating a unit compiles it, then writes its entities without touching the session. -/
theorem Reached.generate (unit : CompilationUnit) {s s' : Session} {r : Except Halt Summary}
    (reached : s.Reached c) (ran : runStep ((Session.generate unit).run c) s = (r, s'))
    (proper : ∀ v, r ≠ .error (.violation v)) : s'.Reached c := by
  unfold Session.generate at ran
  rw [ReaderT.run_bind, runStep_bind] at ran
  generalize compiled : runStep ((Session.compileUnit unit).run c) s = q at ran
  obtain ⟨_ | entities, s₁⟩ := q
  · cases ran
    exact reached.compileUnit unit compiled fun v stop => proper v (by cases stop; rfl)
  · have written : s' = s₁ := by
      dsimp only at ran
      rw [ReaderT.run_bind, runStep_bind, show runStep ((read : CompileM Compiler).run c) s₁ = (.ok c, s₁) from rfl] at ran
      dsimp only at ran
      split at ran <;> cases ran <;> rfl
    rw [written]
    exact reached.compileUnit unit compiled nofun

/-- Assembling a class reads no pool: it empties the pool before anything reads it. -/
theorem assembleClass_pool (cls : ClassDecl) (s : Session) (p : ConstantPool) :
    runStep ((assembleClass cls).run c) { s with pool := p } = runStep ((assembleClass cls).run c) s := by
  have counted : ∀ st : Session, runStep (errorsSoFar.run c) st = (.ok (errorCount st.diagnostics.toList), st) :=
    fun _ => rfl
  have reset : ∀ st : Session,
      runStep ((modify fun s : Session => { s with pool := {} } : CompileM PUnit).run c) st = (.ok (), { st with pool := {} }) :=
    fun _ => rfl
  unfold assembleClass
  rw [ReaderT.run_bind, runStep_bind, runStep_bind, counted, counted]
  dsimp only
  rw [ReaderT.run_bind, runStep_bind, runStep_bind, reset, reset]

/-- A class compiled between others, where no channel is open and none active, is assembled as in a
new session: the answer is the same, a channel a violation names numbered after the closed
channels, and the session is the new session's renumbered, after the earlier diagnostics. -/
theorem assembleClass_of_idle (cls : ClassDecl) {s : Session} (idle : s.channels.Idle)
    (inactive : s.channels.active = none) :
    runStep ((assembleClass cls).run c) s =
      ((runStep ((assembleClass cls).run c) {}).1.mapError (Halt.shift s.channels.slots.size),
        (runStep ((assembleClass cls).run c) {}).2.shift s.channels.slots.size s.diagnostics) := by
  have renumbered : ({ ({} : Session) with pool := s.pool }).shift s.channels.slots.size s.diagnostics = s := by
    obtain ⟨pool, channels, diagnostics⟩ := s
    simp only [shift, Array.append_empty]
    rw [← ChannelSet.eq_shift_of_idle idle inactive]
  have ran := shifted_assembleClass (n := s.channels.slots.size) (D := s.diagnostics) cls c
    { ({} : Session) with pool := s.pool }
  rw [renumbered, assembleClass_pool] at ran
  exact ran

end Session

open Session

/-- Classes are compiled independently of the history. In a session reached by compiling classes
one after another, compiling a class answers what compiling it in a new session answers: the same
entity with the same error count, or the same error (a violation naming a channel names it after
the closed ones). The session's diagnostics become the earlier ones followed by those the class
reports in a new session, and an entity's error count is the number of errors among these. -/
theorem compileClass_independent_of_history {c : Compiler} {s : Session} (reached : s.Reached c) (cls : ClassDecl) :
    (runStep ((compileClass cls).run c) s).1 =
        (runStep ((compileClass cls).run c) {}).1.mapError (Halt.shift s.channels.slots.size) ∧
    (runStep ((compileClass cls).run c) s).2.diagnostics =
        s.diagnostics ++ (runStep ((compileClass cls).run c) {}).2.diagnostics ∧
    ∀ e, (runStep ((compileClass cls).run c) s).1 = .ok e →
      e.errorCount = errorCount (runStep ((compileClass cls).run c) {}).2.diagnostics.toList := by
  obtain ⟨idle, inactive⟩ := reached.idle
  have assembled := Session.assembleClass_of_idle (c := c) cls idle inactive
  have counted := @Session.returns_assembleClass c (fun _ => True) {} (fun _ _ => trivial) cls
    (.inr fun _ _ => ⟨trivial, trivial⟩) ChannelSet.idle_empty
  generalize stopped : runStep ((assembleClass cls).run c) {} = fresh at assembled counted
  obtain ⟨halt | entity, s₁⟩ := fresh
  · cases halt with
    | error e =>
      rw [compileClass_of_error stopped, compileClass_of_error assembled]
      exact ⟨rfl, rfl, nofun⟩
    | violation v =>
      rw [compileClass_of_violation stopped, compileClass_of_violation assembled]
      exact ⟨rfl, rfl, nofun⟩
  · rw [compileClass_of_ok stopped, compileClass_of_ok assembled]
    refine ⟨rfl, rfl, ?_⟩
    rintro e ⟨⟩
    simpa [errorCount] using counted.2.2.2

theorem compileClass_independent_of_history_of_new_session :
    ({} : Session).Reached mainCompiler ∧
    (runStep ((compileClass returningClass).run mainCompiler) {}).1 =
        (runStep ((compileClass returningClass).run mainCompiler) {}).1.mapError
          (Halt.shift ({} : Session).channels.slots.size) ∧
    (runStep ((compileClass returningClass).run mainCompiler) {}).2.diagnostics =
        ({} : Session).diagnostics ++ (runStep ((compileClass returningClass).run mainCompiler) {}).2.diagnostics ∧
    ∀ e, (runStep ((compileClass returningClass).run mainCompiler) {}).1 = .ok e →
      e.errorCount = errorCount (runStep ((compileClass returningClass).run mainCompiler) {}).2.diagnostics.toList :=
  ⟨.new, compileClass_independent_of_history .new _⟩

end Febc
