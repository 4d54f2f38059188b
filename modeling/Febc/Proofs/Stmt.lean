import Febc.Proofs.Resources

/-!
# The induction over statements

Every statement, lowered where the stack is empty, leaves it empty and leaves the labels, the
loops, the private slots and the rows around it as it found them: `Leaves env _ 0 0`. The
constructs are proved over the steps they are made of; the mutual induction only fills those in.

Main statements:
* `runs_lowerClauses`, `leaves_ifChain`: an `if` chain, whose taken clauses jump to its end;
* `leaves_lowerStmt`, `leaves_lowerStmts`, `leaves_lowerBlock`: every statement, list of
  statements and block is balanced;
* `loops_resolve_to_their_targets`: where loops are left and continued;
* `guarded_block_layout`: how a guarded block lays out its body, its clauses and the two copies of
  its `finally` block, and the rows it adds;
* `resource_block_layout`: how a resource block opens its resources, runs its body and closes the
  resources, the last opened first, and the rows it adds.
-/

namespace Febc

namespace Lowering

open CodeBuilder

section Simple

variable {env : FunctionEnv} {s : Lowering} {h : Nat → Nat}

/-- An instruction that never falls through, such as a `throw` or a return, leaves the code after
it unreachable. -/
theorem runs_stop {o : Opcode} {k : Nat} {e : Int} (plain : o.isJump = false ∧ o.isInvoke = false)
    (bare : o.operands = []) (stops : o.isUnconditional = true) (effect : o.stackEffect = some e) (room : o.pops ≤ k)
    (result : ((0 : Nat) : Int) = k + e)
    (returns : (o = .ret → env.isInitializer = true) ∧ (o = .retA → env.isInitializer = false))
    (holds : s.Holds k) :
    Runs env s h (op o []) fun _ s' _ => Contained [] s s' ∧ s'.code.depth = none := by
  apply (runs_op plain (by rw [bare]; rfl) (fun _ _ absent => absurd absent List.not_mem_nil) holds
    effect room result returns (Instruction.refers_of_bare bare)).mono
  rintro _ s' h' - - ⟨contained, -, depth⟩
  rw [stops] at depth
  exact ⟨contained, depth⟩

/-- Such an instruction ends what is reached: the stack after it is empty. -/
theorem leaves_stop {o : Opcode} {k : Nat} {e : Int} (plain : o.isJump = false ∧ o.isInvoke = false)
    (bare : o.operands = []) (stops : o.isUnconditional = true) (effect : o.stackEffect = some e) (room : o.pops ≤ k)
    (result : ((0 : Nat) : Int) = k + e)
    (returns : (o = .ret → env.isInitializer = true) ∧ (o = .retA → env.isInitializer = false)) :
    Leaves env (op o []) k 0 := fun _ _ holds =>
  (runs_stop plain bare stops effect room result returns holds).mono
    fun _ _ _ _ _ ⟨contained, depth⟩ => ⟨Or.inr ⟨depth, rfl⟩, contained⟩

/-- A step that ends balanced, whatever else it is known to do. -/
theorem Leaves.of_runs {m : LowerM Unit} {k k' : Nat} {more : Lowering → Lowering → Prop}
    (runs : ∀ s h, s.Holds k → Runs env s h m fun _ s' _ => s'.Holds k' ∧ Contained [] s s' ∧ more s s') :
    Leaves env m k k' := fun s h holds =>
  (runs s h holds).mono fun _ _ _ _ _ facts => ⟨facts.1, facts.2.1⟩

theorem leaves_throw : Leaves env (op .throw []) 1 0 :=
  leaves_stop ⟨rfl, rfl⟩ rfl rfl rfl (Nat.le_refl 1) rfl ⟨nofun, nofun⟩

/-- Declaring variables pushes each initial value, or null, and pops it into its local. -/
theorem leaves_lowerDecls (decls : List (Ident × Option Expr)) : Leaves env (lowerDecls decls) 0 0 := by
  induction decls with
  | nil => exact leaves_pure 0
  | cons decl rest ih =>
    obtain ⟨name, init⟩ := decl
    have stores : Leaves env (do storeDeclared (← read).scope name; lowerDecls rest) 1 0 :=
      Leaves.read_bind ((leaves_storeDeclared _ name 0).seq fun _ => ih)
    cases init with
    | some e =>
      rw [lowerDecls]
      exact (leaves_lowerExpr e env 0).seq fun _ => stores
    | none =>
      rw [lowerDecls]
      exact (leaves_pushNull 0).seq fun _ => stores

/-- A return ends what is reached. An initializer returns nothing, and drops a value it is given;
any other function returns its value, or null. -/
theorem leaves_lowerReturn (value : Option Expr) (pos : Position) : Leaves env (lowerReturn value pos) 0 0 := by
  unfold lowerReturn
  apply Leaves.read_bind
  split
  · rename_i initializer
    have returns : Leaves env (op .ret []) 0 0 :=
      leaves_stop ⟨rfl, rfl⟩ rfl rfl rfl (Nat.le_refl 0) rfl ⟨fun _ => initializer, nofun⟩
    cases value with
    | some v =>
      exact (leaves_report _ _ _ 0).seq fun _ => (leaves_lowerExpr v env 0).seq fun _ =>
        (leaves_pop 0).seq fun _ => returns
    | none => exact (leaves_pure 0).seq fun _ => returns
  · rename_i other
    have returns : Leaves env (op .retA []) 1 0 :=
      leaves_stop ⟨rfl, rfl⟩ rfl rfl rfl (Nat.le_refl 1) rfl ⟨nofun, fun _ => by simpa using other⟩
    cases value with
    | some v => exact (leaves_lowerExpr v env 0).seq fun _ => returns
    | none => exact (leaves_pushNull 0).seq fun _ => returns

end Simple

section Clauses

variable {env : FunctionEnv} {s : Lowering} {h : Nat → Nat}

/-- The clauses of an `if` chain: each tests its condition, jumping to the next clause when it
fails, runs its block, and jumps to the end of the chain unless nothing follows it. -/
theorem runs_lowerClauses (after : Nat) (hasElse : Bool) (clauses : List (Expr × Block))
    (blocks : ∀ test b, (test, b) ∈ clauses → Leaves env (lowerBlock b) 0 0)
    (empty : s.Holds 0) (waits : s.Waits after) :
    Runs env s h (lowerClauses after hasElse clauses) fun _ s' _ =>
      s'.Holds 0 ∧ Contained [after] s s' ∧ s'.Waits after := by
  induction clauses generalizing s h with
  | nil => exact runs_pure () ⟨empty, .refl [after] s, waits⟩
  | cons clause rest ih =>
    obtain ⟨test, body⟩ := clause
    rw [lowerClauses]
    apply Runs.bind runs_freshLabel
    rintro next s₁ h₁ - - ⟨rfl, fresh₁, contained₁, depth₁, -, -⟩
    have apart : after ≠ s.code.labels.size := by
      obtain ⟨fixups, r, unplaced, -⟩ := waits
      exact Nat.ne_of_lt (Array.getElem?_eq_some_iff.mp unplaced).1
    apply Runs.bind (runs_lowerCondition test fresh₁ (by unfold Holds; rw [depth₁]; exact empty) (by simp))
    rintro _ s₂ h₂ - - ⟨contained₂, depth₂, o, -, waiting₂, -, -⟩
    apply Runs.bind (blocks test body (List.mem_cons_self ..) s₂ h₂ (Or.inl depth₂))
    rintro _ s₃ h₃ - - ⟨holds₃, contained₃⟩
    have waits₃ : s₃.Waits after :=
      waits.keep ((contained₁.trans contained₂).trans contained₃).toSpans (by simpa using apart)
    apply Runs.bind_ite (runs_jumpIf _ waits₃ holds₃)
    rintro _ s₄ h₄ - - ⟨holds₄, contained₄, waits₄, -⟩
    have waitsNext : s₄.Waits s.code.labels.size :=
      ⟨_, _, (contained₃.trans contained₄).keeps waiting₂ (by simpa [eq_comm] using apart),
        fun d same => (Option.some.inj same).symm⟩
    apply Runs.bind (runs_placeWaiting waitsNext holds₄)
    rintro _ s₅ h₅ - - ⟨holds₅, contained₅, placed₅⟩
    apply (ih (fun t b mem => blocks t b (List.mem_cons_of_mem _ mem)) holds₅
      (waits₄.keep contained₅.toSpans (by simpa using apart))).mono
    rintro _ s₆ h₆ - - ⟨holds₆, contained₆, waits₆⟩
    refine ⟨holds₆, (contained₁.trans contained₂ |>.trans contained₃ |>.trans contained₄ |>.trans contained₅
      |>.trans contained₆).shrink fun l mine => ?_, waits₆⟩
    have which : l = s.code.labels.size ∨ l = after := by
      simp only [List.mem_append, List.mem_cons, List.not_mem_nil, or_false] at mine
      omega
    rcases which with rfl | rfl
    · exact Or.inr ⟨Nat.le_refl _, _, contained₆.keeps placed₅ (by simpa [eq_comm] using apart)⟩
    · exact Or.inl (List.mem_singleton_self _)

/-- An `if` chain leaves the stack as it found it; its end is where every taken clause goes. -/
theorem leaves_ifChain (clauses : List (Expr × Block)) (otherwise : Option Block)
    (blocks : ∀ test b, (test, b) ∈ clauses → Leaves env (lowerBlock b) 0 0)
    (elses : ∀ b ∈ otherwise, Leaves env (lowerBlock b) 0 0) :
    Leaves env (lowerStmt (.ifChain clauses otherwise)) 0 0 := by
  intro s h empty
  rw [lowerStmt]
  apply Runs.bind runs_freshLabel
  rintro after s₁ h₁ - - ⟨rfl, fresh₁, contained₁, depth₁, -, -⟩
  apply Runs.bind (runs_lowerClauses _ otherwise.isSome clauses blocks (by unfold Holds; rw [depth₁]; exact empty)
    (.fresh fresh₁))
  rintro _ s₂ h₂ - - ⟨holds₂, contained₂, waits₂⟩
  have ending : ∀ t g, t.Holds 0 → Contained [] s₂ t → t.Waits s.code.labels.size →
      Runs env t g (place s.code.labels.size) fun _ s' _ => s'.Holds 0 ∧ Contained [] s s' := by
    intro t g holds contained waits
    apply (runs_placeWaiting waits holds).mono
    rintro _ s' h' - - ⟨holds', contained', placed'⟩
    refine ⟨holds', (contained₁.trans contained₂ |>.trans contained |>.trans contained').close
      (fun l mine => ?_) (fun l mine => ?_)⟩ <;>
      obtain rfl : l = s.code.labels.size := by simpa using mine
    · exact Nat.le_refl _
    · exact ⟨_, placed'⟩
  cases otherwise with
  | none => exact ending s₂ h₂ holds₂ (.refl [] s₂) waits₂
  | some b =>
    apply Runs.bind (elses b rfl s₂ h₂ holds₂)
    rintro _ s₃ h₃ - - ⟨holds₃, contained₃⟩
    exact ending s₃ h₃ holds₃ contained₃ (waits₂.keep contained₃.toSpans List.not_mem_nil)

end Clauses

/-! ## The induction -/

mutual

/-- Every statement leaves the stack empty, as it found it. -/
theorem leaves_lowerStmt (st : Stmt) (env : FunctionEnv) : Leaves env (lowerStmt st) 0 0 := by
  cases st with
  | block b =>
    rw [lowerStmt]
    exact leaves_lowerBlock b env
  | declare _ decls =>
    rw [lowerStmt]
    exact leaves_lowerDecls decls
  | eval e =>
    rw [lowerStmt]
    exact (leaves_lowerExpr e env 0).seq fun _ => leaves_pop 0
  | ifChain clauses otherwise =>
    refine leaves_ifChain clauses otherwise (leaves_clauseBlocks clauses env) ?_
    cases otherwise with
    | none => exact nofun
    | some b =>
      rintro b' ⟨⟩
      exact leaves_lowerBlock b env
  | whileLoop label test body =>
    rw [lowerStmt]
    exact Leaves.of_runs fun s h empty => runs_whileLoop label test (leaves_lowerBlock body env) empty
  | forEach label var iterable body =>
    rw [lowerStmt]
    exact Leaves.of_runs fun s h empty => runs_forEach label var iterable body.scope (leaves_lowerBlock body env) empty
  | breakLoop label pos =>
    rw [lowerStmt]
    exact Leaves.of_runs fun s h empty => runs_lowerBreak label pos empty
  | continueLoop label pos =>
    rw [lowerStmt]
    exact Leaves.of_runs fun s h empty => runs_lowerContinue label pos empty
  | returnValue value pos =>
    rw [lowerStmt]
    exact leaves_lowerReturn value pos
  | throwValue e pos =>
    rw [lowerStmt]
    exact (leaves_lowerExpr e env 0).seq fun _ => leaves_throw
  | guarded body catches always =>
    cases always with
    | none =>
      rw [lowerStmt]
      exact Leaves.of_runs fun s h empty =>
        runs_guarded (leaves_lowerBlock body env) (leaves_catchBlocks catches env) nofun empty
    | some fin =>
      rw [lowerStmt]
      exact Leaves.of_runs fun s h empty => runs_guarded (leaves_lowerBlock body env)
        (leaves_catchBlocks catches env) (fun _ same => Option.some.inj same ▸ leaves_lowerBlock fin env) empty
  | synchronized lock body =>
    rw [lowerStmt]
    exact leaves_synchronized (leaves_lowerExpr lock env 0) (leaves_lowerBlock body env)
  | withResources resources body =>
    rw [lowerStmt]
    exact leaves_with resources body.scope (leaves_lowerBlock body env)
  | empty =>
    rw [lowerStmt]
    exact leaves_pure 0

/-- Statements one after the other leave the stack empty. -/
theorem leaves_lowerStmts (sts : List Stmt) (env : FunctionEnv) : Leaves env (lowerStmts sts) 0 0 := by
  cases sts with
  | nil =>
    rw [lowerStmts]
    exact leaves_pure 0
  | cons st rest =>
    rw [lowerStmts]
    exact (leaves_lowerStmt st env).seq fun _ => leaves_lowerStmts rest env

/-- A block leaves the stack empty, in whatever scope it opens. -/
theorem leaves_lowerBlock (b : Block) (env : FunctionEnv) : Leaves env (lowerBlock b) 0 0 := by
  cases b with
  | mk stmts scope =>
    rw [lowerBlock]
    cases scope with
    | none => exact leaves_lowerStmts stmts env
    | some n => exact Leaves.withScope (leaves_lowerStmts stmts _)

/-- The blocks of catch clauses. -/
theorem leaves_catchBlocks (catches : List Catch) (env : FunctionEnv) :
    ∀ filters param b, Catch.mk filters param b ∈ catches → Leaves env (lowerBlock b) 0 0 := by
  cases catches with
  | nil => exact fun _ _ _ absent => absurd absent List.not_mem_nil
  | cons c rest =>
    cases c with
    | mk filters param body =>
      intro filters' param' b mem
      rcases List.mem_cons.mp mem with same | later
      · cases same
        exact leaves_lowerBlock body env
      · exact leaves_catchBlocks rest env filters' param' b later

/-- The blocks of the clauses of an `if` chain. -/
theorem leaves_clauseBlocks (clauses : List (Expr × Block)) (env : FunctionEnv) :
    ∀ test b, (test, b) ∈ clauses → Leaves env (lowerBlock b) 0 0 := by
  cases clauses with
  | nil => exact fun _ _ absent => absurd absent List.not_mem_nil
  | cons clause rest =>
    obtain ⟨test, body⟩ := clause
    intro test' b mem
    rcases List.mem_cons.mp mem with same | later
    · cases same
      exact leaves_lowerBlock body env
    · exact leaves_clauseBlocks rest env test' b later

end

/-! ## Where loops are left and continued -/

/-- A statement's loop is left and continued where it should be. A `while` loop starts with its
test and a `for` loop where it loads its iterator again; each jumps back to its start, and its test
jumps to just after that jump back, as does every `break` recorded against the loop anywhere in its
body. A `break` or a `continue` takes the innermost open loop it may name: a `break` records its
jump against that loop, and a `continue` jumps to where the loop's `continue` label stands. One
that names no open loop emits nothing and reports one problem. No `break` waits once every loop
is left. -/
theorem loops_resolve_to_their_targets (env : FunctionEnv) (s : Lowering) (h : Nat → Nat) (empty : s.Holds 0) :
    (∀ label test body, Runs env s h (lowerStmt (.whileLoop label test body)) fun _ s' _ =>
      Loop env s label (lowerBlock body) s.code.code.size s') ∧
    (∀ label var iterable body, Runs env s h (lowerStmt (.forEach label var iterable body)) fun _ s' _ =>
      ∃ start, (⟨start, .loadA, [s.locals.next]⟩ : Instruction) ∈ s'.code.instructions ∧
        Loop env s label (lowerBlock body) start s') ∧
    (∀ label pos, Runs env s h (lowerStmt (.breakLoop label pos)) fun _ s' _ =>
      (∀ frame, s.loops.find? (label.map (·.text)) = some frame →
        s'.code.instructions = s.code.instructions ++ [⟨s.code.code.size, .jump, [0]⟩] ∧
          s'.loops = s.loops.recordBreak frame.identifier (s.code.code.size + 1)) ∧
      (s.loops.find? (label.map (·.text)) = none →
        s'.code = s.code ∧ ∃ d, s'.diagnostics = s.diagnostics.push d ∧ d.kind = missingLoop true label s.loops)) ∧
    (∀ label pos, Runs env s h (lowerStmt (.continueLoop label pos)) fun _ s' _ =>
      (∀ frame, s.loops.find? (label.map (·.text)) = some frame → ∃ p,
        s.code.labels[frame.continueLabel]? = some (.placed p) ∧
          s'.code.instructions = s.code.instructions ++ [⟨s.code.code.size, .jump, [p]⟩]) ∧
      (s.loops.find? (label.map (·.text)) = none →
        s'.code = s.code ∧ ∃ d, s'.diagnostics = s.diagnostics.push d ∧ d.kind = missingLoop false label s.loops)) ∧
    (Sound env.isInitializer s h → s.loops.frames = [] → s.loops.breaks = []) := by
  refine ⟨fun label test body => ?_, fun label var iterable body => ?_, fun label pos => ?_, fun label pos => ?_, ?_⟩
  · rw [lowerStmt]
    exact (runs_whileLoop label test (leaves_lowerBlock body env) empty).mono fun _ _ _ _ _ ⟨_, _, loop⟩ => loop
  · rw [lowerStmt]
    exact (runs_forEach label var iterable body.scope (leaves_lowerBlock body env) empty).mono
      fun _ _ _ _ _ ⟨_, _, start, _, loads, loop⟩ => ⟨start, loads, loop⟩
  · rw [lowerStmt]
    apply (runs_lowerBreak label pos empty).mono
    rintro _ s' _ - - ⟨-, -, found, missing⟩
    refine ⟨fun frame named => ?_, fun none => ?_⟩
    · obtain ⟨instructions, loops, -⟩ := found frame named
      exact ⟨instructions, loops⟩
    · obtain ⟨code, -, reported⟩ := missing none
      exact ⟨code, reported⟩
  · rw [lowerStmt]
    apply (runs_lowerContinue label pos empty).mono
    rintro _ s' _ - - ⟨-, -, found, missing⟩
    refine ⟨found, fun none => ?_⟩
    obtain ⟨code, -, reported⟩ := missing none
    exact ⟨code, reported⟩
  · intro sound left
    apply List.eq_nil_iff_forall_not_mem.mpr
    intro r waiting
    have opened := (sound.breaks r waiting).1
    rw [left] at opened
    exact List.not_mem_nil opened

theorem loops_resolve_to_their_targets_from_entry :
    Sound (default : FunctionEnv).isInitializer entry (fun _ => 0) ∧ entry.Holds 0 ∧
    (∀ label test body, Runs default entry (fun _ => 0) (lowerStmt (.whileLoop label test body)) fun _ s' _ =>
      Loop default entry label (lowerBlock body) entry.code.code.size s') ∧
    (∀ label var iterable body, Runs default entry (fun _ => 0) (lowerStmt (.forEach label var iterable body))
      fun _ s' _ => ∃ start, (⟨start, .loadA, [entry.locals.next]⟩ : Instruction) ∈ s'.code.instructions ∧
        Loop default entry label (lowerBlock body) start s') ∧
    (∀ label pos, Runs default entry (fun _ => 0) (lowerStmt (.breakLoop label pos)) fun _ s' _ =>
      (∀ frame, entry.loops.find? (label.map (·.text)) = some frame →
        s'.code.instructions = entry.code.instructions ++ [⟨entry.code.code.size, .jump, [0]⟩] ∧
          s'.loops = entry.loops.recordBreak frame.identifier (entry.code.code.size + 1)) ∧
      (entry.loops.find? (label.map (·.text)) = none →
        s'.code = entry.code ∧ ∃ d, s'.diagnostics = entry.diagnostics.push d ∧
          d.kind = missingLoop true label entry.loops)) ∧
    (∀ label pos, Runs default entry (fun _ => 0) (lowerStmt (.continueLoop label pos)) fun _ s' _ =>
      (∀ frame, entry.loops.find? (label.map (·.text)) = some frame → ∃ p,
        entry.code.labels[frame.continueLabel]? = some (.placed p) ∧
          s'.code.instructions = entry.code.instructions ++
            [⟨entry.code.code.size, .jump, [p]⟩]) ∧
      (entry.loops.find? (label.map (·.text)) = none →
        s'.code = entry.code ∧ ∃ d, s'.diagnostics = entry.diagnostics.push d ∧
          d.kind = missingLoop false label entry.loops)) ∧
    (Sound (default : FunctionEnv).isInitializer entry (fun _ => 0) → entry.loops.frames = [] →
      entry.loops.breaks = []) :=
  ⟨sound_entry _, holds_entry, loops_resolve_to_their_targets default entry (fun _ => 0) holds_entry⟩

/-! ## How guarded blocks are laid out -/

/-- Every guarded block, lowered where the stack is empty, with any body and any catch clauses, is
laid out as follows. The body comes first; the clauses follow one after another, each the handler
of the body's range for the classes its filters name, one class entry of the pool per filter that
names a class and one row catching everything for a clause without filters; every other filter
adds no row and reports that it names no class. Without a `finally` block the body, if clauses
follow it, and every clause but the last jump to the end (`CatchesLaid`). With one, they jump to
where its normal copy starts, which is where the last of them ends; its second copy is the
handler that keeps the exception in the first free private slot, runs the block and throws the
exception again, and neither copy lies inside the body's range or a clause's code
(`FinallyLaid`). The rows it adds are, in order, the body's, for each clause its code's and then
one over the body's range per class, unless the body's code is empty, then those of the two
copies, and last the handler's catch-all rows over the body's range, again unless it is empty,
and over every clause's code. -/
theorem guarded_block_layout (env : FunctionEnv) (s : Lowering) (h : Nat → Nat) (body : Block)
    (catches : List Catch) (empty : s.Holds 0) :
    Runs env s h (lowerStmt (.guarded body catches none)) (fun _ s' _ =>
      CatchesLaid env (lowerBlock body) catches s s') ∧
    ∀ fin, Runs env s h (lowerStmt (.guarded body catches (some fin))) fun _ s' _ =>
      FinallyLaid env (lowerBlock body) (lowerBlock fin) catches s s' := by
  refine ⟨?_, fun fin => ?_⟩
  · rw [lowerStmt]
    exact (runs_tryCatch (leaves_lowerBlock body env) (leaves_catchBlocks catches env) empty).mono
      fun _ _ _ _ _ ⟨_, _, laid⟩ => laid
  · rw [lowerStmt]
    exact (runs_tryFinally (leaves_lowerBlock body env) (leaves_catchBlocks catches env)
      (leaves_lowerBlock fin env) empty).mono fun _ _ _ _ _ ⟨_, _, laid⟩ => laid

theorem guarded_block_layout_from_entry :
    Sound (default : FunctionEnv).isInitializer entry (fun _ => 0) ∧ entry.Holds 0 ∧
    Runs default entry (fun _ => 0)
      (lowerStmt (.guarded ⟨[.eval (.literal (.boolean true) ⟨2, 7⟩)], none⟩ [.mk [] ⟨"e", ⟨3, 9⟩⟩ ⟨[], none⟩] none))
      (fun _ s' _ => CatchesLaid default (lowerBlock ⟨[.eval (.literal (.boolean true) ⟨2, 7⟩)], none⟩)
        [.mk [] ⟨"e", ⟨3, 9⟩⟩ ⟨[], none⟩] entry s') ∧
    ∀ fin, Runs default entry (fun _ => 0)
      (lowerStmt (.guarded ⟨[.eval (.literal (.boolean true) ⟨2, 7⟩)], none⟩ [.mk [] ⟨"e", ⟨3, 9⟩⟩ ⟨[], none⟩]
        (some fin))) fun _ s' _ =>
      FinallyLaid default (lowerBlock ⟨[.eval (.literal (.boolean true) ⟨2, 7⟩)], none⟩) (lowerBlock fin)
        [.mk [] ⟨"e", ⟨3, 9⟩⟩ ⟨[], none⟩] entry s' :=
  ⟨sound_entry _, holds_entry, guarded_block_layout default entry (fun _ => 0)
    ⟨[.eval (.literal (.boolean true) ⟨2, 7⟩)], none⟩ [.mk [] ⟨"e", ⟨3, 9⟩⟩ ⟨[], none⟩] holds_entry⟩

/-- A resource block is laid out as `ResourcesLaid` says: each resource is evaluated once, bound
to its name and kept in a slot of its own after the block's two exception slots; the body follows;
then the closes, the last opened first, each 32 bytes with two calls of `close` and one of
`suppress`; the rows added are the values', the body's and the closes', in this order. The block
leaves the stack, the slots and everything outside its code as it found them. -/
theorem resource_block_layout (env : FunctionEnv) (s : Lowering) (h : Nat → Nat)
    (resources : List (Option Ident × Expr)) (body : Block) (empty : s.Holds 0) :
    Runs env s h (lowerStmt (.withResources resources body)) fun _ s' _ =>
      s'.Holds 0 ∧ Contained [] s s' ∧
        ResourcesLaid env (body.scope.getD env.scope) resources (lowerBlock body) s s' := by
  rw [lowerStmt]
  exact runs_withAt resources body.scope (leaves_lowerBlock body env) empty

theorem resource_block_layout_of_one_resource :
    Sound (default : FunctionEnv).isInitializer entry (fun _ => 0) ∧ entry.Holds 0 ∧
    Runs default entry (fun _ => 0) (lowerStmt (.withResources [(none, .self ⟨2, 7⟩)] ⟨[], none⟩))
      fun _ s' _ => s'.Holds 0 ∧ Contained [] entry s' ∧
        ResourcesLaid default (default : FunctionEnv).scope [(none, .self ⟨2, 7⟩)] (lowerBlock ⟨[], none⟩) entry s' :=
  ⟨sound_entry _, holds_entry,
    resource_block_layout default entry (fun _ => 0) [(none, .self ⟨2, 7⟩)] ⟨[], none⟩ holds_entry⟩

end Lowering

end Febc
