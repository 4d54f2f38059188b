import Febc.Proofs.Reports

/-!
# Lowering a statement reports the problems of the statement

Lowering a statement appends exactly the problems `stmtProblems` reads off it, for the labels of
the loops open around it, and leaves those loops as it found them; a step that stops has
appended the first few of them. The loops matter only to `break` and `continue`: a loop pushes
its label for its body and pops it when it is left, and a jump finds its loop among the labels.

A `finally` block is lowered twice, so its problems are reported twice (`reports_lowerTry_some`).
Field initializers are lowered in the class scope, once for each initializer that lowers them.
The end of a body, `finish`, reports nothing.

Main statements: `reports_lowerStmt`, `reports_lowerBlock`, `reports_initializeFields`,
`reports_initializeInstance`, `quiet_finish`.
-/

namespace Febc

/-- A `break` or `continue` finds a loop exactly when the labels of the open loops let it. -/
theorem LoopStack.isSome_find? (s : LoopStack) (label : Option Ident) :
    (s.find? (label.map (·.text))).isSome = ProblemContext.leavesLoop s.labels label := by
  cases label with
  | none =>
    simp only [LoopStack.find?, Option.map_none, ProblemContext.leavesLoop, LoopStack.labels,
      List.isEmpty_map]
    cases s.frames with
    | nil => rfl
    | cons f rest => simp
  | some l =>
    apply Bool.eq_iff_iff.2
    simp [LoopStack.find?, ProblemContext.leavesLoop, LoopStack.labels, List.find?_isSome]

theorem LoopStack.labels_push (s : LoopStack) (label : Option String) (continueLabel : Nat) :
    (s.push label continueLabel).2.labels = s.labels ++ [label] := by
  simp [LoopStack.push, LoopStack.labels]

theorem LoopStack.labels_pop {s rest : LoopStack} {records : List BreakRecord}
    (popped : s.pop = some (records, rest)) : rest.labels = s.labels.dropLast := by
  unfold LoopStack.pop at popped
  split at popped
  · cases popped
  · cases popped
    simp [LoopStack.labels, List.map_dropLast]

@[simp] theorem ProblemContext.within_none (ctx : ProblemContext) : ctx.within none = ctx := by
  cases ctx
  rfl

namespace Lowering

/-! ## Loops -/

section Loops

variable {env : FunctionEnv} {L : List (Option String)}

theorem reports_enterLoop (label : Option Ident) (continueLabel : Nat) :
    Reports env L (L ++ [label.map (·.text)]) (enterLoop label continueLabel) [] fun _ => True := by
  intro s labels
  have ran : runStep ((enterLoop label continueLabel).run env) s =
      (.ok (), { s with loops := (s.loops.push (label.map (·.text)) continueLabel).2 }) := rfl
  rw [ran]
  exact ⟨by simp, by rw [LoopStack.labels_push, labels], trivial⟩

theorem reports_leaveLoop (label : Option String) :
    Reports env (L ++ [label]) L leaveLoop [] fun _ => True := by
  intro s labels
  simp only [leaveLoop, ReaderT.run, runStep_mk]
  split
  · rename_i records loops popped
    exact ⟨by simp, by rw [LoopStack.labels_pop popped, labels, List.dropLast_concat], trivial⟩
  · exact ⟨[], List.nil_prefix, by simp⟩

theorem reports_findLoop (label : Option Ident) :
    Reports env L L (findLoop label) [] fun frame => frame.isSome = ProblemContext.leavesLoop L label := by
  intro s labels
  have ran : runStep ((findLoop label).run env) s = (.ok (s.loops.find? (label.map (·.text))), s) := rfl
  rw [ran]
  exact ⟨by simp, labels, by beta_reduce; rw [LoopStack.isSome_find?, labels]⟩

theorem reports_inLoop : Reports env L L inLoop [] fun inside => inside = !L.isEmpty := by
  intro s labels
  have ran : runStep (inLoop.run env) s = (.ok !s.loops.isEmpty, s) := rfl
  rw [ran]
  exact ⟨by simp, labels, by simp [LoopStack.isEmpty, ← labels, LoopStack.labels]⟩

theorem quiet_patchBreaks (target : Nat) : ∀ records, Quiet (patchBreaks target records)
  | [] => quiet_pure ()
  | _ :: rest => (quiet_onCode _).bind fun _ => quiet_patchBreaks target rest

theorem reports_resolveBreaks (label : Option String) :
    Reports env (L ++ [label]) L resolveBreaks [] fun _ => True :=
  Reports.quiet_bind quiet_offset fun exit => ((reports_leaveLoop label).bind fun records _ =>
    (quiet_patchBreaks exit records).reports).of_eq (List.append_nil [])

theorem reports_reportMissingLoop (isBreak : Bool) (label : Option Ident) (pos : Position) :
    Reports env L L (reportMissingLoop isBreak label pos)
      (ProblemContext.missingLoopProblems L isBreak label pos) fun _ => True := by
  unfold reportMissingLoop
  dsimp only
  cases label with
  | some l =>
    refine (reports_inLoop.bind fun inside same => ?_).of_eq (List.nil_append _)
    refine Reports.ite (fun yes => (reports_report _ _ _).of_eq ?_) (fun no => (reports_report _ _ _).of_eq ?_)
    · simp_all [ProblemContext.missingLoopProblems]
    · simp_all [ProblemContext.missingLoopProblems]
  | none => exact (reports_report _ _ _).of_eq (by simp [ProblemContext.missingLoopProblems])

theorem reports_lowerBreak (label : Option Ident) (pos : Position) :
    Reports env L L (lowerBreak label pos) (ProblemContext.jumpProblems L true label pos) fun _ => True := by
  unfold lowerBreak
  refine ((reports_findLoop label).bind fun found leaves => ?_).of_eq (List.nil_append _)
  split
  · exact (Reports.quiet_bind (quiet_onCode _) fun _ => (quiet_recordBreak _ _).reports).of_eq
      (by simp [ProblemContext.jumpProblems, ← leaves])
  · exact (reports_reportMissingLoop true label pos).of_eq (by simp [ProblemContext.jumpProblems, ← leaves])

theorem reports_lowerContinue (label : Option Ident) (pos : Position) :
    Reports env L L (lowerContinue label pos) (ProblemContext.jumpProblems L false label pos) fun _ => True := by
  unfold lowerContinue
  refine ((reports_findLoop label).bind fun found leaves => ?_).of_eq (List.nil_append _)
  split
  · exact (quiet_jump _ _).reports.of_eq (by simp [ProblemContext.jumpProblems, ← leaves])
  · exact (reports_reportMissingLoop false label pos).of_eq (by simp [ProblemContext.jumpProblems, ← leaves])

end Loops

/-! ## Locals, returns, handlers and resources -/

section Handlers

variable {env : FunctionEnv} {L : List (Option String)}

theorem reports_storeDeclared (scope : Nat) (name : Ident) :
    Reports env L L (storeDeclared scope name) (env.context.storeProblems scope name) fun _ => True := by
  unfold storeDeclared
  refine Reports.read_bind ?_
  split
  · rename_i slot found
    exact (quiet_op _ _).reports.of_eq (by simp [ProblemContext.storeProblems, found])
  · rename_i slot found
    exact (quiet_op _ _).reports.of_eq (by simp [ProblemContext.storeProblems, found])
  · exact ((reports_report _ _ _).bind fun _ _ => (quiet_op _ _).reports).of_eq
      (by simp [ProblemContext.storeProblems])

theorem reports_blockScope (scope : Option Nat) :
    Reports env L L (blockScope scope) [] (· = scope.getD env.scope) :=
  Reports.read_bind (reports_pure _)

theorem reports_filterClasses :
    ∀ filters : List Ident, Reports env L L (filterClasses filters) (filters.flatMap env.context.filterProblems)
      fun _ => True
  | [] => (quiet_pure _).reports
  | f :: rest => by
    rw [filterClasses]
    refine Reports.resolve_bind f.text ?_
    split
    · rename_i cls found
      exact (Reports.quiet_bind (quiet_onPool _) fun _ => (reports_filterClasses rest).bind fun _ _ =>
        (quiet_pure _).reports).of_eq (by simp [ProblemContext.filterProblems, found])
    · exact ((reports_report _ _ _).bind fun _ _ => reports_filterClasses rest).of_eq
        (by simp [ProblemContext.filterProblems])

theorem reports_catchFilters (filters : List Ident) :
    Reports env L L (catchFilters filters) (filters.flatMap env.context.filterProblems) fun _ => True := by
  unfold catchFilters
  split
  · exact (quiet_pure _).reports
  · exact reports_filterClasses _

theorem quiet_guardRange (start stop handler : Nat) : ∀ classes, Quiet (guardRange start stop handler classes)
  | [] => quiet_pure ()
  | _ :: rest => (quiet_addHandler _ _ _ _).bind fun _ => quiet_guardRange start stop handler rest

theorem quiet_guardAll (handler : Nat) : ∀ ranges, Quiet (guardAll handler ranges)
  | [] => quiet_pure ()
  | _ :: rest => (quiet_addHandler _ _ _ _).bind fun _ => quiet_guardAll handler rest

theorem reports_lowerDecls :
    ∀ decls : List (Ident × Option Expr), Reports env L L (lowerDecls decls) (env.context.declsProblems decls)
      fun _ => True
  | [] => (quiet_pure ()).reports
  | (name, init) :: rest => by
    have declares : Reports env L L (do storeDeclared (← read).scope name; lowerDecls rest)
        (env.context.storeProblems env.scope name ++ env.context.declsProblems rest) fun _ => True :=
      Reports.read_bind ((reports_storeDeclared _ _).bind fun _ _ => reports_lowerDecls rest)
    cases init with
    | some e =>
      rw [lowerDecls]
      exact ((reports_lowerExpr e).bind fun _ _ => declares).of_eq (by simp [ProblemContext.declsProblems])
    | none =>
      rw [lowerDecls]
      exact (Reports.quiet_bind (quiet_op _ _) fun _ => declares).of_eq (by simp [ProblemContext.declsProblems])

theorem reports_lowerReturn (value : Option Expr) (pos : Position) :
    Reports env L L (lowerReturn value pos) (env.context.returnProblems value pos) fun _ => True := by
  unfold lowerReturn
  refine Reports.read_bind ?_
  extract_lets returning returningA
  have returns : ∀ u, Quiet (returning u) := fun _ => quiet_op _ _
  have returnsA : ∀ u, Quiet (returningA u) := fun _ => quiet_op _ _
  refine Reports.ite (fun initializer => ?_) (fun plain => ?_)
  · split
    · exact ((reports_report _ _ _).bind fun _ _ => (reports_lowerExpr _).bind fun _ _ =>
        Reports.quiet_bind (quiet_op _ _) fun _ => (returns ()).reports).of_eq
        (by simp [ProblemContext.returnProblems, initializer])
    · exact (returns ()).reports.of_eq (by simp [ProblemContext.returnProblems])
  · split
    · exact ((reports_lowerExpr _).bind fun _ _ => (returnsA ()).reports).of_eq
        (by simp [ProblemContext.returnProblems, plain])
    · exact Reports.quiet_bind (quiet_op _ _) fun _ => (returnsA ()).reports

theorem reports_lowerSynchronized {lock body : LowerM Unit} {lockDs bodyDs : List Diagnostic}
    (locks : Reports env L L lock lockDs fun _ => True) (runs : Reports env L L body bodyDs fun _ => True) :
    Reports env L L (lowerSynchronized lock body) (lockDs ++ bodyDs) fun _ => True := by
  unfold lowerSynchronized
  refine (Reports.quiet_bind quiet_freshLabel fun exit => locks.bind fun _ _ =>
    Reports.quiet_bind (quiet_op _ _) fun _ => Reports.quiet_bind quiet_takeSlot fun held =>
    Reports.quiet_bind (quiet_op _ _) fun _ => Reports.quiet_bind (quiet_callIntrinsic _) fun _ =>
    Reports.quiet_bind quiet_offset fun bodyStart => runs.bind fun _ _ =>
    Reports.quiet_bind quiet_offset fun bodyStop => Quiet.reports ?_).of_eq (by simp)
  refine (quiet_op _ _).bind fun _ => (quiet_callIntrinsic _).bind fun _ => (quiet_jump _ _).bind fun _ =>
    quiet_offset.bind fun handler => quiet_enterHandler.bind fun _ => quiet_takeSlot.bind fun exception =>
    (quiet_op _ _).bind fun _ => (quiet_op _ _).bind fun _ => (quiet_callIntrinsic _).bind fun _ =>
    quiet_offset.bind fun handlerStop => (quiet_op _ _).bind fun _ => (quiet_op _ _).bind fun _ =>
    quiet_releaseSlot.bind fun _ => quiet_releaseSlot.bind fun _ => ?_
  extract_lets guarding
  have guards : ∀ u, Quiet (guarding u) := fun _ => (quiet_addHandler _ _ _ _).bind fun _ => quiet_place exit
  exact Quiet.ite ((quiet_addHandler _ _ _ _).bind guards) (guards ())

theorem quiet_closeResources (primary secondary : Nat) : ∀ opened, Quiet (closeResources primary secondary opened)
  | [] => quiet_pure ()
  | (slot, start) :: rest => by
    rw [closeResources]
    refine quiet_offset.bind fun stop => quiet_freshLabel.bind fun after => (quiet_op _ _).bind fun _ =>
      ((quiet_callIntrinsic _).bind fun _ => quiet_op _ _).bind fun _ => (quiet_jump _ _).bind fun _ =>
      quiet_offset.bind fun closeHandler => quiet_enterHandler.bind fun _ => (quiet_op _ _).bind fun _ =>
      (quiet_op _ _).bind fun _ => ((quiet_callIntrinsic _).bind fun _ => quiet_op _ _).bind fun _ =>
      quiet_offset.bind fun closeStop => (quiet_op _ _).bind fun _ => (quiet_op _ _).bind fun _ =>
      quiet_offset.bind fun suppressHandler => quiet_enterHandler.bind fun _ => (quiet_op _ _).bind fun _ =>
      (quiet_op _ _).bind fun _ => (quiet_op _ _).bind fun _ => (quiet_callIntrinsic _).bind fun _ =>
      (quiet_op _ _).bind fun _ => (quiet_op _ _).bind fun _ => ?_
    extract_lets closing
    have closes : ∀ u, Quiet (closing u) := fun _ => (quiet_addHandler _ _ _ _).bind fun _ =>
      (quiet_place _).bind fun _ => quiet_releaseSlot.bind fun _ => quiet_closeResources primary secondary rest
    exact Quiet.ite ((quiet_addHandler _ _ _ _).bind closes) (closes ())

theorem reports_openResources (scope : Nat) :
    ∀ resources, Reports env L L (openResources scope resources) (env.context.resourcesProblems scope resources)
      fun _ => True
  | [] => (quiet_pure _).reports
  | (binding, e) :: rest => by
    have keeps : Reports env L L (do
        let slot ← takeSlot
        op .storeA [slot]
        let start ← offset
        let more ← openResources scope rest
        pure ((slot, start) :: more)) (env.context.resourcesProblems scope rest) fun _ => True :=
      Reports.quiet_bind quiet_takeSlot fun _ => Reports.quiet_bind (quiet_op _ _) fun _ =>
        Reports.quiet_bind quiet_offset fun _ => ((reports_openResources scope rest).bind fun _ _ =>
        (quiet_pure _).reports).of_eq (List.append_nil _)
    rw [openResources]
    cases binding with
    | some name =>
      exact ((reports_lowerExpr e).bind fun _ _ => Reports.quiet_bind (quiet_op _ _) fun _ =>
        (reports_storeDeclared _ _).bind fun _ _ => keeps).of_eq (by simp [ProblemContext.resourcesProblems])
    | none =>
      exact ((reports_lowerExpr e).bind fun _ _ => keeps).of_eq (by simp [ProblemContext.resourcesProblems])

theorem reports_lowerWith (resources : List (Option Ident × Expr)) (scope : Option Nat) {body : LowerM Unit}
    {bodyDs : List Diagnostic} (runs : Reports env L L body bodyDs fun _ => True) :
    Reports env L L (lowerWith resources scope body)
      (env.context.resourcesProblems (scope.getD env.scope) resources ++ bodyDs) fun _ => True := by
  unfold lowerWith
  refine Reports.quiet_bind quiet_takeSlot fun primary => Reports.quiet_bind quiet_takeSlot fun secondary =>
    ((reports_blockScope scope).bind fun bodyScope same => ?_).of_eq (List.nil_append _)
  subst same
  exact ((reports_openResources _ resources).bind fun opened _ => runs.bind fun _ _ =>
    Reports.quiet_bind (quiet_closeResources _ _ _) fun _ => Reports.quiet_bind quiet_releaseSlot fun _ =>
    (quiet_releaseSlot).reports).of_eq (by simp)

theorem reports_lowerTry_none {body : LowerM Unit} {clauses : Nat → Nat → Nat → LowerM (List (Nat × Nat))}
    (hasClauses : Bool) {bodyDs clauseDs : List Diagnostic} (runs : Reports env L L body bodyDs fun _ => True)
    (catches : ∀ tryStart tryStop afterHandlers,
      Reports env L L (clauses tryStart tryStop afterHandlers) clauseDs fun _ => True) :
    Reports env L L (lowerTry body clauses hasClauses none) (bodyDs ++ clauseDs) fun _ => True := by
  unfold lowerTry
  refine Reports.quiet_bind quiet_freshLabel fun exit => ?_
  extract_lets placing guarding
  have places : ∀ u, Quiet (placing u) := fun _ => quiet_place exit
  refine Reports.quiet_bind (quiet_pure none) fun _ => ?_
  dsimp -zeta only [guarding]
  extract_lets afterHandlers
  refine Reports.quiet_bind quiet_offset fun tryStart => runs.bind fun _ _ => ?_
  refine Reports.quiet_bind quiet_offset fun tryStop => ?_
  extract_lets clausing
  have clauses_report : ∀ u, Reports env L L (clausing u) clauseDs fun _ => True :=
    fun _ => ((catches _ _ _).bind fun _ _ => (places ()).reports).of_eq (List.append_nil _)
  exact Reports.ite (fun _ => Reports.quiet_bind (quiet_jump _ _) clauses_report) (fun _ => clauses_report ())

theorem reports_lowerTry_some {body fin : LowerM Unit} {clauses : Nat → Nat → Nat → LowerM (List (Nat × Nat))}
    (hasClauses : Bool) {bodyDs clauseDs finDs : List Diagnostic} (runs : Reports env L L body bodyDs fun _ => True)
    (catches : ∀ tryStart tryStop afterHandlers,
      Reports env L L (clauses tryStart tryStop afterHandlers) clauseDs fun _ => True)
    (finishes : Reports env L L fin finDs fun _ => True) :
    Reports env L L (lowerTry body clauses hasClauses (some fin)) (bodyDs ++ clauseDs ++ finDs ++ finDs)
      fun _ => True := by
  unfold lowerTry
  rw [List.append_assoc, List.append_assoc]
  refine Reports.quiet_bind quiet_freshLabel fun exit => ?_
  extract_lets placing guarding
  have places : ∀ u, Quiet (placing u) := fun _ => quiet_place exit
  refine ((quiet_freshLabel.reports.map some).bind fun normal labelled => ?_).of_eq (List.nil_append _)
  obtain ⟨normal, -, rfl⟩ := labelled
  dsimp -zeta only [guarding]
  extract_lets afterHandlers
  refine Reports.quiet_bind quiet_offset fun tryStart => runs.bind fun _ _ => ?_
  refine Reports.quiet_bind quiet_offset fun tryStop => ?_
  extract_lets clausing
  have clauses_report : ∀ u, Reports env L L (clausing u) (clauseDs ++ (finDs ++ finDs)) fun _ => True := by
    intro u
    dsimp -zeta only [clausing]
    refine (catches _ _ _).bind fun ranges _ => ?_
    refine (Reports.quiet_bind (quiet_place _) fun _ => finishes.bind fun _ _ =>
      Reports.quiet_bind (quiet_jump _ _) fun _ => Reports.quiet_bind quiet_offset fun handler =>
      Reports.quiet_bind quiet_enterHandler fun _ => Reports.quiet_bind quiet_takeSlot fun exception =>
      Reports.quiet_bind (quiet_op _ _) fun _ => finishes.bind fun _ _ => Quiet.reports ?_).of_eq (by simp)
    refine (quiet_op _ _).bind fun _ => (quiet_op _ _).bind fun _ => quiet_releaseSlot.bind fun _ => ?_
    extract_lets rethrowing
    have rethrows : ∀ u, Quiet (rethrowing u) := fun _ => (quiet_guardAll _ _).bind places
    exact Quiet.ite ((quiet_addHandler _ _ _ _).bind rethrows) (rethrows ())
  exact Reports.ite (fun _ => Reports.quiet_bind (quiet_jump _ _) clauses_report) (fun _ => clauses_report ())

end Handlers

/-! ## Statements -/

section Statements

theorem reports_lowerCondition {env : FunctionEnv} {L : List (Option String)} (test : Expr) (otherwise : Nat) :
    Reports env L L (lowerCondition test otherwise) (env.context.exprProblems test) fun _ => True :=
  ((reports_lowerExpr test).bind fun _ _ => (quiet_jumpUnlessTrue otherwise).reports).of_eq (List.append_nil _)

theorem Reports.blockScope_bind {α : Type} {env : FunctionEnv} {L₁ L₂ : List (Option String)}
    {ds : List Diagnostic} {P : α → Prop} {k : Nat → LowerM α} (scope : Option Nat)
    (reports : Reports env L₁ L₂ (k (scope.getD env.scope)) ds P) :
    Reports env L₁ L₂ (blockScope scope >>= k) ds P :=
  reports

mutual

theorem reports_lowerStmt (st : Stmt) (env : FunctionEnv) (L : List (Option String)) :
    Reports env L L (lowerStmt st) (env.context.stmtProblems L st) fun _ => True := by
  cases st with
  | block b =>
    rw [lowerStmt]
    exact (reports_lowerBlock b env L).of_eq (by simp [ProblemContext.stmtProblems])
  | declare _ decls =>
    rw [lowerStmt]
    exact (reports_lowerDecls decls).of_eq (by simp [ProblemContext.stmtProblems])
  | eval e =>
    rw [lowerStmt]
    exact ((reports_lowerExpr e).bind fun _ _ => (quiet_op _ _).reports).of_eq
      (by simp [ProblemContext.stmtProblems])
  | ifChain clauses otherwise =>
    cases otherwise with
    | some b =>
      rw [lowerStmt]
      exact (Reports.quiet_bind quiet_freshLabel fun after =>
        (reports_lowerClauses after _ clauses env L).bind fun _ _ => (reports_lowerBlock b env L).bind fun _ _ =>
        (quiet_place after).reports).of_eq (by simp [ProblemContext.stmtProblems])
    | none =>
      rw [lowerStmt]
      exact (Reports.quiet_bind quiet_freshLabel fun after =>
        (reports_lowerClauses after _ clauses env L).bind fun _ _ => (quiet_place after).reports).of_eq
        (by simp [ProblemContext.stmtProblems])
  | whileLoop label test body =>
    rw [lowerStmt]
    -- the body sees one more open loop, which is closed when the loop is left
    exact (Reports.quiet_bind quiet_freshLabel fun start => Reports.quiet_bind quiet_freshLabel fun exit =>
      Reports.quiet_bind (quiet_place start) fun _ => (reports_lowerCondition test exit).bind fun _ _ =>
      (reports_enterLoop label start).bind fun _ _ => (reports_lowerBlock body env _).bind fun _ _ =>
      Reports.quiet_bind (quiet_jump _ start) fun _ => Reports.quiet_bind (quiet_place exit) fun _ =>
      reports_resolveBreaks _).of_eq (by simp [ProblemContext.stmtProblems])
  | forEach label var iterable body =>
    rw [lowerStmt]
    exact ((reports_lowerExpr iterable).bind fun _ _ => Reports.quiet_bind (quiet_callIntrinsic _) fun _ =>
      Reports.quiet_bind quiet_takeSlot fun iterator => Reports.quiet_bind (quiet_op _ _) fun _ =>
      Reports.quiet_bind quiet_freshLabel fun start => Reports.quiet_bind quiet_freshLabel fun exit =>
      Reports.quiet_bind (quiet_place start) fun _ => Reports.quiet_bind (quiet_op _ _) fun _ =>
      Reports.quiet_bind (quiet_callIntrinsic _) fun _ => Reports.quiet_bind (quiet_jumpUnlessTrue exit) fun _ =>
      Reports.quiet_bind (quiet_op _ _) fun _ => Reports.quiet_bind (quiet_callIntrinsic _) fun _ =>
      Reports.blockScope_bind body.scope <| (reports_storeDeclared _ var).bind fun _ _ =>
      (reports_enterLoop label start).bind fun _ _ => (reports_lowerBlock body env _).bind fun _ _ =>
      Reports.quiet_bind (quiet_jump _ start) fun _ => Reports.quiet_bind (quiet_place exit) fun _ =>
      (reports_resolveBreaks _).bind fun _ _ => quiet_releaseSlot.reports).of_eq
      (by simp [ProblemContext.stmtProblems])
  | breakLoop label pos =>
    rw [lowerStmt]
    exact (reports_lowerBreak label pos).of_eq (by simp [ProblemContext.stmtProblems])
  | continueLoop label pos =>
    rw [lowerStmt]
    exact (reports_lowerContinue label pos).of_eq (by simp [ProblemContext.stmtProblems])
  | returnValue value pos =>
    rw [lowerStmt]
    exact (reports_lowerReturn value pos).of_eq (by simp [ProblemContext.stmtProblems])
  | throwValue e pos =>
    rw [lowerStmt]
    exact ((reports_lowerExpr e).bind fun _ _ => (quiet_op _ _).reports).of_eq
      (by simp [ProblemContext.stmtProblems])
  | guarded body catches always =>
    cases always with
    | none =>
      rw [lowerStmt]
      exact (reports_lowerTry_none _ (reports_lowerBlock body env L)
        (fun _ _ _ => reports_lowerCatches _ _ _ catches env L)).of_eq (by simp [ProblemContext.stmtProblems])
    | some fin =>
      rw [lowerStmt]
      exact (reports_lowerTry_some _ (reports_lowerBlock body env L)
        (fun _ _ _ => reports_lowerCatches _ _ _ catches env L) (reports_lowerBlock fin env L)).of_eq
        (by simp [ProblemContext.stmtProblems])
  | synchronized lock body =>
    rw [lowerStmt]
    exact (reports_lowerSynchronized (reports_lowerExpr lock) (reports_lowerBlock body env L)).of_eq
      (by simp [ProblemContext.stmtProblems])
  | withResources resources body =>
    rw [lowerStmt]
    exact (reports_lowerWith resources body.scope (reports_lowerBlock body env L)).of_eq
      (by simp [ProblemContext.stmtProblems])
  | empty =>
    rw [lowerStmt]
    exact (quiet_pure ()).reports.of_eq (by simp [ProblemContext.stmtProblems])
termination_by structural st

theorem reports_lowerStmts (sts : List Stmt) (env : FunctionEnv) (L : List (Option String)) :
    Reports env L L (lowerStmts sts) (env.context.stmtsProblems L sts) fun _ => True := by
  cases sts with
  | nil =>
    rw [lowerStmts]
    exact (quiet_pure ()).reports.of_eq (by simp [ProblemContext.stmtsProblems])
  | cons st rest =>
    rw [lowerStmts]
    exact ((reports_lowerStmt st env L).bind fun _ _ => reports_lowerStmts rest env L).of_eq
      (by simp [ProblemContext.stmtsProblems])
termination_by structural sts

theorem reports_lowerBlock (b : Block) (env : FunctionEnv) (L : List (Option String)) :
    Reports env L L (lowerBlock b) (env.context.blockProblems L b) fun _ => True := by
  cases b with
  | mk stmts scope =>
    rw [lowerBlock]
    cases scope with
    | none => exact (reports_lowerStmts stmts env L).of_eq (by simp [ProblemContext.blockProblems])
    | some s =>
      exact (Reports.withScope (reports_lowerStmts stmts _ L)).of_eq (by simp [ProblemContext.blockProblems])
termination_by structural b

theorem reports_lowerClauses (after : Nat) (hasElse : Bool) (clauses : List (Expr × Block)) (env : FunctionEnv)
    (L : List (Option String)) :
    Reports env L L (lowerClauses after hasElse clauses) (env.context.clausesProblems L clauses) fun _ => True := by
  cases clauses with
  | nil =>
    rw [lowerClauses]
    exact (quiet_pure ()).reports.of_eq (by simp [ProblemContext.clausesProblems])
  | cons clause rest =>
    obtain ⟨test, body⟩ := clause
    rw [lowerClauses]
    exact (Reports.quiet_bind quiet_freshLabel fun next => (reports_lowerCondition test next).bind fun _ _ =>
      (reports_lowerBlock body env L).bind fun _ _ => Reports.ite
        (fun _ => Reports.quiet_bind (quiet_jump _ _) fun _ => Reports.quiet_bind (quiet_place next) fun _ =>
          reports_lowerClauses after hasElse rest env L)
        (fun _ => Reports.quiet_bind (quiet_place next) fun _ => reports_lowerClauses after hasElse rest env L)).of_eq
      (by simp [ProblemContext.clausesProblems])
termination_by structural clauses

theorem reports_lowerCatches (tryStart tryStop afterHandlers : Nat) (catches : List Catch) (env : FunctionEnv)
    (L : List (Option String)) :
    Reports env L L (lowerCatches tryStart tryStop afterHandlers catches) (env.context.catchesProblems L catches)
      fun _ => True := by
  cases catches with
  | nil =>
    rw [lowerCatches]
    exact (quiet_pure _).reports.of_eq (by simp [ProblemContext.catchesProblems])
  | cons clause rest =>
    obtain ⟨filters, param, body⟩ := clause
    rw [lowerCatches]
    have ranges : ∀ handler handlerStop : Nat, Reports env L L (do
        let ranges ← lowerCatches tryStart tryStop afterHandlers rest
        pure ((handler, handlerStop) :: ranges)) (env.context.catchesProblems L rest) fun _ => True :=
      fun _ _ => ((reports_lowerCatches tryStart tryStop afterHandlers rest env L).bind fun _ _ =>
        (quiet_pure _).reports).of_eq (List.append_nil _)
    exact ((reports_catchFilters filters).bind fun classes _ => Reports.quiet_bind quiet_offset fun handler =>
      Reports.quiet_bind quiet_enterHandler fun _ => Reports.blockScope_bind body.scope <|
      (reports_storeDeclared _ param).bind fun _ _ => (reports_lowerBlock body env L).bind fun _ _ =>
      Reports.quiet_bind quiet_offset fun handlerStop => Reports.ite
        (fun _ => Reports.quiet_bind (quiet_jump _ _) fun _ => Reports.ite
          (fun _ => Reports.quiet_bind (quiet_guardRange _ _ _ _) fun _ => ranges handler handlerStop)
          (fun _ => ranges handler handlerStop))
        (fun _ => Reports.ite
          (fun _ => Reports.quiet_bind (quiet_guardRange _ _ _ _) fun _ => ranges handler handlerStop)
          (fun _ => ranges handler handlerStop))).of_eq
      (by simp [ProblemContext.catchesProblems])
termination_by structural catches

end

end Statements

/-! ## Field initializers and the end of a body -/

section Bodies

variable {env : FunctionEnv} {L : List (Option String)}

theorem reports_initializeDeclarators (isStatic : Bool) :
    ∀ decls, Reports env L L (initializeDeclarators isStatic decls) (env.context.initProblems decls) fun _ => True
  | [] => (quiet_pure ()).reports
  | (_, none) :: rest => by
    rw [initializeDeclarators]
    exact (reports_initializeDeclarators isStatic rest).of_eq (by simp [ProblemContext.initProblems])
  | (name, some init) :: rest => by
    rw [initializeDeclarators]
    refine Reports.read_bind (Reports.quiet_bind (quiet_fieldEntry _ _) fun field => ?_)
    extract_lets continuing
    have continues : ∀ u, Reports env L L (continuing u) (env.context.initProblems rest) fun _ => True :=
      fun _ => reports_initializeDeclarators isStatic rest
    refine Reports.ite (fun _ => ?_) (fun _ => ?_)
    · exact ((reports_lowerExpr init).bind fun _ _ => Reports.quiet_bind (quiet_op _ _) continues).of_eq
        (by simp [ProblemContext.initProblems])
    · exact (Reports.quiet_bind (quiet_op _ _) fun _ => (reports_lowerExpr init).bind fun _ _ =>
        Reports.quiet_bind (quiet_op _ _) continues).of_eq (by simp [ProblemContext.initProblems])

theorem reports_initializeFields_go (isStatic : Bool) :
    ∀ fields, Reports env L L (initializeFields.go isStatic fields)
      ((fields.filter (isStaticField · == isStatic)).flatMap fun decl => env.context.initProblems decl.decls)
      fun _ => True
  | [] => (quiet_pure ()).reports
  | decl :: rest => by
    rw [initializeFields.go]
    exact Reports.ite
      (fun same => ((reports_initializeDeclarators isStatic decl.decls).bind fun _ _ =>
        reports_initializeFields_go isStatic rest).of_eq (by simp [same]))
      (fun other => (reports_initializeFields_go isStatic rest).of_eq (by simp [other]))

/-- The field initializers are lowered, and report, in the class scope. -/
theorem reports_initializeFields (fields : List FieldDecl) (isStatic : Bool) :
    Reports env L L (initializeFields fields isStatic) (env.context.fieldProblems fields isStatic) fun _ => True :=
  Reports.read_bind ((Reports.withScope (reports_initializeFields_go isStatic fields)).of_eq
    (by simp [ProblemContext.fieldProblems]))

theorem reports_initializeInstance (fields : List FieldDecl) :
    Reports env L L (initializeInstance fields) (env.context.fieldProblems fields false) fun _ => True :=
  Reports.read_bind (Reports.quiet_bind (quiet_onPool _) fun _ => Reports.quiet_bind (quiet_op _ _) fun _ =>
    Reports.quiet_bind (quiet_onCode _) fun _ => reports_initializeFields fields false)

theorem quiet_get_bind {α : Type} {k : Lowering → LowerM α} (rest : ∀ s, Quiet (k s)) : Quiet (get >>= k) :=
  fun env s => rest s env s

/-- Closing a body reports nothing. -/
theorem quiet_finish : Quiet finish := by
  unfold finish
  extract_lets closing checking
  have closes : ∀ u, Quiet (closing u) := fun _ => quiet_get_bind fun _ =>
    (quiet_onCode _).bind fun _ => quiet_onCode _
  have checks : ∀ u, Quiet (checking u) := fun _ => quiet_get_bind fun _ =>
    Quiet.ite ((quiet_throw _).bind fun _ => closes ()) (closes ())
  exact quiet_get_bind fun _ => Quiet.ite (quiet_read_bind fun _ =>
    Quiet.ite ((quiet_op _ _).bind checks) ((quiet_op _ _).bind fun _ => (quiet_op _ _).bind checks)) (checks ())

end Bodies

end Lowering

end Febc
