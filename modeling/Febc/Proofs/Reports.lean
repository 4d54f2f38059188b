import Febc.Proofs.Builder
import Febc.Proofs.Problems

/-!
# Lowering reports the problems of the syntax

Lowering an expression appends to the diagnostics exactly the problems `exprProblems` reads off
it, and lowering a statement those `stmtProblems` reads off it for the loops open around it. A
step that stops has appended the first few of them.

`Reports env before after m ds answer` says this of one step `m` of lowering, run in `env` from
any state whose open loops carry the labels `before`: it appends `ds` and answers a value that
satisfies `answer`, leaving open loops that carry `after`; or it stops, having appended a prefix
of `ds`. Steps that append nothing and open or close no loop are `Quiet`; the code builder, the
constant pool and the private slots are such steps. The rest is built from them by binding,
conditionals and matches, and its lemmas follow the definitions, the expressions by one mutual
induction on the syntax.

Main statements: `reports_lowerExpr`, `reports_lowerTarget`.
-/

namespace Febc

/-! ## Appending diagnostics -/

section Appends

variable {ε σ α β : Type} (diagnostics : σ → Array Diagnostic)

/-- How a run from `s` ends, for the diagnostics a state keeps in `diagnostics`: it answers,
having appended `ds`, with `post` holding; or it stops, having appended the first few of `ds`. -/
def Appends (s : σ) (ds : List Diagnostic) (post : α → σ → Prop) : Except ε α × σ → Prop
  | (.ok a, s') => (diagnostics s').toList = (diagnostics s).toList ++ ds ∧ post a s'
  | (.error _, s') => ∃ p, p <+: ds ∧ (diagnostics s').toList = (diagnostics s).toList ++ p

variable {diagnostics}

theorem Appends.bind {m : ExceptT ε (StateM σ) α} {k : α → ExceptT ε (StateM σ) β} {s : σ}
    {ds₁ ds₂ : List Diagnostic} {mid : α → σ → Prop} {post : β → σ → Prop}
    (first : Appends diagnostics s ds₁ mid (runStep m s))
    (rest : ∀ a s₁, (diagnostics s₁).toList = (diagnostics s).toList ++ ds₁ → mid a s₁ →
      Appends diagnostics s₁ ds₂ post (runStep (k a) s₁)) :
    Appends diagnostics s (ds₁ ++ ds₂) post (runStep (m >>= k) s) := by
  rw [runStep_bind]
  generalize runStep m s = r at first
  obtain ⟨_ | a, s₁⟩ := r
  · obtain ⟨p, before, appended⟩ := first
    exact ⟨p, before.trans (List.prefix_append ds₁ ds₂), appended⟩
  · obtain ⟨appended, reached⟩ := first
    have second := rest a s₁ appended reached
    dsimp only
    generalize runStep (k a) s₁ = r at second
    obtain ⟨_ | b, s₂⟩ := r
    · obtain ⟨p, before, appended₂⟩ := second
      exact ⟨ds₁ ++ p, (List.prefix_append_right_inj ds₁).2 before,
        by rw [appended₂, appended, List.append_assoc]⟩
    · obtain ⟨appended₂, reached₂⟩ := second
      exact ⟨by rw [appended₂, appended, List.append_assoc], reached₂⟩

end Appends

/-- The labels of the open loops, innermost last. -/
def LoopStack.labels (s : LoopStack) : List (Option String) := s.frames.map (·.label)

@[simp] theorem FunctionEnv.context_resolve (env : FunctionEnv) (name : String) :
    env.context.resolve name = env.symbols.resolve env.scope name := rfl

@[simp] theorem FunctionEnv.context_symbols (env : FunctionEnv) : env.context.symbols = env.symbols := rfl

@[simp] theorem FunctionEnv.context_classScope (env : FunctionEnv) :
    env.context.classScope = env.layout.scope := rfl

@[simp] theorem FunctionEnv.context_isStatic (env : FunctionEnv) : env.context.isStatic = env.isStatic := rfl

@[simp] theorem FunctionEnv.context_isInitializer (env : FunctionEnv) :
    env.context.isInitializer = env.isInitializer := rfl

@[simp] theorem FunctionEnv.context_scope (env : FunctionEnv) : env.context.scope = env.scope := rfl

@[simp] theorem FunctionEnv.context_within (env : FunctionEnv) (s : Nat) :
    env.context.within (some s) = { env with scope := s }.context := rfl

namespace Lowering

/-! ## Steps that report -/

/-- Run in `env` from a state whose open loops carry the labels `before`, the step `m` appends
the diagnostics `ds` and answers a value that satisfies `answer`, the open loops then carrying
`after`; or it stops, having appended the first few of `ds`. -/
def Reports {α : Type} (env : FunctionEnv) (before after : List (Option String)) (m : LowerM α)
    (ds : List Diagnostic) (answer : α → Prop) : Prop :=
  ∀ s : Lowering, s.loops.labels = before →
    Appends Lowering.diagnostics s ds (fun a s' => s'.loops.labels = after ∧ answer a)
      (runStep (m.run env) s)

/-- A step that appends no diagnostic and opens or closes no loop, whether it answers or stops. -/
def Quiet {α : Type} (m : LowerM α) : Prop :=
  ∀ env s, (runStep (m.run env) s).2.diagnostics = s.diagnostics ∧
    (runStep (m.run env) s).2.loops.frames = s.loops.frames

section Reports

variable {α β : Type} {env : FunctionEnv} {L L₁ L₂ L₃ : List (Option String)}
  {ds ds₁ ds₂ : List Diagnostic} {P Q : α → Prop}

theorem Reports.bind {m : LowerM α} {k : α → LowerM β} {Q : β → Prop}
    (first : Reports env L₁ L₂ m ds₁ P) (rest : ∀ a, P a → Reports env L₂ L₃ (k a) ds₂ Q) :
    Reports env L₁ L₃ (m >>= k) (ds₁ ++ ds₂) Q := by
  intro s labels
  have split : (m >>= k).run env = m.run env >>= fun a => (k a).run env := rfl
  rw [split]
  exact (first s labels).bind fun a s₁ _ reached => rest a reached.2 s₁ reached.1

theorem Reports.of_eq {m : LowerM α} (reports : Reports env L₁ L₂ m ds P) (same : ds = ds₂) :
    Reports env L₁ L₂ m ds₂ P :=
  same ▸ reports

theorem Reports.mono {m : LowerM α} (reports : Reports env L₁ L₂ m ds P) (weaker : ∀ a, P a → Q a) :
    Reports env L₁ L₂ m ds Q := by
  intro s labels
  have holds := reports s labels
  generalize runStep (m.run env) s = r at holds
  obtain ⟨_ | a, s'⟩ := r
  · exact holds
  · exact ⟨holds.1, holds.2.1, weaker a holds.2.2⟩

theorem Quiet.reports {m : LowerM α} (quiet : Quiet m) : Reports env L L m [] fun _ => True := by
  intro s labels
  obtain ⟨same, frames⟩ := quiet env s
  generalize runStep (m.run env) s = r at same frames
  obtain ⟨_ | a, s'⟩ := r
  · exact ⟨[], List.nil_prefix, by simp only at same; simp [same]⟩
  · simp only at same frames
    exact ⟨by simp [same], by rw [LoopStack.labels, frames]; exact labels, trivial⟩

/-- A quiet step, then a step that reports. -/
theorem Reports.quiet_bind {m : LowerM α} {k : α → LowerM β} {Q : β → Prop} (first : Quiet m)
    (rest : ∀ a, Reports env L₁ L₂ (k a) ds Q) : Reports env L₁ L₂ (m >>= k) ds Q :=
  (first.reports.bind fun a _ => rest a).of_eq (List.nil_append ds)

theorem reports_pure (a : α) : Reports env L L (pure a) [] (· = a) :=
  fun _ labels => ⟨by simp, labels, rfl⟩

theorem reports_throw_bind (h : Halt) {k : α → LowerM β} {Q : β → Prop} :
    Reports env L₁ L₂ (throw h >>= k) ds Q := by
  intro s _
  have stops : runStep ((throw h >>= k).run env) s = (.error h, s) := rfl
  rw [stops]
  exact ⟨[], List.nil_prefix, by simp⟩

theorem Reports.read_bind {k : FunctionEnv → LowerM α} (reports : Reports env L₁ L₂ (k env) ds P) :
    Reports env L₁ L₂ (read >>= k) ds P :=
  reports

theorem Reports.ite {c : Prop} [Decidable c] {yes no : LowerM α} (onYes : c → Reports env L₁ L₂ yes ds P)
    (onNo : ¬c → Reports env L₁ L₂ no ds P) : Reports env L₁ L₂ (if c then yes else no) ds P := by
  split
  · exact onYes ‹_›
  · exact onNo ‹_›

theorem Reports.withScope {m : LowerM α} {scope : Nat}
    (reports : Reports { env with scope := scope } L₁ L₂ m ds P) :
    Reports env L₁ L₂ (Lowering.withScope (some scope) m) ds P :=
  reports

theorem Reports.map {m : LowerM α} (f : α → β) (reports : Reports env L₁ L₂ m ds P) :
    Reports env L₁ L₂ (f <$> m) ds fun b => ∃ a, P a ∧ b = f a := by
  rw [← bind_pure_comp]
  exact (reports.bind fun a holds => (reports_pure (f a)).mono fun b same => ⟨a, holds, same⟩).of_eq
    (List.append_nil ds)

theorem Reports.resolve_bind {k : Option Symbol → LowerM α} (name : String)
    (reports : Reports env L₁ L₂ (k (env.symbols.resolve env.scope name)) ds P) :
    Reports env L₁ L₂ (resolve name >>= k) ds P :=
  reports

theorem reports_report (kind : DiagnosticKind) (pos : Position) (message : String) :
    Reports env L L (report kind pos message) [⟨kind, pos, message⟩] fun _ => True :=
  fun _ labels => ⟨by simp, labels, trivial⟩

/-- Reporting, then answering. -/
theorem reports_report_pure (kind : DiagnosticKind) (pos : Position) (message : String) (a : α) :
    Reports env L L (report kind pos message >>= fun _ => pure a) [⟨kind, pos, message⟩] fun _ => True :=
  ((reports_report kind pos message).bind fun _ _ => (reports_pure a).mono fun _ _ => trivial).of_eq
    (List.append_nil _)

end Reports

/-! ## Quiet steps -/

section Quiet

variable {α β : Type}

theorem Quiet.bind {m : LowerM α} {k : α → LowerM β} (first : Quiet m) (rest : ∀ a, Quiet (k a)) :
    Quiet (m >>= k) := by
  intro env s
  have split : (m >>= k).run env = m.run env >>= fun a => (k a).run env := rfl
  rw [split, runStep_bind]
  obtain ⟨same, frames⟩ := first env s
  generalize runStep (m.run env) s = r at same frames
  obtain ⟨_ | a, s₁⟩ := r
  · exact ⟨same, frames⟩
  · obtain ⟨same₂, frames₂⟩ := rest a env s₁
    exact ⟨same₂.trans same, frames₂.trans frames⟩

theorem quiet_pure (a : α) : Quiet (pure a : LowerM α) := fun _ _ => ⟨rfl, rfl⟩

theorem quiet_throw (h : Halt) : Quiet (throw h : LowerM α) := fun _ _ => ⟨rfl, rfl⟩

theorem Quiet.map {m : LowerM α} (f : α → β) (quiet : Quiet m) : Quiet (f <$> m) := by
  rw [← bind_pure_comp]
  exact quiet.bind fun a => quiet_pure (f a)

theorem Quiet.ite {c : Prop} [Decidable c] {yes no : LowerM α} (onYes : Quiet yes) (onNo : Quiet no) :
    Quiet (if c then yes else no) := by
  split
  · exact onYes
  · exact onNo

theorem quiet_read_bind {k : FunctionEnv → LowerM α} (rest : ∀ env, Quiet (k env)) : Quiet (read >>= k) :=
  fun env => rest env env

theorem quiet_onCode (m : CodeM α) : Quiet (onCode m) := by
  intro env s
  obtain ⟨code, pool, diagnostics, locals, loops⟩ := s
  exact ⟨rfl, rfl⟩

theorem quiet_onPool (m : PoolM α) : Quiet (onPool m) := by
  intro env s
  obtain ⟨code, pool, diagnostics, locals, loops⟩ := s
  exact ⟨rfl, rfl⟩

theorem quiet_memberName (name : Ident) : Quiet (memberName name) := by
  unfold memberName
  split
  · exact quiet_pure _
  · exact quiet_throw _

theorem quiet_takeSlot : Quiet takeSlot := by
  intro env s
  simp only [takeSlot, ReaderT.run, runStep_mk]
  split <;> exact ⟨rfl, rfl⟩

theorem quiet_releaseSlot : Quiet releaseSlot := by
  intro env s
  simp only [releaseSlot, ReaderT.run, runStep_mk]
  split <;> exact ⟨rfl, rfl⟩

theorem quiet_recordBreak (loop operand : Nat) : Quiet (recordBreak loop operand) :=
  fun _ _ => ⟨rfl, rfl⟩

theorem quiet_op (o : Opcode) (operands : List Nat) : Quiet (op o operands) := quiet_onCode _

theorem quiet_offset : Quiet offset := quiet_onCode _

theorem quiet_freshLabel : Quiet freshLabel := quiet_onCode _

theorem quiet_place (label : Nat) : Quiet (place label) := quiet_onCode _

theorem quiet_jump (o : Opcode) (label : Nat) : Quiet (jump o label) := quiet_onCode _

theorem quiet_enterHandler : Quiet enterHandler := quiet_onCode _

theorem quiet_addHandler (start stop handler : Nat) (catchClass : Option Nat) :
    Quiet (addHandler start stop handler catchClass) :=
  quiet_onCode _

theorem quiet_invokeEntry (o : Opcode) (ref : FunctionRef) : Quiet (invokeEntry o ref) :=
  (quiet_onPool _).bind fun _ => quiet_onCode _

theorem quiet_callIntrinsic (f : Intrinsic) : Quiet (callIntrinsic f) := quiet_invokeEntry _ _

theorem quiet_loadString (text : String) : Quiet (loadString text) :=
  (quiet_onPool _).bind fun _ => quiet_op _ _

theorem quiet_jumpUnlessTrue (label : Nat) : Quiet (jumpUnlessTrue label) :=
  (quiet_callIntrinsic _).bind fun _ => quiet_jump _ _

theorem quiet_fieldEntry (owner : BinaryName) (name : Ident) : Quiet (fieldEntry owner name) :=
  (quiet_memberName name).bind fun _ => quiet_onPool _

theorem quiet_functionRef (owner : BinaryName) (name : Ident) (arity : Nat) :
    Quiet (functionRef owner name arity) :=
  (quiet_memberName name).bind fun _ => quiet_read_bind fun _ => quiet_pure _

theorem quiet_load : ∀ a : Access, Quiet a.load
  | .slot _ | .staticField _ | .instanceField _ | .invalid => quiet_op _ _
  | .dynamicMember | .subscript => quiet_callIntrinsic _
  | .value => quiet_pure ()

theorem quiet_store : ∀ a : Access, Quiet a.store
  | .slot _ | .staticField _ | .instanceField _ => (quiet_op _ _).bind fun _ => quiet_op _ _
  | .dynamicMember | .subscript => quiet_callIntrinsic _
  | .value | .invalid => quiet_pure ()

theorem quiet_duplicateAddress (a : Access) : Quiet a.duplicateAddress := by
  unfold Access.duplicateAddress
  split
  · exact quiet_pure ()
  · exact quiet_op _ _
  · exact quiet_op _ _

theorem quiet_lowerLiteral : ∀ lit : Literal, Quiet (lowerLiteral lit)
  | .integer _ | .long _ | .float _ | .double _ =>
    (quiet_onPool _).bind fun _ => (quiet_op _ _).bind fun _ => quiet_callIntrinsic _
  | .string _ => quiet_loadString _
  | .boolean true | .boolean false => (quiet_onPool _).bind fun _ => quiet_op _ _
  | .null => quiet_op _ _

theorem quiet_evaluateBinary (o : BinaryOp) : Quiet (evaluateBinary o) :=
  (quiet_loadString _).bind fun _ => quiet_callIntrinsic _

theorem quiet_evaluateUnary (o : UnaryOp) : Quiet (evaluateUnary o) :=
  (quiet_loadString _).bind fun _ => quiet_callIntrinsic _

theorem quiet_construct (cls : BinaryName) (init : Intrinsic) : Quiet (construct cls init) :=
  (quiet_onPool _).bind fun _ => (quiet_op _ _).bind fun _ => (quiet_op _ _).bind fun _ =>
    quiet_callIntrinsic _

end Quiet

/-! ## Places, names and calls -/

/-- How a bound member call binds, as far as its problems go. -/
def MemberCall.binding : MemberCall → CallBinding
  | .ofClass _ => .ofClass
  | .onSelf _ arities => .onSelf arities
  | .dispatch => .dispatch

section Access

variable {env : FunctionEnv} {L : List (Option String)}

theorem reports_reportInvalidTarget (pos : Position) :
    Reports env L L (reportInvalidTarget pos) [.invalidTarget pos] fun _ => True :=
  reports_report _ _ _

theorem reports_accessVariable (name : Ident) :
    ∀ storage, Reports env L L (accessVariable name storage) (env.context.variableProblems name storage)
      fun _ => True
  | .slot _ => (quiet_pure _).reports
  | .field owner isStatic => by
    rw [accessVariable]
    refine Reports.quiet_bind (quiet_fieldEntry owner name) fun field => ?_
    refine Reports.ite (fun static => ?_) (fun perInstance => Reports.read_bind ?_)
    · exact ((quiet_pure _).reports).of_eq (by simp [ProblemContext.variableProblems, static])
    refine Reports.ite (fun inStatic => ?_) (fun _ => ?_)
    · exact (reports_report_pure _ _ _ _).of_eq
        (by simp_all [ProblemContext.variableProblems])
    · exact (Reports.quiet_bind (quiet_op _ _) fun _ => (quiet_pure _).reports).of_eq
        (by simp_all [ProblemContext.variableProblems])

theorem reports_accessName (name : Ident) (forWrite : Bool) :
    Reports env L L (accessName name forWrite) (env.context.nameProblems name forWrite) fun _ => True := by
  unfold accessName
  refine Reports.resolve_bind name.text ?_
  split
  · rename_i unresolved
    exact (reports_report_pure _ _ _ _).of_eq (by simp [ProblemContext.nameProblems, unresolved])
  · rename_i storage found
    refine Reports.ite (fun write => ?_) (fun read => ?_)
    · exact (reports_report_pure _ _ _ _).of_eq (by simp [ProblemContext.nameProblems, found, write])
    · exact (reports_accessVariable name storage).of_eq (by simp_all [ProblemContext.nameProblems])
  · rename_i storage found
    exact (reports_accessVariable name storage).of_eq (by simp [ProblemContext.nameProblems, found])
  · rename_i owner _ arities found
    refine Reports.ite (fun write => ?_) (fun read => Reports.ite (fun overloaded => ?_) (fun single => ?_))
    · exact ((reports_reportInvalidTarget _).bind fun _ _ => (quiet_pure _).reports).of_eq
        (by simp [ProblemContext.nameProblems, found, write])
    · exact (reports_report_pure _ _ _ _).of_eq (by simp_all [ProblemContext.nameProblems])
    · exact (Reports.quiet_bind (quiet_functionRef _ _ _) fun _ => Reports.quiet_bind (quiet_onPool _)
        fun _ => Reports.quiet_bind (quiet_op _ _) fun _ => (quiet_pure _).reports).of_eq
        (by simp_all [ProblemContext.nameProblems])
  · rename_i cls found
    refine Reports.ite (fun write => ?_) (fun read => ?_)
    · exact ((reports_reportInvalidTarget _).bind fun _ _ => (quiet_pure _).reports).of_eq
        (by simp [ProblemContext.nameProblems, found, write])
    · exact (Reports.quiet_bind (quiet_onPool _) fun _ => Reports.quiet_bind (quiet_op _ _) fun _ =>
        (quiet_pure _).reports).of_eq (by simp_all [ProblemContext.nameProblems])

theorem reports_accessSelf (pos : Position) (forWrite : Bool) :
    Reports env L L (accessSelf pos forWrite) (env.context.selfProblems pos forWrite) fun _ => True := by
  unfold accessSelf
  refine Reports.ite (fun write => ?_) (fun read => Reports.read_bind (Reports.ite (fun static => ?_) (fun _ => ?_)))
  · exact ((reports_reportInvalidTarget _).bind fun _ _ => (quiet_pure _).reports).of_eq
      (by simp [ProblemContext.selfProblems, write])
  · exact (reports_report_pure _ _ _ _).of_eq (by simp_all [ProblemContext.selfProblems])
  · exact (Reports.quiet_bind (quiet_op _ _) fun _ => (quiet_pure _).reports).of_eq
      (by simp_all [ProblemContext.selfProblems])

theorem reports_staticMember? (obj : Expr) (name : Ident) :
    Reports env L L (staticMember? obj name) []
      fun found => found.isSome = env.context.reachesStatically obj name := by
  unfold staticMember?
  refine Reports.read_bind ?_
  cases obj with
  | self pos =>
    dsimp only
    refine Reports.ite (fun static => ?_) (fun perInstance => ?_)
    · exact (reports_pure none).mono fun _ same => by simp [same, ProblemContext.reachesStatically, static]
    split
    · rename_i owner isStatic found
      refine ((reports_accessVariable name _).map some).of_eq ?_ |>.mono ?_
      · cases isStatic <;> simp [ProblemContext.variableProblems, perInstance]
      · rintro _ ⟨_, _, rfl⟩
        simp [ProblemContext.reachesStatically, perInstance, found]
    · rename_i notField
      refine (reports_pure none).mono fun _ same => ?_
      simp [same, ProblemContext.reachesStatically, perInstance]
  | ident cls =>
    dsimp only
    split
    · rename_i owner found
      refine Reports.quiet_bind (quiet_fieldEntry _ _) fun field => ?_
      exact (reports_pure _).mono fun _ same => by simp [same, ProblemContext.reachesStatically, found]
    · rename_i notClass
      refine (reports_pure none).mono fun _ same => ?_
      simp [same, ProblemContext.reachesStatically]
  | _ => exact (reports_pure none).mono fun _ same => by simp [same, ProblemContext.reachesStatically]

theorem reports_bindMemberCall (obj : Expr) (name : Ident) (arity : Nat) :
    Reports env L L (bindMemberCall obj name arity) []
      fun call => call.binding = env.context.binding obj name := by
  unfold bindMemberCall
  refine Reports.read_bind ?_
  cases obj with
  | self pos =>
    dsimp only
    split
    · rename_i owner arities found
      exact (reports_pure _).mono fun _ same => by simp [same, MemberCall.binding, ProblemContext.binding, found]
    · rename_i notFunction
      refine (reports_pure _).mono fun _ same => ?_
      simp [same, MemberCall.binding, ProblemContext.binding]
  | ident cls =>
    dsimp only
    split
    · rename_i owner found
      refine Reports.quiet_bind (quiet_memberName _) fun text => ?_
      exact (reports_pure _).mono fun _ same => by simp [same, MemberCall.binding, ProblemContext.binding, found]
    · rename_i notClass
      refine (reports_pure _).mono fun _ same => ?_
      simp [same, MemberCall.binding, ProblemContext.binding]
  | _ => exact (reports_pure _).mono fun _ same => by simp [same, MemberCall.binding, ProblemContext.binding]

theorem reports_invoke (o : Opcode) (ref : FunctionRef) {args : LowerM Unit} {ds : List Diagnostic}
    (pushes : Reports env L L args ds fun _ => True) : Reports env L L (invoke o ref args) ds fun _ => True :=
  (pushes.bind fun _ _ => (quiet_invokeEntry o ref).reports).of_eq (List.append_nil ds)

theorem reports_callFunction (owner : BinaryName) (isStatic : Bool) (arities : List Nat) (name : Ident)
    (arity : Nat) {args : LowerM Unit} {ds : List Diagnostic} (pushes : Reports env L L args ds fun _ => True) :
    Reports env L L (callFunction owner isStatic arities name arity args)
      (env.context.callProblems isStatic arities name arity ds) fun _ => True := by
  unfold callFunction
  refine Reports.ite (fun missing => ?_) (fun found => ?_)
  · exact ((reports_report _ _ _).bind fun _ _ => (quiet_op _ _).reports).of_eq
      (by simp_all [ProblemContext.callProblems])
  refine Reports.quiet_bind (quiet_functionRef _ _ _) fun ref => ?_
  refine Reports.ite (fun static => ?_) (fun dynamic => Reports.read_bind (Reports.ite (fun inStatic => ?_) (fun _ => ?_)))
  · exact (reports_invoke _ _ pushes).of_eq (by simp_all [ProblemContext.callProblems])
  · exact ((reports_report _ _ _).bind fun _ _ => (quiet_op _ _).reports).of_eq
      (by simp_all [ProblemContext.callProblems])
  · exact (Reports.quiet_bind (quiet_op _ _) fun _ => reports_invoke _ _ pushes).of_eq
      (by simp_all [ProblemContext.callProblems])

theorem reports_unresolvedClass (cls : Ident) :
    Reports env L L (unresolvedClass cls)
      [⟨.unresolvedSymbol, cls.pos, "cannot resolve class '" ++ cls.text ++ "'"⟩] fun _ => True :=
  ((reports_report _ _ _).bind fun _ _ => (quiet_op _ _).reports).of_eq (List.append_nil _)

theorem reports_unresolvedFunction (name : Ident) :
    Reports env L L (unresolvedFunction name)
      [⟨.unresolvedSymbol, name.pos, "cannot resolve function '" ++ name.text ++ "'"⟩] fun _ => True :=
  ((reports_report _ _ _).bind fun _ _ => (quiet_op _ _).reports).of_eq (List.append_nil _)

end Access

/-! ## Expressions -/

section Expressions

variable {env : FunctionEnv} {L : List (Option String)}

/-- A member, from what lowering its object reports. -/
theorem reports_lowerMember {obj : Expr} (name : Ident)
    (objReports : Reports env L L (lowerExpr obj) (env.context.exprProblems obj) fun _ => True) :
    Reports env L L (lowerMember obj name)
      (if env.context.reachesStatically obj name then [] else env.context.exprProblems obj) fun _ => True := by
  rw [lowerMember]
  refine ((reports_staticMember? obj name).bind fun found reached => ?_).of_eq (List.nil_append _)
  split
  · rename_i place
    exact (quiet_pure place).reports.of_eq (by simp [← reached])
  · exact (objReports.bind fun _ _ => Reports.quiet_bind (quiet_loadString _) fun _ =>
      (quiet_pure _).reports).of_eq (by simp [← reached])

mutual

theorem reports_lowerExpr (e : Expr) :
    Reports env L L (lowerExpr e) (env.context.exprProblems e) fun _ => True := by
  cases e with
  | literal lit pos =>
    rw [lowerExpr]
    exact (quiet_lowerLiteral lit).reports.of_eq (by simp [ProblemContext.exprProblems])
  | ident name =>
    rw [lowerExpr]
    exact ((reports_accessName name false).bind fun place _ => (quiet_load place).reports).of_eq
      (by simp [ProblemContext.exprProblems])
  | self pos =>
    rw [lowerExpr]
    exact ((reports_accessSelf pos false).bind fun place _ => (quiet_load place).reports).of_eq
      (by simp [ProblemContext.exprProblems])
  | member obj name =>
    rw [lowerExpr]
    exact ((reports_lowerMember name (reports_lowerExpr obj)).bind fun place _ => (quiet_load place).reports).of_eq
      (by simp [ProblemContext.exprProblems])
  | index obj key =>
    rw [lowerExpr]
    exact ((reports_lowerExpr obj).bind fun _ _ => (reports_lowerExpr key).bind fun _ _ =>
      (quiet_load .subscript).reports).of_eq (by simp [ProblemContext.exprProblems])
  | list items pos =>
    rw [lowerExpr]
    exact (Reports.quiet_bind (quiet_construct _ _) fun _ => reports_lowerItems items).of_eq
      (by simp [ProblemContext.exprProblems])
  | map entries pos =>
    rw [lowerExpr]
    exact (Reports.quiet_bind (quiet_construct _ _) fun _ => reports_lowerEntries entries).of_eq
      (by simp [ProblemContext.exprProblems])
  | assign target o value =>
    rw [lowerExpr, ProblemContext.exprProblems]
    refine (reports_lowerTarget target).bind fun place _ => ?_
    extract_lets storing
    have stores : ∀ u, Quiet (storing u) := fun _ => quiet_store place
    split
    · exact ((reports_lowerExpr value).bind fun _ _ => (stores ()).reports).of_eq (List.append_nil _)
    · exact (Reports.quiet_bind (quiet_duplicateAddress place) fun _ => Reports.quiet_bind (quiet_load place)
        fun _ => (reports_lowerExpr value).bind fun _ _ =>
        Reports.quiet_bind (quiet_evaluateBinary _) fun _ => (stores ()).reports).of_eq (List.append_nil _)
  | cond test thenValue elseValue =>
    rw [lowerExpr]
    exact (Reports.quiet_bind quiet_freshLabel fun otherwise => Reports.quiet_bind quiet_freshLabel fun done =>
      (reports_lowerExpr test).bind fun _ _ => Reports.quiet_bind (quiet_jumpUnlessTrue otherwise) fun _ =>
      (reports_lowerExpr thenValue).bind fun _ _ => Reports.quiet_bind (quiet_jump _ done) fun _ =>
      Reports.quiet_bind (quiet_place otherwise) fun _ => (reports_lowerExpr elseValue).bind fun _ _ =>
      (quiet_place done).reports).of_eq (by simp [ProblemContext.exprProblems])
  | logical o left right =>
    cases o <;> rw [lowerExpr] <;>
      exact (Reports.quiet_bind quiet_freshLabel fun done => (reports_lowerExpr left).bind fun _ _ =>
        Reports.quiet_bind (quiet_op _ _) fun _ => Reports.quiet_bind (quiet_callIntrinsic _) fun _ =>
        Reports.quiet_bind (quiet_jump _ done) fun _ => Reports.quiet_bind (quiet_op _ _) fun _ =>
        (reports_lowerExpr right).bind fun _ _ => (quiet_place done).reports).of_eq
        (by simp [ProblemContext.exprProblems])
  | binary o left right =>
    rw [lowerExpr]
    exact ((reports_lowerExpr left).bind fun _ _ => (reports_lowerExpr right).bind fun _ _ =>
      (quiet_evaluateBinary o).reports).of_eq (by simp [ProblemContext.exprProblems])
  | unary o operand pos =>
    rw [lowerExpr]
    exact ((reports_lowerExpr operand).bind fun _ _ => (quiet_evaluateUnary o).reports).of_eq
      (by simp [ProblemContext.exprProblems])
  | call callee args =>
    cases callee with
    | ident name =>
      rw [lowerExpr]
      refine Reports.resolve_bind name.text ?_
      split
      · rename_i owner isStatic arities found
        exact (reports_callFunction _ _ _ name _ (reports_lowerArgs args)).of_eq
          (by simp [ProblemContext.exprProblems, found])
      · rename_i unresolved
        exact (reports_unresolvedFunction name).of_eq (by simp [ProblemContext.exprProblems, unresolved])
      · rename_i symbol notFunction found
        refine ((reports_accessName name false).bind fun place _ => Reports.quiet_bind (quiet_load place)
          fun _ => (reports_lowerArgs args).bind fun _ _ => (quiet_callIntrinsic _).reports).of_eq ?_
        cases symbol with
        | function owner isStatic arities => exact absurd rfl (notFunction _ _ _)
        | _ => simp [ProblemContext.exprProblems, found]
    | member obj name =>
      rw [lowerExpr]
      refine ((reports_bindMemberCall obj name _).bind fun call bound => ?_).of_eq (List.nil_append _)
      cases call with
      | ofClass ref =>
        exact (reports_invoke _ _ (reports_lowerArgs args)).of_eq
          (by simp [ProblemContext.exprProblems, ← bound, MemberCall.binding])
      | onSelf owner arities =>
        exact (reports_callFunction _ _ _ name _ (reports_lowerArgs args)).of_eq
          (by simp [ProblemContext.exprProblems, ← bound, MemberCall.binding])
      | dispatch =>
        exact ((reports_lowerExpr obj).bind fun _ _ => Reports.quiet_bind (quiet_memberName name) fun _ =>
          reports_invoke _ _ (reports_lowerArgs args)).of_eq
          (by simp [ProblemContext.exprProblems, ← bound, MemberCall.binding])
    | _ =>
      rw [lowerExpr.eq_16 _ _ (fun _ => Expr.noConfusion) (fun _ _ => Expr.noConfusion)]
      exact ((reports_lowerExpr _).bind fun _ _ => (reports_lowerArgs args).bind fun _ _ =>
        (quiet_callIntrinsic _).reports).of_eq (by simp [ProblemContext.exprProblems])
  | new cls args =>
    rw [lowerExpr]
    refine Reports.resolve_bind cls.text ?_
    split
    · rename_i name found
      exact (Reports.quiet_bind (quiet_onPool _) fun _ => Reports.quiet_bind (quiet_op _ _) fun _ =>
        Reports.quiet_bind (quiet_op _ _) fun _ => reports_invoke _ _ (reports_lowerArgs args)).of_eq
        (by simp [ProblemContext.exprProblems, found])
    · rename_i notClass
      exact (reports_unresolvedClass cls).of_eq (by simp [ProblemContext.exprProblems])
termination_by structural e

theorem reports_lowerArgs (args : List Expr) :
    Reports env L L (lowerArgs args) (env.context.argsProblems args) fun _ => True := by
  cases args with
  | nil =>
    rw [lowerArgs]
    exact (quiet_pure ()).reports.of_eq (by simp [ProblemContext.argsProblems])
  | cons e rest =>
    rw [lowerArgs]
    exact ((reports_lowerExpr e).bind fun _ _ => reports_lowerArgs rest).of_eq
      (by simp [ProblemContext.argsProblems])
termination_by structural args

theorem reports_lowerItems (items : List Expr) :
    Reports env L L (lowerItems items) (env.context.argsProblems items) fun _ => True := by
  cases items with
  | nil =>
    rw [lowerItems]
    exact (quiet_pure ()).reports.of_eq (by simp [ProblemContext.argsProblems])
  | cons e rest =>
    rw [lowerItems]
    exact (Reports.quiet_bind (quiet_op _ _) fun _ => (reports_lowerExpr e).bind fun _ _ =>
      Reports.quiet_bind (quiet_callIntrinsic _) fun _ => reports_lowerItems rest).of_eq
      (by simp [ProblemContext.argsProblems])
termination_by structural items

theorem reports_lowerEntries (entries : List (Expr × Expr)) :
    Reports env L L (lowerEntries entries) (env.context.entriesProblems entries) fun _ => True := by
  cases entries with
  | nil =>
    rw [lowerEntries]
    exact (quiet_pure ()).reports.of_eq (by simp [ProblemContext.entriesProblems])
  | cons entry rest =>
    obtain ⟨key, value⟩ := entry
    rw [lowerEntries]
    exact (Reports.quiet_bind (quiet_op _ _) fun _ => (reports_lowerExpr key).bind fun _ _ =>
      (reports_lowerExpr value).bind fun _ _ => Reports.quiet_bind (quiet_callIntrinsic _) fun _ =>
      reports_lowerEntries rest).of_eq (by simp [ProblemContext.entriesProblems])
termination_by structural entries


theorem reports_lowerTarget (target : Expr) :
    Reports env L L (lowerTarget target) (env.context.targetProblems target) fun _ => True := by
  cases target with
  | ident name =>
    rw [lowerTarget]
    exact (reports_accessName name true).of_eq (by simp [ProblemContext.targetProblems])
  | self pos =>
    rw [lowerTarget]
    exact (reports_accessSelf pos true).of_eq (by simp [ProblemContext.targetProblems])
  | member obj name =>
    rw [lowerTarget]
    exact (reports_lowerMember name (reports_lowerExpr obj)).of_eq (by simp [ProblemContext.targetProblems])
  | index obj key =>
    rw [lowerTarget]
    exact ((reports_lowerExpr obj).bind fun _ _ => (reports_lowerExpr key).bind fun _ _ =>
      (quiet_pure _).reports).of_eq (by simp [ProblemContext.targetProblems])
  | _ =>
    rw [lowerTarget.eq_5 _ (fun _ => Expr.noConfusion) (fun _ => Expr.noConfusion) (fun _ _ => Expr.noConfusion)
      (fun _ _ => Expr.noConfusion)]
    exact ((reports_reportInvalidTarget _).bind fun _ _ => (quiet_pure _).reports).of_eq
      (by simp [ProblemContext.targetProblems])
termination_by structural target

end

end Expressions

end Lowering

end Febc
