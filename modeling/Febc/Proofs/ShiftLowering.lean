import Febc.Lowering.Function
import Febc.Proofs.Shift

/-!
# Lowering on renumbered channels

Lowering a function body reads its code builder's channels only through the builder, and its
diagnostics not at all: it appends to them. So lowering from a state whose channels are
renumbered `n` higher and whose diagnostics follow earlier ones `D` (`Lowering.shift n D`) does
what lowering from the state itself does: the same answer, a stop that names a channel naming it
`n` higher, and the state it leaves renumbered and after `D` again (`Lowers`).

Every step of lowering has that property. The primitive steps have it by their definitions; the
rest are built from them by binding, conditionals and matches, and their lemmas follow their
definitions, the expressions and statements by one mutual induction on the syntax.

Main statements: `lowers_lowerExpr`, `lowers_lowerStmt`, `lowers_finish`,
`lowers_initializeFields` and `lowers_initializeInstance`.
-/

namespace Febc

namespace Lowering

open CodeBuilder (Shifts)

/-- The same lowering state on channels renumbered `n` higher, after the diagnostics `D`. -/
def shift (n : Nat) (D : Array Diagnostic) (s : Lowering) : Lowering :=
  { s with code := s.code.shift n, diagnostics := D ++ s.diagnostics }

@[simp] theorem shift_code (n : Nat) (D : Array Diagnostic) (s : Lowering) : (s.shift n D).code = s.code.shift n := rfl
@[simp] theorem shift_locals (n : Nat) (D : Array Diagnostic) (s : Lowering) : (s.shift n D).locals = s.locals := rfl
@[simp] theorem shift_loops (n : Nat) (D : Array Diagnostic) (s : Lowering) : (s.shift n D).loops = s.loops := rfl

/-- A step of lowering that renames itself: from every environment, under any renumbering of the
channels and after any earlier diagnostics. -/
def Lowers {α : Type} (m : LowerM α) : Prop :=
  ∀ env n D, Renames (shift n D) (Halt.shift n) (m.run env) (m.run env)

section Lowers

variable {α β : Type}

theorem Lowers.bind {m : LowerM α} {k : α → LowerM β} (first : Lowers m) (rest : ∀ a, Lowers (k a)) :
    Lowers (m >>= k) :=
  fun env n D => (first env n D).bind fun a => rest a env n D

theorem lowers_pure (a : α) : Lowers (pure a : LowerM α) := fun _ _ _ => renames_pure a

theorem Lowers.map {m : LowerM α} (f : α → β) (lowers : Lowers m) : Lowers (f <$> m) := by
  rw [← bind_pure_comp]
  exact lowers.bind fun a => lowers_pure (f a)

/-- A stop that names no channel. -/
theorem lowers_throw {h : Halt} (fixed : ∀ n, Halt.shift n h = h) : Lowers (throw h : LowerM α) :=
  fun _ n _ => renames_throw (fixed n)

theorem lowers_throw_bind {h : Halt} (fixed : ∀ n, Halt.shift n h = h) {k : α → LowerM β} :
    Lowers (throw h >>= k) := by
  intro env n D
  show Renames _ _ (throw h >>= fun a => (k a).run env) (throw h >>= fun a => (k a).run env)
  exact renames_throw_bind (fixed n)

theorem lowers_stop (e : Error) : Lowers (stop e : LowerM α) := lowers_throw fun _ => rfl

theorem lowers_ite {c : Prop} [Decidable c] {yes no : LowerM α} (onYes : Lowers yes) (onNo : Lowers no) :
    Lowers (if c then yes else no) := by
  intro env n D
  split
  · exact onYes env n D
  · exact onNo env n D

theorem lowers_read_bind {k : FunctionEnv → LowerM α} (rest : ∀ env, Lowers (k env)) : Lowers (read >>= k) :=
  fun env => rest env env

/-- Reading the state for what renumbering and earlier diagnostics keep. -/
theorem lowers_get_bind {k : Lowering → LowerM α} (reads : ∀ n D s, k (s.shift n D) = k s)
    (rest : ∀ s, Lowers (k s)) : Lowers (get >>= k) :=
  fun env n D => renames_get_bind fun s => by rw [reads]; exact rest s env n D

theorem lowers_withScope (scope : Option Nat) {m : LowerM α} (lowers : Lowers m) : Lowers (withScope scope m) := by
  cases scope with
  | none => exact lowers
  | some s => exact fun env => lowers { env with scope := s }

/-- A step of the code builder, which renames itself under renumbering. -/
theorem lowers_onCode {m : CodeM α} (shifts : Shifts m) : Lowers (onCode m) := by
  intro env n D s
  obtain ⟨code, pool, diagnostics, locals, loops⟩ := s
  simp only [onCode, ReaderT.run, runStep_mk, shift]
  rw [shifts n code]

/-- A step of the constant pool, which renumbering and diagnostics leave alone. -/
theorem lowers_onPool (m : PoolM α) : Lowers (onPool m) := by
  intro env n D s
  obtain ⟨code, pool, diagnostics, locals, loops⟩ := s
  simp only [onPool, ReaderT.run, runStep_mk, shift]
  -- a pool error names no channel
  cases (runStep m pool).1 <;> rfl

/-- A diagnostic goes after the earlier ones. -/
theorem lowers_report (kind : DiagnosticKind) (pos : Position) (message : String) :
    Lowers (report kind pos message) := by
  intro env n D
  show Renames _ _ (modify fun s : Lowering => { s with diagnostics := s.diagnostics.push ⟨kind, pos, message⟩ } :
    ExceptT Halt (StateM Lowering) PUnit) (modify _)
  exact renames_modify fun s => by simp [shift]

end Lowers

/-! ## The primitive steps -/

theorem lowers_resolve (name : String) : Lowers (resolve name) :=
  lowers_read_bind fun _ => lowers_pure _

theorem lowers_memberName (name : Ident) : Lowers (memberName name) := by
  unfold memberName
  split
  · exact lowers_pure _
  · exact lowers_stop _

theorem lowers_op (o : Opcode) (operands : List Nat) : Lowers (op o operands) :=
  lowers_onCode (CodeBuilder.shifts_pushInstruction o operands)

theorem lowers_offset : Lowers offset := lowers_onCode CodeBuilder.shifts_currentOffset

theorem lowers_freshLabel : Lowers freshLabel := lowers_onCode CodeBuilder.shifts_freshLabel

theorem lowers_place (label : Nat) : Lowers (place label) := lowers_onCode (CodeBuilder.shifts_placeLabel label)

theorem lowers_jump (o : Opcode) (label : Nat) : Lowers (jump o label) :=
  lowers_onCode (CodeBuilder.shifts_pushJump o label)

theorem lowers_enterHandler : Lowers enterHandler := lowers_onCode CodeBuilder.shifts_enterHandler

theorem lowers_addHandler (start stop handler : Nat) (catchClass : Option Nat) :
    Lowers (addHandler start stop handler catchClass) :=
  lowers_onCode (CodeBuilder.shifts_addHandler start stop handler catchClass)

theorem lowers_invokeEntry (o : Opcode) (ref : FunctionRef) : Lowers (invokeEntry o ref) :=
  (lowers_onPool _).bind fun index => lowers_onCode (CodeBuilder.shifts_pushInvoke o index ref.descriptor)

theorem lowers_callIntrinsic (f : Intrinsic) : Lowers (callIntrinsic f) := lowers_invokeEntry _ _

theorem lowers_loadBoolean (b : BooleanField) : Lowers (loadBoolean b) :=
  (lowers_onPool _).bind fun _ => lowers_op _ _

theorem lowers_loadConstant (index : Nat) : Lowers (loadConstant index) := lowers_op _ _

theorem lowers_loadString (text : String) : Lowers (loadString text) :=
  (lowers_onPool _).bind fun _ => lowers_loadConstant _

theorem lowers_testTruth : Lowers testTruth := lowers_callIntrinsic _

theorem lowers_jumpUnlessTrue (label : Nat) : Lowers (jumpUnlessTrue label) :=
  lowers_testTruth.bind fun _ => lowers_jump _ _

theorem lowers_takeSlot : Lowers takeSlot := by
  intro env n D s
  simp only [takeSlot, ReaderT.run, runStep_mk, shift_locals]
  split <;> rfl

theorem lowers_releaseSlot : Lowers releaseSlot := by
  intro env n D s
  simp only [releaseSlot, ReaderT.run, runStep_mk, shift_locals]
  split <;> rfl

theorem lowers_enterLoop (label : Option Ident) (continueLabel : Nat) : Lowers (enterLoop label continueLabel) :=
  fun _ _ _ => renames_modify fun _ => rfl

theorem lowers_findLoop (label : Option Ident) : Lowers (findLoop label) :=
  lowers_get_bind (fun _ _ _ => rfl) fun _ => lowers_pure _

theorem lowers_inLoop : Lowers inLoop := lowers_get_bind (fun _ _ _ => rfl) fun _ => lowers_pure _

theorem lowers_recordBreak (loop operand : Nat) : Lowers (recordBreak loop operand) :=
  fun _ _ _ => renames_modify fun _ => rfl

theorem lowers_leaveLoop : Lowers leaveLoop := by
  intro env n D s
  simp only [leaveLoop, ReaderT.run, runStep_mk, shift_loops]
  split <;> rfl

/-! ## Places, names and calls -/

theorem lowers_load : ∀ a : Access, Lowers a.load
  | .slot _ => lowers_op _ _
  | .staticField _ => lowers_op _ _
  | .instanceField _ => lowers_op _ _
  | .dynamicMember => lowers_callIntrinsic _
  | .subscript => lowers_callIntrinsic _
  | .value => lowers_pure ()
  | .invalid => lowers_op _ _

theorem lowers_store : ∀ a : Access, Lowers a.store
  | .slot _ => (lowers_op _ _).bind fun _ => lowers_op _ _
  | .staticField _ => (lowers_op _ _).bind fun _ => lowers_op _ _
  | .instanceField _ => (lowers_op _ _).bind fun _ => lowers_op _ _
  | .dynamicMember => lowers_callIntrinsic _
  | .subscript => lowers_callIntrinsic _
  | .value => lowers_pure ()
  | .invalid => lowers_pure ()

theorem lowers_duplicateAddress (a : Access) : Lowers a.duplicateAddress := by
  unfold Access.duplicateAddress
  split
  · exact lowers_pure ()
  · exact lowers_op _ _
  · exact lowers_op _ _

theorem lowers_fieldEntry (owner : BinaryName) (name : Ident) : Lowers (fieldEntry owner name) :=
  (lowers_memberName name).bind fun _ => lowers_onPool _

theorem lowers_functionRef (owner : BinaryName) (name : Ident) (arity : Nat) : Lowers (functionRef owner name arity) :=
  (lowers_memberName name).bind fun _ => lowers_read_bind fun _ => lowers_pure _

/-- Reporting, then answering. -/
theorem lowers_report_pure {α : Type} (kind : DiagnosticKind) (pos : Position) (message : String) (a : α) :
    Lowers (report kind pos message >>= fun _ => pure a) :=
  (lowers_report kind pos message).bind fun _ => lowers_pure a

theorem lowers_accessVariable (name : Ident) : ∀ storage, Lowers (accessVariable name storage)
  | .slot _ => lowers_pure _
  | .field owner _ => by
    refine (lowers_fieldEntry owner name).bind fun field => ?_
    exact lowers_ite (lowers_pure _) (lowers_read_bind fun _ =>
      lowers_ite (lowers_report_pure _ _ _ _) ((lowers_op _ _).bind fun _ => lowers_pure _))

theorem lowers_accessName (name : Ident) (forWrite : Bool) : Lowers (accessName name forWrite) := by
  unfold accessName
  refine (lowers_resolve _).bind fun found => ?_
  split
  · exact lowers_report_pure _ _ _ _
  · exact lowers_ite (lowers_report_pure _ _ _ _) (lowers_accessVariable _ _)
  · exact lowers_accessVariable _ _
  · exact lowers_ite (lowers_report_pure _ _ _ _) (lowers_ite (lowers_report_pure _ _ _ _)
      ((lowers_functionRef _ _ _).bind fun _ => (lowers_onPool _).bind fun _ =>
        (lowers_loadConstant _).bind fun _ => lowers_pure _))
  · exact lowers_ite (lowers_report_pure _ _ _ _)
      ((lowers_onPool _).bind fun _ => (lowers_loadConstant _).bind fun _ => lowers_pure _)

theorem lowers_accessSelf (pos : Position) (forWrite : Bool) : Lowers (accessSelf pos forWrite) := by
  unfold accessSelf
  exact lowers_ite (lowers_report_pure _ _ _ _) (lowers_read_bind fun _ =>
    lowers_ite (lowers_report_pure _ _ _ _) ((lowers_op _ _).bind fun _ => lowers_pure _))

theorem lowers_staticMember? (obj : Expr) (name : Ident) : Lowers (staticMember? obj name) := by
  unfold staticMember?
  refine lowers_read_bind fun env => ?_
  split
  · refine lowers_ite (lowers_pure _) ?_
    split
    · exact (lowers_accessVariable _ _).map _
    · exact lowers_pure _
  · split
    · exact (lowers_fieldEntry _ _).bind fun _ => lowers_pure _
    · exact lowers_pure _
  · exact lowers_pure _

theorem lowers_lowerLiteral : ∀ lit : Literal, Lowers (lowerLiteral lit)
  | .integer _ | .long _ | .float _ | .double _ =>
    (lowers_onPool _).bind fun _ => (lowers_loadConstant _).bind fun _ => lowers_callIntrinsic _
  | .string _ => lowers_loadString _
  | .boolean true | .boolean false => lowers_loadBoolean _
  | .null => lowers_op _ _

theorem lowers_evaluateBinary (o : BinaryOp) : Lowers (evaluateBinary o) :=
  (lowers_loadString _).bind fun _ => lowers_callIntrinsic _

theorem lowers_evaluateUnary (o : UnaryOp) : Lowers (evaluateUnary o) :=
  (lowers_loadString _).bind fun _ => lowers_callIntrinsic _

theorem lowers_construct (cls : BinaryName) (init : Intrinsic) : Lowers (construct cls init) :=
  (lowers_onPool _).bind fun _ => (lowers_op _ _).bind fun _ => (lowers_op _ _).bind fun _ => lowers_callIntrinsic _

theorem lowers_invoke (o : Opcode) (ref : FunctionRef) {args : LowerM Unit} (pushes : Lowers args) :
    Lowers (invoke o ref args) :=
  pushes.bind fun _ => lowers_invokeEntry o ref

theorem lowers_callFunction (owner : BinaryName) (isStatic : Bool) (arities : List Nat) (name : Ident) (arity : Nat)
    {args : LowerM Unit} (pushes : Lowers args) : Lowers (callFunction owner isStatic arities name arity args) := by
  unfold callFunction
  refine lowers_ite ((lowers_report _ _ _).bind fun _ => lowers_op _ _) ?_
  refine (lowers_functionRef _ _ _).bind fun ref => ?_
  exact lowers_ite (lowers_invoke _ _ pushes) (lowers_read_bind fun _ =>
    lowers_ite ((lowers_report _ _ _).bind fun _ => lowers_op _ _)
      ((lowers_op _ _).bind fun _ => lowers_invoke _ _ pushes))

theorem lowers_bindMemberCall (obj : Expr) (name : Ident) (arity : Nat) : Lowers (bindMemberCall obj name arity) := by
  unfold bindMemberCall
  refine lowers_read_bind fun env => ?_
  split
  · split
    · exact lowers_pure _
    · exact lowers_pure _
  · split
    · exact (lowers_memberName _).bind fun _ => lowers_pure _
    · exact lowers_pure _
  · exact lowers_pure _

theorem lowers_unresolvedClass (cls : Ident) : Lowers (unresolvedClass cls) :=
  (lowers_report _ _ _).bind fun _ => lowers_op _ _

theorem lowers_unresolvedFunction (name : Ident) : Lowers (unresolvedFunction name) :=
  (lowers_report _ _ _).bind fun _ => lowers_op _ _

/-! ## Expressions -/

mutual

theorem lowers_lowerExpr (e : Expr) : Lowers (lowerExpr e) := by
  cases e with
  | literal lit pos =>
    rw [lowerExpr]
    exact lowers_lowerLiteral lit
  | ident name =>
    rw [lowerExpr]
    exact (lowers_accessName name false).bind lowers_load
  | self pos =>
    rw [lowerExpr]
    exact (lowers_accessSelf pos false).bind lowers_load
  | member obj name =>
    rw [lowerExpr]
    exact (lowers_lowerMember obj name).bind lowers_load
  | index obj key =>
    rw [lowerExpr]
    exact (lowers_lowerExpr obj).bind fun _ => (lowers_lowerExpr key).bind fun _ => lowers_load .subscript
  | list items pos =>
    rw [lowerExpr]
    exact (lowers_construct _ _).bind fun _ => lowers_lowerItems items
  | map entries pos =>
    rw [lowerExpr]
    exact (lowers_construct _ _).bind fun _ => lowers_lowerEntries entries
  | assign target o value =>
    rw [lowerExpr]
    refine (lowers_lowerTarget target).bind fun place => ?_
    extract_lets storing
    have stores : ∀ u, Lowers (storing u) := fun _ => lowers_store place
    split
    · exact (lowers_lowerExpr value).bind stores
    · exact (lowers_duplicateAddress place).bind fun _ => (lowers_load place).bind fun _ =>
        (lowers_lowerExpr value).bind fun _ => (lowers_evaluateBinary _).bind stores
  | cond test thenValue elseValue =>
    rw [lowerExpr]
    exact lowers_freshLabel.bind fun otherwise => lowers_freshLabel.bind fun done =>
      (lowers_lowerExpr test).bind fun _ => (lowers_jumpUnlessTrue otherwise).bind fun _ =>
      (lowers_lowerExpr thenValue).bind fun _ => (lowers_jump _ done).bind fun _ =>
      (lowers_place otherwise).bind fun _ => (lowers_lowerExpr elseValue).bind fun _ => lowers_place done
  | logical o left right =>
    cases o <;> rw [lowerExpr] <;>
      exact lowers_freshLabel.bind fun done => (lowers_lowerExpr left).bind fun _ => (lowers_op _ _).bind fun _ =>
        lowers_testTruth.bind fun _ => (lowers_jump _ done).bind fun _ => (lowers_op _ _).bind fun _ =>
        (lowers_lowerExpr right).bind fun _ => lowers_place done
  | binary o left right =>
    rw [lowerExpr]
    exact (lowers_lowerExpr left).bind fun _ => (lowers_lowerExpr right).bind fun _ => lowers_evaluateBinary o
  | unary o operand pos =>
    rw [lowerExpr]
    exact (lowers_lowerExpr operand).bind fun _ => lowers_evaluateUnary o
  | call callee args =>
    cases callee with
    | ident name =>
      rw [lowerExpr]
      refine (lowers_resolve _).bind fun found => ?_
      split
      · exact lowers_callFunction _ _ _ name _ (lowers_lowerArgs args)
      · exact lowers_unresolvedFunction name
      · exact (lowers_accessName name false).bind fun place => (lowers_load place).bind fun _ =>
          (lowers_lowerArgs args).bind fun _ => lowers_callIntrinsic _
    | member obj name =>
      rw [lowerExpr]
      refine (lowers_bindMemberCall obj name _).bind fun call => ?_
      split
      · exact lowers_invoke _ _ (lowers_lowerArgs args)
      · exact lowers_callFunction _ _ _ name _ (lowers_lowerArgs args)
      · exact (lowers_lowerExpr obj).bind fun _ => (lowers_memberName name).bind fun _ =>
          lowers_invoke _ _ (lowers_lowerArgs args)
    | _ =>
      rw [lowerExpr.eq_16 _ _ (fun _ => Expr.noConfusion) (fun _ _ => Expr.noConfusion)]
      exact (lowers_lowerExpr _).bind fun _ => (lowers_lowerArgs args).bind fun _ => lowers_callIntrinsic _
  | new cls args =>
    rw [lowerExpr]
    refine (lowers_resolve _).bind fun found => ?_
    split
    · exact (lowers_onPool _).bind fun _ => (lowers_op _ _).bind fun _ => (lowers_op _ _).bind fun _ =>
        lowers_invoke _ _ (lowers_lowerArgs args)
    · exact lowers_unresolvedClass cls
termination_by (sizeOf e, 1)
decreasing_by all_goals (apply Prod.Lex.left; simp only [Expr.ident.sizeOf_spec, Expr.member.sizeOf_spec, Expr.index.sizeOf_spec, Expr.list.sizeOf_spec,
    Expr.map.sizeOf_spec, Expr.assign.sizeOf_spec, Expr.cond.sizeOf_spec, Expr.logical.sizeOf_spec,
    Expr.binary.sizeOf_spec, Expr.unary.sizeOf_spec, Expr.call.sizeOf_spec, Expr.new.sizeOf_spec]; omega)

theorem lowers_lowerArgs (args : List Expr) : Lowers (lowerArgs args) := by
  cases args with
  | nil =>
    rw [lowerArgs]
    exact lowers_pure ()
  | cons e rest =>
    rw [lowerArgs]
    exact (lowers_lowerExpr e).bind fun _ => lowers_lowerArgs rest
termination_by (sizeOf args, 0)
decreasing_by all_goals (apply Prod.Lex.left; simp only [List.cons.sizeOf_spec]; omega)

theorem lowers_lowerItems (items : List Expr) : Lowers (lowerItems items) := by
  cases items with
  | nil =>
    rw [lowerItems]
    exact lowers_pure ()
  | cons e rest =>
    rw [lowerItems]
    exact (lowers_op _ _).bind fun _ => (lowers_lowerExpr e).bind fun _ => (lowers_callIntrinsic _).bind fun _ =>
      lowers_lowerItems rest
termination_by (sizeOf items, 0)
decreasing_by all_goals (apply Prod.Lex.left; simp only [List.cons.sizeOf_spec]; omega)

theorem lowers_lowerEntries (entries : List (Expr × Expr)) : Lowers (lowerEntries entries) := by
  cases entries with
  | nil =>
    rw [lowerEntries]
    exact lowers_pure ()
  | cons entry rest =>
    obtain ⟨key, value⟩ := entry
    rw [lowerEntries]
    exact (lowers_op _ _).bind fun _ => (lowers_lowerExpr key).bind fun _ => (lowers_lowerExpr value).bind fun _ =>
      (lowers_callIntrinsic _).bind fun _ => lowers_lowerEntries rest
termination_by (sizeOf entries, 0)
decreasing_by all_goals (apply Prod.Lex.left; simp only [List.cons.sizeOf_spec, Prod.mk.sizeOf_spec]; omega)

theorem lowers_lowerMember (obj : Expr) (name : Ident) : Lowers (lowerMember obj name) := by
  rw [lowerMember]
  refine (lowers_staticMember? obj name).bind fun found => ?_
  split
  · exact lowers_pure _
  · exact (lowers_lowerExpr obj).bind fun _ => (lowers_loadString _).bind fun _ => lowers_pure _
termination_by (sizeOf obj, 2)
decreasing_by all_goals (apply Prod.Lex.right; decide)

theorem lowers_lowerTarget (target : Expr) : Lowers (lowerTarget target) := by
  cases target with
  | ident name =>
    rw [lowerTarget]
    exact lowers_accessName name true
  | self pos =>
    rw [lowerTarget]
    exact lowers_accessSelf pos true
  | member obj name =>
    rw [lowerTarget]
    exact lowers_lowerMember obj name
  | index obj key =>
    rw [lowerTarget]
    exact (lowers_lowerExpr obj).bind fun _ => (lowers_lowerExpr key).bind fun _ => lowers_pure _
  | _ =>
    rw [lowerTarget.eq_5 _ (fun _ => Expr.noConfusion) (fun _ => Expr.noConfusion) (fun _ _ => Expr.noConfusion)
      (fun _ _ => Expr.noConfusion)]
    exact lowers_report_pure _ _ _ _
termination_by (sizeOf target, 3)
decreasing_by all_goals (apply Prod.Lex.left; simp only [Expr.member.sizeOf_spec, Expr.index.sizeOf_spec]; omega)

end

theorem lowers_lowerCondition (test : Expr) (otherwise : Nat) : Lowers (lowerCondition test otherwise) :=
  (lowers_lowerExpr test).bind fun _ => lowers_jumpUnlessTrue otherwise

/-! ## Locals, handlers, loops and resources -/

theorem lowers_storeDeclared (scope : Nat) (name : Ident) : Lowers (storeDeclared scope name) := by
  unfold storeDeclared
  refine lowers_read_bind fun env => ?_
  split
  · exact lowers_op _ _
  · exact lowers_op _ _
  · exact (lowers_report _ _ _).bind fun _ => lowers_op _ _

theorem lowers_blockScope (scope : Option Nat) : Lowers (blockScope scope) :=
  lowers_read_bind fun _ => lowers_pure _

theorem lowers_filterClasses : ∀ filters : List Ident, Lowers (filterClasses filters)
  | [] => lowers_pure _
  | f :: rest => by
    rw [filterClasses]
    refine (lowers_resolve _).bind fun found => ?_
    split
    · exact (lowers_onPool _).bind fun _ => (lowers_filterClasses rest).bind fun _ => lowers_pure _
    · exact (lowers_report _ _ _).bind fun _ => lowers_filterClasses rest

theorem lowers_catchFilters (filters : List Ident) : Lowers (catchFilters filters) := by
  unfold catchFilters
  split
  · exact lowers_pure _
  · exact lowers_filterClasses _

theorem lowers_guardRange (start stop handler : Nat) : ∀ classes, Lowers (guardRange start stop handler classes)
  | [] => lowers_pure ()
  | _ :: rest => (lowers_addHandler _ _ _ _).bind fun _ => lowers_guardRange start stop handler rest

theorem lowers_guardAll (handler : Nat) : ∀ ranges, Lowers (guardAll handler ranges)
  | [] => lowers_pure ()
  | _ :: rest => (lowers_addHandler _ _ _ _).bind fun _ => lowers_guardAll handler rest

theorem lowers_patchBreaks (target : Nat) : ∀ records, Lowers (patchBreaks target records)
  | [] => lowers_pure ()
  | _ :: rest => (lowers_onCode (CodeBuilder.shifts_patchJump _ _)).bind fun _ => lowers_patchBreaks target rest

theorem lowers_resolveBreaks : Lowers resolveBreaks :=
  lowers_offset.bind fun exit => lowers_leaveLoop.bind fun records => lowers_patchBreaks exit records

theorem lowers_lowerSynchronized {lock body : LowerM Unit} (locks : Lowers lock) (runs : Lowers body) :
    Lowers (lowerSynchronized lock body) := by
  unfold lowerSynchronized
  refine lowers_freshLabel.bind fun exit => locks.bind fun _ => (lowers_op _ _).bind fun _ =>
    lowers_takeSlot.bind fun held => (lowers_op _ _).bind fun _ => (lowers_callIntrinsic _).bind fun _ =>
    lowers_offset.bind fun bodyStart => runs.bind fun _ => lowers_offset.bind fun bodyStop =>
    (lowers_op _ _).bind fun _ => (lowers_callIntrinsic _).bind fun _ => (lowers_jump _ _).bind fun _ =>
    lowers_offset.bind fun handler => lowers_enterHandler.bind fun _ => lowers_takeSlot.bind fun exception =>
    (lowers_op _ _).bind fun _ => (lowers_op _ _).bind fun _ => (lowers_callIntrinsic _).bind fun _ =>
    lowers_offset.bind fun handlerStop => (lowers_op _ _).bind fun _ => (lowers_op _ _).bind fun _ =>
    lowers_releaseSlot.bind fun _ => lowers_releaseSlot.bind fun _ => ?_
  extract_lets guarding
  have guards : ∀ u, Lowers (guarding u) := fun _ => (lowers_addHandler _ _ _ _).bind fun _ => lowers_place exit
  exact lowers_ite ((lowers_addHandler _ _ _ _).bind guards) (guards ())

theorem lowers_closeResource : Lowers closeResource := (lowers_callIntrinsic _).bind fun _ => lowers_op _ _

theorem lowers_openResources (scope : Nat) : ∀ resources, Lowers (openResources scope resources)
  | [] => lowers_pure _
  | (binding, e) :: rest => by
    rw [openResources]
    refine (lowers_lowerExpr e).bind fun _ => ?_
    extract_lets keeping
    have keeps : ∀ u, Lowers (keeping u) := fun _ => lowers_takeSlot.bind fun _ => (lowers_op _ _).bind fun _ =>
      lowers_offset.bind fun _ => (lowers_openResources scope rest).bind fun _ => lowers_pure _
    split
    · exact (lowers_op _ _).bind fun _ => (lowers_storeDeclared _ _).bind keeps
    · exact keeps ()

theorem lowers_closeResources (primary secondary : Nat) : ∀ opened, Lowers (closeResources primary secondary opened)
  | [] => lowers_pure ()
  | (slot, start) :: rest => by
    rw [closeResources]
    refine lowers_offset.bind fun stop => lowers_freshLabel.bind fun after => (lowers_op _ _).bind fun _ =>
      lowers_closeResource.bind fun _ => (lowers_jump _ _).bind fun _ => lowers_offset.bind fun closeHandler =>
      lowers_enterHandler.bind fun _ => (lowers_op _ _).bind fun _ => (lowers_op _ _).bind fun _ =>
      lowers_closeResource.bind fun _ => lowers_offset.bind fun closeStop => (lowers_op _ _).bind fun _ =>
      (lowers_op _ _).bind fun _ => lowers_offset.bind fun suppressHandler => lowers_enterHandler.bind fun _ =>
      (lowers_op _ _).bind fun _ => (lowers_op _ _).bind fun _ => (lowers_op _ _).bind fun _ =>
      (lowers_callIntrinsic _).bind fun _ => (lowers_op _ _).bind fun _ => (lowers_op _ _).bind fun _ => ?_
    extract_lets closing
    have closes : ∀ u, Lowers (closing u) := fun _ => (lowers_addHandler _ _ _ _).bind fun _ =>
      (lowers_place after).bind fun _ => lowers_releaseSlot.bind fun _ => lowers_closeResources primary secondary rest
    exact lowers_ite ((lowers_addHandler _ _ _ _).bind closes) (closes ())

theorem lowers_lowerWith (resources : List (Option Ident × Expr)) (scope : Option Nat) {body : LowerM Unit}
    (runs : Lowers body) : Lowers (lowerWith resources scope body) :=
  lowers_takeSlot.bind fun primary => lowers_takeSlot.bind fun secondary => (lowers_blockScope scope).bind fun bodyScope =>
    (lowers_openResources bodyScope resources).bind fun opened => runs.bind fun _ =>
    (lowers_closeResources primary secondary opened.reverse).bind fun _ => lowers_releaseSlot.bind fun _ => lowers_releaseSlot

theorem lowers_lowerTry {body : LowerM Unit} {clauses : Nat → Nat → Nat → LowerM (List (Nat × Nat))} (hasClauses : Bool)
    {always : Option (LowerM Unit)} (runs : Lowers body) (catches : ∀ tryStart tryStop afterHandlers,
      Lowers (clauses tryStart tryStop afterHandlers)) (finishes : ∀ fin, always = some fin → Lowers fin) :
    Lowers (lowerTry body clauses hasClauses always) := by
  unfold lowerTry
  refine lowers_freshLabel.bind fun exit => ?_
  extract_lets placing guarding
  have places : ∀ u, Lowers (placing u) := fun _ => lowers_place exit
  have guards : ∀ normal, Lowers (guarding normal) := by
    intro normal
    dsimp -zeta only [guarding]
    extract_lets afterHandlers
    refine lowers_offset.bind fun tryStart => runs.bind fun _ => lowers_offset.bind fun tryStop => ?_
    extract_lets clausing
    have clauses_lower : ∀ u, Lowers (clausing u) := by
      intro u
      dsimp -zeta only [clausing]
      refine (catches _ _ _).bind fun ranges => ?_
      split
      · refine (lowers_place _).bind fun _ => (finishes _ rfl).bind fun _ => (lowers_jump _ _).bind fun _ =>
          lowers_offset.bind fun handler => lowers_enterHandler.bind fun _ => lowers_takeSlot.bind fun exception =>
          (lowers_op _ _).bind fun _ => (finishes _ rfl).bind fun _ => (lowers_op _ _).bind fun _ =>
          (lowers_op _ _).bind fun _ => lowers_releaseSlot.bind fun _ => ?_
        extract_lets rethrowing
        have rethrows : ∀ u, Lowers (rethrowing u) := fun _ => (lowers_guardAll _ _).bind places
        exact lowers_ite ((lowers_addHandler _ _ _ _).bind rethrows) (rethrows ())
      · exact places ()
    exact lowers_ite ((lowers_jump _ _).bind clauses_lower) (clauses_lower ())
  split
  · exact (lowers_freshLabel.map _).bind guards
  · exact (lowers_pure _).bind guards

/-! ## Statements -/

theorem lowers_lowerDecls : ∀ decls : List (Ident × Option Expr), Lowers (lowerDecls decls)
  | [] => lowers_pure ()
  | (name, init) :: rest => by
    have declares : Lowers (do storeDeclared (← read).scope name; lowerDecls rest) :=
      lowers_read_bind fun _ => (lowers_storeDeclared _ _).bind fun _ => lowers_lowerDecls rest
    cases init with
    | some e =>
      rw [lowerDecls]
      exact (lowers_lowerExpr e).bind fun _ => declares
    | none =>
      rw [lowerDecls]
      exact (lowers_op _ _).bind fun _ => declares

theorem lowers_reportMissingLoop (isBreak : Bool) (label : Option Ident) (pos : Position) :
    Lowers (reportMissingLoop isBreak label pos) := by
  unfold reportMissingLoop
  extract_lets keyword outside
  have reports : Lowers outside := lowers_report _ _ _
  split
  · exact lowers_inLoop.bind fun _ => lowers_ite (lowers_report _ _ _) reports
  · exact reports

theorem lowers_lowerBreak (label : Option Ident) (pos : Position) : Lowers (lowerBreak label pos) := by
  unfold lowerBreak
  refine (lowers_findLoop label).bind fun found => ?_
  split
  · exact (lowers_onCode (CodeBuilder.shifts_pushJumpPlaceholder _)).bind fun _ => lowers_recordBreak _ _
  · exact lowers_reportMissingLoop _ _ _

theorem lowers_lowerContinue (label : Option Ident) (pos : Position) : Lowers (lowerContinue label pos) := by
  unfold lowerContinue
  refine (lowers_findLoop label).bind fun found => ?_
  split
  · exact lowers_jump _ _
  · exact lowers_reportMissingLoop _ _ _

theorem lowers_lowerReturn (value : Option Expr) (pos : Position) : Lowers (lowerReturn value pos) := by
  unfold lowerReturn
  refine lowers_read_bind fun env => ?_
  extract_lets returning returningA
  have returns : ∀ u, Lowers (returning u) := fun _ => lowers_op _ _
  have returnsA : ∀ u, Lowers (returningA u) := fun _ => lowers_op _ _
  refine lowers_ite ?_ ?_
  · split
    · exact (lowers_report _ _ _).bind fun _ => (lowers_lowerExpr _).bind fun _ => (lowers_op _ _).bind returns
    · exact returns ()
  · split
    · exact (lowers_lowerExpr _).bind returnsA
    · exact (lowers_op _ _).bind returnsA

mutual

theorem lowers_lowerStmt (st : Stmt) : Lowers (lowerStmt st) := by
  cases st with
  | block b =>
    rw [lowerStmt]
    exact lowers_lowerBlock b
  | declare _ decls =>
    rw [lowerStmt]
    exact lowers_lowerDecls decls
  | eval e =>
    rw [lowerStmt]
    exact (lowers_lowerExpr e).bind fun _ => lowers_op _ _
  | ifChain clauses otherwise =>
    rw [lowerStmt]
    refine lowers_freshLabel.bind fun after => (lowers_lowerClauses after _ clauses).bind fun _ => ?_
    extract_lets placing
    have places : ∀ u, Lowers (placing u) := fun _ => lowers_place after
    split
    · exact (lowers_lowerBlock _).bind places
    · exact places ()
  | whileLoop label test body =>
    rw [lowerStmt]
    exact lowers_freshLabel.bind fun start => lowers_freshLabel.bind fun exit => (lowers_place start).bind fun _ =>
      (lowers_lowerCondition test exit).bind fun _ => (lowers_enterLoop label start).bind fun _ =>
      (lowers_lowerBlock body).bind fun _ => (lowers_jump _ start).bind fun _ => (lowers_place exit).bind fun _ =>
      lowers_resolveBreaks
  | forEach label var iterable body =>
    rw [lowerStmt]
    exact (lowers_lowerExpr iterable).bind fun _ => (lowers_callIntrinsic _).bind fun _ =>
      lowers_takeSlot.bind fun iterator => (lowers_op _ _).bind fun _ => lowers_freshLabel.bind fun start =>
      lowers_freshLabel.bind fun exit => (lowers_place start).bind fun _ => (lowers_op _ _).bind fun _ =>
      (lowers_callIntrinsic _).bind fun _ => (lowers_jumpUnlessTrue exit).bind fun _ => (lowers_op _ _).bind fun _ =>
      (lowers_callIntrinsic _).bind fun _ => (lowers_blockScope _).bind fun scope =>
      (lowers_storeDeclared scope var).bind fun _ => (lowers_enterLoop label start).bind fun _ =>
      (lowers_lowerBlock body).bind fun _ => (lowers_jump _ start).bind fun _ => (lowers_place exit).bind fun _ =>
      lowers_resolveBreaks.bind fun _ => lowers_releaseSlot
  | breakLoop label pos =>
    rw [lowerStmt]
    exact lowers_lowerBreak label pos
  | continueLoop label pos =>
    rw [lowerStmt]
    exact lowers_lowerContinue label pos
  | returnValue value pos =>
    rw [lowerStmt]
    exact lowers_lowerReturn value pos
  | throwValue e pos =>
    rw [lowerStmt]
    exact (lowers_lowerExpr e).bind fun _ => lowers_op _ _
  | guarded body catches always =>
    cases always with
    | none =>
      rw [lowerStmt]
      exact lowers_lowerTry _ (lowers_lowerBlock body) (fun _ _ _ => lowers_lowerCatches _ _ _ catches) nofun
    | some fin =>
      rw [lowerStmt]
      refine lowers_lowerTry _ (lowers_lowerBlock body) (fun _ _ _ => lowers_lowerCatches _ _ _ catches) ?_
      rintro _ ⟨⟩
      exact lowers_lowerBlock fin
  | synchronized lock body =>
    rw [lowerStmt]
    exact lowers_lowerSynchronized (lowers_lowerExpr lock) (lowers_lowerBlock body)
  | withResources resources body =>
    rw [lowerStmt]
    exact lowers_lowerWith resources body.scope (lowers_lowerBlock body)
  | empty =>
    rw [lowerStmt]
    exact lowers_pure ()

theorem lowers_lowerStmts (sts : List Stmt) : Lowers (lowerStmts sts) := by
  cases sts with
  | nil =>
    rw [lowerStmts]
    exact lowers_pure ()
  | cons st rest =>
    rw [lowerStmts]
    exact (lowers_lowerStmt st).bind fun _ => lowers_lowerStmts rest

theorem lowers_lowerBlock (b : Block) : Lowers (lowerBlock b) := by
  cases b with
  | mk stmts scope =>
    rw [lowerBlock]
    exact lowers_withScope scope (lowers_lowerStmts stmts)

theorem lowers_lowerClauses (after : Nat) (hasElse : Bool) (clauses : List (Expr × Block)) :
    Lowers (lowerClauses after hasElse clauses) := by
  cases clauses with
  | nil =>
    rw [lowerClauses]
    exact lowers_pure ()
  | cons clause rest =>
    obtain ⟨test, body⟩ := clause
    rw [lowerClauses]
    refine lowers_freshLabel.bind fun next => (lowers_lowerCondition test next).bind fun _ =>
      (lowers_lowerBlock body).bind fun _ => ?_
    extract_lets continuing
    have continues : ∀ u, Lowers (continuing u) := fun _ =>
      (lowers_place next).bind fun _ => lowers_lowerClauses after hasElse rest
    exact lowers_ite ((lowers_jump _ _).bind continues) (continues ())

theorem lowers_lowerCatches (tryStart tryStop afterHandlers : Nat) (catches : List Catch) :
    Lowers (lowerCatches tryStart tryStop afterHandlers catches) := by
  cases catches with
  | nil =>
    rw [lowerCatches]
    exact lowers_pure _
  | cons clause rest =>
    obtain ⟨filters, param, body⟩ := clause
    rw [lowerCatches]
    refine (lowers_catchFilters filters).bind fun classes => lowers_offset.bind fun handler =>
      lowers_enterHandler.bind fun _ => (lowers_blockScope _).bind fun scope =>
      (lowers_storeDeclared scope param).bind fun _ => (lowers_lowerBlock body).bind fun _ =>
      lowers_offset.bind fun handlerStop => ?_
    extract_lets ranging guarding
    have ranges : ∀ u, Lowers (ranging u) := fun _ =>
      (lowers_lowerCatches tryStart tryStop afterHandlers rest).bind fun _ => lowers_pure _
    have guards : ∀ u, Lowers (guarding u) := fun _ =>
      lowers_ite ((lowers_guardRange _ _ _ _).bind ranges) (ranges ())
    exact lowers_ite ((lowers_jump _ _).bind guards) (guards ())

end

/-! ## Function bodies -/

theorem lowers_finish : Lowers finish := by
  unfold finish
  extract_lets closing checking
  have closes : ∀ u, Lowers (closing u) := fun _ => lowers_get_bind (fun _ _ _ => rfl) fun _ =>
    (lowers_onCode (CodeBuilder.shifts_setLocalCount _)).bind fun _ => lowers_onCode CodeBuilder.shifts_result
  have checks : ∀ u, Lowers (checking u) := fun _ => lowers_get_bind (fun _ _ _ => rfl) fun _ =>
    lowers_ite (lowers_throw_bind fun _ => rfl) (closes ())
  exact lowers_get_bind (fun _ _ _ => rfl) fun _ => lowers_ite (lowers_read_bind fun _ =>
    lowers_ite ((lowers_op _ _).bind checks) ((lowers_op _ _).bind fun _ => (lowers_op _ _).bind checks)) (checks ())

theorem lowers_initializeDeclarators (isStatic : Bool) :
    ∀ decls, Lowers (initializeDeclarators isStatic decls)
  | [] => lowers_pure ()
  | (_, none) :: rest => by
    rw [initializeDeclarators]
    exact lowers_initializeDeclarators isStatic rest
  | (name, some init) :: rest => by
    rw [initializeDeclarators]
    refine lowers_read_bind fun env => (lowers_fieldEntry _ _).bind fun field => ?_
    extract_lets continuing
    have continues : ∀ u, Lowers (continuing u) := fun _ => lowers_initializeDeclarators isStatic rest
    exact lowers_ite ((lowers_lowerExpr init).bind fun _ => (lowers_op _ _).bind continues)
      ((lowers_op _ _).bind fun _ => (lowers_lowerExpr init).bind fun _ => (lowers_op _ _).bind continues)

theorem lowers_initializeFields_go (isStatic : Bool) : ∀ fields, Lowers (initializeFields.go isStatic fields)
  | [] => lowers_pure ()
  | decl :: rest => by
    rw [initializeFields.go]
    exact lowers_ite ((lowers_initializeDeclarators isStatic decl.decls).bind fun _ =>
      lowers_initializeFields_go isStatic rest) (lowers_initializeFields_go isStatic rest)

theorem lowers_initializeFields (fields : List FieldDecl) (isStatic : Bool) :
    Lowers (initializeFields fields isStatic) :=
  lowers_read_bind fun _ => lowers_withScope _ (lowers_initializeFields_go isStatic fields)

theorem lowers_initializeInstance (fields : List FieldDecl) : Lowers (initializeInstance fields) :=
  lowers_read_bind fun _ => (lowers_onPool _).bind fun _ => (lowers_op _ _).bind fun _ =>
    (lowers_onCode (CodeBuilder.shifts_pushInvoke _ _ _)).bind fun _ => lowers_initializeFields fields false

end Lowering

end Febc
