import Febc.Lowering.Handler
import Febc.Proofs.Steps

/-!
# What a step leaves alone

Most steps of lowering never touch the exception table: only adding a row does. `Keeps view m`
says that a step leaves a view of the state as it found it, whether it stops or not; it holds of
`pure`, `get` and `throw`, of a `modify` that keeps the view, and of a binding of steps that keep
it. The steps of the code builder keep its rows, and every step of lowering made only of them,
of the pool, of the diagnostics and of the private slots keeps the rows of its code
(`KeepsRows`). A specification of such a step may then add that the rows are as they were
(`Runs.keepsRows`). The steps that emit one plain instruction are specified exactly that way: the
instruction is appended where the code ended, the code grows by its length, and the rows stay
(`runs_opAt`, and its loads, stores, pops and throws).

Main statements: `keepsRows_op`, `keepsRows_jump`, `keepsRows_place`, `keepsRows_storeDeclared`,
`keepsRows_catchFilters`, `Runs.keepsRows` and `runs_opAt`.
-/

namespace Febc

/-- A step that leaves a view of the state as it found it, whether it stops or not. -/
def Keeps {ε σ α β : Type} (view : σ → β) (m : ExceptT ε (StateM σ) α) : Prop :=
  ∀ s, view (runStep m s).2 = view s

namespace Keeps

variable {ε σ α β γ : Type} {view : σ → γ}

theorem pure (a : α) : Keeps view (Pure.pure a : ExceptT ε (StateM σ) α) := fun _ => rfl

theorem throw (e : ε) : Keeps view (MonadExcept.throw e : ExceptT ε (StateM σ) α) := fun _ => rfl

theorem throw_bind (e : ε) (f : α → ExceptT ε (StateM σ) β) :
    Keeps view (MonadExcept.throw e >>= f : ExceptT ε (StateM σ) β) := fun _ => rfl

theorem get : Keeps view (MonadState.get : ExceptT ε (StateM σ) σ) := fun _ => rfl

theorem modify {f : σ → σ} (keeps : ∀ s, view (f s) = view s) :
    Keeps view (MonadState.modifyGet (fun s => (PUnit.unit, f s)) : ExceptT ε (StateM σ) PUnit) := keeps

theorem modifyGet {f : σ → α × σ} (keeps : ∀ s, view (f s).2 = view s) :
    Keeps view (MonadState.modifyGet f : ExceptT ε (StateM σ) α) := keeps

theorem bind {m : ExceptT ε (StateM σ) α} {f : α → ExceptT ε (StateM σ) β} (first : Keeps view m)
    (rest : ∀ a, Keeps view (f a)) : Keeps view (m >>= f) := by
  intro s
  rw [runStep_bind]
  split
  · rename_i a next found
    rw [rest a next, ← first s, found]
  · rename_i e next found
    rw [← first s, found]

theorem ite {c : Prop} [Decidable c] {yes no : ExceptT ε (StateM σ) α} (onYes : Keeps view yes)
    (onNo : Keeps view no) : Keeps view (if c then yes else no) := by
  split
  · exact onYes
  · exact onNo

end Keeps

namespace CodeBuilder

/-! ## The builder's steps keep its rows -/

theorem keeps_onChannels {α : Type} (step : Nat → ChannelM α) : Keeps handlers (onChannels step) := by
  intro b
  obtain ⟨cs, channel, previous, labels, depth, maxDepth, handlers, localCount⟩ := b
  rfl

theorem keeps_currentOffset : Keeps handlers currentOffset :=
  Keeps.bind (keeps_onChannels _) fun _ => Keeps.ite (Keeps.throw _) (Keeps.pure _)

theorem keeps_freshLabel : Keeps handlers freshLabel := Keeps.modifyGet fun _ => rfl

theorem keeps_emit (op : Opcode) (operands : List Nat) : Keeps handlers (emit op operands) :=
  keeps_onChannels _

theorem keeps_patchAll (offset : Nat) : ∀ fixups : List Nat, Keeps handlers (patchAll offset fixups)
  | [] => Keeps.pure _
  | _ :: rest => Keeps.bind (keeps_onChannels _) fun _ => keeps_patchAll offset rest

theorem keeps_adjust (effect : Int) : Keeps handlers (adjust effect) := by
  refine Keeps.modify fun _ => ?_
  rfl

theorem keeps_endIfUnconditional (op : Opcode) : Keeps handlers (endIfUnconditional op) := by
  refine Keeps.ite (Keeps.modify fun _ => ?_) (Keeps.pure _)
  rfl

theorem keeps_placeLabel (label : Nat) : Keeps handlers (placeLabel label) := by
  unfold placeLabel
  refine Keeps.bind keeps_currentOffset fun offset => Keeps.bind Keeps.get fun b => ?_
  dsimp only
  refine Keeps.bind (Keeps.modify fun _ => ?_) fun _ => ?_
  · rfl
  split
  · exact Keeps.pure _
  · exact Keeps.throw _
  · refine Keeps.bind (keeps_patchAll offset _) fun _ => Keeps.modify fun b => ?_
    split <;> rfl

/-- What every branch of `pushInstruction` that does not stop runs: the emission, the move of the
depth, and the end of the block after an unconditional jump. -/
theorem keeps_emitInstruction (op : Opcode) (operands : List Nat) :
    Keeps handlers (do
      let _ ← emit op operands
      if let some effect := op.stackEffect then adjust effect
      endIfUnconditional op : CodeM Unit) := by
  refine Keeps.bind (keeps_emit op operands) fun _ => ?_
  split
  · exact Keeps.bind (keeps_adjust _) fun _ => keeps_endIfUnconditional op
  · exact keeps_endIfUnconditional op

theorem keeps_pushInstruction (op : Opcode) (operands : List Nat) :
    Keeps handlers (pushInstruction op operands) := by
  have emits := keeps_emitInstruction op operands
  unfold pushInstruction
  dsimp only
  split
  · exact Keeps.throw_bind _ _
  split
  · split
    · split
      · exact Keeps.throw_bind _ _
      · exact emits
    · exact emits
  · exact emits

theorem keeps_pushInvoke (op : Opcode) (function : Nat) (descriptor : FunctionDescriptor) :
    Keeps handlers (pushInvoke op function descriptor) := by
  unfold pushInvoke
  dsimp only
  split
  · exact Keeps.throw_bind _ _
  · exact Keeps.bind (keeps_emit _ _) fun _ => keeps_adjust _

theorem keeps_pushJump (op : Opcode) (label : Nat) : Keeps handlers (pushJump op label) := by
  unfold pushJump
  dsimp only
  split
  · exact Keeps.throw_bind _ _
  · refine Keeps.bind Keeps.get fun b => Keeps.bind (keeps_emit _ _) fun _ => Keeps.bind (keeps_adjust _) fun _ =>
      Keeps.bind (Keeps.modify fun _ => ?_) fun _ => keeps_endIfUnconditional op
    rfl

end CodeBuilder

namespace Lowering

/-! ## Steps of lowering that keep the rows -/

/-- A step of lowering that leaves the exception table alone, in every environment. -/
def KeepsRows {α : Type} (m : LowerM α) : Prop :=
  ∀ env, Keeps (fun s : Lowering => s.code.handlers) (m.run env)

variable {α β : Type}

theorem KeepsRows.bind {m : LowerM α} {f : α → LowerM β} (first : KeepsRows m) (rest : ∀ a, KeepsRows (f a)) :
    KeepsRows (m >>= f) :=
  fun env => (first env).bind fun a => rest a env

theorem keepsRows_pure (a : α) : KeepsRows (pure a : LowerM α) := fun _ => Keeps.pure a

theorem keepsRows_read_bind {f : FunctionEnv → LowerM α} (rest : ∀ env, KeepsRows (f env)) :
    KeepsRows (read >>= f) :=
  fun env => rest env env

theorem keepsRows_onCode {m : CodeM α} (keeps : Keeps CodeBuilder.handlers m) : KeepsRows (onCode m) := by
  intro env s
  rw [runStep_onCode]
  exact keeps s.code

theorem keepsRows_onPool (m : PoolM α) : KeepsRows (onPool m) := by
  intro env s
  rw [runStep_onPool]

theorem keepsRows_report (kind : DiagnosticKind) (pos : Position) (message : String) :
    KeepsRows (report kind pos message) := fun _ _ => rfl

theorem keepsRows_op (o : Opcode) (operands : List Nat) : KeepsRows (op o operands) :=
  keepsRows_onCode (CodeBuilder.keeps_pushInstruction o operands)

theorem keepsRows_freshLabel : KeepsRows freshLabel := keepsRows_onCode CodeBuilder.keeps_freshLabel

theorem keepsRows_place (label : Nat) : KeepsRows (place label) :=
  keepsRows_onCode (CodeBuilder.keeps_placeLabel label)

theorem keepsRows_jump (o : Opcode) (label : Nat) : KeepsRows (jump o label) :=
  keepsRows_onCode (CodeBuilder.keeps_pushJump o label)

theorem keepsRows_storeDeclared (scope : Nat) (name : Ident) : KeepsRows (storeDeclared scope name) := by
  unfold storeDeclared
  refine keepsRows_read_bind fun env => ?_
  split
  · exact keepsRows_op _ _
  · exact keepsRows_op _ _
  · exact (keepsRows_report _ _ _).bind fun _ => keepsRows_op _ _

theorem keepsRows_filterClasses : ∀ filters : List Ident, KeepsRows (filterClasses filters)
  | [] => keepsRows_pure _
  | f :: rest => by
    rw [filterClasses]
    refine (keepsRows_read_bind fun _ => keepsRows_pure _).bind fun symbol => ?_
    split
    · exact (keepsRows_onPool _).bind fun _ => (keepsRows_filterClasses rest).bind fun _ => keepsRows_pure _
    · exact (keepsRows_report _ _ _).bind fun _ => keepsRows_filterClasses rest

/-- A step that keeps the rows, from a sound state, also returns with the rows as they were. -/
theorem Runs.keepsRows {env : FunctionEnv} {s : Lowering} {h : Nat → Nat} {m : LowerM α}
    {post : α → Lowering → (Nat → Nat) → Prop} (keeps : KeepsRows m) (runs : Runs env s h m post) :
    Runs env s h m fun a s' h' => post a s' h' ∧ s'.code.handlers = s.code.handlers := by
  apply runs.ends.mono
  rintro a s' h' - - ⟨holds, ran⟩
  have kept := keeps env s
  rw [ran] at kept
  exact ⟨holds, kept⟩

/-! ## Steps that emit one instruction -/

section Exact

variable {env : FunctionEnv} {s : Lowering} {h : Nat → Nat}

/-- A plain instruction emitted where the code ends: it is the last instruction, the code grows by
its length, and the rows stay. -/
theorem runs_opAt {o : Opcode} {xs : List Nat} (plain : o.isJump = false ∧ o.isInvoke = false ∧ o.entryKind = none)
    (count : xs.length = o.operands.length) (wide : o.operands = [.u16] → ∀ x ∈ xs, x ≤ 65535)
    {k after : Nat} {e : Int} (effect : o.stackEffect = some e) (room : o.pops ≤ k) (result : (after : Int) = k + e)
    (returns : (o = .ret → env.isInitializer = true) ∧ (o = .retA → env.isInitializer = false))
    (holds : s.Holds k) :
    Runs env s h (op o xs) fun _ s' _ =>
      Contained [] s s' ∧ s'.code.instructions = s.code.instructions ++ [⟨s.code.code.size, o, xs⟩] ∧
        s'.code.code.size = s.code.code.size + o.length ∧
        s'.code.depth = (if o.isUnconditional then none else some after) ∧ s'.code.handlers = s.code.handlers := by
  apply Runs.of_sound
  intro sound
  apply ((runs_op ⟨plain.1, plain.2.1⟩ count wide holds effect room result returns
    (Instruction.refers_of_none plain.2.2)).keepsRows (keepsRows_op o xs)).mono
  rintro _ s' h' sound' - ⟨⟨contained, appended, depth⟩, rows⟩
  exact ⟨contained, appended, size_of_append sound sound' appended, depth, rows⟩

theorem runs_loadAAt (slot : Nat) {k : Nat} (holds : s.Holds k) :
    Runs env s h (op .loadA [slot]) fun _ s' _ =>
      Contained [] s s' ∧ s'.code.instructions = s.code.instructions ++ [⟨s.code.code.size, .loadA, [slot]⟩] ∧
        s'.code.code.size = s.code.code.size + 2 ∧ s'.code.depth = some (k + 1) ∧
        s'.code.handlers = s.code.handlers :=
  runs_opAt ⟨rfl, rfl, rfl⟩ rfl (by simp [Opcode.operands]) rfl (Nat.zero_le k) (by push_cast; rfl) ⟨nofun, nofun⟩
    holds

theorem runs_storeAAt (slot : Nat) {k : Nat} (holds : s.Holds (k + 1)) :
    Runs env s h (op .storeA [slot]) fun _ s' _ =>
      Contained [] s s' ∧ s'.code.instructions = s.code.instructions ++ [⟨s.code.code.size, .storeA, [slot]⟩] ∧
        s'.code.code.size = s.code.code.size + 2 ∧ s'.code.depth = some k ∧
        s'.code.handlers = s.code.handlers :=
  runs_opAt ⟨rfl, rfl, rfl⟩ rfl (by simp [Opcode.operands]) rfl (Nat.le_add_left 1 k) (by push_cast; omega)
    ⟨nofun, nofun⟩ holds

theorem runs_popAt {k : Nat} (holds : s.Holds (k + 1)) :
    Runs env s h (op .pop []) fun _ s' _ =>
      Contained [] s s' ∧ s'.code.instructions = s.code.instructions ++ [⟨s.code.code.size, .pop, []⟩] ∧
        s'.code.code.size = s.code.code.size + 1 ∧ s'.code.depth = some k ∧
        s'.code.handlers = s.code.handlers :=
  runs_opAt ⟨rfl, rfl, rfl⟩ rfl (by simp [Opcode.operands]) rfl (Nat.le_add_left 1 k) (by push_cast; omega)
    ⟨nofun, nofun⟩ holds

theorem runs_throwAt {k : Nat} (holds : s.Holds (k + 1)) :
    Runs env s h (op .throw []) fun _ s' _ =>
      Contained [] s s' ∧ s'.code.instructions = s.code.instructions ++ [⟨s.code.code.size, .throw, []⟩] ∧
        s'.code.code.size = s.code.code.size + 1 ∧ s'.code.depth = none ∧
        s'.code.handlers = s.code.handlers :=
  runs_opAt ⟨rfl, rfl, rfl⟩ rfl (by simp [Opcode.operands]) rfl (Nat.le_add_left 1 k)
    (show ((k : Nat) : Int) = ((k + 1 : Nat) : Int) + -1 by push_cast; omega) ⟨nofun, nofun⟩ holds

end Exact

end Lowering

end Febc
