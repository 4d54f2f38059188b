import Febc.Proofs.Body

/-!
# What a failed step of a code builder leaves behind

A builder is driven one step at a time, and a caller may go on after a step returns an error.
Reading the current offset changes nothing, and neither does an instruction that is refused: its
checks come before it is written. Placing a label is different: the label is bound to the current
offset before its old state is looked at, so placing a label a second time reports the duplicate
but leaves the label at the later offset, and every later jump to it goes there.

Main statements:
* `builder_errors_change_only_duplicate_labels`: a step that fails leaves the builder as it was,
  except for the label a duplicate placement rebinds.
-/

namespace Febc

namespace ChannelSet

/-- An emission that fails leaves the channels as they were. -/
theorem emit_of_error {cs : ChannelSet} {op : Opcode} {xs : List Nat} {h : Halt}
    (failed : (runStep (emit op xs) cs).1 = .error h) : (runStep (emit op xs) cs).2 = cs := by
  obtain ⟨slots, active⟩ := cs
  simp only [runStep, emit, ExceptT.run, ExceptT.mk, StateT.run] at failed ⊢
  split
  · rfl
  · rename_i counted
    split
    · rfl
    · split
      · rename_i slot
        split
        · rename_i checked
          simp [counted, slot, checked] at failed
        · rfl
      · rfl

/-- A patch that fails stops on a violation, never on an error. -/
theorem patch_of_error {b : CodeBuilder} {offset value : Nat} {h : Halt}
    (failed : (runStep (CodeBuilder.patch offset value) b).1 = .error h) : ∃ v, h = .violation v := by
  rw [CodeBuilder.patch, CodeBuilder.runStep_onChannels] at failed
  obtain ⟨slots, active⟩ := b.channels
  simp only [ChannelSet.patch, runStep_mk] at failed
  split at failed
  · split at failed
    · exact ⟨_, (Except.error.inj failed).symm⟩
    · split at failed
      · exact ⟨_, (Except.error.inj failed).symm⟩
      · cases failed
  · exact ⟨_, (Except.error.inj failed).symm⟩

end ChannelSet

namespace CodeBuilder

/-! ## Failed steps -/

theorem runStep_size_state (b : CodeBuilder) : (runStep (onChannels ChannelSet.size) b).2 = b := by
  obtain ⟨cs, channel, previous, labels, depth, maxDepth, handlers, localCount⟩ := b
  rfl

/-- Reading the current offset never changes the builder. -/
theorem currentOffset_keeps (b : CodeBuilder) : (runStep currentOffset b).2 = b := by
  simp only [currentOffset, runStep_bind]
  split
  · rename_i size sized
    have kept := runStep_size_state b
    rw [sized] at kept
    simp only at kept
    split <;> simp [kept, runStep_pure]
  · rename_i h failed
    have kept := runStep_size_state b
    rw [failed] at kept
    exact kept

/-- The current offset is the size of the code, unless the code is too long to address or the
builder's channel is not open. -/
theorem currentOffset_answer (b : CodeBuilder) :
    (runStep currentOffset b).1 = .ok b.code.size ∨
      (runStep currentOffset b).1 = .error (.error (.codeTooLong b.code.size)) ∨
      ∃ v, (runStep currentOffset b).1 = .error (.violation v) := by
  simp only [currentOffset, runStep_bind, runStep_onChannels, ChannelSet.size, ChannelSet.bytes?, runStep_mk]
  rcases slot : b.channels.slots[b.channel]? with _ | _ | bytes
  · exact Or.inr (Or.inr ⟨_, rfl⟩)
  · exact Or.inr (Or.inr ⟨_, rfl⟩)
  · rw [code_of_slot slot]
    by_cases long : bytes.size > maxWord
    · simp [Except.map, long]
    · simp [Except.map, long, runStep_pure]

theorem currentOffset_cases (b : CodeBuilder) :
    runStep currentOffset b = (.ok b.code.size, b) ∨
      runStep currentOffset b = (.error (.error (.codeTooLong b.code.size)), b) ∨
      ∃ v, runStep currentOffset b = (.error (.violation v), b) := by
  have kept := currentOffset_keeps b
  rcases currentOffset_answer b with sized | long | ⟨v, broken⟩
  · exact Or.inl (Prod.ext sized kept)
  · exact Or.inr (Or.inl (Prod.ext long kept))
  · exact Or.inr (Or.inr ⟨v, Prod.ext broken kept⟩)

theorem emit_of_error {b : CodeBuilder} {op : Opcode} {xs : List Nat} {h : Halt}
    (failed : (runStep (emit op xs) b).1 = .error h) : (runStep (emit op xs) b).2 = b := by
  rw [emit, runStep_onChannels] at failed ⊢
  rw [ChannelSet.emit_of_error failed]

/-- Emitting, then going on with steps that cannot fail: a failure is the emission's, and changes
nothing. -/
theorem emit_bind_of_error {b : CodeBuilder} {op : Opcode} {xs : List Nat} {h : Halt}
    {k : Nat → CodeM Unit} (never : ∀ n c, (runStep (k n) c).1 = .ok ())
    (failed : (runStep (emit op xs >>= k) b).1 = .error h) : (runStep (emit op xs >>= k) b).2 = b := by
  rw [runStep_bind] at failed ⊢
  cases emitted : runStep (emit op xs) b with
  | mk r c =>
    cases r with
    | error e =>
      have kept := emit_of_error (h := e) (by rw [emitted])
      rw [emitted] at kept
      exact kept
    | ok n =>
      rw [emitted] at failed
      simp only [never n c] at failed
      cases failed

/-- An instruction that is refused changes nothing: its checks come before it is written. -/
theorem pushInstruction_of_error {b : CodeBuilder} {op : Opcode} {xs : List Nat} {h : Halt}
    (failed : (runStep (pushInstruction op xs) b).1 = .error h) : (runStep (pushInstruction op xs) b).2 = b := by
  simp only [pushInstruction] at failed ⊢
  by_cases dedicated : (op.isJump || op.isInvoke) = true
  · simp only [dedicated, if_true, runStep_bind, runStep_throw]
  simp only [dedicated, Bool.false_eq_true, if_false] at failed ⊢
  by_cases local_ : (decide (op = .loadA) || decide (op = .storeA)) = true
  · simp only [local_, if_true] at failed ⊢
    rcases head : xs.head? with _ | slot
    · simp only [head] at failed ⊢
      exact emit_bind_of_error (fun _ c => by split <;> simp [runStep_bind, runStep_adjust,
        runStep_endIfUnconditional]) failed
    · simp only [head] at failed ⊢
      by_cases big : slot > maxLocal
      · simp only [big, if_true, runStep_bind, runStep_throw]
      · simp only [big, if_false] at failed ⊢
        exact emit_bind_of_error (fun _ c => by split <;> simp [runStep_bind, runStep_adjust,
          runStep_endIfUnconditional]) failed
  · simp only [local_, Bool.false_eq_true, if_false] at failed ⊢
    exact emit_bind_of_error (fun _ c => by split <;> simp [runStep_bind, runStep_adjust,
      runStep_endIfUnconditional]) failed

/-- Patching the fixups of a label stops, if at all, on a violation. -/
theorem patchAll_of_error {b : CodeBuilder} {value : Nat} {fixups : List Nat} {h : Halt}
    (failed : (runStep (patchAll value fixups) b).1 = .error h) : ∃ v, h = .violation v := by
  induction fixups generalizing b with
  | nil => cases failed
  | cons f rest ih =>
    rw [patchAll, runStep_bind] at failed
    rcases patched : runStep (patch f value) b with ⟨_ | _, c⟩
    · rw [patched] at failed
      exact ChannelSet.patch_of_error (by rw [patched]; exact failed)
    · rw [patched] at failed
      exact ih failed

/-- Placing a label fails with an error only on code too long to address, changing nothing, or
on a label already placed, which is then bound to the current offset all the same. -/
theorem placeLabel_of_error {b : CodeBuilder} {label : Nat} {e : Error}
    (failed : (runStep (placeLabel label) b).1 = .error (.error e)) :
    (e = .codeTooLong b.code.size ∧ (runStep (placeLabel label) b).2 = b) ∨
      (e = .duplicateLabel label ∧ (∃ o, b.labels[label]? = some (.placed o)) ∧
        (runStep (placeLabel label) b).2 = { b with labels := b.labels.set! label (.placed b.code.size) }) := by
  simp only [placeLabel, runStep_bind] at failed ⊢
  rcases currentOffset_cases b with sized | long | ⟨v, broken⟩
  · rw [sized] at failed ⊢
    simp only [runStep_get, runStep_modify] at failed ⊢
    cases previous : b.labels[label]? with
    | none => simp [previous, runStep_pure] at failed
    | some st =>
      cases st with
      | placed o =>
        simp only [previous, runStep_throw, Except.error.injEq, Halt.error.injEq] at failed
        exact Or.inr ⟨failed.symm, ⟨o, rfl⟩, rfl⟩
      | unplaced fixups depth =>
        exfalso
        simp only [previous, runStep_bind] at failed
        split at failed
        · simp [runStep_modify] at failed
        · rename_i h _ patched
          obtain ⟨v, rfl⟩ := patchAll_of_error (by rw [patched])
          cases failed
  · rw [long] at failed ⊢
    simp only [Except.error.injEq, Halt.error.injEq] at failed
    exact Or.inl ⟨failed.symm, rfl⟩
  · rw [broken] at failed
    cases failed

/-- A builder step that returns an error leaves the builder as it was, with one exception.
Reading the current offset never changes the builder, and an instruction that is refused
changes nothing. Placing a label fails with an error only on code too long to address, changing
nothing, or on a label already placed: that label is then bound to the current offset before
the duplicate is reported, so every later jump to it targets the later offset. -/
theorem builder_errors_change_only_duplicate_labels (b : CodeBuilder) :
    (runStep currentOffset b).2 = b ∧
      (∀ op xs h, (runStep (pushInstruction op xs) b).1 = .error h →
        (runStep (pushInstruction op xs) b).2 = b) ∧
      ∀ label e, (runStep (placeLabel label) b).1 = .error (.error e) →
        (e = .codeTooLong b.code.size ∧ (runStep (placeLabel label) b).2 = b) ∨
        (e = .duplicateLabel label ∧ (∃ o, b.labels[label]? = some (.placed o)) ∧
          (runStep (placeLabel label) b).2 = { b with labels := b.labels.set! label (.placed b.code.size) }) :=
  ⟨currentOffset_keeps b, fun _ _ _ failed => pushInstruction_of_error failed,
    fun _ _ failed => placeLabel_of_error failed⟩

/-- A builder on a fresh channel that placed label 0 at offset 0 and then wrote a `Nop`. -/
def placedThenNop : CodeBuilder :=
  (runStep (do let _ ← freshLabel; placeLabel 0; pushInstruction .nop [])
    { channels := ⟨#[some #[]], some 0⟩, channel := 0, previousActive := none }).2

/-- Placing label 0 again, at offset 1, reports the duplicate and moves the label to offset 1. -/
theorem duplicate_placement_moves_the_label :
    (runStep (placeLabel 0) placedThenNop).1 = .error (.error (.duplicateLabel 0)) ∧
      (runStep (placeLabel 0) placedThenNop).2 =
        { placedThenNop with labels := placedThenNop.labels.set! 0 (.placed 1) } := by
  have failed : (runStep (placeLabel 0) placedThenNop).1 = .error (.error (.duplicateLabel 0)) := by rfl
  refine ⟨failed, ?_⟩
  rcases placeLabel_of_error failed with ⟨wrong, -⟩ | ⟨-, -, moved⟩
  · cases wrong
  · exact moved

end CodeBuilder

end Febc
