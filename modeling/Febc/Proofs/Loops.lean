import Febc.Lowering.Stmt
import Febc.Proofs.Expr
import Febc.Proofs.Frames

/-!
# Loops, `break` and `continue`

A `break` of an open loop is a jump that waits, recorded against the loop's identifier; leaving
the loop patches every record against it to the offset where the loop is left. A `continue` jumps
at once to the loop's `continue` label, placed where the loop starts. A `break` or `continue`
that finds no loop emits nothing and reports one problem.

The loop constructs are stated over an abstract body, which is any balanced step; what the body
records against the loop is what the patching reaches.

Main statements:
* `runs_lowerBreak`, `runs_lowerContinue`: the code and the record of each, or the problem;
* `runs_resolveBreaks`: leaving a loop patches exactly its records;
* `runs_whileLoop`, `runs_forEach`: the shape of a loop's code, its exit and its start.
-/

namespace Febc

/-- The open loop a `break` or `continue` leaves is one of the open loops. -/
theorem LoopStack.mem_of_find? {loops : LoopStack} {label : Option String} {frame : LoopFrame}
    (found : loops.find? label = some frame) : frame ∈ loops.frames := by
  unfold LoopStack.find? at found
  cases label with
  | none => exact List.mem_of_getLast? found
  | some l => exact List.mem_reverse.mp (List.mem_of_find?_eq_some found)

/-- A `break` record of a loop that is still open later is still there. -/
theorem LoopStack.Grows.keeps {l l' : LoopStack} (grown : l.Grows l') {r : BreakRecord} (mem : r ∈ l.breaks)
    (open_ : r.loop ∈ l'.frames.map (·.identifier)) : r ∈ l'.breaks :=
  (grown.records r mem).resolve_right fun ⟨closed, _⟩ => closed open_

namespace Lowering

open CodeBuilder

/-- What a `break` (or a `continue`) that leaves no loop reports: a label that no open loop
carries, or no open loop at all. -/
def missingLoop (isBreak : Bool) (label : Option Ident) (loops : LoopStack) : DiagnosticKind :=
  if label.isSome && !loops.isEmpty then .unknownLoopLabel
  else if isBreak then .breakOutsideLoop else .continueOutsideLoop

theorem runStep_patchBreaks (env : FunctionEnv) (target : Nat) (records : List BreakRecord) (s : Lowering)
    (live : s.code.Live) (inside : ∀ r ∈ records, r.operand + 2 ≤ s.code.code.size)
    (short : s.code.code.size ≤ maxWord) :
    runStep ((patchBreaks target records).run env) s =
      (.ok (), { s with code := s.code.overwriteAll target (records.map (·.operand)) }) := by
  induction records generalizing s with
  | nil => rfl
  | cons r rest ih =>
    have same := code_size_overwrite live r.operand target
    show runStep ((onCode (patchJump r.operand target)).run env >>= fun _ => (patchBreaks target rest).run env) s = _
    rw [runStep_bind, runStep_onCode, patchJump, runStep_patch live target (inside r (by simp)) short]
    dsimp only
    rw [ih _ (live_overwrite live _ _) (fun r' mem => same ▸ inside r' (by simp [mem])) (same ▸ short)]
    rfl

theorem runStep_leaveLoop (env : FunctionEnv) (s : Lowering) {frame : LoopFrame}
    (innermost : s.loops.frames.getLast? = some frame) :
    runStep (leaveLoop.run env) s =
      (.ok (s.loops.breaks.filter (·.loop == frame.identifier)).reverse,
        { s with
          loops := { s.loops with
            frames := s.loops.frames.dropLast
            breaks := s.loops.breaks.filter (·.loop != frame.identifier) } }) := by
  simp only [leaveLoop, runStep, ReaderT.run, ExceptT.run, ExceptT.mk, StateT.run, LoopStack.pop, innermost]

/-- The operands a loop's records wait at. -/
def exits (loops : LoopStack) (loop : Nat) : List Nat :=
  (loops.breaks.filter (·.loop == loop)).reverse.map (·.operand)

theorem mem_exits {loops : LoopStack} {loop p : Nat} :
    p ∈ exits loops loop ↔ ∃ r ∈ loops.breaks, r.loop = loop ∧ r.operand = p := by
  simp [exits, and_assoc]

/-- Entering a loop, running a step that leaves it the innermost open loop, and leaving it again:
the step's labels and slots are all that changed, and of the records it added, those against the
loop are gone. -/
theorem Contained.around {own : List Nat} {s₁ s₂ s₃ s₄ : Lowering} {frame : LoopFrame}
    (inner : Contained own s₂ s₃) (code : s₂.code = s₁.code) (locals : s₂.locals = s₁.locals)
    (frames : s₂.loops.frames = s₁.loops.frames ++ [frame]) (breaks : s₂.loops.breaks = s₁.loops.breaks)
    (fresh : ∀ r ∈ s₁.loops.breaks, r.loop ≠ frame.identifier)
    (labels : s₄.code.labels = s₃.code.labels) (locals' : s₄.locals = s₃.locals)
    (frames' : s₄.loops.frames = s₃.loops.frames.dropLast)
    (breaks' : s₄.loops.breaks = s₃.loops.breaks.filter (·.loop != frame.identifier))
    (size' : s₄.code.code.size = s₃.code.code.size) (handlers' : s₄.code.handlers = s₃.code.handlers) :
    Contained own s₁ s₄ where
  size := by rw [labels, ← code]; exact inner.size
  labels l below other := by rw [labels, inner.labels l (by rw [code]; exact below) other, code]
  placed l low high other := by
    rw [labels] at high ⊢
    exact inner.placed l (by rw [code]; exact low) high other
  frames := by rw [frames', inner.frames, frames, List.dropLast_concat]
  breaks := by
    obtain ⟨added, grown⟩ := inner.breaks
    refine ⟨added.filter (·.loop != frame.identifier), ?_⟩
    have kept : s₁.loops.breaks.filter (·.loop != frame.identifier) = s₁.loops.breaks :=
      List.filter_eq_self.mpr fun r mem => by simpa using fresh r mem
    rw [breaks', grown, breaks, List.filter_append, kept]
  slots := by rw [locals', inner.slots, locals]
  grown := by rw [size', ← code]; exact inner.grown
  rows := by
    obtain ⟨added, handlers, bound⟩ := inner.rows
    exact ⟨added, by rw [handlers', handlers, code], by rw [← code]; exact bound⟩

/-- The code of a loop lowered from `s` to `s'`, which starts at `start`. It is left at the end of
its code, right after its jump back to `start`; its test jumps there when false, from before the
body. The body is lowered from the state `entered`, where the loop is the innermost open one, with
an identifier above those of the loops around it and its `continue` label placed at `start`. A
`break` record against the loop, in any state that the end of the body grows from, is a jump to
where the loop is left: this covers the `break`s of nested statements and loops, wherever they
stand in the body. -/
def Loop (env : FunctionEnv) (s : Lowering) (label : Option Ident) (body : LowerM Unit) (start : Nat)
    (s' : Lowering) : Prop :=
  (⟨s'.code.code.size - 3, .jump, [start]⟩ : Instruction) ∈ s'.code.instructions ∧
    ∃ (frame : LoopFrame) (entered inner : Lowering) (o : Nat),
      start ≤ o ∧ o + 3 ≤ entered.code.code.size ∧
      (⟨o, .jumpEq0I, [s'.code.code.size]⟩ : Instruction) ∈ s'.code.instructions ∧
      entered.loops.frames = s.loops.frames ++ [frame] ∧ frame.label = label.map (·.text) ∧
      (∀ outer ∈ s.loops.frames, outer.identifier < frame.identifier) ∧
      entered.code.labels[frame.continueLabel]? = some (.placed start) ∧
      runStep (body.run env) entered = (.ok (), inner) ∧
      ∀ (b : Lowering) (hb hi : Nat → Nat), Grows b hb inner hi → ∀ r ∈ b.loops.breaks, r.loop = frame.identifier →
        (⟨r.operand - 1, .jump, [s'.code.code.size]⟩ : Instruction) ∈ s'.code.instructions

section Steps

variable {env : FunctionEnv} {s : Lowering} {h : Nat → Nat}

/-- The code of a loop depends on the state it reaches only through the code. -/
theorem Loop.congr {label : Option Ident} {body : LowerM Unit} {start : Nat} {s s₁ s₂ : Lowering}
    (loop : Loop env s label body start s₁) (code : s₂.code = s₁.code) : Loop env s label body start s₂ := by
  unfold Loop
  rw [code]
  exact loop

/-- A step between taking a private slot and releasing it again, which leaves the code and the
loops alone. -/
theorem Contained.aside {own : List Nat} {s₁ s₂ s₃ s₄ : Lowering} (inner : Contained own s₂ s₃)
    (code : s₂.code = s₁.code) (loops : s₂.loops = s₁.loops) (code' : s₄.code = s₃.code)
    (loops' : s₄.loops = s₃.loops) (slots : s₄.locals.next = s₁.locals.next) : Contained own s₁ s₄ where
  size := by rw [code', ← code]; exact inner.size
  labels l below other := by rw [code', inner.labels l (by rw [code]; exact below) other, code]
  placed l low high other := by
    rw [code'] at high ⊢
    exact inner.placed l (by rw [code]; exact low) high other
  frames := by rw [loops', inner.frames, loops]
  breaks := by
    obtain ⟨added, grown⟩ := inner.breaks
    exact ⟨added, by rw [loops', grown, loops]⟩
  slots := slots
  grown := by rw [code', ← code]; exact inner.grown
  rows := by
    obtain ⟨added, handlers, bound⟩ := inner.rows
    exact ⟨added, by rw [code', handlers, code], by rw [← code]; exact bound⟩

/-- An instruction that is no jump has no operand that waits: the instruction at a waiting offset
is the jump that waits there. -/
theorem Sound.not_pending {init : Bool} (sound : Sound init s h) {i : Instruction}
    (mem : i ∈ s.code.instructions) (plain : i.opcode.isJump = false) : i.offset + 1 ∉ s.pending := by
  intro waits
  rcases mem_pending.mp waits with ⟨l, fixups, r, found, fixup⟩ | ⟨r, memR, at_⟩
  · obtain ⟨j, memJ, jump, atJ, -⟩ := (sound.fixups l fixups r found).2 _ fixup
    rw [jump_at sound mem memJ atJ, plain] at jump
    cases jump
  · obtain ⟨-, k, memK, opK, atK, -⟩ := sound.breaks r memR
    rw [← jump_at sound mem memK (atK.trans at_), opK] at plain
    cases plain

/-- An instruction that is no jump stays as it is. -/
theorem Grows.keeps {init : Bool} {s' : Lowering} {h' : Nat → Nat} (grown : Grows s h s' h')
    (sound : Sound init s h) {i : Instruction} (mem : i ∈ s.code.instructions) (plain : i.opcode.isJump = false) :
    i ∈ s'.code.instructions :=
  grown.kept i mem (offset_lt sound mem) (sound.not_pending mem plain)

theorem runs_blockScope (scope : Option Nat) :
    Runs env s h (blockScope scope) fun n s' h' => n = scope.getD env.scope ∧ s' = s ∧ h' = h :=
  Runs.read_bind (runs_pure _ ⟨rfl, rfl, rfl⟩)

/-- Storing into a declared local pops the value; a name that is no local is reported, and its
value dropped. -/
theorem leaves_storeDeclared (scope : Nat) (name : Ident) (k : Nat) :
    Leaves env (storeDeclared scope name) (k + 1) k := by
  unfold storeDeclared
  apply Leaves.read_bind
  split
  · exact leaves_storeA _ k
  · exact leaves_storeA _ k
  · exact (leaves_report _ _ _ (k + 1)).seq fun _ => leaves_pop k

/-- Leaving the innermost loop where the stack is empty patches the jumps of its records, and only
them, to the offset where it is left. -/
theorem runs_resolveBreaks {frame : LoopFrame} (innermost : s.loops.frames.getLast? = some frame)
    (empty : s.code.depth = some 0) :
    Runs env s h resolveBreaks fun _ s' h' =>
      s'.code.labels = s.code.labels ∧ s'.code.code.size = s.code.code.size ∧ s'.code.depth = some 0 ∧
        s'.code.handlers = s.code.handlers ∧ s'.locals = s.locals ∧ h' = h ∧
        s'.loops.frames = s.loops.frames.dropLast ∧
        s'.loops.breaks = s.loops.breaks.filter (·.loop != frame.identifier) ∧
        s'.loops.nextIdentifier = s.loops.nextIdentifier ∧
        s'.code.instructions =
          s.code.instructions.map (Instruction.patch (exits s.loops frame.identifier) s.code.code.size) := by
  apply Runs.bind runs_offset
  rintro _ s₁ h₁ sound - ⟨rfl, short, same, same'⟩
  subst s₁ h₁
  intro _
  show Returns _ (runStep (leaveLoop.run env >>= fun records => (patchBreaks _ records).run env) s) _
  have inside : ∀ r ∈ (s.loops.breaks.filter (·.loop == frame.identifier)).reverse,
      r.operand + 2 ≤ s.code.code.size := by
    intro r mem
    obtain ⟨_, j, memJ, op, at_, -⟩ := sound.breaks r (List.mem_filter.mp (List.mem_reverse.mp mem)).1
    have := end_le sound j memJ
    rw [op, show Opcode.jump.length = 3 from rfl] at this
    omega
  rw [runStep_bind, runStep_leaveLoop env s innermost]
  dsimp only
  rw [runStep_patchBreaks env _ _
    { s with
      loops := { s.loops with
        frames := s.loops.frames.dropLast
        breaks := s.loops.breaks.filter (·.loop != frame.identifier) } }
    sound.live inside short, returns_ok]
  obtain ⟨sound', grown, instructions⟩ := sound.resolve
    { s with
      code := s.code.overwriteAll s.code.code.size (exits s.loops frame.identifier)
      loops := { s.loops with
        frames := s.loops.frames.dropLast
        breaks := s.loops.breaks.filter (·.loop != frame.identifier) } }
    innermost empty short (fun p => mem_exits) rfl rfl rfl rfl rfl rfl
  refine ⟨h, sound', grown, ?_, code_size_overwriteAll sound.live _ _, ?_, by simp, rfl, rfl, rfl, rfl, rfl,
    instructions⟩
  · dsimp only
    rw [overwriteAll_eq]
  · dsimp only
    rw [overwriteAll_eq]
    exact empty

/-- Reporting a `break` or `continue` that leaves no loop emits nothing and reports one problem. -/
theorem runs_reportMissingLoop (isBreak : Bool) (label : Option Ident) (pos : Position) :
    Runs env s h (reportMissingLoop isBreak label pos) fun _ s' h' =>
      Still s s' ∧ h' = h ∧
        ∃ d, s'.diagnostics = s.diagnostics.push d ∧ d.kind = missingLoop isBreak label s.loops := by
  unfold reportMissingLoop
  cases label with
  | none =>
    exact (runs_report _ _ _).mono fun _ _ _ _ _ ⟨still, pushed, same⟩ =>
      ⟨still, same, _, pushed, by simp [missingLoop]⟩
  | some l =>
    apply Runs.bind runs_inLoop
    rintro _ s₁ h₁ - - ⟨rfl, same, same'⟩
    subst s₁ h₁
    split
    · rename_i opened
      exact (runs_report _ _ _).mono fun _ _ _ _ _ ⟨still, pushed, same⟩ =>
        ⟨still, same, _, pushed, by simp [missingLoop, opened]⟩
    · rename_i closed
      exact (runs_report _ _ _).mono fun _ _ _ _ _ ⟨still, pushed, same⟩ =>
        ⟨still, same, _, pushed, by simp_all [missingLoop]⟩

/-- The jump of a `break` of an open loop, where the stack is empty: it waits, recorded against
the loop. -/
theorem runs_breakJump {frame : LoopFrame} (open_ : frame ∈ s.loops.frames) (empty : s.Holds 0) :
    Runs env s h (do
      let operand ← onCode (CodeBuilder.pushJumpPlaceholder .jump)
      recordBreak frame.identifier operand) fun _ s' _ =>
      Contained [] s s' ∧ s'.code.depth = none ∧ s'.diagnostics = s.diagnostics ∧
        s'.code.instructions = s.code.instructions ++ [⟨s.code.code.size, .jump, [0]⟩] ∧
        s'.loops = s.loops.recordBreak frame.identifier (s.code.code.size + 1) := by
  intro sound
  show Returns _ (runStep ((onCode (pushJumpPlaceholder .jump)).run env >>= fun operand =>
    (recordBreak frame.identifier operand).run env) s) _
  rw [runStep_bind, runStep_onCode, runStep_pushJumpPlaceholder sound.live rfl]
  dsimp only
  let i : Instruction := ⟨s.code.code.size, .jump, [0]⟩
  let code := ((s.code.write i.bytes).adjusted (Opcode.jump.stackEffect.getD 0)).stopping .jump
  let s' : Lowering := { s with code := code, loops := s.loops.recordBreak frame.identifier (s.code.code.size + 1) }
  show Returns _ (.ok (), s') _
  have depthAfter : s.code.depthAfter (Opcode.jump.stackEffect.getD 0) = 0 := by
    simp [depthAfter, empty.getD, Opcode.stackEffect]
  have moves : i.Moves s.pool.entries (s.code.depth.getD 0) 0 := by
    simp [Instruction.Moves, i, Opcode.stackEffect, Opcode.pops, empty.getD]
  have fits : i.Fits := ⟨by simp [i, Opcode.operands], by simp [i, Opcode.operands, OperandWidth.max]⟩
  have recorded : s.code.code.size + 1 ∈ s'.pending :=
    mem_pending.mpr (Or.inr ⟨⟨frame.identifier, s.code.code.size + 1⟩, by simp [s', LoopStack.recordBreak], rfl⟩)
  obtain ⟨sound', grown⟩ := sound.append s' (i := i) rfl fits moves (Instruction.refers_of_jump rfl)
    ⟨fun ret => by simp [i] at ret, fun ret => by simp [i] at ret⟩
    (by simp [s', code]) (by simp [s', code]) (by simp [s', code]) (by simp [s', code])
    (by simp [s', code, i, Opcode.isUnconditional]) (by simp [s', code, depthAfter]) rfl rfl (by simp [s', code])
    (fun _ _ found => by simpa [s', code] using found)
    (fun _ _ found => Or.inl (by simpa [s', code] using found)) rfl rfl
    (fun r mem => by
      simp only [s', LoopStack.recordBreak, List.mem_cons] at mem
      rcases mem with rfl | old
      · exact Or.inr ⟨rfl, List.mem_map_of_mem open_, rfl, empty.getD⟩
      · exact Or.inl old)
    (fun r mem => List.mem_cons_of_mem _ mem)
    (fun p mem => by
      rcases mem_pending.mp mem with ⟨l, fixups, r, found, waits⟩ | ⟨rec, memR, at_⟩
      · exact mem_pending.mpr (Or.inl ⟨l, fixups, r, by simpa [s', code] using found, waits⟩)
      · exact mem_pending.mpr (Or.inr ⟨rec, by simp [s', LoopStack.recordBreak, memR], at_⟩))
    (fun _ => Or.inl recorded)
  refine ⟨_, sound', grown, ?_, by simp [s', code, Opcode.isUnconditional], rfl, ?_, rfl⟩
  · exact {
      size := by simp [s', code]
      labels := fun _ _ _ => by simp [s', code]
      placed := fun _ low high _ => absurd high (by simp [s', code]; omega)
      frames := rfl
      breaks := ⟨[_], rfl⟩
      slots := rfl
      grown := grown.size
      rows := .of_handlers (by simp [s', code]) }
  · exact (instructions_congr (c := code) (b := s.code.write i.bytes) (by simp [code]) (by simp [code])).trans
      (encoded_write sound.live sound.encoded rfl fits).2

/-- A `break` jumps out of the loop it names, recorded against that loop; with no such loop it
emits nothing and reports one problem. -/
theorem runs_lowerBreak (label : Option Ident) (pos : Position) (empty : s.Holds 0) :
    Runs env s h (lowerBreak label pos) fun _ s' _ =>
      s'.Holds 0 ∧ Contained [] s s' ∧
        (∀ frame, s.loops.find? (label.map (·.text)) = some frame →
          s'.code.instructions = s.code.instructions ++ [⟨s.code.code.size, .jump, [0]⟩] ∧
            s'.loops = s.loops.recordBreak frame.identifier (s.code.code.size + 1) ∧
            s'.diagnostics = s.diagnostics) ∧
        (s.loops.find? (label.map (·.text)) = none →
          s'.code = s.code ∧ s'.loops = s.loops ∧
            ∃ d, s'.diagnostics = s.diagnostics.push d ∧ d.kind = missingLoop true label s.loops) := by
  unfold lowerBreak
  apply Runs.bind (runs_findLoop label)
  rintro _ s₁ h₁ - - ⟨rfl, same, same'⟩
  subst s₁ h₁
  split
  · rename_i frame found
    apply (runs_breakJump (LoopStack.mem_of_find? found) empty).mono
    rintro _ s' h' - - ⟨contained, depth, diagnostics, instructions, loops⟩
    refine ⟨Or.inr ⟨depth, rfl⟩, contained, fun frame' found' => ?_, fun missing => ?_⟩
    · rw [found, Option.some.injEq] at found'
      subst found'
      exact ⟨instructions, loops, diagnostics⟩
    · rw [found] at missing
      cases missing
  · rename_i missing
    apply (runs_reportMissingLoop true label pos).mono
    rintro _ s' h' - - ⟨still, -, reported⟩
    refine ⟨still.holds empty, still.contained [], fun frame found => ?_, fun _ => ⟨still.code, still.loops, reported⟩⟩
    rw [missing] at found
    cases found

/-- A `continue` jumps to the `continue` label of the loop it names, placed already; with no such
loop it emits nothing and reports one problem. -/
theorem runs_lowerContinue (label : Option Ident) (pos : Position) (empty : s.Holds 0) :
    Runs env s h (lowerContinue label pos) fun _ s' _ =>
      s'.Holds 0 ∧ Contained [] s s' ∧
        (∀ frame, s.loops.find? (label.map (·.text)) = some frame → ∃ p,
          s.code.labels[frame.continueLabel]? = some (.placed p) ∧
            s'.code.instructions = s.code.instructions ++ [⟨s.code.code.size, .jump, [p]⟩]) ∧
        (s.loops.find? (label.map (·.text)) = none →
          s'.code = s.code ∧ s'.loops = s.loops ∧
            ∃ d, s'.diagnostics = s.diagnostics.push d ∧ d.kind = missingLoop false label s.loops) := by
  unfold lowerContinue
  apply Runs.bind (runs_findLoop label)
  rintro _ s₁ h₁ - - ⟨rfl, same, same'⟩
  subst s₁ h₁
  split
  · rename_i frame found
    intro sound
    obtain ⟨-, p, placed, height⟩ := sound.frames frame (LoopStack.mem_of_find? found)
    refine ((runs_jump_placed (o := .jump) rfl placed empty (Nat.le_refl 0) (by simp [Opcode.stackEffect])
      height).mono ?_) sound
    rintro _ s' h' - - ⟨contained, instructions, depth, -⟩
    refine ⟨Or.inr ⟨by simpa [Opcode.isUnconditional] using depth, rfl⟩, contained,
      fun frame' found' => ?_, fun missing => ?_⟩
    · rw [found, Option.some.injEq] at found'
      subst found'
      exact ⟨p, placed, instructions⟩
    · rw [found] at missing
      cases missing
  · rename_i missing
    apply (runs_reportMissingLoop false label pos).mono
    rintro _ s' h' - - ⟨still, -, reported⟩
    refine ⟨still.holds empty, still.contained [], fun frame found => ?_, fun _ => ⟨still.code, still.loops, reported⟩⟩
    rw [missing] at found
    cases found

/-- Entering a loop at a start placed where the stack is empty, lowering its body, jumping back to
the start, and leaving the loop at its exit, which the loop's test waits for. The test's jump and
the body's records against the loop are patched to the exit, right after the jump back. -/
theorem runs_loop (label : Option Ident) {body : LowerM Unit} (bodies : Leaves env body 0 0)
    {start exit o p : Nat} (placed : s.code.labels[start]? = some (.placed p)) (height : h p = 0)
    (waiting : s.code.labels[exit]? = some (.unplaced #[o + 1] (some 0))) {xs : List Nat}
    (test : (⟨o, .jumpEq0I, xs⟩ : Instruction) ∈ s.code.instructions) (empty : s.Holds 0) :
    Runs env s h (do
      enterLoop label start
      body
      jump .jump start
      place exit
      resolveBreaks) fun _ s' _ =>
      s'.Holds 0 ∧ Contained [exit] s s' ∧ s'.code.labels[exit]? = some (.placed s'.code.code.size) ∧
        (⟨s'.code.code.size - 3, .jump, [p]⟩ : Instruction) ∈ s'.code.instructions ∧
        (⟨o, .jumpEq0I, [s'.code.code.size]⟩ : Instruction) ∈ s'.code.instructions ∧
        (∀ outer ∈ s.loops.frames, outer.identifier < s.loops.nextIdentifier) ∧
        ∃ entered inner : Lowering, entered.code = s.code ∧
          entered.loops = (s.loops.push (label.map (·.text)) start).2 ∧
          runStep (body.run env) entered = (.ok (), inner) ∧
          ∀ (b : Lowering) (hb hi : Nat → Nat), Grows b hb inner hi → ∀ r ∈ b.loops.breaks,
            r.loop = s.loops.nextIdentifier →
            (⟨r.operand - 1, .jump, [s'.code.code.size]⟩ : Instruction) ∈ s'.code.instructions := by
  intro sound
  -- the loop's identifier is above those of the loops around it and of their records
  have outer : ∀ fr ∈ s.loops.frames, fr.identifier < s.loops.nextIdentifier := fun fr mem =>
    (sound.frames fr mem).1
  have fresh : ∀ r ∈ s.loops.breaks, r.loop ≠ s.loops.nextIdentifier := by
    intro r mem
    obtain ⟨fr, memF, same⟩ := List.mem_map.mp (sound.breaks r mem).1
    have := outer fr memF
    omega
  have testBelow : o < s.code.code.size := offset_lt sound test
  revert sound
  apply Runs.bind (runs_enterLoop label placed height)
  rintro _ s₅ h₅ sound₅ grown₅ ⟨loops₅, code₅, locals₅, -⟩
  apply Runs.bind (bodies s₅ h₅ (by unfold Holds; rw [code₅]; exact empty)).ends
  rintro ⟨⟩ s₆ h₆ sound₆ grown₆ ⟨⟨holds₆, contained₆⟩, ran⟩
  let frame : LoopFrame := ⟨s.loops.nextIdentifier, label.map (·.text), start⟩
  have frames₅ : s₅.loops.frames = s.loops.frames ++ [frame] := by rw [loops₅]; rfl
  have frames₆ : s₆.loops.frames = s.loops.frames ++ [frame] := by rw [contained₆.frames, frames₅]
  have placed₆ : s₆.code.labels[start]? = some (.placed p) :=
    contained₆.keeps (by rw [code₅]; exact placed) List.not_mem_nil
  obtain ⟨-, q, placedQ, height₆⟩ := sound₆.frames frame (by rw [frames₆]; simp)
  have same : q = p := by
    have found : s₆.code.labels[start]? = some (.placed q) := placedQ
    rw [placed₆, Option.some.injEq, LabelState.placed.injEq] at found
    exact found.symm
  subst q
  apply Runs.bind (runs_jump_placed (o := .jump) rfl placed₆ holds₆ (Nat.le_refl 0)
    (by simp [Opcode.stackEffect]) height₆)
  rintro _ s₇ h₇ sound₇ grown₇ ⟨contained₇, back₇, depth₇, loops₇⟩
  have waiting₇ : s₇.code.labels[exit]? = some (.unplaced #[o + 1] (some 0)) :=
    contained₇.keeps (contained₆.keeps (by rw [code₅]; exact waiting) List.not_mem_nil) List.not_mem_nil
  apply Runs.bind (runs_place waiting₇ fun _ _ reached _ => by simp [depth₇, Opcode.isUnconditional] at reached)
  rintro _ s₈ h₈ sound₈ - ⟨contained₈, placed₈, depth₈, size₈, patched₈, loops₈⟩
  have innermost : s₈.loops.frames.getLast? = some frame := by rw [loops₈, loops₇, frames₆]; simp
  have empty₈ : s₈.code.depth = some 0 := by rw [depth₈, depth₇]; simp [Opcode.isUnconditional]
  apply (runs_resolveBreaks innermost empty₈).mono
  rintro _ s₉ h₉ - - ⟨labels₉, size₉, depth₉, handlers₉, locals₉, -, frames₉, breaks₉, -, patched₉⟩
  have size₇ : s₇.code.code.size = s₆.code.code.size + 3 := size_of_append sound₆ sound₇ back₇
  have breaks₈ : s₈.loops.breaks = s₆.loops.breaks := by rw [loops₈, loops₇]
  -- the body's records wait at jumps it emitted, before the jump back
  have early : ∀ r ∈ s₆.loops.breaks, r.operand ≤ s₆.code.code.size := by
    intro r mem
    obtain ⟨-, k, memK, -, atK, -⟩ := sound₆.breaks r mem
    have := offset_lt sound₆ memK
    omega
  have onlyBreaks : ∀ j ∈ s₈.code.instructions, j.opcode ≠ .jump →
      j.offset + 1 ∉ exits s₈.loops frame.identifier := by
    intro j mem op hit
    obtain ⟨r, memR, -, at_⟩ := mem_exits.mp hit
    obtain ⟨-, k, memK, opK, atK, -⟩ := sound₈.breaks r memR
    exact op (jump_at sound₈ mem memK (atK.trans at_) ▸ opK)
  have below : o < s₆.code.code.size := Nat.lt_of_lt_of_le testBelow (Nat.le_trans grown₅.size grown₆.size)
  refine ⟨Or.inl depth₉, ?_, by rw [labels₉, placed₈, size₉, size₈], ?_, ?_, outer, s₅, s₆, code₅, loops₅, ran, ?_⟩
  · exact Contained.around (contained₆.trans contained₇ |>.trans contained₈) code₅ locals₅ frames₅
      (by rw [loops₅]; rfl) fresh labels₉ locals₉ frames₉ breaks₉ size₉ handlers₉
  · let jumpBack : Instruction := ⟨s₆.code.code.size, .jump, [p]⟩
    have byExit : jumpBack.patch (#[o + 1] : Array Nat).toList s₇.code.code.size = jumpBack :=
      Instruction.patch_of_not_mem (by simp [jumpBack]; omega)
    have byRecords : jumpBack.patch (exits s₈.loops frame.identifier) s₈.code.code.size = jumpBack := by
      refine Instruction.patch_of_not_mem fun hit => ?_
      obtain ⟨r, memR, -, at_⟩ := mem_exits.mp hit
      have := early r (breaks₈ ▸ memR)
      simp only [jumpBack] at at_
      omega
    have back : jumpBack ∈ s₈.code.instructions := by
      rw [patched₈, ← byExit]
      exact List.mem_map_of_mem (by rw [back₇]; simp [jumpBack])
    have final : jumpBack ∈ s₉.code.instructions := by
      rw [patched₉, ← byRecords]
      exact List.mem_map_of_mem back
    rw [size₉, size₈, size₇, Nat.add_sub_cancel]
    exact final
  · obtain ⟨j, memJ, offsetJ, opcodeJ⟩ := (grown₅.trans grown₆ |>.trans grown₇).persists _ test
    have atExit : (⟨o, .jumpEq0I, [s₇.code.code.size]⟩ : Instruction) ∈ s₈.code.instructions := by
      rw [patched₈]
      have hit : j.offset + 1 ∈ (#[o + 1] : Array Nat).toList := by simp [offsetJ]
      have retargeted := List.mem_map_of_mem (f := Instruction.patch (#[o + 1] : Array Nat).toList s₇.code.code.size)
        memJ
      rw [Instruction.patch_of_mem hit] at retargeted
      obtain ⟨jo, jop, jxs⟩ := j
      simp only at offsetJ opcodeJ
      subst offsetJ opcodeJ
      exact retargeted
    rw [patched₉, size₉, size₈, ← Instruction.patch_of_not_mem (onlyBreaks _ atExit (by simp))]
    exact List.mem_map_of_mem atExit
  · intro b hb hi grown r memB loop
    have mem : r ∈ s₆.loops.breaks := grown.loops.keeps memB (by rw [frames₆, loop]; simp [frame])
    obtain ⟨-, k, memK, opK, atK, -⟩ := sound₈.breaks r (breaks₈ ▸ mem)
    have hit : k.offset + 1 ∈ exits s₈.loops frame.identifier := mem_exits.mpr ⟨r, breaks₈ ▸ mem, loop, atK.symm⟩
    have retargeted := List.mem_map_of_mem (f := Instruction.patch (exits s₈.loops frame.identifier) s₈.code.code.size)
      memK
    rw [Instruction.patch_of_mem hit] at retargeted
    rw [patched₉, size₉]
    obtain ⟨ko, kop, kxs⟩ := k
    simp only at opK atK
    subst opK
    rw [← atK, Nat.add_sub_cancel]
    simpa [Instruction.retarget] using retargeted

/-- A `while` loop, lowered where the stack is empty: it starts with its test, where its jump back
arrives. -/
theorem runs_whileLoop (label : Option Ident) (test : Expr) {body : LowerM Unit} (bodies : Leaves env body 0 0)
    (empty : s.Holds 0) :
    Runs env s h (do
      let start ← freshLabel
      let exit ← freshLabel
      place start
      lowerCondition test exit
      enterLoop label start
      body
      jump .jump start
      place exit
      resolveBreaks) fun _ s' _ =>
      s'.Holds 0 ∧ Contained [] s s' ∧ Loop env s label body s.code.code.size s' := by
  apply Runs.bind runs_freshLabel
  rintro start s₁ h₁ - - ⟨rfl, fresh₁, contained₁, depth₁, size₁, -⟩
  apply Runs.bind runs_freshLabel
  rintro exit s₂ h₂ - - ⟨rfl, fresh₂, contained₂, depth₂, size₂, -⟩
  have apart : s.code.labels.size ∉ [s₁.code.labels.size] := by
    simpa using Nat.ne_of_lt (Array.getElem?_eq_some_iff.mp fresh₁).1
  have apart' : s₁.code.labels.size ∉ [s.code.labels.size] := by
    simpa [eq_comm] using apart
  apply Runs.bind (runs_place (contained₂.keeps fresh₁ apart) nofun)
  rintro _ s₃ h₃ sound₃ - ⟨contained₃, placed₃, depth₃, size₃, -, -⟩
  -- the start is reached with an empty stack, whether the code before it falls through or not
  have reached₃ : s₃.code.depth = some 0 := by
    rw [depth₃, depth₂, depth₁]
    rcases empty with reached | ⟨unreached, -⟩ <;> simp [*]
  apply Runs.bind (runs_lowerCondition test (contained₃.keeps fresh₂ apart') (Or.inl reached₃) nofun)
  rintro _ s₄ h₄ - grown₄ ⟨contained₄, depth₄, o, above, waiting₄, test₄, size₄⟩
  have height₄ : h₄ s₂.code.code.size = 0 := by
    rw [← size₃, grown₄.heights _ (Or.inr ⟨rfl, by simp [reached₃]⟩)]
    exact sound₃.current 0 reached₃
  apply (runs_loop label bodies (contained₄.keeps placed₃ apart) height₄ (by simpa using waiting₄) test₄
    (Or.inl depth₄)).mono
  rintro _ s' h' - - ⟨holds', contained', exited, back, cond, outer, entered, inner, code, loops, ran, records⟩
  have sameStart : s₂.code.code.size = s.code.code.size := size₂.trans size₁
  have frames₄ : s₄.loops.frames = s.loops.frames := by
    rw [contained₄.frames, contained₃.frames, contained₂.frames, contained₁.frames]
  refine ⟨holds', ?_, sameStart ▸ back, ⟨s₄.loops.nextIdentifier, label.map (·.text), s.code.labels.size⟩,
    entered, inner, o, by omega, by rw [code]; omega, cond, ?_, rfl, frames₄ ▸ outer, ?_, ran, records⟩
  · have whole := contained₁.trans contained₂ |>.trans contained₃ |>.trans contained₄ |>.trans contained'
    refine whole.close (fun l mine => ?_) (fun l mine => ?_) <;>
      obtain rfl | rfl : l = s.code.labels.size ∨ l = s₁.code.labels.size := by simp at mine; omega
    · exact Nat.le_refl _
    · exact contained₁.size
    · exact ⟨_, contained'.keeps (contained₄.keeps placed₃ apart) apart⟩
    · exact ⟨_, exited⟩
  · rw [loops, ← frames₄]
    rfl
  · rw [code, ← sameStart]
    exact contained₄.keeps placed₃ apart

/-- A `for` loop, lowered where the stack is empty: it keeps its iterator in the first free private
slot, and starts where it loads the iterator again to ask it for a next element; its jump back
arrives there. -/
theorem runs_forEach (label : Option Ident) (var : Ident) (iterable : Expr) (scope : Option Nat)
    {body : LowerM Unit} (bodies : Leaves env body 0 0) (empty : s.Holds 0) :
    Runs env s h (do
      lowerExpr iterable
      callIntrinsic .getIterator
      let iterator ← takeSlot
      op .storeA [iterator]
      let start ← freshLabel
      let exit ← freshLabel
      place start
      op .loadA [iterator]
      callIntrinsic .hasNext
      jumpUnlessTrue exit
      op .loadA [iterator]
      callIntrinsic .getNext
      storeDeclared (← blockScope scope) var
      enterLoop label start
      body
      jump .jump start
      place exit
      resolveBreaks
      releaseSlot) fun _ s' _ =>
      s'.Holds 0 ∧ Contained [] s s' ∧ ∃ start : Nat,
        (⟨start - 2, .storeA, [s.locals.next]⟩ : Instruction) ∈ s'.code.instructions ∧
        (⟨start, .loadA, [s.locals.next]⟩ : Instruction) ∈ s'.code.instructions ∧
        Loop env s label body start s' := by
  apply Runs.bind (leaves_lowerExpr iterable env 0 s h empty)
  rintro _ s₁ h₁ - - ⟨holds₁, contained₁⟩
  apply Runs.bind (leaves_callIntrinsic .getIterator 0 s₁ h₁ holds₁)
  rintro _ s₂ h₂ - - ⟨holds₂, contained₂⟩
  apply Runs.bind runs_takeSlot
  rintro _ s₃ h₃ sound₃ - ⟨rfl, -, slots₃, code₃, loops₃, -⟩
  apply Runs.bind (runs_storeAAt _ (k := 0) (by unfold Holds; rw [code₃]; exact holds₂))
  rintro _ s₄ h₄ sound₄ - ⟨contained₄, stored₄, -, depth₄, -⟩
  apply Runs.bind runs_freshLabel
  rintro start s₅ h₅ - grown₅ ⟨rfl, fresh₅, contained₅, depth₅, size₅, -⟩
  apply Runs.bind runs_freshLabel
  rintro exit s₆ h₆ - grown₆ ⟨rfl, fresh₆, contained₆, depth₆, size₆, -⟩
  have apart : s₄.code.labels.size ∉ [s₅.code.labels.size] := by
    simpa using Nat.ne_of_lt (Array.getElem?_eq_some_iff.mp fresh₅).1
  have apart' : s₅.code.labels.size ∉ [s₄.code.labels.size] := by
    simpa [eq_comm] using apart
  apply Runs.bind (runs_place (contained₆.keeps fresh₅ apart) nofun)
  rintro _ s₇ h₇ sound₇ grown₇ ⟨contained₇, placed₇, depth₇, size₇, -, -⟩
  have reached₇ : s₇.code.depth = some 0 := by
    rw [depth₇, depth₆, depth₅, depth₄]
    rfl
  apply Runs.bind (runs_loadAAt _ (Or.inl reached₇))
  rintro _ s₈ h₈ sound₈ grown₈ ⟨contained₈, loaded₈, -, depth₈, -⟩
  apply Runs.bind (leaves_callIntrinsic .hasNext 0 s₈ h₈ (Or.inl depth₈))
  rintro _ s₉ h₉ - grown₉ ⟨holds₉, contained₉⟩
  apply Runs.bind (runs_jumpUnlessTrue
    (contained₉.keeps (contained₈.keeps (contained₇.keeps fresh₆ apart') List.not_mem_nil) List.not_mem_nil)
    holds₉ nofun)
  rintro _ s₁₀ h₁₀ - grown₁₀ ⟨contained₁₀, depth₁₀, o, above, waiting₁₀, test₁₀, size₁₀⟩
  apply Runs.bind (leaves_loadA _ 0 s₁₀ h₁₀ (Or.inl depth₁₀))
  rintro _ s₁₁ h₁₁ - grown₁₁ ⟨holds₁₁, contained₁₁⟩
  apply Runs.bind (leaves_callIntrinsic .getNext 0 s₁₁ h₁₁ holds₁₁)
  rintro _ s₁₂ h₁₂ - grown₁₂ ⟨holds₁₂, contained₁₂⟩
  apply Runs.bind (runs_blockScope scope)
  rintro bodyScope t g - - ⟨-, same, same'⟩
  subst t g
  apply Runs.bind (leaves_storeDeclared bodyScope var 0 s₁₂ h₁₂ holds₁₂)
  rintro _ s₁₃ h₁₃ - grown₁₃ ⟨holds₁₃, contained₁₃⟩
  have head := contained₈.trans contained₉ |>.trans contained₁₀ |>.trans contained₁₁ |>.trans contained₁₂
    |>.trans contained₁₃
  have placed₁₃ : s₁₃.code.labels[s₄.code.labels.size]? = some (.placed s₆.code.code.size) :=
    head.keeps placed₇ (by simpa using apart)
  have later : Grows s₇ h₇ s₁₃ h₁₃ :=
    grown₈.trans grown₉ |>.trans grown₁₀ |>.trans grown₁₁ |>.trans grown₁₂ |>.trans grown₁₃
  have height₁₃ : h₁₃ s₆.code.code.size = 0 := by
    rw [← size₇, later.heights _ (Or.inr ⟨rfl, by simp [reached₇]⟩)]
    exact sound₇.current 0 reached₇
  obtain ⟨j, memJ, offsetJ, opcodeJ⟩ := (grown₁₁.trans grown₁₂ |>.trans grown₁₃).persists _ test₁₀
  obtain ⟨jo, jop, jxs⟩ := j
  simp only at offsetJ opcodeJ
  subst jo jop
  rw [show (do
      enterLoop label s₄.code.labels.size
      body
      jump .jump s₄.code.labels.size
      place s₅.code.labels.size
      resolveBreaks
      releaseSlot : LowerM Unit) = (do
        enterLoop label s₄.code.labels.size
        body
        jump .jump s₄.code.labels.size
        place s₅.code.labels.size
        resolveBreaks) >>= fun _ => releaseSlot by simp only [bind_assoc]]
  apply Runs.bind (runs_loop label bodies placed₁₃ height₁₃
    (by simpa using (contained₁₁.trans contained₁₂ |>.trans contained₁₃).keeps waiting₁₀ (by simp)) memJ holds₁₃)
  rintro _ s₁₄ h₁₄ - grown₁₄ ⟨holds₁₄, contained₁₄, exited, back, cond, outer, entered, inner, code, loops, ran,
    records⟩
  have around := contained₄.trans contained₅ |>.trans contained₆ |>.trans contained₇ |>.trans head
    |>.trans contained₁₄
  apply (runs_releaseSlot (by rw [around.slots, slots₃]; exact Nat.succ_ne_zero _)).mono
  rintro _ s' h' - - ⟨released, code', loops', -⟩
  have slot : s₂.locals.next = s.locals.next := by rw [contained₂.slots, contained₁.slots]
  have frames₁₃ : s₁₃.loops.frames = s.loops.frames := by
    rw [head.frames, contained₇.frames, contained₆.frames, contained₅.frames, contained₄.frames, loops₃,
      contained₂.frames, contained₁.frames]
  have stored : (⟨s₃.code.code.size, .storeA, [s.locals.next]⟩ : Instruction) ∈ s₁₄.code.instructions :=
    slot ▸ (grown₅.trans grown₆ |>.trans grown₇ |>.trans later |>.trans grown₁₄).keeps sound₄
      (by rw [stored₄]; simp) rfl
  have loaded : (⟨s₆.code.code.size, .loadA, [s.locals.next]⟩ : Instruction) ∈ s₁₄.code.instructions :=
    (grown₉.trans grown₁₀ |>.trans grown₁₁ |>.trans grown₁₂ |>.trans grown₁₃ |>.trans grown₁₄).keeps sound₈
      (by rw [loaded₈, size₇, slot]; simp) rfl
  have start₆ : s₆.code.code.size = s₃.code.code.size + 2 := by
    rw [size₆, size₅, size_of_append sound₃ sound₄ stored₄]
    rfl
  refine ⟨by unfold Holds; rw [code']; exact holds₁₄, ?_, s₆.code.code.size, ?_, by rw [code']; exact loaded, ?_⟩
  · have whole := contained₁.trans contained₂ |>.trans
      (around.aside code₃ loops₃ code' loops' (by rw [released, around.slots, slots₃, Nat.add_sub_cancel]))
    have grows : s.code.labels.size ≤ s₄.code.labels.size := by
      have := contained₄.size
      rw [code₃] at this
      exact Nat.le_trans (Nat.le_trans contained₁.size contained₂.size) this
    refine whole.close (fun l mine => ?_) (fun l mine => ?_) <;>
      obtain rfl | rfl : l = s₄.code.labels.size ∨ l = s₅.code.labels.size := by simp at mine; omega
    · exact grows
    · exact Nat.le_trans grows contained₅.size
    · exact ⟨_, by rw [code']; exact contained₁₄.keeps placed₁₃ apart⟩
    · exact ⟨_, by rw [code']; exact exited⟩
  · rw [code', start₆, Nat.add_sub_cancel]
    exact stored
  · refine Loop.congr ⟨back, ⟨s₁₃.loops.nextIdentifier, label.map (·.text), s₄.code.labels.size⟩, entered, inner, o,
      ?_, ?_, cond, ?_, rfl, frames₁₃ ▸ outer, by rw [code]; exact placed₁₃, ran, records⟩ code'
    · have := grown₈.size
      have := grown₉.size
      omega
    · have := grown₁₁.size
      have := grown₁₂.size
      have := grown₁₃.size
      rw [code]
      omega
    · rw [loops, ← frames₁₃]
      rfl

end Steps

end Lowering

end Febc
